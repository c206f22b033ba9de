import SuperScalar.Lsp.BackPropagation
import SuperScalar.Lsp.Origins
import SuperScalar.Lsp.Store

namespace SuperScalar

open List Option Channel

structure StoreRun where
  mgr : LspMgr
  db : Db

-- `rest` is what else a restarted manager is given.
inductive StoreOp where
  | client (o : HubOp)
  | bridge (f : Factory) (msg : BridgeMsg)
  | restart (inputs : ℕ → InitInput) (rest : LspMgr)
  | reconnect (clientIdx : ℕ) (commitmentNumber : UInt64)

def storeStep (m : Musig) (s : StoreRun) : StoreOp → StoreRun
  | .client o => ⟨(o.handle m s.mgr).mgr,s.db.record (o.handle m s.mgr).actions⟩
  | .bridge f msg =>
    ⟨(lspChannelsHandleBridgeMsg m f msg s.mgr).mgr,
      s.db.record (lspChannelsHandleBridgeMsg m f msg s.mgr).actions⟩
  | .restart inputs rest =>
    match lspChannelsInitFromDb m inputs s.mgr.entries.length s.db with
    | none => s
    | some entries => ⟨{ rest with entries := entries },s.db⟩
  | .reconnect clientIdx commitmentNumber =>
    match (s.mgr.channel? clientIdx).bind (reconcile commitmentNumber clientIdx s.db) with
    | none => s
    | some ch => ⟨s.mgr.setChannel clientIdx ch,s.db⟩

section

variable (m : Musig) (mgr : LspMgr)

def DestCommits (w : AddWorld) (msg : AddHtlcMsg) (terms : ForwardTerms) (cltvExpiry : UInt32)
    (ch : Channel) : Prop :=
  w.sentAdd = true ∧ (commitChannel m true w.dest (channelAddHtlc .offered terms.amountSats
    msg.paymentHash cltvExpiry w.dest.grow w.dest.draw ch).1).2 = true

def AddStored (clientIdx : ℕ) (f : Factory) (w : AddWorld) (parsed : Option AddHtlcMsg) : Prop :=
  ∀ msg ch, SenderAdds w clientIdx msg mgr parsed ch →
    IdsLeft ch ∧ SenderCommits m w msg ch ∧
    ∀ destIdx dest chd terms cltv, Forwardable f w clientIdx msg mgr destIdx dest chd terms cltv →
      dest = .factory ∧ IdsLeft chd ∧ DestCommits m w msg terms cltv chd

def ScanStored (preimage : Blob 32) (rounds : ℕ → Round) (ch : Channel) : Prop :=
  (∀ i, Quiet m preimage rounds ch i) ∨ ∃ i before g after,
    Hit m preimage rounds ch i before g after ∧ (∀ j < i, Quiet m preimage rounds ch j) ∧
      toldId ch i before after = g.id ∧
      (channelCreateCommitmentPartialSig m (paidChannel rounds ch i before g after)).2.isSome = true

def ClaimStored (clientIdx : ℕ) (w : FulfillWorld) (parsed : Option FulfillHtlcMsg) : Prop :=
  ∀ msg ch before h after, parsed = some msg → mgr.channel? clientIdx = some ch →
    HtlcAt ch msg.htlcId before h after → m.sha256 msg.preimage.val = h.paymentHash →
    PayeeCommits m w msg ch ∧ ∀ k chk, k ≠ clientIdx → mgr.channel? k = some chk →
      ScanStored m msg.preimage (w.senders k) chk

def FailStored (clientIdx : ℕ) (parsed : Option UInt64) : Prop :=
  ∀ id ch, parsed = some id → mgr.channel? clientIdx = some ch → findActive id ch.htlcs = none

def InboundStored (w : InboundWorld) (parsed : Option BridgeAddMsg) : Prop :=
  ∀ msg destIdx ch, parsed = some msg → (inboundDest msg mgr).2 = .ok destIdx →
    mgr.channel? destIdx = some ch → AddAccepted ch .offered (msg.amountMsat/1000) →
    HasSlot w.round.grow ch →
    IdsLeft ch ∧ InboundCommits m w (channelAddHtlc .offered (msg.amountMsat/1000)
      msg.paymentHash msg.cltvExpiry w.round.grow w.round.draw ch).1

def ResultStored (parsed : Option PayResultMsg) : Prop :=
  ∀ msg o ch before h after, parsed = some msg → msg.success = true →
    mgr.htlcOrigins.find? (fun o => o.active && o.requestId = msg.requestId) = some o →
    mgr.channel? o.senderIdx = some ch → HtlcAt ch o.senderHtlcId before h after →
    m.sha256 msg.preimage.val = h.paymentHash

def Channel.Funded (ch : Channel) : Prop := ¬ (ch.localAmount = 0 ∧ ch.remoteAmount = 0)

def RollBackOk (commitmentNumber : UInt64) (ch : Channel) : Prop :=
  commitmentNumber - ch.commitmentNumber ≠ 1 ∧
    (ch.commitmentNumber-commitmentNumber = 1 → ch.Funded ∧
      ch.activeHtlcs.length ≤ min ch.htlcsCap maxHtlcs ∧ ∀ x ∈ ch.activeHtlcs, x.feeAtAdd = 0)

def StoreGuard (s : StoreRun) : StoreOp → Prop
  | .client ⟨f,clientIdx,.updateAddHtlc w parsed⟩ => AddStored m s.mgr clientIdx f w parsed
  | .client ⟨_,clientIdx,.updateFulfillHtlc w parsed⟩ => ClaimStored m s.mgr clientIdx w parsed
  | .client ⟨_,clientIdx,.updateFailHtlc _ parsed⟩ => FailStored s.mgr clientIdx parsed
  | .bridge _ (.addHtlc w parsed) => InboundStored m s.mgr w parsed
  | .bridge _ (.payResult _ parsed) => ResultStored m s.mgr parsed
  | .restart _ _ => ∀ c ch, s.mgr.channel? c = some ch → ch.activeHtlcs = [] ∧ ch.Funded
  | .reconnect clientIdx n => ∀ ch, s.mgr.channel? clientIdx = some ch → RollBackOk n ch

end

section

variable {v : View} {c : ℕ} {ch ch' ch'' : Channel}

def Htlc.stored (h : Htlc) : Htlc := { h with feeAtAdd := 0 }

structure OnFile (v : View) (ch : Channel) : Prop where
  row : v.row = some ⟨ch.localAmount,ch.remoteAmount,ch.commitmentNumber⟩
  htlcs : v.htlcs.Perm (ch.activeHtlcs.map Htlc.stored)

structure Steady (ch : Channel) : Prop where
  ids : IdsOk ch
  total : ch.book.total < 2^64
  plain : ch.ptlcs = []

theorem SameFunds.commitmentNumber (h : SameFunds ch ch') :
    ch'.commitmentNumber = ch.commitmentNumber := by
  have heq := congrArg Channel.commitmentNumber h
  exact heq

theorem SameFunds.ptlcs (h : SameFunds ch ch') : ch'.ptlcs = ch.ptlcs := by
  have heq := congrArg Channel.ptlcs h
  exact heq

theorem SameFunds.activeHtlcs (h : SameFunds ch ch') : ch'.activeHtlcs = ch.activeHtlcs :=
  congrArg (filter Htlc.isActive) h.htlcs

theorem OnFile.same (h : OnFile v ch) (hsame : SameFunds ch ch') : OnFile v ch' := by
  refine ⟨?_,?_⟩
  · rw [hsame.localAmount,hsame.remoteAmount,hsame.commitmentNumber]
    exact h.row
  · rw [hsame.activeHtlcs]
    exact h.htlcs

theorem Steady.same (h : Steady ch) (hsame : SameFunds ch ch') : Steady ch' := by
  refine ⟨h.ids.thinned hsame.thinned,?_,hsame.ptlcs.trans h.plain⟩
  rw [hsame.book]
  exact h.total

theorem ptlcs_nextCommitment (ch : Channel) (draw : PcsDraw) :
    (ch.nextCommitment draw).ptlcs = ch.ptlcs := by
  obtain ⟨pcs,count,heq⟩ := ch.nextCommitment_eq draw
  rw [heq]

theorem ptlcs_withoutHtlc (ch : Channel) (h : Htlc) (payee : Ledger.Side) (rest : List Htlc) :
    (ch.withoutHtlc h payee rest).ptlcs = ch.ptlcs := by
  change ((ch.credit payee h.amountSats).credit ch.funder h.feeAtAdd).ptlcs = ch.ptlcs
  simp only [credit,ptlcs_withBalance]

theorem ptlcs_withHtlc (ch : Channel) (h : Htlc) : (ch.withHtlc h).ptlcs = ch.ptlcs := by
  change ((ch.debit h.direction.offerer h.amountSats).debit ch.funder h.feeAtAdd).ptlcs = ch.ptlcs
  simp only [debit,ptlcs_withBalance]

theorem Steady.added {direction : HtlcDirection} {amountSats : UInt64} {paymentHash : Blob 32}
    {cltvExpiry : UInt32} (h : Steady ch) (hleft : IdsLeft ch)
    (hadded : Added direction amountSats paymentHash cltvExpiry ch ch') : Steady ch' := by
  have hgrown := hadded.grown ⟨h.ids.below,h.total⟩ hleft
  refine ⟨h.ids.entered hleft hadded.entered,hgrown.ok.total,?_⟩
  obtain ⟨cap,draw,heffect⟩ := hadded.effect
  rw [heffect.ptlcs,ptlcs_nextCommitment,ptlcs_withHtlc]
  exact h.plain

structure TakenOut (before : List Htlc) (g : Htlc) (after : List Htlc) (ch ch' : Channel) :
    Prop where
  split : ch.htlcs = before ++ g :: after
  active : g.isActive = true
  effect : ∃ payee draw, SameFunds
    ((ch.withoutHtlc g payee (before++after)).nextCommitment draw) ch'

variable {before after : List Htlc} {g : Htlc} {id : UInt64}

theorem TakenOut.same (h : TakenOut before g after ch ch') (hsame : SameFunds ch' ch'') :
    TakenOut before g after ch ch'' := by
  obtain ⟨payee,draw,heffect⟩ := h.effect
  exact ⟨h.split,h.active,payee,draw,heffect.trans hsame⟩

theorem HtlcAt.takenOut (h : HtlcAt ch id before g after) (payee : Ledger.Side) (draw : PcsDraw) :
    TakenOut before g after ch ((ch.withoutHtlc g payee (before++after)).nextCommitment draw) :=
  ⟨h.split,h.active,payee,draw,.refl _⟩

theorem PaidOut.takenOut {m : Musig} {preimage : Blob 32} {h : Htlc}
    (hpaid : PaidOut m.toSecp preimage id before h after ch ch') :
    TakenOut before h after ch ch' := by
  obtain ⟨draw,heffect⟩ := hpaid.effect
  exact ⟨hpaid.entry.split,hpaid.entry.active,_,draw,heffect⟩

variable (h : TakenOut before g after ch ch')

include h

theorem TakenOut.total (htotal : ch.book.total < 2^64) : ch'.book.total = ch.book.total := by
  obtain ⟨payee,draw,heffect⟩ := h.effect
  rw [heffect.book,book_nextCommitment]
  exact (withoutHtlc_moves payee h.split h.active htotal).total

theorem TakenOut.steady (hsteady : Steady ch) : Steady ch' := by
  have htotal := h.total hsteady.total
  obtain ⟨payee,draw,heffect⟩ := h.effect
  refine ⟨hsteady.ids.thinned ((withoutHtlc_thinned payee draw h.split).trans heffect.thinned),?_,
    ?_⟩
  · rw [htotal]
    exact hsteady.total
  · rw [heffect.ptlcs,ptlcs_nextCommitment,ptlcs_withoutHtlc]
    exact hsteady.plain

theorem TakenOut.activeHtlcs (hids : IdsOk ch) :
    ch'.activeHtlcs = ch.activeHtlcs.filter (fun x => x.id ≠ g.id) := by
  obtain ⟨payee,draw,heffect⟩ := h.effect
  have hdistinct := hids.distinct
  rw [h.split,filter_append,filter_cons_of_pos h.active,
    pairwise_middle (fun hne => Ne.symm hne),pairwise_cons] at hdistinct
  have hother (l : List Htlc) (hl : ∀ x ∈ l, x ∈ before.filter Htlc.isActive ++
      after.filter Htlc.isActive) : l.filter (fun x => x.id ≠ g.id) = l :=
    filter_eq_self.mpr fun x hx => decide_eq_true (Ne.symm (hdistinct.1 x (hl x hx)))
  unfold Channel.activeHtlcs
  rw [heffect.htlcs,htlcs_withoutHtlc,filter_isActive_idem,h.split,filter_append,
    filter_append,filter_cons_of_pos h.active,filter_append,
    filter_cons_of_neg (by simp),hother _ fun x hx => mem_append_left _ hx,
    hother _ fun x hx => mem_append_right _ hx]

end

section

variable {v : View} {c : ℕ} {ch ch' : Channel}

def View.balance (v : View) (ch : Channel) : View :=
  { v with row := v.row.map (fun _ => ⟨ch.localAmount,ch.remoteAmount,ch.commitmentNumber⟩) }

def View.without (v : View) (id : UInt64) : View :=
  { v with htlcs := v.htlcs.filter (fun x => x.id ≠ id) }

def View.with (v : View) (h : Htlc) : View := { v with htlcs := (v.without h.id).htlcs ++ [h] }

theorem OnFile.filtered (h : OnFile v ch) (id : UInt64) :
    (v.htlcs.filter (fun x => x.id ≠ id)).Perm
      ((ch.activeHtlcs.filter (fun x => x.id ≠ id)).map Htlc.stored) := by
  have hfilter := h.htlcs.filter (fun x => x.id ≠ id)
  rw [List.filter_map] at hfilter
  exact hfilter

theorem OnFile.absent (h : OnFile v ch) {id : UInt64} (hnone : ∀ x ∈ ch.activeHtlcs, x.id ≠ id) :
    OnFile (v.without id) ch := by
  refine ⟨h.row,?_⟩
  have hfiltered := h.filtered id
  rw [filter_eq_self.mpr fun x hx => decide_eq_true (hnone x hx)] at hfiltered
  exact hfiltered

theorem OnFile.balanced (h : OnFile v ch) (ch' : Channel) : (v.balance ch').row =
    some ⟨ch'.localAmount,ch'.remoteAmount,ch'.commitmentNumber⟩ := by
  change v.row.map _ = _
  rw [h.row]
  rfl

theorem OnFile.balance (h : OnFile v ch) : OnFile (v.balance ch) ch :=
  ⟨h.balanced ch,h.htlcs⟩

variable {direction : HtlcDirection} {amountSats : UInt64} {paymentHash : Blob 32}
  {cltvExpiry : UInt32} {before after : List Htlc} {g : Htlc} {actions : List LspAction}

theorem OnFile.added (h : OnFile v ch) (hids : IdsOk ch)
    (hadded : Added direction amountSats paymentHash cltvExpiry ch ch') :
    OnFile ((v.balance ch').with
      (persistedHtlc direction amountSats paymentHash cltvExpiry ch.nextHtlcId)) ch' := by
  have hfree : ∀ x ∈ ch.activeHtlcs, x.id ≠ ch.nextHtlcId := by
    intro x hx heq
    obtain ⟨hmem,hactive⟩ := mem_filter.mp hx
    have hlt := hids.below x hmem hactive
    rw [heq] at hlt
    exact UInt64.lt_irrefl _ hlt
  have hactive : ch'.activeHtlcs = ch.activeHtlcs ++
      [newHtlc direction amountSats paymentHash cltvExpiry ch] := by
    unfold activeHtlcs
    rw [hadded.appended,filter_append]
    rfl
  refine ⟨h.balanced ch',?_⟩
  rw [hactive,map_append]
  exact (h.absent hfree).htlcs.append (Perm.refl _)

theorem OnFile.removed (h : OnFile v ch) (hids : IdsOk ch) (hout : TakenOut before g after ch ch') :
    OnFile ((v.balance ch').without g.id) ch' := by
  refine ⟨h.balanced ch',?_⟩
  rw [hout.activeHtlcs hids]
  exact h.filtered g.id

structure Stored (v : View) (ch : Channel) : Prop where
  kept : OnFile v ch
  steady : Steady ch

def Carries (c : ℕ) (actions : List LspAction) (ch ch' : Channel) : Prop :=
  ∀ v, Stored v ch → Stored (writes c v actions) ch'

theorem Carries.trans {ch'' : Channel} {first later : List LspAction}
    (h : Carries c first ch ch') (h' : Carries c later ch' ch'') :
    Carries c (first++later) ch ch'' := by
  intro v hv
  rw [writes_append]
  exact h' _ (h v hv)

theorem carries_unwritten (hother : ∀ a ∈ actions, a.target ≠ some c)
    (h : ∀ v, Stored v ch → Stored v ch') : Carries c actions ch ch' := by
  intro v hv
  rw [writes_other hother]
  exact h v hv

theorem carries_idle (hother : ∀ a ∈ actions, a.target ≠ some c) (ch : Channel) :
    Carries c actions ch ch :=
  carries_unwritten hother fun _ hv => hv

theorem Recapped.stored (h : Recapped ch ch') (hv : Stored v ch) : Stored v ch' := by
  obtain ⟨cap,rfl⟩ := h
  exact ⟨⟨hv.kept.row,hv.kept.htlcs⟩,⟨hv.steady.ids.below,hv.steady.ids.distinct⟩,
    hv.steady.total,hv.steady.plain⟩

theorem write_balance (v : View) (ch : Channel) :
    (savedBalance c ch).write c v = v.balance ch := if_pos rfl

theorem write_save (v : View) (h : Htlc) : (LspAction.saveHtlc c h).write c v = v.with h :=
  if_pos rfl

theorem write_delete (v : View) (id : UInt64) :
    (LspAction.deleteHtlc c id).write c v = v.without id := if_pos rfl

theorem Added.carries (hleft : IdsLeft ch)
    (hadded : Added direction amountSats paymentHash cltvExpiry ch ch')
    (hactions : ∀ v, writes c v actions = (v.balance ch').with
      (persistedHtlc direction amountSats paymentHash cltvExpiry ch.nextHtlcId)) :
    Carries c actions ch ch' := by
  intro v hv
  rw [hactions]
  exact ⟨hv.kept.added hv.steady.ids hadded,hv.steady.added hleft hadded⟩

theorem TakenOut.carries (hout : TakenOut before g after ch ch')
    (hactions : ∀ v, writes c v actions = (v.balance ch').without g.id) :
    Carries c actions ch ch' := by
  intro v hv
  rw [hactions]
  exact ⟨hv.kept.removed hv.steady.ids hout,hout.steady hv.steady⟩

end

section

variable {m : Musig} {f : Factory} {mgr : LspMgr}

variable {ch ch' : Channel} {w : AddWorld} {actions later : List LspAction} {msg : AddHtlcMsg}
  {c senderIdx clientIdx : ℕ} {id htlcId : UInt64} {preimage : Blob 32} {r : Round}

theorem spares_nil : ∀ x ∈ ([] : List LspAction), x.target ≠ some c := nofun

theorem spares_cons {a : LspAction} (ha : a.target ≠ some c)
    (hactions : ∀ x ∈ actions, x.target ≠ some c) : ∀ x ∈ a :: actions, x.target ≠ some c :=
  forall_mem_cons.mpr ⟨ha,hactions⟩

theorem spares_one {a : LspAction} (ha : a.target = none) : ∀ x ∈ [a], x.target ≠ some c :=
  spares_cons (ha ▸ nofun) spares_nil

theorem target_ne {i : ℕ} (h : i ≠ c) : some c ≠ some i :=
  fun heq => h (some.inj heq).symm

theorem placeHtlc_stored {destIdx : ℕ} {terms : ForwardTerms} {cltvExpiry : UInt32} {ok : Bool}
    (haccepted : AddAccepted ch .offered terms.amountSats) (hslot : HasSlot w.dest.grow ch)
    (hcommits : DestCommits m w msg terms cltvExpiry ch)
    (hplace : placeHtlc m w.dest w.sentAdd destIdx terms.amountSats terms.amountMsat
      msg.paymentHash cltvExpiry ch = (ch',actions,ok)) :
    actions = [.saveHtlc destIdx (persistedHtlc .offered terms.amountSats msg.paymentHash cltvExpiry
      ch.nextHtlcId),announcement destIdx terms.amountMsat msg.paymentHash cltvExpiry
      ch.nextHtlcId,savedBalance destIdx ch'] := by
  obtain ⟨cap,heq⟩ := channelAddHtlc_added haccepted hslot
  obtain ⟨hsent,hcommit⟩ := hcommits
  unfold placeHtlc at hplace
  rw [heq] at hplace hcommit
  rw [hsent] at hplace
  dsimp only at hplace hcommit
  cases hround : commitChannel m true w.dest (({ ch with htlcsCap := cap }.withHtlc
      (newHtlc .offered terms.amountSats msg.paymentHash cltvExpiry ch)).nextCommitment
        w.dest.draw) with
  | mk _ done =>
    rw [hround] at hplace hcommit
    obtain rfl := hcommit
    obtain ⟨rfl,hrest⟩ := Prod.mk.inj hplace
    exact (Prod.mk.inj hrest).1.symm

theorem carries_of_eq {mgr' : LspMgr} (h : mgr'.channel? c = mgr.channel? c)
    (hother : ∀ a ∈ actions, a.target ≠ some c) :
    Rel (Carries c actions) (mgr.channel? c) (mgr'.channel? c) :=
  rel_of_eq h.symm (carries_idle hother)

theorem carries_setChannel (hch : mgr.channel? c = some ch) (hself : Carries c actions ch ch')
    (hother : ∀ i, i ≠ c → ∀ a ∈ actions, a.target ≠ some i) (i : ℕ) :
    Rel (Carries i actions) (mgr.channel? i) ((mgr.setChannel c ch').channel? i) := by
  by_cases hi : i = c
  · subst hi
    rw [hch,channel_setChannel_self hch]
    exact .some hself
  · exact carries_of_eq (channel_setChannel_other (Ne.symm hi)) (hother i hi)

def Handled.Tracked (mgr : LspMgr) (r : Handled) : Prop :=
  ∀ i, Rel (Carries i r.actions) (mgr.channel? i) (r.mgr.channel? i)

theorem dest_held {added chd : Channel} {destIdx : ℕ} {feeSats : UInt64}
    (hother : destIdx ≠ senderIdx) (hfound : destChannel mgr destIdx = some (.factory,chd)) :
    ((mgr.setChannel senderIdx added).accrue senderIdx feeSats).channel? destIdx = some chd := by
  rw [channel_accrue,channel_setChannel_other (Ne.symm hother)]
  exact destChannel_factory hfound

theorem RouteOutcome.tracked {added : Channel} {newHtlcId : UInt64} {r : Handled}
    (h : RouteOutcome m f w senderIdx msg mgr added newHtlcId r)
    (hdest : ∀ destIdx dest chd terms cltv,
      Forwardable f w senderIdx msg mgr destIdx dest chd terms cltv →
        dest = .factory ∧ IdsLeft chd ∧ DestCommits m w msg terms cltv chd) :
    r.Tracked (mgr.setChannel senderIdx added) := by
  intro i
  cases h with
  | kept => exact carries_of_eq rfl spares_nil
  | charged =>
    exact carries_of_eq (channel_accrue _) spares_nil
  | destRefused destIdx dest ch terms cap _ haccrues =>
    cases dest with
    | jit => exact carries_of_eq (channel_accrue _) spares_nil
    | factory =>
      rw [← channel_accrue terms.feeSats]
      exact carries_setChannel (dest_held haccrues.other haccrues.found)
        (carries_unwritten spares_nil
          fun v hv => Recapped.stored ⟨cap,rfl⟩ hv)
        (fun j hj a ha => absurd ha not_mem_nil) i
  | placed destIdx _ ch ch' terms _ _ _ hforward hadded _ _ _ hplace =>
    obtain ⟨rfl,hleft,hcommits⟩ := hdest _ _ _ _ _ hforward
    have hactions := placeHtlc_stored hforward.accepted hforward.slot hcommits hplace
    rw [← channel_accrue terms.feeSats]
    refine carries_setChannel (dest_held hforward.other hforward.found)
      (hadded.carries hleft fun v => ?_) (fun j hj => ?_) i
    · rw [hactions]
      change (savedBalance destIdx ch').write destIdx
        ((LspAction.saveHtlc destIdx _).write destIdx v) = _
      rw [write_balance,write_save]
      rfl
    · rw [hactions]
      exact spares_cons (target_ne hj) (spares_cons nofun
        (spares_cons (target_ne hj) spares_nil))
  | bridge =>
    exact carries_of_eq rfl (spares_one rfl)

theorem add_tracked {parsed : Option AddHtlcMsg} (hguard : AddStored m mgr senderIdx f w parsed) :
    (handleAddHtlc m f w senderIdx parsed mgr).Tracked mgr := by
  have houtcome : AddOutcome m f w senderIdx mgr parsed _ := handleAddHtlc_outcome parsed
  generalize handleAddHtlc m f w senderIdx parsed mgr = r at houtcome ⊢
  intro i
  cases houtcome with
  | dropped => exact carries_of_eq rfl spares_nil
  | refused _ _ cap _ hfound =>
    exact carries_setChannel hfound
      (carries_unwritten (spares_one rfl)
        fun v hv => Recapped.stored ⟨cap,rfl⟩ hv)
      (fun j _ => spares_one rfl) i
  | broken msg ch _ hadds _ hcommit => exact absurd (hguard msg ch hadds).2.1 hcommit
  | routed msg ch ch' saved r hadds hadded _ hroute _ _ hwrites =>
    obtain ⟨hleft,-,hdest⟩ := hguard msg ch hadds
    refine rel_comp ?_
      (hroute.tracked hdest i) fun _ _ _ => Carries.trans
    refine carries_setChannel hadds.found (hadded.carries hleft fun v => ?_) (fun j hj => ?_) i
    · rw [hwrites]
      change (LspAction.saveHtlc senderIdx _).write senderIdx
        ((savedBalance senderIdx ch').write senderIdx v) = _
      rw [write_balance,write_save]
    · rw [hwrites]
      exact spares_cons (target_ne hj) (spares_cons (target_ne hj) spares_nil)

theorem removal_written (hlater : ∀ a ∈ later, a.target ≠ some c) (v : View) :
    writes c v (savedBalance c ch :: .deleteHtlc c id :: later) = (v.balance ch).without id := by
  change writes c ((LspAction.deleteHtlc c id).write c ((savedBalance c ch).write c v)) later = _
  rw [write_balance,write_delete,writes_other hlater]

theorem removal_elsewhere {i : ℕ} (hi : i ≠ c) (hlater : ∀ a ∈ later, a.target ≠ some i) :
    ∀ a ∈ savedBalance c ch :: .deleteHtlc c id :: later, a.target ≠ some i :=
  spares_cons (target_ne hi) (spares_cons (target_ne hi) hlater)

theorem backPropagate_writes {w : FulfillWorld} (hch : mgr.channel? c = some ch) (v : View) :
    writes c v (backPropagate m w clientIdx preimage mgr).2 =
      writes c v (scanChannel m w clientIdx preimage c ch).2 := by
  obtain ⟨e,he,rfl⟩ := map_eq_some_iff.mp hch
  have hlists : (mgr.entries.mapIdx (fun s e =>
      (scanChannel m w clientIdx preimage s e.channel).2))[c]? =
      some (scanChannel m w clientIdx preimage c e.channel).2 := by
    rw [getElem?_mapIdx,he]
    rfl
  refine writes_flatten hlists (fun k l hk hl a ha => ?_) v
  rw [getElem?_mapIdx] at hl
  obtain ⟨e',-,rfl⟩ := map_eq_some_iff.mp hl
  unfold scanChannel at ha
  split_ifs at ha
  · exact absurd ha not_mem_nil
  · have htarget :=
      scanHtlcs_forall (P := fun a => a.target = none ∨ a.target = some k) (fun _ => .inl rfl)
        (fun _ => .inr rfl) (fun _ => .inr rfl) _ _ _ _ _ a ha
    rcases htarget with hnone | hsome
    · rw [hnone]
      exact nofun
    · rw [hsome]
      exact target_ne hk.symm

theorem scanChannel_carries {w : FulfillWorld} {s : ℕ} (hs : s ≠ clientIdx)
    (hstored : ScanStored m preimage (w.senders s) ch) :
    Carries s (scanChannel m w clientIdx preimage s ch).2 ch
      (scanChannel m w clientIdx preimage s ch).1 := by
  rcases hstored with hquiet | ⟨i,before,g,after,hhit,hfirst,htold,hsigned⟩
  · rw [scanChannel_quiet hquiet]
    exact carries_idle spares_nil ch
  · obtain ⟨ch',heq,hsame⟩ := scanChannel_signed hs hhit hfirst hsigned
    obtain ⟨x,-,-,hat⟩ := hhit.slot
    have hout : TakenOut before g after ch ch' := ⟨hat.split,hat.active,_,_,hsame⟩
    rw [heq,htold]
    refine hout.carries fun v => ?_
    exact removal_written spares_nil v

theorem fulfill_tracked {w : FulfillWorld} {parsed : Option FulfillHtlcMsg}
    (hguard : ClaimStored m mgr clientIdx w parsed) :
    (handleFulfillHtlc m w clientIdx parsed mgr).Tracked mgr := by
  have houtcome : FulfillOutcome m w clientIdx mgr parsed _ := handleFulfillHtlc_outcome parsed
  generalize handleFulfillHtlc m w clientIdx parsed mgr = r at houtcome ⊢
  intro i
  cases houtcome with
  | dropped => exact carries_of_eq rfl spares_nil
  | broken msg ch _ before after h hfound hpaid hcommit =>
    exact absurd (hguard msg ch before h after rfl hfound hpaid.entry hpaid.hash).1 hcommit
  | bridge _ _ _ _ _ _ _ _ _ hfound hpaid _ _ _ _ hwrites =>
    obtain ⟨id,rfl⟩ := hwrites
    refine carries_setChannel hfound (hpaid.takenOut.carries fun v => ?_)
      (fun j hj => removal_elsewhere hj (spares_one rfl)) i
    rw [hpaid.entry.named]
    exact removal_written (spares_one rfl) v
  | scanned msg ch ch' before after h invoices origins hfound hpaid =>
    have hscan := (hguard msg ch before h after rfl hfound hpaid.entry hpaid.hash).2
    refine rel_comp
      (carries_setChannel hfound (hpaid.takenOut.carries fun v => ?_)
        (fun j hj => removal_elsewhere hj spares_nil) i) ?_ fun _ _ _ => Carries.trans
    · rw [hpaid.entry.named]
      exact removal_written spares_nil v
    · have hsame : LspMgr.channel? { mgr.setChannel clientIdx ch' with
          invoices := invoices, htlcOrigins := origins } i =
          (mgr.setChannel clientIdx ch').channel? i := rfl
      rw [backPropagate_channel,hsame]
      cases hi : (mgr.setChannel clientIdx ch').channel? i with
      | none => exact .none
      | some chi =>
        refine .some fun v hv => ?_
        rw [backPropagate_writes (hsame.trans hi)]
        by_cases hown : i = clientIdx
        · subst hown
          rw [scanChannel_own]
          dsimp only
          rw [scanChannel_own]
          exact hv
        · rw [channel_setChannel_other (Ne.symm hown)] at hi
          exact scanChannel_carries hown (hscan i chi hown hi) v hv

theorem absent_of_findActive (h : findActive id ch.htlcs = none) :
    ∀ x ∈ ch.activeHtlcs, x.id ≠ id := by
  intro x hx heq
  obtain ⟨hmem,hactive⟩ := mem_filter.mp hx
  exact findActive_none.mp h x hmem ⟨heq,hactive⟩

theorem fail_tracked {draw : PcsDraw} {parsed : Option UInt64}
    (hguard : FailStored mgr clientIdx parsed) :
    (handleFailHtlc draw clientIdx parsed mgr).Tracked mgr := by
  intro i
  unfold handleFailHtlc
  split
  · rename_i id ch hfound
    have hnone := hguard id ch rfl hfound
    have hfailed : (channelFailHtlc id draw ch).1 = ch := by
      rcases channelFailHtlc_cases id draw ch with ⟨-,heq⟩ | ⟨before,h,after,hat,-⟩
      · rw [heq]
      · have hfind := hat.found
        rw [hnone] at hfind
        cases hfind
    rw [hfailed]
    refine carries_setChannel hfound (fun v hv => ?_) (fun j hj => ?_) i
    · change Stored ((LspAction.deleteHtlc clientIdx id).write clientIdx v) ch
      rw [write_delete]
      exact ⟨hv.kept.absent (absent_of_findActive hnone),hv.steady⟩
    · exact spares_cons (target_ne hj) spares_nil
  · exact carries_of_eq rfl spares_nil

theorem inbound_tracked {w : InboundWorld} {parsed : Option BridgeAddMsg}
    (hguard : InboundStored m mgr w parsed) : (handleBridgeAdd m f w parsed mgr).Tracked mgr := by
  intro i
  cases parsed with
  | none => exact carries_of_eq rfl spares_nil
  | some msg =>
    have houtcome : InboundOutcome m w msg mgr _ := handleBridgeAdd_outcome (f := f) w msg
    generalize handleBridgeAdd m f w (some msg) mgr = r at houtcome ⊢
    cases houtcome with
    | kept _ _ _ hquiet =>
      refine carries_of_eq rfl fun a ha => ?_
      obtain ⟨reason,rfl⟩ := hquiet a ha
      exact nofun
    | refused invoices destIdx ch _ hch hcap =>
      exact carries_setChannel hch
        (carries_unwritten (spares_one rfl) fun v hv => hcap.stored hv)
        (fun j _ => spares_one rfl) i
    | recorded invoices destIdx ch _ ch' _ _ hdest hch hslot hcall hadded _ hcommits =>
      obtain ⟨hleft,hcommit⟩ := hguard msg destIdx ch rfl hdest hch hadded.accepted hslot
      rw [hcall] at hcommit
      obtain ⟨hsame,rfl⟩ := hcommits hcommit
      refine carries_setChannel hch ((hadded.same hsame).carries hleft fun v => ?_)
        (fun j hj => ?_) i
      · change (LspAction.saveHtlc destIdx _).write destIdx
          ((savedBalance destIdx ch').write destIdx v) = _
        rw [write_balance,write_save]
      · exact spares_cons nofun (spares_cons (target_ne hj) (spares_cons (target_ne hj) spares_nil))

theorem absent_of_none (h : ∀ before x after, ¬ HtlcAt ch id before x after) :
    findActive id ch.htlcs = none := by
  cases hfind : findActive id ch.htlcs with
  | none => rfl
  | some found =>
    obtain ⟨before,after,hsplit,-,hid,hactive,hfirst⟩ := findActive_some hfind
    exact absurd ⟨hsplit,hid,hactive,hfirst⟩ (h before found.2 after)

theorem resolveHtlc_cases {msg : PayResultMsg}
    (hhash : ∀ before h after, msg.success = true → HtlcAt ch htlcId before h after →
      m.sha256 msg.preimage.val = h.paymentHash) :
    (resolveHtlc m r msg htlcId ch = ch ∧ findActive htlcId ch.htlcs = none) ∨
      ∃ before h after, h.id = htlcId ∧
        TakenOut before h after ch (resolveHtlc m r msg htlcId ch) := by
  unfold resolveHtlc
  cases hsuccess : msg.success with
  | true =>
    rw [if_pos rfl]
    rcases channelFulfillHtlc_cases m.toSecp htlcId msg.preimage r.draw ch with
      ⟨heq,hnot⟩ | ⟨before,h,after,hat,-,heq⟩
    · rw [heq]
      refine .inl ⟨rfl,absent_of_none fun before h after hat => ?_⟩
      exact hnot before h after hat (hhash before h after hsuccess hat)
    · rw [heq]
      exact .inr ⟨before,h,after,hat.named,hat.takenOut _ _⟩
  | false =>
    rw [if_neg Bool.false_ne_true]
    rcases channelFailHtlc_cases htlcId r.draw ch with ⟨hnone,heq⟩ | ⟨before,h,after,hat,heq⟩
    · rw [heq]
      exact .inl ⟨rfl,hnone⟩
    · rw [heq]
      exact .inr ⟨before,h,after,hat.named,hat.takenOut _ _⟩

theorem settlePayment_carries {msg : PayResultMsg}
    (hhash : ∀ before h after, msg.success = true → HtlcAt ch htlcId before h after →
      m.sha256 msg.preimage.val = h.paymentHash) :
    Carries clientIdx (settlePayment m r msg clientIdx htlcId ch).2 ch
      (settlePayment m r msg clientIdx htlcId ch).1 := by
  have hsame := settlePayment_sameFunds (m := m) (r := r) msg clientIdx htlcId ch
  have hwrites (v : View) : writes clientIdx v (settlePayment m r msg clientIdx htlcId ch).2 =
      (v.balance (settlePayment m r msg clientIdx htlcId ch).1).without htlcId :=
    removal_written spares_nil v
  rcases resolveHtlc_cases hhash with ⟨heq,hnone⟩ | ⟨before,h,after,hid,hout⟩
  · rw [heq] at hsame
    intro v hv
    have hnone' := hnone
    rw [← hsame.htlcs] at hnone'
    rw [hwrites]
    exact ⟨(hv.kept.same hsame).balance.absent (absent_of_findActive hnone'),hv.steady.same hsame⟩
  · refine (hout.same hsame).carries fun v => ?_
    rw [hwrites,hid]

theorem payResult_tracked {parsed : Option PayResultMsg} (hguard : ResultStored m mgr parsed) :
    (handlePayResult m r parsed mgr).Tracked mgr := by
  intro i
  unfold handlePayResult
  cases parsed with
  | none => exact carries_of_eq rfl spares_nil
  | some msg =>
    dsimp only
    cases hfind : mgr.htlcOrigins.findIdx? (fun o => o.active && o.requestId = msg.requestId) with
    | none => exact carries_of_eq rfl spares_nil
    | some k =>
      dsimp only
      cases ho : mgr.htlcOrigins[k]? with
      | none => exact carries_of_eq rfl spares_nil
      | some o =>
        rw [bind_some]
        cases hch : mgr.channel? o.senderIdx with
        | none => exact carries_of_eq rfl spares_nil
        | some ch =>
          have horigin : mgr.htlcOrigins.find?
              (fun o => o.active && o.requestId = msg.requestId) = some o := by
            rw [find?_eq_bind_findIdx?_getElem?,hfind]
            exact ho
          refine carries_setChannel hch
            (settlePayment_carries fun before h after hsuccess hat => ?_)
            (fun j hj => spares_cons nofun (removal_elsewhere hj spares_nil)) i
          exact hguard msg o ch before h after rfl hsuccess horigin hch hat

end

section

variable {m : Musig} {v : View} {db : Db} {c : ℕ} {ch ch' : Channel}

structure Reloaded (m : Musig) (ch ch' : Channel) : Prop where
  localAmount : ch'.localAmount = ch.localAmount
  remoteAmount : ch'.remoteAmount = ch.remoteAmount
  commitmentNumber : ch'.commitmentNumber = ch.commitmentNumber
  htlcs : ch'.activeHtlcs.Perm ch.activeHtlcs
  total : ch'.book.total = ch.book.total
  failed : ∀ id draw, (channelFailHtlc id draw ch').1.book.total = ch.book.total
  fulfilled : ∀ id preimage draw,
    (channelFulfillHtlc m.toSecp id preimage draw ch').1.book.total = ch.book.total
  fresh : ∀ x ∈ ch'.activeHtlcs, x.id < ch'.nextHtlcId

theorem htlcs_loaded (hkept : OnFile (db.view c) ch) {n : ℕ} (hlen : ch.activeHtlcs.length ≤ n) :
    (persistLoadHtlcs c n db).Perm (ch.activeHtlcs.map Htlc.stored) := by
  have hrows : ((db.htlcs.filter (fun r => r.1 = c)).map Prod.snd).Perm
      (ch.activeHtlcs.map Htlc.stored) := hkept.htlcs
  have hsorted := (perm_insertionSort (fun a b : Htlc => a.id.toInt64 ≤ b.id.toInt64)
    ((db.htlcs.filter (fun r => r.1 = c)).map Prod.snd)).trans hrows
  unfold persistLoadHtlcs
  rw [take_of_length_le]
  · exact hsorted
  · rw [hsorted.length_eq,length_map]
    exact hlen

theorem row_loaded (hkept : OnFile (db.view c) ch) (hfunded : ch.Funded) :
    persistLoadChannelState c db = some ⟨ch.localAmount,ch.remoteAmount,ch.commitmentNumber⟩ := by
  have hrow : db.channels[c]? = _ := hkept.row
  unfold persistLoadChannelState
  rw [hrow]
  exact filter_eq_some_iff.mpr ⟨rfl,decide_eq_true hfunded⟩

theorem book_of_perm (hplain : ch.ptlcs = []) (hplain' : ch'.ptlcs = [])
    (hlocal : ch'.localAmount = ch.localAmount) (hremote : ch'.remoteAmount = ch.remoteAmount)
    (hperm : ch'.activeHtlcs.Perm ch.activeHtlcs) : ch'.book = ch.book := by
  unfold book
  rw [hplain,hplain',hlocal,hremote]
  refine congrArg (Ledger.Book.mk _ _) (congrArg (· + heldPtlcs []) ?_)
  exact Multiset.coe_eq_coe.mpr (hperm.map Htlc.escrow)

theorem Stored.reloaded (h : Stored v ch) (hlocal : ch'.localAmount = ch.localAmount)
    (hremote : ch'.remoteAmount = ch.remoteAmount)
    (hnumber : ch'.commitmentNumber = ch.commitmentNumber) (hplain : ch'.ptlcs = [])
    (hperm : ch'.activeHtlcs.Perm ch.activeHtlcs)
    (hbelow : ∀ x ∈ ch'.htlcs, x.isActive = true → x.id < ch'.nextHtlcId) :
    Stored v ch' ∧ Reloaded m ch ch' := by
  have htotal : ch'.book.total = ch.book.total := by
    rw [book_of_perm h.steady.plain hplain hlocal hremote hperm]
  have hsmall := h.steady.total
  rw [← htotal] at hsmall
  refine ⟨⟨⟨?_,h.kept.htlcs.trans (hperm.map Htlc.stored).symm⟩,⟨hbelow,?_⟩,hsmall,hplain⟩,
    hlocal,hremote,hnumber,hperm,htotal,fun id draw => ?_,fun id preimage draw => ?_,fun x hx => ?_⟩
  · rw [hlocal,hremote,hnumber]
    exact h.kept.row
  · exact (hperm.pairwise_iff fun hne => Ne.symm hne).mpr h.steady.ids.distinct
  · rcases channelFailHtlc_cases id draw ch' with ⟨-,heq⟩ | ⟨before,x,after,hat,heq⟩
    · rw [heq]
      exact htotal
    · rw [heq]
      exact ((hat.takenOut _ _).total hsmall).trans htotal
  · rcases channelFulfillHtlc_cases m.toSecp id preimage draw ch' with
      ⟨heq,-⟩ | ⟨before,x,after,hat,-,heq⟩
    · rw [heq]
      exact htotal
    · rw [heq]
      exact ((hat.takenOut _ _).total hsmall).trans htotal
  · obtain ⟨hmem,hactive⟩ := mem_filter.mp hx
    exact hbelow x hmem hactive

variable {input : InitInput} {n : UInt64}

theorem initChannel_fresh (h : initChannel m input = some ch) : ch.ptlcs = [] := by
  obtain ⟨base,hbase,rfl⟩ := map_eq_some_iff.mp h
  exact (channelInit_fresh hbase).ptlcs

theorem restoreChannel_reloaded {base : Channel} (hinit : initChannel m input = some base)
    (hstored : Stored (db.view c) ch) (hempty : ch.activeHtlcs = []) (hfunded : ch.Funded) :
    ∃ ch', restoreChannel m input c db = some ch' ∧ Stored (db.view c) ch' ∧ Reloaded m ch ch' := by
  have hloaded : persistLoadHtlcs c maxHtlcs db = [] := by
    have hperm := htlcs_loaded (n := maxHtlcs) hstored.kept (by rw [hempty]; exact Nat.zero_le _)
    rw [hempty] at hperm
    exact hperm.eq_nil
  have hrestored : ∃ ch', restoreChannel m input c db = some ch' ∧
      ch'.localAmount = ch.localAmount ∧ ch'.remoteAmount = ch.remoteAmount ∧
      ch'.commitmentNumber = ch.commitmentNumber ∧ ch'.htlcs = [] ∧ ch'.ptlcs = base.ptlcs := by
    unfold restoreChannel
    rw [hinit,row_loaded hstored.kept hfunded,hloaded]
    exact ⟨_,rfl,rfl,rfl,rfl,rfl,rfl⟩
  obtain ⟨ch',heq,hlocal,hremote,hnumber,hhtlcs,hptlcs⟩ := hrestored
  rw [initChannel_fresh hinit] at hptlcs
  have hperm : ch'.activeHtlcs.Perm ch.activeHtlcs := by
    rw [hempty,activeHtlcs,hhtlcs]
    exact .nil
  refine ⟨ch',heq,hstored.reloaded hlocal hremote hnumber hptlcs hperm fun x hx => ?_⟩
  rw [hhtlcs] at hx
  exact absurd hx not_mem_nil

theorem loadState_reloaded (hstored : Stored (db.view c) ch)
    (hlen : ch.activeHtlcs.length ≤ min ch.htlcsCap maxHtlcs)
    (hfees : ∀ x ∈ ch.activeHtlcs, x.feeAtAdd = 0) :
    ∃ ch', ch.loadState c db ⟨ch.localAmount,ch.remoteAmount,ch.commitmentNumber⟩ = some ch' ∧
      Stored (db.view c) ch' ∧ Reloaded m ch ch' := by
  have hsame : ch.activeHtlcs.map Htlc.stored = ch.activeHtlcs := by
    refine (map_congr_left fun x hx => ?_).trans (map_id _)
    have hzero := hfees x hx
    cases x
    obtain rfl := hzero
    rfl
  have hperm := htlcs_loaded hstored.kept (hlen.trans (Nat.min_le_right _ _))
  rw [hsame] at hperm
  have hfits : ¬ (persistLoadHtlcs c maxHtlcs db).length > ch.htlcsCap := by
    rw [hperm.length_eq]
    exact Nat.not_lt.mpr (hlen.trans (Nat.min_le_left _ _))
  have hactive := filter_eq_self.mpr fun x hx => (mem_filter.mp (hperm.subset hx)).2
  have hperm' : (activeHtlcs { ch with htlcs := persistLoadHtlcs c maxHtlcs db }).Perm
      ch.activeHtlcs := by
    rw [activeHtlcs,hactive]
    exact hperm
  refine ⟨_,if_neg hfits,hstored.reloaded rfl rfl rfl hstored.steady.plain hperm'
    fun x hx _ => ?_⟩
  obtain ⟨hmem,hon⟩ := mem_filter.mp (hperm.subset hx)
  exact hstored.steady.ids.below x hmem hon

theorem reconcile_reloaded (hstored : Stored (db.view c) ch) (hok : RollBackOk n ch)
    (hbehind : ch.commitmentNumber-n = 1) :
    ∃ ch', reconcile n c db ch = some ch' ∧ Stored (db.view c) ch' ∧ Reloaded m ch ch' := by
  obtain ⟨hfunded,hlen,hfees⟩ := hok.2 hbehind
  obtain ⟨ch',heq,hstored',hreloaded⟩ := loadState_reloaded (m := m) hstored hlen hfees
  have hne : ¬ n = ch.commitmentNumber := by
    rintro rfl
    rw [UInt64.sub_self] at hbehind
    cases hbehind
  refine ⟨ch',?_,hstored',hreloaded⟩
  unfold reconcile
  rw [if_neg hne,if_pos hbehind,row_loaded hstored.kept hfunded]
  exact heq

theorem reconcile_stored (m : Musig) (hstored : Stored (db.view c) ch) (hok : RollBackOk n ch)
    (hrec : reconcile n c db ch = some ch') : Stored (db.view c) ch' := by
  by_cases hbehind : ch.commitmentNumber-n = 1
  · obtain ⟨ch'',heq,hstored',-⟩ := reconcile_reloaded (m := m) hstored hok hbehind
    obtain rfl := mem_unique heq hrec
    exact hstored'
  · unfold reconcile at hrec
    rw [if_neg hbehind,if_neg hok.1] at hrec
    split_ifs at hrec
    cases hrec
    exact hstored

end

section

variable {m : Musig} {s s' : StoreRun}

def StoreOk (s : StoreRun) : Prop :=
  ∀ c ch, s.mgr.channel? c = some ch → Stored (s.db.view c) ch

variable {mgr rest : LspMgr} {c : ℕ} {ch : Channel} {inputs : ℕ → InitInput}
  {entries : List LspEntry}

theorem StoreOk.tracked {r : Handled} (hok : StoreOk s) (h : r.Tracked s.mgr) :
    StoreOk ⟨r.mgr,s.db.record r.actions⟩ := by
  intro c ch hch
  obtain ⟨old,hold,hcarries⟩ := rel_before (h c) hch
  rw [view_record]
  exact hcarries _ (hok c old hold)

theorem client_tracked {o : HubOp} (hguard : StoreGuard m s (.client o)) :
    (o.handle m s.mgr).Tracked s.mgr := by
  obtain ⟨f,clientIdx,msg⟩ := o
  unfold HubOp.handle lspChannelsHandleMsg
  split_ifs
  · exact fun _ => carries_of_eq rfl spares_nil
  · cases msg with
    | updateAddHtlc w parsed => exact add_tracked hguard
    | updateFulfillHtlc w parsed => exact fulfill_tracked hguard
    | updateFailHtlc draw parsed => exact fail_tracked hguard

theorem bridge_tracked {f : Factory} {msg : BridgeMsg} (hguard : StoreGuard m s (.bridge f msg)) :
    (lspChannelsHandleBridgeMsg m f msg s.mgr).Tracked s.mgr := by
  cases msg with
  | addHtlc w parsed => exact inbound_tracked hguard
  | payResult r parsed => exact payResult_tracked hguard

theorem channel_of_lt (h : c < mgr.entries.length) : ∃ ch, mgr.channel? c = some ch := by
  unfold LspMgr.channel?
  rw [getElem?_eq_getElem h]
  exact ⟨_,rfl⟩

theorem channel_inRange (h : mgr.channel? c = some ch) :
    (range mgr.entries.length)[c]? = some c := by
  obtain ⟨e,he,-⟩ := map_eq_some_iff.mp h
  exact List.getElem?_range (List.getElem?_eq_some_iff.mp he).1

theorem initFromDb_reloaded (hok : StoreOk s) (hguard : StoreGuard m s (.restart inputs rest))
    (h : lspChannelsInitFromDb m inputs s.mgr.entries.length s.db = some entries)
    (hch : s.mgr.channel? c = some ch) :
    ∃ e, entries[c]? = some e ∧ Stored (s.db.view c) e.channel ∧ Reloaded m ch e.channel := by
  have hforall := (mapM_option_iff _ _ _).mp h
  obtain ⟨e,he,hmade⟩ := hforall.getElem?_left (channel_inRange hch)
  obtain ⟨restored,hrestored,rfl⟩ := map_eq_some_iff.mp hmade
  obtain ⟨hempty,hfunded⟩ := hguard c ch hch
  obtain ⟨base,hbase,-⟩ := bind_eq_some_iff.mp hrestored
  obtain ⟨ch',heq,hstored,hreloaded⟩ :=
    restoreChannel_reloaded hbase (hok c ch hch) hempty hfunded
  obtain rfl := mem_unique heq hrestored
  exact ⟨_,he,hstored,hreloaded⟩

theorem initFromDb_some (hok : StoreOk s) (hguard : StoreGuard m s (.restart inputs rest))
    (hinit : ∀ c < s.mgr.entries.length, (initChannel m (inputs c)).isSome = true) :
    ∃ entries, lspChannelsInitFromDb m inputs s.mgr.entries.length s.db = some entries := by
  refine mapM_option_some fun c hc => ?_
  have hlt := mem_range.mp hc
  obtain ⟨ch,hch⟩ := channel_of_lt hlt
  obtain ⟨base,hbase⟩ := isSome_iff_exists.mp (hinit c hlt)
  obtain ⟨hempty,hfunded⟩ := hguard c ch hch
  obtain ⟨ch',heq,-⟩ := restoreChannel_reloaded hbase (hok c ch hch) hempty hfunded
  rw [heq]
  rfl

theorem initFromDb_stored (hok : StoreOk s) (hguard : StoreGuard m s (.restart inputs rest))
    (h : lspChannelsInitFromDb m inputs s.mgr.entries.length s.db = some entries) :
    StoreOk ⟨{ rest with entries := entries },s.db⟩ := by
  have hforall := (mapM_option_iff _ _ _).mp h
  have hlen : s.mgr.entries.length = entries.length := by
    have hlength := hforall.length_eq
    rwa [length_range] at hlength
  intro c ch hch
  obtain ⟨e,he,rfl⟩ := map_eq_some_iff.mp hch
  have hlt : c < s.mgr.entries.length := hlen ▸ (List.getElem?_eq_some_iff.mp he).1
  obtain ⟨old,hold⟩ := channel_of_lt hlt
  obtain ⟨e',he',hstored,-⟩ := initFromDb_reloaded hok hguard h hold
  obtain rfl := mem_unique he he'
  exact hstored

theorem store_step {o : StoreOp} (hok : StoreOk s) (hguard : StoreGuard m s o) :
    StoreOk (storeStep m s o) := by
  cases o with
  | client o => exact hok.tracked (client_tracked hguard)
  | bridge f msg => exact hok.tracked (bridge_tracked hguard)
  | restart inputs rest =>
    unfold storeStep
    dsimp only
    cases hinit : lspChannelsInitFromDb m inputs s.mgr.entries.length s.db with
    | none => exact hok
    | some entries => exact initFromDb_stored hok hguard hinit
  | reconnect clientIdx n =>
    unfold storeStep
    dsimp only
    cases hch : s.mgr.channel? clientIdx with
    | none => exact hok
    | some old =>
      rw [bind_some]
      cases hrec : reconcile n clientIdx s.db old with
      | none => exact hok
      | some ch' =>
        intro c ch hc
        by_cases hcc : c = clientIdx
        · subst hcc
          rw [channel_setChannel_self hch] at hc
          cases hc
          exact reconcile_stored m (hok c old hch) (hguard old hch) hrec
        · rw [channel_setChannel_other (Ne.symm hcc)] at hc
          exact hok c ch hc

end

def storeRow (ch : Channel) : ChannelRow := ⟨ch.localAmount,ch.remoteAmount,ch.commitmentNumber⟩

def storeStart (ch : Channel) : StoreRun :=
  ⟨LspMgr.sample [ch,ch],⟨[storeRow ch,storeRow ch],[]⟩⟩

def storedPay : HubOp :=
  ⟨timedFactory,0,.updateAddHtlc ⟨goodRound,goodRound,true,true⟩ (some payment)⟩

def freeChannel : Channel := { lspChannel with feeRateSatPerKvb := 0 }

theorem storeStart_ok : StoreOk (storeStart freeChannel) := by
  have hsteady : Steady freeChannel :=
    ⟨⟨fun h hh => absurd hh not_mem_nil,Pairwise.nil⟩,by decide +kernel,rfl⟩
  intro c ch hch
  match c with
  | 0 =>
    cases hch
    exact ⟨⟨rfl,Perm.nil⟩,hsteady⟩
  | 1 =>
    cases hch
    exact ⟨⟨rfl,Perm.nil⟩,hsteady⟩
  | c+2 => cases hch

theorem storedPay_allowed :
    StoreGuard Musig.sample (storeStart freeChannel) (.client storedPay) := by
  intro msg ch hadds
  obtain rfl := some.inj hadds.parsed
  obtain rfl := some.inj hadds.found
  refine ⟨by decide,?_,fun destIdx dest chd terms cltv hforward => ?_⟩
  · unfold SenderCommits
    decide +kernel
  · obtain rfl := some.inj hforward.named
    have hfound := hforward.found
    obtain ⟨rfl,rfl⟩ := Prod.mk.inj (some.inj hfound)
    have hterms := hforward.priced
    cases hterms
    have htimely : lspValidateCltvForForward payment.cltvExpiry timedFactory.cltvTimeout
        (lspComputeFactoryCltvDelta timedFactory) = some 460 := by
      decide +kernel
    obtain rfl := mem_unique htimely hforward.timely
    refine ⟨rfl,by decide,rfl,?_⟩
    decide +kernel

def storeInput : InitInput :=
  { params := sampleParams
    alloc := true
    draw0 := sampleDraw
    draw1 := sampleDraw
    keyagg := lspChannel.fundingKeyagg
    signerIdx := 0
    merkleRoot := none
    ours := ⟨lspPoint,lspPoint,lspPoint,lspPoint⟩
    theirs := ⟨lspPoint,lspPoint,lspPoint,lspPoint⟩
    nonces := [] }

end SuperScalar
