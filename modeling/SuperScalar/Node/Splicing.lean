import SuperScalar.Lsp.Hub
import SuperScalar.Node.Payments

namespace SuperScalar

open List Option Channel

section

structure Splice where
  quiescent : ℕ
  pendingTxid : Blob 32
deriving DecidableEq

def Splice.idle : Splice := ⟨0,Blob.zero 32⟩

def Channel.funding (ch : Channel) : Blob 32 × UInt32 × UInt64 :=
  (ch.fundingTxid,ch.fundingVout,ch.fundingAmount)

def channelApplySpliceUpdate (newTxid : Blob 32) (newVout : UInt32) (newFundingAmount : UInt64)
    (ch : Channel) : Channel :=
  { ch with fundingTxid := newTxid, fundingVout := newVout, fundingAmount := newFundingAmount }

structure Undisturbed (splice : Splice) (ch ch' : Channel) : Prop where
  funding : ch'.funding ≠ ch.funding → splice.quiescent ≠ 0 ∧ splice.pendingTxid ≠ Blob.zero 32 ∧
    ch'.fundingTxid = splice.pendingTxid
  htlcs : splice.quiescent ≠ 0 → ch'.htlcs ⊆ ch.htlcs

def SpliceLaw (splices : ℕ → Splice) (before after : ℕ → Option Channel) : Prop :=
  ∀ i ch ch', before i = some ch → after i = some ch' → Undisturbed (splices i) ch ch'

def Splice.Locks (splice : Splice) (newTxid : Blob 32) (newVout : UInt32) (ch : Channel) : Prop :=
  (newTxid = ch.fundingTxid ∧ newVout = ch.fundingVout) ∨
    (splice.quiescent ≠ 0 ∧ splice.pendingTxid ≠ Blob.zero 32 ∧ newTxid = splice.pendingTxid)

structure Settles (ch ch' : Channel) : Prop where
  funding : ch'.funding = ch.funding
  htlcs : ch'.htlcs ⊆ ch.htlcs

variable {ch ch' ch'' : Channel} {splice : Splice}

theorem Settles.refl (ch : Channel) : Settles ch ch := ⟨rfl,Subset.refl _⟩

theorem Settles.trans (h : Settles ch ch') (h' : Settles ch' ch'') : Settles ch ch'' :=
  ⟨h'.funding.trans h.funding,Subset.trans h'.htlcs h.htlcs⟩

theorem Settles.undisturbed (h : Settles ch ch') : Undisturbed splice ch ch' :=
  ⟨fun hne => absurd h.funding hne,fun _ => h.htlcs⟩

theorem undisturbed_of_awake (hawake : splice.quiescent = 0) (h : ch'.funding = ch.funding) :
    Undisturbed splice ch ch' :=
  ⟨fun hne => absurd h hne,fun hq => absurd hawake hq⟩

theorem applySpliceUpdate_undisturbed_iff {newTxid : Blob 32} {newVout : UInt32} :
    Undisturbed splice ch (channelApplySpliceUpdate newTxid newVout ch.fundingAmount ch) ↔
      splice.Locks newTxid newVout ch := by
  constructor
  · intro h
    by_cases hsame : newTxid = ch.fundingTxid ∧ newVout = ch.fundingVout
    · exact .inl hsame
    · refine .inr (h.funding fun heq => hsame ?_)
      obtain ⟨htxid,hvout⟩ := Prod.mk.inj heq
      exact ⟨htxid,(Prod.mk.inj hvout).1⟩
  · rintro (⟨rfl,rfl⟩ | hpending)
    · exact (Settles.refl ch).undisturbed
    · exact ⟨fun _ => hpending,fun _ => Subset.refl _⟩

theorem spliceLaw_refl (splices : ℕ → Splice) (channels : ℕ → Option Channel) :
    SpliceLaw splices channels channels := by
  intro i ch ch' hch hch'
  obtain rfl := mem_unique hch hch'
  exact (Settles.refl ch).undisturbed

theorem spliceLaw_iff_of_one {splices : ℕ → Splice} {before after : ℕ → Option Channel} {i : ℕ}
    (hbefore : before i = some ch) (hafter : after i = some ch')
    (hother : ∀ j ≠ i, after j = before j) :
    SpliceLaw splices before after ↔ Undisturbed (splices i) ch ch' := by
  constructor
  · exact fun h => h i ch ch' hbefore hafter
  · intro h j chj chj' hchj hchj'
    by_cases hj : j = i
    · subst hj
      obtain rfl := mem_unique hbefore hchj
      obtain rfl := mem_unique hafter hchj'
      exact h
    · rw [hother j hj] at hchj'
      obtain rfl := mem_unique hchj hchj'
      exact (Settles.refl chj).undisturbed

theorem funding_of_fixed (h : ch'.fixed = ch.fixed) : ch'.funding = ch.funding :=
  (congrArg funding h :)

theorem SameFunds.funding (h : SameFunds ch ch') : ch'.funding = ch.funding :=
  (congrArg Channel.funding h :)

theorem Recapped.settles (h : Recapped ch ch') : Settles ch ch' := by
  obtain ⟨cap,rfl⟩ := h
  exact ⟨rfl,Subset.refl _⟩

theorem withoutHtlc_settles {h : Htlc} {payee : Ledger.Side} {before after : List Htlc} {draw : PcsDraw}
    (hsplit : ch.htlcs = before ++ h :: after)
    (heffect : SameFunds ((ch.withoutHtlc h payee (before++after)).nextCommitment draw) ch') :
    Settles ch ch' := by
  refine ⟨heffect.funding.trans (funding_of_fixed ?_),?_⟩
  · rw [fixed_nextCommitment,fixed_withoutHtlc]
  · rw [heffect.htlcs,htlcs_withoutHtlc,hsplit]
    intro x hx
    rcases mem_append.mp (mem_filter.mp hx).1 with hb | ha
    · exact mem_append_left _ hb
    · exact mem_append_right _ (mem_cons_of_mem _ ha)

theorem Added.funding {direction : HtlcDirection} {amountSats : UInt64} {paymentHash : Blob 32}
    {cltvExpiry : UInt32} (h : Added direction amountSats paymentHash cltvExpiry ch ch') :
    ch'.funding = ch.funding := by
  obtain ⟨cap,draw,heffect⟩ := h.effect
  refine heffect.funding.trans (funding_of_fixed ?_)
  rw [fixed_nextCommitment,fixed_withHtlc]
  rfl

end

section

structure SplicedLsp where
  mgr : LspMgr
  splices : ℕ → Splice

inductive LspCall where
  | stfu (clientIdx : ℕ)
  | spliceInit (clientIdx : ℕ) (parsed : Bool)
  | spliceLocked (clientIdx : ℕ) (parsed : Option (Blob 32 × UInt32))
  | client (f : Factory) (clientIdx : ℕ) (msg : ClientMsg)

def SplicedLsp.quiesce (S : SplicedLsp) (clientIdx : ℕ) : SplicedLsp :=
  { S with
    splices := Function.update S.splices clientIdx { S.splices clientIdx with quiescent := 1 } }

variable (m : Musig)

def SplicedLsp.step (S : SplicedLsp) : LspCall → SplicedLsp
  | .stfu clientIdx => if clientIdx ≥ S.mgr.entries.length then S else S.quiesce clientIdx
  | .spliceInit clientIdx parsed =>
    if clientIdx ≥ S.mgr.entries.length ∨ !parsed then S else S.quiesce clientIdx
  | .spliceLocked clientIdx parsed =>
    match S.mgr.channel? clientIdx, parsed with
    | some ch, some (newTxid,newVout) =>
      { mgr := S.mgr.setChannel clientIdx
          (channelApplySpliceUpdate newTxid newVout ch.fundingAmount ch)
        splices := Function.update S.splices clientIdx .idle }
    | _, _ => S
  | .client f clientIdx msg => { S with mgr := (lspChannelsHandleMsg m f clientIdx msg S.mgr).mgr }

def SplicedLsp.Allowed (S : SplicedLsp) : LspCall → Prop
  | .spliceLocked clientIdx (some (newTxid,newVout)) => ∀ ch, S.mgr.channel? clientIdx = some ch →
      (S.splices clientIdx).Locks newTxid newVout ch
  | .client _ clientIdx (.updateAddHtlc _ (some msg)) => (S.splices clientIdx).quiescent = 0 ∧
      ∀ destIdx, msg.destClient = some destIdx → (S.splices destIdx).quiescent = 0
  | _ => True

variable {m} {f : Factory} {clientIdx : ℕ} {mgr mgr' : LspMgr} {splices : ℕ → Splice}

theorem claims_settle {preimage : Blob 32} {ch ch' : Channel}
    (h : Relation.ReflTransGen (Claims m.toSecp preimage) ch ch') : Settles ch ch' := by
  induction h with
  | refl => exact .refl _
  | tail _ hlast ih =>
    obtain ⟨id,before,h,after,hpaid⟩ := hlast
    obtain ⟨draw,heffect⟩ := hpaid.effect
    exact ih.trans (withoutHtlc_settles hpaid.entry.split heffect)

theorem spliceLaw_of_settles
    (h : ∀ i, Rel Settles (mgr.channel? i) (mgr'.channel? i)) :
    SpliceLaw splices mgr.channel? mgr'.channel? := by
  intro i ch ch' hch hch'
  have hrel := h i
  rw [hch,hch'] at hrel
  cases hrel with
  | some hsettles => exact hsettles.undisturbed

theorem settles_of_eq {i : ℕ} (heq : mgr'.channel? i = mgr.channel? i) :
    Rel Settles (mgr.channel? i) (mgr'.channel? i) :=
  rel_of_eq heq.symm Settles.refl

theorem fail_settles (draw : PcsDraw) (parsed : Option UInt64) (i : ℕ) :
    Rel Settles (mgr.channel? i) ((handleFailHtlc draw clientIdx parsed mgr).mgr.channel? i) := by
  unfold handleFailHtlc
  split
  · rename_i id ch hch
    refine rel_setChannel hch ?_ Settles.refl i
    rcases channelFailHtlc_cases id draw ch with ⟨-,heq⟩ | ⟨before,h,after,hat,heq⟩
    · rw [heq]
      exact .refl ch
    · rw [heq]
      exact withoutHtlc_settles hat.split (SameFunds.refl _)
  · exact settles_of_eq rfl

theorem fulfill_settles (w : FulfillWorld) (parsed : Option FulfillHtlcMsg) (i : ℕ) :
    Rel Settles (mgr.channel? i) ((handleFulfillHtlc m w clientIdx parsed mgr).mgr.channel? i) := by
  have houtcome : FulfillOutcome m w clientIdx mgr parsed _ := handleFulfillHtlc_outcome parsed
  generalize handleFulfillHtlc m w clientIdx parsed mgr = r at houtcome ⊢
  have hpaidOut {msg : FulfillHtlcMsg} {ch ch' : Channel} {before after : List Htlc} {h : Htlc}
      (hpaid : PaidOut m.toSecp msg.preimage msg.htlcId before h after ch ch') : Settles ch ch' := by
    obtain ⟨draw,heffect⟩ := hpaid.effect
    exact withoutHtlc_settles hpaid.entry.split heffect
  cases houtcome with
  | dropped => exact settles_of_eq rfl
  | broken _ _ _ _ _ _ hfound hpaid =>
    exact rel_setChannel hfound (hpaidOut hpaid) Settles.refl i
  | bridge _ _ _ _ _ _ _ _ _ hfound hpaid =>
    exact rel_setChannel hfound (hpaidOut hpaid) Settles.refl i
  | scanned _ _ ch' _ _ _ _ _ hfound hpaid =>
    rw [backPropagate_channel]
    refine rel_comp (rel_setChannel hfound (hpaidOut hpaid) Settles.refl i) ?_ fun _ _ _ => .trans
    change Rel Settles ((mgr.setChannel clientIdx ch').channel? i)
      (((mgr.setChannel clientIdx ch').channel? i).map _)
    refine rel_mapped fun chi _ => ?_
    unfold scanChannel
    split
    · exact .refl chi
    · exact claims_settle (scanHtlcs_claims _ _ _ _ _ _ _)

theorem add_law {w : AddWorld} {msg : AddHtlcMsg} (hawake : (splices clientIdx).quiescent = 0)
    (hdest : ∀ destIdx, msg.destClient = some destIdx → (splices destIdx).quiescent = 0) :
    SpliceLaw splices mgr.channel? (handleAddHtlc m f w clientIdx (some msg) mgr).mgr.channel? := by
  have houtcome : AddOutcome m f w clientIdx mgr (some msg) _ := handleAddHtlc_outcome (some msg)
  generalize handleAddHtlc m f w clientIdx (some msg) mgr = r at houtcome ⊢
  intro i old new hold hnew
  -- A channel that took an HTLC is not quiescent; every other one is settled at most.
  have hrest (h : Rel Settles (mgr.channel? i) (r.mgr.channel? i)) :
      Undisturbed (splices i) old new := by
    rw [hold,hnew] at h
    cases h with
    | some h => exact h.undisturbed
  by_cases hi : i = clientIdx
  · subst hi
    refine undisturbed_of_awake hawake ?_
    cases houtcome with
    | dropped => rw [mem_unique hold hnew]
    | refused _ _ _ _ hfound =>
      obtain rfl := mem_unique hold hfound
      obtain rfl := mem_unique hnew (channel_setChannel_self hold)
      rfl
    | broken _ _ _ hadds hadded =>
      obtain rfl := mem_unique hold hadds.found
      obtain rfl := mem_unique hnew (channel_setChannel_self hold)
      exact hadded.funding
    | routed _ _ ch' _ _ hadds hadded _ hroute =>
      obtain rfl := mem_unique hold hadds.found
      have hsender := hroute.senderChannel hadds.found
      obtain rfl := mem_unique hsender hnew
      exact hadded.funding
  · cases houtcome with
    | dropped => exact hrest (settles_of_eq rfl)
    | refused =>
      exact hrest (settles_of_eq (channel_setChannel_other (Ne.symm hi)))
    | broken =>
      exact hrest (settles_of_eq (channel_setChannel_other (Ne.symm hi)))
    | routed _ _ ch' _ r hadds _ _ hroute =>
      obtain rfl := some.inj hadds.parsed
      rcases hroute.placed_or with ⟨-,hothers⟩ |
        ⟨destIdx,dest,chd,chd',terms,cltv,hforward,hplaced,-,hmgr⟩
      · exact hrest (rel_mono (hothers i hi) fun _ _ _ h => h.settles)
      · have hset : ((mgr.setChannel clientIdx ch').accrue clientIdx terms.feeSats).channel? i =
            mgr.channel? i := (channel_accrue _).trans (channel_setChannel_other (Ne.symm hi))
        by_cases hid : destIdx = i
        · subst hid
          cases dest with
          | factory =>
            refine undisturbed_of_awake (hdest destIdx hforward.named) ?_
            have hchd := destChannel_factory hforward.found
            obtain rfl := mem_unique hold hchd
            have hself : r.mgr.channel? destIdx = some chd' := by
              rw [hmgr]
              exact channel_setChannel_self (hset.trans hchd)
            obtain rfl := mem_unique hself hnew
            exact hplaced.funding
          | jit =>
            refine hrest (settles_of_eq ?_)
            change r.mgr.channel? destIdx = _
            rw [hmgr]
            exact hset
        · refine hrest (settles_of_eq ?_)
          change r.mgr.channel? i = _
          rw [hmgr]
          exact (channel_setDest_other hid).trans hset

theorem SplicedLsp.lock_law_iff (S : SplicedLsp) (clientIdx : ℕ)
    (parsed : Option (Blob 32 × UInt32)) :
    SpliceLaw S.splices S.mgr.channel? (S.step m (.spliceLocked clientIdx parsed)).mgr.channel? ↔
      S.Allowed (.spliceLocked clientIdx parsed) := by
  cases parsed with
  | none =>
    have hsame : S.step m (.spliceLocked clientIdx none) = S := by simp [SplicedLsp.step]
    rw [hsame]
    exact ⟨fun _ => trivial,fun _ => spliceLaw_refl _ _⟩
  | some lock =>
    obtain ⟨newTxid,newVout⟩ := lock
    cases hch : S.mgr.channel? clientIdx with
    | none =>
      have hsame : S.step m (.spliceLocked clientIdx (some (newTxid,newVout))) = S := by
        simp [SplicedLsp.step,hch]
      rw [hsame]
      refine ⟨fun _ ch hch' => ?_,fun _ => spliceLaw_refl _ _⟩
      rw [hch] at hch'
      cases hch'
    | some ch =>
      have hstep : (S.step m (.spliceLocked clientIdx (some (newTxid,newVout)))).mgr =
          S.mgr.setChannel clientIdx
            (channelApplySpliceUpdate newTxid newVout ch.fundingAmount ch) := by
        simp [SplicedLsp.step,hch]
      rw [hstep,spliceLaw_iff_of_one hch (channel_setChannel_self hch)
        fun j hj => channel_setChannel_other (Ne.symm hj),applySpliceUpdate_undisturbed_iff]
      constructor
      · intro h ch' hch'
        rw [hch] at hch'
        exact some.inj hch' ▸ h
      · exact fun h => h ch hch

theorem SplicedLsp.step_law (S : SplicedLsp) (call : LspCall) (h : S.Allowed call) :
    SpliceLaw S.splices S.mgr.channel? (S.step m call).mgr.channel? := by
  have hidle := spliceLaw_refl S.splices S.mgr.channel?
  cases call with
  | stfu clientIdx =>
    rw [SplicedLsp.step]
    split <;> exact hidle
  | spliceInit clientIdx parsed =>
    rw [SplicedLsp.step]
    split <;> exact hidle
  | spliceLocked clientIdx parsed => exact (S.lock_law_iff clientIdx parsed).mpr h
  | client f clientIdx msg =>
    change SpliceLaw S.splices S.mgr.channel? (lspChannelsHandleMsg m f clientIdx msg S.mgr).mgr.channel?
    unfold lspChannelsHandleMsg
    split
    · exact hidle
    · cases msg with
      | updateAddHtlc w parsed =>
        cases parsed with
        | none => exact hidle
        | some msg => exact add_law h.1 h.2
      | updateFulfillHtlc w parsed => exact spliceLaw_of_settles (fulfill_settles w parsed)
      | updateFailHtlc draw parsed => exact spliceLaw_of_settles (fail_settles draw parsed)

end

section

structure SplicedNode where
  node : LnDispatch
  splices : ℕ → Splice

def LnDispatch.channel? (d : LnDispatch) (i : ℕ) : Option Channel := d.channels[i]?.join

def spliceMsgStfu : UInt16 := 0x0068

def spliceMsgSpliceInit : UInt16 := 78

def spliceMsgSpliceLocked : UInt16 := 80

def msgTxComplete : UInt16 := 70

def lockedTxid (msg : Bytes) : Blob 32 := copyBytes 32 (msg.drop 34)

def spliceMessage (msg : Bytes) (ch : Channel) (splice : Splice) : Channel × Splice :=
  if getU16 msg = spliceMsgStfu then (ch,{ splice with quiescent := 1 })
  else if getU16 msg = spliceMsgSpliceInit then
    if splice.quiescent ≠ 0 ∧ msg.length = 79 then (ch,⟨3,Blob.zero 32⟩) else (ch,splice)
  else if getU16 msg = msgTxComplete then
    if splice.quiescent ≠ 0 then (ch,{ splice with quiescent := 2 }) else (ch,splice)
  else if getU16 msg = spliceMsgSpliceLocked ∧ 66 ≤ msg.length then
    (channelApplySpliceUpdate (lockedTxid msg) 0 ch.fundingAmount ch,.idle)
  else (ch,splice)

def SplicedNode.spliced (s : NodeMsg) (S : SplicedNode) : SplicedNode :=
  match S.node.channel? s.peerIdx with
  | none => S
  | some ch =>
    let r := spliceMessage s.msg ch (S.splices s.peerIdx)
    { node := { S.node with channels := S.node.channels.set s.peerIdx (some r.1) }
      splices := Function.update S.splices s.peerIdx r.2 }

inductive NodeCall where
  | message (s : NodeMsg)
  | flush (answers : ℕ → Answers)

variable (sphinx : Sphinx) (ourPrivkey : Blob 32) (m : Musig)

def SplicedNode.step (S : SplicedNode) : NodeCall → SplicedNode
  | .message s =>
    if s.msg.length < 2 then S
    else
      let S := S.spliced s
      { S with node := ((s.processed sphinx ourPrivkey S.node).map Processed.node).getD S.node }
  | .flush answers => { S with node := (lnDispatchFlushRelay m answers S.node).node }

def SplicedNode.Allowed (S : SplicedNode) : NodeCall → Prop
  | .message s => ∀ ch, S.node.channel? s.peerIdx = some ch → getU16 s.msg = spliceMsgSpliceLocked →
      66 ≤ s.msg.length → (S.splices s.peerIdx).Locks (lockedTxid s.msg) 0 ch
  | .flush _ => ∀ e ∈ S.node.fwd, e.state = .pendingOut → ∀ outIdx,
      peerMgrFindByScid e.nextHopScid S.node.peers = some outIdx →
      (S.splices outIdx).quiescent = 0

variable {sphinx ourPrivkey m}

theorem processed_channels {s : NodeMsg} {d : LnDispatch} {p : Processed}
    (h : s.processed sphinx ourPrivkey d = some p) : p.node.channels = d.channels := by
  unfold NodeMsg.processed lnDispatchProcessMsg at h
  split at h
  · cases h
    rfl
  split at h
  · unfold processAdd at h
    split at h
    · cases h
      rfl
    · split at h
      · cases h
      · split at h
        · cases h
          rfl
        · cases h
          rfl
      · cases h
        rfl
      · cases h
        rfl
  split at h
  · cases h
    unfold processFulfill
    split <;> rfl
  split at h
  · cases h
    unfold processFail
    dsimp only
    split_ifs <;> rfl
  split at h
  · cases h
    unfold processFailMalformed
    split <;> rfl
  · cases h
    rfl

theorem spliceMessage_undisturbed_iff {msg : Bytes} {ch : Channel} {splice : Splice} :
    Undisturbed splice ch (spliceMessage msg ch splice).1 ↔
      (getU16 msg = spliceMsgSpliceLocked → 66 ≤ msg.length →
        splice.Locks (lockedTxid msg) 0 ch) := by
  have hsame : Undisturbed splice ch ch := (Settles.refl ch).undisturbed
  unfold spliceMessage
  split_ifs with hstfu hinit hopen hcomplete hquiet hlocked
  · exact iff_of_true hsame fun hl _ => absurd (hstfu.symm.trans hl) (by decide)
  · exact iff_of_true hsame fun hl _ => absurd (hinit.symm.trans hl) (by decide)
  · exact iff_of_true hsame fun hl _ => absurd (hinit.symm.trans hl) (by decide)
  · exact iff_of_true hsame fun hl _ => absurd (hcomplete.symm.trans hl) (by decide)
  · exact iff_of_true hsame fun hl _ => absurd (hcomplete.symm.trans hl) (by decide)
  · rw [applySpliceUpdate_undisturbed_iff]
    exact ⟨fun h _ _ => h,fun h => h hlocked.1 hlocked.2⟩
  · exact iff_of_true hsame fun hl hlen => absurd ⟨hl,hlen⟩ hlocked

theorem relayCall_funding (luck : Luck) (e : ForwardEntry) (ch : Channel) :
    (relayCall m luck e ch).Always (fun r => r.1.funding = ch.funding) := by
  unfold relayCall htlcCommitAddAndSign
  by_cases hok : AddAccepted ch .offered (e.outAmountMsat/1000) ∧ HasSlot luck.growHtlcs ch
  · rw [(channelAddHtlc_added hok.1 hok.2).choose_spec]
    refine andThen_always (P := fun ch' => ch'.funding = ch.funding) (fun _ => ?_) fun ch' h' => ?_
    · refine funding_of_fixed ?_
      rw [fixed_nextCommitment,fixed_withHtlc]
      rfl
    · exact (commitmentRound_sameFunds ch').mono fun _ hr => hr.funding.trans h'
  · rw [(channelAddHtlc_refused hok).choose_spec]
    exact Eq.refl ch.funding

structure Offers (splice : Splice) (ch ch' : Channel) : Prop where
  funding : ch'.funding = ch.funding
  still : splice.quiescent ≠ 0 → ch' = ch

theorem Offers.refl (splice : Splice) (ch : Channel) : Offers splice ch ch := ⟨rfl,fun _ => rfl⟩

theorem Offers.trans {splice : Splice} {ch ch' ch'' : Channel} (h : Offers splice ch ch')
    (h' : Offers splice ch' ch'') : Offers splice ch ch'' :=
  ⟨h'.funding.trans h.funding,fun hq => (h'.still hq).trans (h.still hq)⟩

def ChannelsOffer (splices : ℕ → Splice) (channels channels' : List (Option Channel)) : Prop :=
  ∀ i ch, channels[i]?.join = some ch → ∃ ch', channels'[i]?.join = some ch' ∧
    Offers (splices i) ch ch'

theorem ChannelsOffer.refl (splices : ℕ → Splice) (channels : List (Option Channel)) :
    ChannelsOffer splices channels channels := fun _ ch h => ⟨ch,h,.refl _ ch⟩

theorem flushEntry_offers {splices : ℕ → Splice} {answers : Answers} {peers : List Peer}
    {channels : List (Option Channel)} {e : ForwardEntry}
    (h : e.state = .pendingOut → ∀ outIdx, peerMgrFindByScid e.nextHopScid peers = some outIdx →
      (splices outIdx).quiescent = 0) :
    ChannelsOffer splices channels (flushEntry m answers peers channels e).channels := by
  unfold flushEntry
  split_ifs with hstate
  · exact .refl _ _
  · split
    · exact .refl _ _
    · rename_i outIdx hfind
      split
      · exact .refl _ _
      · rename_i out hout
        intro i ch hch
        by_cases hi : i = outIdx
        · subst hi
          obtain rfl := mem_unique hch hout
          obtain ⟨hlt,-⟩ := List.getElem?_eq_some_iff.mp (Option.join_eq_some_iff.mp hch)
          have hfunding :=
            (relayCall_funding (m := m) answers.luck e ch).play answers.oks answers.inbox
          refine ⟨_,?_,hfunding,fun hq => absurd (h (not_not.mp hstate) i hfind) hq⟩
          rw [getElem?_set_self hlt]
          rfl
        · refine ⟨ch,?_,.refl _ ch⟩
          rw [getElem?_set_ne (Ne.symm hi)]
          exact hch

theorem flushEntries_offers {splices : ℕ → Splice} {answers : ℕ → Answers} {peers : List Peer}
    {fwd : List ForwardEntry} (h : ∀ e ∈ fwd, e.state = .pendingOut → ∀ outIdx,
      peerMgrFindByScid e.nextHopScid peers = some outIdx → (splices outIdx).quiescent = 0)
    (k : ℕ) (channels : List (Option Channel)) :
    ChannelsOffer splices channels (flushEntries m answers peers k channels fwd).1 := by
  induction fwd generalizing k channels with
  | nil => exact .refl _ _
  | cons e _ ih =>
    intro i ch hch
    have hentry : ChannelsOffer splices channels
        (flushEntry m (answers k) peers channels e).channels :=
      flushEntry_offers (h e mem_cons_self)
    obtain ⟨ch',hch',hfirst⟩ := hentry i ch hch
    obtain ⟨ch'',hch'',hrest⟩ := ih (fun e' he' => h e' (mem_cons_of_mem _ he')) (k + 1) _ i
      ch' hch'
    exact ⟨ch'',hch'',hfirst.trans hrest⟩

theorem SplicedNode.spliced_law_iff (S : SplicedNode) (s : NodeMsg) :
    SpliceLaw S.splices S.node.channel? (S.spliced s).node.channel? ↔ S.Allowed (.message s) := by
  unfold SplicedNode.spliced
  cases hch : S.node.channel? s.peerIdx with
  | none =>
    refine ⟨fun _ ch hch' => ?_,fun _ => spliceLaw_refl _ _⟩
    rw [hch] at hch'
    cases hch'
  | some ch =>
    obtain ⟨hlt,-⟩ := List.getElem?_eq_some_iff.mp (Option.join_eq_some_iff.mp hch)
    rw [spliceLaw_iff_of_one hch (by rw [LnDispatch.channel?,getElem?_set_self hlt]; rfl)
      fun j hj => by
        simp only [LnDispatch.channel?,getElem?_set_ne (Ne.symm hj)],spliceMessage_undisturbed_iff]
    constructor
    · intro h ch' hch'
      rw [hch] at hch'
      exact some.inj hch' ▸ h
    · exact fun h => h ch hch

theorem SplicedNode.step_message_channels (S : SplicedNode) (s : NodeMsg) (h : 2 ≤ s.msg.length) :
    (S.step sphinx ourPrivkey m (.message s)).node.channel? = (S.spliced s).node.channel? := by
  rw [SplicedNode.step,if_neg (Nat.not_lt.mpr h)]
  cases hp : s.processed sphinx ourPrivkey (S.spliced s).node with
  | none => simp [hp]
  | some =>
    funext i
    simp [hp,LnDispatch.channel?,processed_channels hp]

theorem SplicedNode.message_law_iff (S : SplicedNode) (s : NodeMsg) :
    SpliceLaw S.splices S.node.channel? (S.step sphinx ourPrivkey m (.message s)).node.channel? ↔
      S.Allowed (.message s) := by
  by_cases hshort : s.msg.length < 2
  · rw [SplicedNode.step,if_pos hshort]
    refine ⟨fun _ _ _ _ hlong => ?_,fun _ => spliceLaw_refl _ _⟩
    omega
  · rw [S.step_message_channels s (Nat.not_lt.mp hshort)]
    exact S.spliced_law_iff s

theorem SplicedNode.step_law (S : SplicedNode) (call : NodeCall) (h : S.Allowed call) :
    SpliceLaw S.splices S.node.channel? (S.step sphinx ourPrivkey m call).node.channel? := by
  cases call with
  | message s => exact (S.message_law_iff s).mpr h
  | flush answers =>
    intro i ch ch' hch hch'
    have hall : ChannelsOffer S.splices S.node.channels
        (S.step sphinx ourPrivkey m (.flush answers)).node.channels :=
      flushEntries_offers h 0 S.node.channels
    obtain ⟨ch'',hch'',hoffers⟩ := hall i ch hch
    obtain rfl := mem_unique hch'' hch'
    exact ⟨fun hne => absurd hoffers.funding hne,
      fun hq => by rw [hoffers.still hq]; exact Subset.refl _⟩

end

def idleLsp : SplicedLsp := ⟨LspMgr.sample [lspChannel,lspChannel],fun _ => .idle⟩

def paymentCall : LspCall :=
  .client timedFactory 0 (.updateAddHtlc ⟨goodRound,goodRound,true,true⟩ (some payment))

def lockMsg : NodeMsg := ⟨0,0,6,[0,80] ++ replicate 32 0 ++ replicate 32 7⟩

def idleNode : SplicedNode :=
  ⟨⟨[],none,[⟨true,5⟩],[some lspChannel]⟩,fun _ => .idle⟩

end SuperScalar
