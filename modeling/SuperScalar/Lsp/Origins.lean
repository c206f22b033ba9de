import SuperScalar.Lsp.Records

namespace SuperScalar

open List Option UInt64 LspAction

structure BridgeRun where
  mgr : LspMgr
  outstanding : List Outbound

inductive BridgeOp where
  | client (o : HubOp)
  | bridge (f : Factory) (msg : BridgeMsg)
  | invoice (paymentHash : Blob 32) (destClient : ℕ)
  | blocks (height : UInt32) (w : BlockWorld)
  | bridgeTimeouts (height : UInt32) (draws : ℕ → PcsDraw) (reached : ℕ → Bool)

def sentPayment (senderIdx : ℕ) (htlcId : UInt64) : LspAction → Option Outbound
  | .sendPay _ paymentHash requestId => some ⟨requestId,senderIdx,htlcId,paymentHash⟩
  | _ => none

def paymentsMade (mgr : LspMgr) (senderIdx : ℕ) (r : Handled) : List Outbound :=
  match mgr.channel? senderIdx with
  | none => []
  | some ch => if r.ok then r.actions.filterMap (sentPayment senderIdx ch.nextHtlcId) else []

def awaited (msg : BridgeMsg) (payments : List Outbound) : List Outbound :=
  match msg with
  | .payResult _ (some msg) => payments.filter (fun p => p.requestId ≠ msg.requestId)
  | _ => payments

def bridgeStep (m : Musig) (s : BridgeRun) : BridgeOp → BridgeRun
  | .client o =>
    ⟨(o.handle m s.mgr).mgr,paymentsMade s.mgr o.clientIdx (o.handle m s.mgr) ++ s.outstanding⟩
  | .bridge f msg => ⟨(lspChannelsHandleBridgeMsg m f msg s.mgr).mgr,awaited msg s.outstanding⟩
  | .invoice paymentHash destClient =>
    ⟨(lspChannelsRegisterInvoice paymentHash destClient s.mgr).getD s.mgr,s.outstanding⟩
  | .blocks height w => ⟨(checkTimeouts height w s.mgr).1,s.outstanding⟩
  | .bridgeTimeouts height draws reached =>
    ⟨(lspChannelsCheckBridgeHtlcTimeouts height draws reached s.mgr).1,s.outstanding⟩

section

variable (m : Musig) (s : BridgeRun)

structure RoomLeft (mgr : LspMgr) : Prop where
  ids : ∀ i ch, mgr.channel? i = some ch → IdsLeft ch
  requests : mgr.nextRequestId.toNat+1 < 2^64

def PayOk (clientIdx : ℕ) (w : AddWorld) (parsed : Option AddHtlcMsg) : Prop :=
  ∀ msg ch, SenderAdds w clientIdx msg s.mgr parsed ch → SenderCommits m w msg ch →
    Bridgeable w msg s.mgr → RecordsLast s.mgr.htlcOriginsCap s.mgr.htlcOrigins

def ClaimOk (clientIdx : ℕ) (parsed : Option FulfillHtlcMsg) : Prop :=
  ∀ msg ch before h after, parsed = some msg → s.mgr.channel? clientIdx = some ch →
    HtlcAt ch msg.htlcId before h after → m.sha256 msg.preimage.val = h.paymentHash →
    ∀ o, s.mgr.htlcOrigins.find? (fun o => o.active && o.paymentHash = h.paymentHash) = some o →
      ∀ p ∈ s.outstanding, o.requestId ≠ p.requestId

def BridgeOp.Fits : BridgeOp → Prop
  | .client ⟨_,clientIdx,.updateAddHtlc w parsed⟩ => PayOk m s clientIdx w parsed
  | .client ⟨_,clientIdx,.updateFulfillHtlc _ parsed⟩ => ClaimOk m s clientIdx parsed
  | .bridge _ (.addHtlc _ (some msg)) =>
    Unshadowed s.mgr.htlcOriginsCap msg.paymentHash s.mgr.htlcOrigins
  | _ => True

def BridgeGuard (o : BridgeOp) : Prop := RoomLeft s.mgr ∧ o.Fits m s

end

section

variable {m : Musig} {payments : List Outbound} {mgr mgr' mgr'' : LspMgr}

structure Swept (payments : List Outbound) (mgr mgr' : LspMgr) : Prop where
  channels : ∀ i, Rel Thinned (mgr.channel? i) (mgr'.channel? i)
  origins : ∀ j : ℕ, SlotRelease payments mgr.htlcOrigins[j]? mgr'.htlcOrigins[j]?
  next : mgr'.nextRequestId = mgr.nextRequestId

variable {i clientIdx : ℕ} {origins : List HtlcOrigin} {paymentHash : Blob 32}

theorem thinned_of_eq (h : mgr'.channel? i = mgr.channel? i) :
    Rel Thinned (mgr.channel? i) (mgr'.channel? i) :=
  rel_of_eq h.symm Thinned.refl

theorem Swept.refl (mgr : LspMgr) : Swept payments mgr mgr :=
  ⟨fun _ => thinned_of_eq rfl,fun _ => .same _,rfl⟩

theorem Swept.trans (h : Swept payments mgr mgr') (h' : Swept payments mgr' mgr'') :
    Swept payments mgr mgr'' where
  channels i := rel_comp (h.channels i) (h'.channels i) fun _ _ _ => Thinned.trans
  origins j := (h.origins j).trans (h'.origins j)
  next := h'.next.trans h.next

theorem slots_released (h : ∀ o, origins[i]? = some o → ¬ o.Spared payments) (j : ℕ) :
    SlotRelease payments origins[j]? (origins.modify i HtlcOrigin.released)[j]? := by
  by_cases hj : i = j
  · subst hj
    rw [getElem?_modify_eq]
    cases ho : origins[i]? with
    | none => exact .same _
    | some o => exact .released o (h o ho)
  · rw [getElem?_modify_ne _ _ hj]
    exact .same _

theorem release_swept (h : ∀ o, mgr.htlcOrigins[i]? = some o → ¬ o.Spared payments) :
    Swept payments mgr (releaseOrigin i mgr) :=
  ⟨fun _ => thinned_of_eq rfl,slots_released h,rfl⟩

theorem setChannel_swept {ch ch' : Channel} (hch : mgr.channel? i = some ch) (h : Thinned ch ch') :
    Swept payments mgr (mgr.setChannel i ch') :=
  ⟨rel_setChannel hch h Thinned.refl,fun _ => .same _,rfl⟩

theorem mapChannels_swept {change : ℕ → Channel → Channel} (h : ∀ c ch, Thinned ch (change c ch)) :
    Swept payments mgr (mgr.mapChannels change) := by
  refine ⟨fun c => ?_,fun _ => .same _,rfl⟩
  rw [channel_mapChannels]
  exact rel_mapped fun ch _ => h c ch

theorem sweepAll_swept {sweep : ℕ → LspMgr → LspMgr × List LspAction}
    (h : ∀ i mgr, Swept payments mgr (sweep i mgr).1) (slots : List ℕ) (mgr : LspMgr) :
    Swept payments mgr (sweepAll sweep slots mgr).1 := by
  induction slots generalizing mgr with
  | nil => exact .refl mgr
  | cons i _ ih => exact (h i mgr).trans (ih _)

theorem failByHash_thinned (paymentHash : Blob 32) (draw : PcsDraw) (ch : Channel) :
    Thinned ch (failByHash paymentHash draw ch) := by
  unfold failByHash
  split
  · exact .refl ch
  · exact failHtlc_thinned _ draw ch

theorem not_spared_of_cltv {o : HtlcOrigin} (h : o.cltvExpiry ≠ 0) : ¬ o.Spared payments :=
  fun hspared => h hspared.1

theorem sweepOrigin_swept (height : UInt32) (draws : ℕ → ℕ → PcsDraw) (i : ℕ) (mgr : LspMgr) :
    Swept payments mgr (sweepOrigin height draws i mgr).1 := by
  unfold sweepOrigin
  cases hi : mgr.htlcOrigins[i]? with
  | none => exact .refl mgr
  | some =>
    dsimp only
    split_ifs with hdue
    · simp only [Bool.and_eq_true,decide_eq_true_eq] at hdue
      refine (mapChannels_swept fun c => failByHash_thinned _ _).trans (release_swept fun x hx => ?_)
      obtain rfl := mem_unique hi hx
      exact not_spared_of_cltv hdue.1.2
    · exact .refl mgr

theorem checkTimeouts_swept (height : UInt32) (w : BlockWorld) (mgr : LspMgr) :
    Swept payments mgr (checkTimeouts height w mgr).1 := by
  have hscan : Swept payments mgr
      (mgr.mapChannels (fun c ch => (channelCheckHtlcTimeouts height (w.scan c) ch).1)) :=
    mapChannels_swept fun c => timeouts_thinned _ _
  unfold checkTimeouts
  split_ifs
  · exact hscan.trans (sweepAll_swept (sweepOrigin_swept _ _) _ _)
  · exact hscan

theorem checkBridgeOrigin_swept (height : UInt32) (draws : ℕ → PcsDraw) (reached : ℕ → Bool)
    (i : ℕ) (mgr : LspMgr) : Swept payments mgr (checkBridgeOrigin height draws reached i mgr).1 := by
  unfold checkBridgeOrigin
  cases hi : mgr.htlcOrigins[i]? with
  | none => exact .refl mgr
  | some o =>
    by_cases hdue : (o.active && o.bridgeHtlcId ≠ 0 && o.cltvExpiry ≠ 0 &&
        height + factoryCltvDeltaDefault ≥ o.cltvExpiry) = true
    · dsimp only
      rw [if_pos hdue]
      simp only [Bool.and_eq_true,decide_eq_true_eq] at hdue
      have hnot (x : HtlcOrigin) (hx : mgr.htlcOrigins[i]? = some x) : ¬ x.Spared payments := by
        obtain rfl := mem_unique hi hx
        exact not_spared_of_cltv hdue.1.2
      cases hch : mgr.channel? o.senderIdx with
      | none => exact release_swept hnot
      | some ch => exact (setChannel_swept hch (failHtlc_thinned _ _ ch)).trans (release_swept hnot)
    · dsimp only
      rw [if_neg hdue]
      exact .refl mgr

theorem registerInvoice_eq {destClient : ℕ}
    (h : lspChannelsRegisterInvoice paymentHash destClient mgr = some mgr') :
    ∃ invoices, mgr' = { mgr with invoices := invoices } := by
  unfold lspChannelsRegisterInvoice at h
  by_cases hrange : destClient ≥ mgr.entries.length
  · rw [if_pos hrange] at h
    cases h
  · rw [if_neg hrange] at h
    split at h
    · exact ⟨_,(some.inj h).symm⟩
    · split_ifs at h
      exact ⟨_,(some.inj h).symm⟩

theorem invoices_swept (invoices : List InvoiceEntry) :
    Swept payments mgr { mgr with invoices := invoices } :=
  ⟨fun _ => thinned_of_eq rfl,fun _ => .same _,rfl⟩

theorem registerInvoice_swept (paymentHash : Blob 32) (destClient : ℕ) (mgr : LspMgr) :
    Swept payments mgr ((lspChannelsRegisterInvoice paymentHash destClient mgr).getD mgr) := by
  cases hregister : lspChannelsRegisterInvoice paymentHash destClient mgr with
  | none => exact .refl mgr
  | some =>
    obtain ⟨invoices,rfl⟩ := registerInvoice_eq hregister
    exact invoices_swept invoices

theorem settlePayment_sameFunds {r : Round} (msg : PayResultMsg) (clientIdx : ℕ) (htlcId : UInt64)
    (ch : Channel) :
    SameFunds (resolveHtlc m r msg htlcId ch) (settlePayment m r msg clientIdx htlcId ch).1 := by
  unfold settlePayment
  split_ifs
  · exact (createSig_sameFunds _).trans (receiveAck_sameFunds _ _ _)
  · exact .refl _

theorem settlePayment_thinned (r : Round) (msg : PayResultMsg) (clientIdx : ℕ) (htlcId : UInt64)
    (ch : Channel) : Thinned ch (settlePayment m r msg clientIdx htlcId ch).1 := by
  refine Thinned.trans ?_ (settlePayment_sameFunds msg clientIdx htlcId ch).thinned
  unfold resolveHtlc
  split_ifs
  · exact fulfillHtlc_thinned _ _ _ _ ch
  · exact failHtlc_thinned _ _ ch

theorem payResult_swept {r : Round} {parsed : Option PayResultMsg} :
    Swept (awaited (.payResult r parsed) payments) mgr (handlePayResult m r parsed mgr).mgr := by
  unfold handlePayResult
  cases parsed with
  | none => exact .refl mgr
  | some msg =>
    dsimp only
    cases hfind : mgr.htlcOrigins.findIdx?
        (fun o => o.active && o.requestId = msg.requestId) with
    | none => exact .refl mgr
    | some i =>
      obtain ⟨⟨o,ho,hboth⟩,-⟩ := Lists.findIdx_some_iff.mp hfind
      have hid := of_decide_eq_true (Bool.and_eq_true_iff.mp hboth).2
      have hreleased : Swept (awaited (.payResult r (some msg)) payments) mgr
          (releaseOrigin i mgr) := by
        refine release_swept fun x hx hspared => ?_
        obtain rfl := mem_unique ho hx
        obtain ⟨-,p,hp,hrequest⟩ := hspared
        have hother := of_decide_eq_true (mem_filter.mp hp).2
        exact hother (hrequest.symm.trans hid)
      dsimp only
      rw [ho,bind_some]
      cases hch : mgr.channel? o.senderIdx with
      | none => exact hreleased
      | some ch =>
        exact hreleased.trans (setChannel_swept hch (settlePayment_thinned _ _ _ _ ch))

theorem fail_swept {draw : PcsDraw} {parsed : Option UInt64} :
    Swept payments mgr (handleFailHtlc draw clientIdx parsed mgr).mgr := by
  unfold handleFailHtlc
  split
  · rename_i id ch hch
    exact setChannel_swept hch (failHtlc_thinned id draw ch)
  · exact .refl mgr

theorem usedOrigins_slots
    (h : ∀ o, origins.find? (fun o => o.active && o.paymentHash = paymentHash) = some o →
      ∀ p ∈ payments, o.requestId ≠ p.requestId) (j : ℕ) :
    SlotRelease payments origins[j]? (usedOrigins paymentHash origins)[j]? := by
  unfold usedOrigins
  cases hfind : origins.findIdx? (fun o => o.active && o.paymentHash = paymentHash) with
  | none => exact .same _
  | some =>
    refine slots_released (fun o ho hspared => ?_) j
    obtain ⟨-,p,hp,hrequest⟩ := hspared
    refine h o ?_ p hp hrequest
    rw [find?_eq_bind_findIdx?_getElem?,hfind]
    exact ho

theorem fulfill_swept {s : BridgeRun} {w : FulfillWorld} {parsed : Option FulfillHtlcMsg}
    (hok : ClaimOk m s clientIdx parsed) :
    Swept s.outstanding s.mgr (handleFulfillHtlc m w clientIdx parsed s.mgr).mgr := by
  have houtcome : FulfillOutcome m w clientIdx s.mgr parsed _ := handleFulfillHtlc_outcome parsed
  generalize handleFulfillHtlc m w clientIdx parsed s.mgr = r at houtcome ⊢
  cases houtcome with
  | dropped => exact .refl _
  | broken _ _ _ _ _ _ hfound hpaid => exact setChannel_swept hfound hpaid.thinned
  | bridge msg ch _ before after h _ _ _ hfound hpaid _ _ horigins =>
    have hchannel : Swept s.outstanding s.mgr _ := setChannel_swept hfound hpaid.thinned
    refine ⟨hchannel.channels,fun j => ?_,rfl⟩
    rw [horigins,hpaid.hash]
    exact usedOrigins_slots (hok msg ch before h after rfl hfound hpaid.entry hpaid.hash) j
  | scanned msg ch ch' before after h _ origins hfound hpaid horigins =>
    have hchannel : Swept s.outstanding s.mgr _ := setChannel_swept hfound hpaid.thinned
    refine ⟨fun i => ?_,fun j => ?_,rfl⟩
    · refine rel_comp (hchannel.channels i) ?_ fun _ _ _ => Thinned.trans
      rw [backPropagate_channel]
      change Rel Thinned ((s.mgr.setChannel clientIdx ch').channel? i)
        (((s.mgr.setChannel clientIdx ch').channel? i).map _)
      refine rel_mapped fun chi _ => ?_
      unfold scanChannel
      split_ifs
      · exact .refl chi
      · exact claims_thinned (scanHtlcs_claims _ _ _ _ _ _ _)
    · rw [horigins,hpaid.hash]
      exact usedOrigins_slots (hok msg ch before h after rfl hfound hpaid.entry hpaid.hash) j

end

section

variable {m : Musig} {f : Factory} {payments : List Outbound} {mgr mgr' : LspMgr} {p : Outbound}

def FreshId (mgr mgr' : LspMgr) (id : UInt64) : Prop :=
  id = 0 ∨ (mgr.nextRequestId ≤ id ∧ id < mgr'.nextRequestId)

structure BridgeMove (payments : List Outbound) (mgr mgr' : LspMgr) : Prop where
  channels : ∀ i, Rel Turnover (mgr.channel? i) (mgr'.channel? i)
  origins : ∀ j : ℕ, SlotMove payments (FreshId mgr mgr') mgr.htlcOrigins[j]? mgr'.htlcOrigins[j]?
  next : mgr.nextRequestId ≤ mgr'.nextRequestId

theorem Swept.move (h : Swept payments mgr mgr') : BridgeMove payments mgr mgr' where
  channels i := rel_mono (h.channels i) fun _ _ _ => Turnover.thinned
  origins j := .release _ _ (h.origins j)
  next := h.next ▸ UInt64.le_refl _

structure Outbound.Followed (p : Outbound) (mgr : LspMgr) : Prop where
  recorded : Recorded p mgr.htlcOrigins
  held : ∃ ch, mgr.channel? p.senderIdx = some ch ∧ p.Held ch
  positive : p.requestId ≠ 0

structure MgrOk (mgr : LspMgr) : Prop where
  channels : ∀ i ch, mgr.channel? i = some ch → IdsOk ch
  requests : ∀ (j : ℕ) (o : HtlcOrigin), mgr.htlcOrigins[j]? = some o →
    o.requestId < mgr.nextRequestId
  positive : 0 < mgr.nextRequestId

theorem BridgeMove.followed (hmove : BridgeMove payments mgr mgr') (hok : MgrOk mgr)
    (hroom : RoomLeft mgr) (hp : p ∈ payments) (h : p.Followed mgr) : p.Followed mgr' := by
  have hold : ¬ FreshId mgr mgr' p.requestId := by
    rintro (hzero | ⟨hle,-⟩)
    · exact h.positive hzero
    · obtain ⟨i,o,hi,-,hnames,-⟩ := h.recorded
      have hlt := hok.requests i o hi
      rw [hnames.request] at hlt
      exact UInt64.not_le.mpr hlt hle
  obtain ⟨ch,hch,hheld⟩ := h.held
  obtain ⟨ch',hch',hturn⟩ := rel_after (hmove.channels p.senderIdx) hch
  exact ⟨h.recorded.move hp hold hmove.origins,
    ⟨ch',hch',hheld.turnover (hroom.ids _ ch hch) hturn⟩,h.positive⟩

theorem BridgeMove.ok (hmove : BridgeMove payments mgr mgr') (hok : MgrOk mgr)
    (hroom : RoomLeft mgr) : MgrOk mgr' := by
  have hpositive := UInt64.lt_of_lt_of_le hok.positive hmove.next
  refine ⟨fun i ch hch => ?_,fun j o ho => ?_,hpositive⟩
  · obtain ⟨ch₀,hch₀,hturn⟩ := rel_before (hmove.channels i) hch
    exact (hok.channels i ch₀ hch₀).turnover (hroom.ids i ch₀ hch₀) hturn
  · rcases (hmove.origins j).request ho with (hzero | ⟨-,hlt⟩) | ⟨x,hx,heq⟩
    · rw [hzero]
      exact hpositive
    · exact hlt
    · rw [heq]
      exact UInt64.lt_of_lt_of_le (hok.requests j x hx) hmove.next

structure InboundCommits (m : Musig) (w : InboundWorld) (ch : Channel) : Prop where
  told : w.sentAdd = true
  signed : (channelCreateCommitmentPartialSig m ch).2.isSome = true
  sent : w.round.sent = true
  answered : w.round.ack ≠ .missing

variable {w : InboundWorld} {msg : BridgeAddMsg} {ch added : Channel} {i clientIdx : ℕ}
  {r : Handled} {newHtlcId : UInt64}

theorem deliverInbound_cases {destIdx : ℕ} {destHtlcId : UInt64} :
    ∃ ch' actions ok, deliverInbound m w msg destIdx destHtlcId ch mgr =
      ⟨mgr.setChannel destIdx ch',actions,ok⟩ ∧ Thinned ch ch' ∧
      (InboundCommits m w ch → SameFunds ch ch' ∧ actions =
        [announcement destIdx msg.amountMsat msg.paymentHash msg.cltvExpiry destHtlcId,
          savedBalance destIdx ch',.saveHtlc destIdx (persistedHtlc .offered
            (msg.amountMsat/1000) msg.paymentHash msg.cltvExpiry destHtlcId)]) := by
  have hsame := createSig_sameFunds (m := m) ch
  unfold deliverInbound
  cases hcreate : channelCreateCommitmentPartialSig m ch with
  | mk signed sig =>
    rw [hcreate] at hsame
    have hnot {P : Prop} (h : sig.isSome = false) (hcommits : InboundCommits m w ch) : P := by
      have hsigned := hcommits.signed
      rw [hcreate,h] at hsigned
      cases hsigned
    cases hadd : w.sentAdd with
    | false =>
      refine ⟨ch,_,_,rfl,.refl ch,fun hcommits => ?_⟩
      rw [hcommits.told] at hadd
      cases hadd
    | true =>
      cases sig with
      | none => exact ⟨signed,_,_,rfl,hsame.thinned,hnot rfl⟩
      | some =>
        split_ifs with hfalse hsent hack
        · cases hfalse
        · refine ⟨signed,_,_,rfl,hsame.thinned,fun hcommits => ?_⟩
          rw [hcommits.sent] at hsent
          cases hsent
        · exact ⟨_,_,_,rfl,hsame.thinned.trans (failHtlc_thinned _ _ signed),
            fun hcommits => absurd hack hcommits.answered⟩
        · have hacked := hsame.trans (receiveAck_sameFunds (m := m) false w.round signed)
          exact ⟨_,_,_,rfl,hacked.thinned,fun _ => ⟨hacked,rfl⟩⟩

theorem inboundDest_eq (msg : BridgeAddMsg) (mgr : LspMgr) :
    ∃ invoices, (inboundDest msg mgr).1 = { mgr with invoices := invoices } := by
  have hsame : ∃ invoices, mgr = { mgr with invoices := invoices } := ⟨mgr.invoices,rfl⟩
  unfold inboundDest
  cases lspChannelsLookupInvoice mgr msg.paymentHash with
  | some => exact hsame
  | none =>
    cases msg.keysend with
    | none => exact hsame
    | some asked =>
      dsimp only
      cases hregister : lspChannelsRegisterInvoice msg.paymentHash
          (if asked ≥ mgr.entries.length then 0 else asked) mgr with
      | none => exact hsame
      | some => exact registerInvoice_eq hregister

inductive InboundOutcome (m : Musig) (w : InboundWorld) (msg : BridgeAddMsg) (mgr : LspMgr) :
    Handled → Prop
  | kept (invoices : List InvoiceEntry) (actions : List LspAction) (ok : Bool)
      (hquiet : ∀ a ∈ actions, ∃ reason, a = .sendBridgeFail msg.paymentHash reason msg.htlcId) :
      InboundOutcome m w msg mgr ⟨{ mgr with invoices := invoices },actions,ok⟩
  | refused (invoices : List InvoiceEntry) (destIdx : ℕ) (ch ch' : Channel)
      (hch : mgr.channel? destIdx = some ch) (hcap : Recapped ch ch') :
      InboundOutcome m w msg mgr ⟨{ mgr with invoices := invoices }.setChannel destIdx ch',
        [.sendBridgeFail msg.paymentHash "insufficient_funds" msg.htlcId],true⟩
  | recorded (invoices : List InvoiceEntry) (destIdx : ℕ) (ch added ch' : Channel)
      (actions : List LspAction) (ok : Bool) (hdest : (inboundDest msg mgr).2 = .ok destIdx)
      (hch : mgr.channel? destIdx = some ch) (hslot : HasSlot w.round.grow ch)
      (hcall : channelAddHtlc .offered (msg.amountMsat/1000) msg.paymentHash msg.cltvExpiry
        w.round.grow w.round.draw ch = (added,some ch.nextHtlcId))
      (hadded : Added .offered (msg.amountMsat/1000) msg.paymentHash msg.cltvExpiry ch added)
      (hthinned : Thinned added ch')
      (hcommits : InboundCommits m w added → SameFunds added ch' ∧ actions =
        [announcement destIdx msg.amountMsat msg.paymentHash msg.cltvExpiry ch.nextHtlcId,
          savedBalance destIdx ch',.saveHtlc destIdx (persistedHtlc .offered
            (msg.amountMsat/1000) msg.paymentHash msg.cltvExpiry ch.nextHtlcId)]) :
      InboundOutcome m w msg mgr
        ⟨{ mgr with
            invoices := invoices
            htlcOrigins := inboundOrigins msg destIdx ch.nextHtlcId mgr.htlcOriginsCap
              mgr.htlcOrigins }.setChannel destIdx ch',actions,ok⟩

theorem handleBridgeAdd_outcome (w : InboundWorld) (msg : BridgeAddMsg) :
    InboundOutcome m w msg mgr (handleBridgeAdd m f w (some msg) mgr) := by
  obtain ⟨invoices,hdest⟩ := inboundDest_eq msg mgr
  have hrefused (reason : String) : ∀ a ∈
      [sendBridgeFail msg.paymentHash reason msg.htlcId],
      ∃ reason, a = .sendBridgeFail msg.paymentHash reason msg.htlcId :=
    fun a ha => ⟨reason,mem_singleton.mp ha⟩
  have hdropped : ∀ a ∈ ([] : List LspAction),
      ∃ reason, a = .sendBridgeFail msg.paymentHash reason msg.htlcId :=
    fun a ha => absurd ha not_mem_nil
  unfold handleBridgeAdd
  dsimp only
  cases hsplit : inboundDest msg mgr with
  | mk mgr₁ dest =>
    obtain rfl : mgr₁ = { mgr with invoices := invoices } := by
      rw [hsplit] at hdest
      exact hdest
    cases dest with
    | error reason => exact .kept invoices _ _ (hrefused reason)
    | ok destIdx =>
      cases inboundCheck f msg with
      | error reason => exact .kept invoices _ _ (hrefused reason)
      | ok =>
        dsimp only
        cases hch : LspMgr.channel? { mgr with invoices := invoices } destIdx with
        | none => exact .kept invoices _ _ hdropped
        | some ch =>
          dsimp only
          split_ifs
          · exact .kept invoices _ _ hdropped
          · by_cases hadd : AddAccepted ch .offered (msg.amountMsat/1000) ∧
                HasSlot w.round.grow ch
            · obtain ⟨cap,heq⟩ := channelAddHtlc_added hadd.1 hadd.2
              have hadded : Added .offered (msg.amountMsat/1000) msg.paymentHash msg.cltvExpiry
                  ch _ := ⟨hadd.1,cap,w.round.draw,SameFunds.refl _⟩
              rw [heq]
              dsimp only
              obtain ⟨ch',actions,ok,hdeliver,hthinned,hcommits⟩ := deliverInbound_cases
              rw [hdeliver,recordInbound_eq]
              exact .recorded invoices destIdx ch _ ch' actions ok (by rw [hsplit]) hch hadd.2 heq
                hadded hthinned hcommits
            · obtain ⟨cap,heq⟩ := channelAddHtlc_refused hadd
              rw [heq]
              exact .refused invoices destIdx ch _ hch ⟨cap,rfl⟩

theorem turnover_of_eq (h : mgr'.channel? i = mgr.channel? i) :
    Rel Turnover (mgr.channel? i) (mgr'.channel? i) :=
  rel_of_eq h.symm fun ch => .thinned (.refl ch)

theorem InboundOutcome.move (h : InboundOutcome m w msg mgr r)
    (hfits : Unshadowed mgr.htlcOriginsCap msg.paymentHash mgr.htlcOrigins) :
    BridgeMove payments mgr r.mgr := by
  cases h with
  | kept invoices => exact (invoices_swept invoices).move
  | refused invoices _ _ _ hch hcap =>
    exact ((invoices_swept invoices).trans (setChannel_swept hch hcap.thinned)).move
  | recorded _ destIdx _ added ch' _ _ _ hch _ _ hadded hthinned =>
    refine ⟨fun i => ?_,fun j => ?_,UInt64.le_refl _⟩
    · exact rel_setChannel hch (.entered added _ hadded.entered hthinned)
        (fun ch => .thinned (.refl ch)) i
    · exact (inboundOrigins_moves hfits j).mono fun id hzero => .inl hzero

theorem RouteOutcome.turnover {w : AddWorld} {msg : AddHtlcMsg}
    (h : RouteOutcome m f w clientIdx msg mgr added newHtlcId r) (hi : i ≠ clientIdx) :
    Rel Turnover (mgr.channel? i) (r.mgr.channel? i) := by
  rcases h.placed_or with ⟨-,hothers⟩ |
    ⟨destIdx,dest,chd,chd',terms,cltv,hforward,hadded,-,hmgr⟩
  · exact rel_mono (hothers i hi) fun _ _ _ hcap => .thinned hcap.thinned
  · have hset : ((mgr.setChannel clientIdx added).accrue clientIdx terms.feeSats).channel? i =
        mgr.channel? i := (channel_accrue _).trans (channel_setChannel_other (Ne.symm hi))
    rw [hmgr]
    exact rel_setDest hset hforward.found (.entered chd' _ hadded.entered (.refl chd'))
      fun ch => .thinned (.refl ch)

inductive Bridging (w : AddWorld) (senderIdx : ℕ) (msg : AddHtlcMsg) (newHtlcId : UInt64)
    (mgr : LspMgr) (r : Handled) : Prop
  | none (horigins : r.mgr.htlcOrigins = mgr.htlcOrigins)
      (hnext : r.mgr.nextRequestId = mgr.nextRequestId ∨ r.mgr.nextRequestId = mgr.nextRequestId+1)
      (hpay : r.ok = true → r.actions.any isPay = false)
  | paid (bolt11 : String) (hbridge : Bridgeable w msg mgr)
      (horigins : r.mgr.htlcOrigins = recordedPay msg.paymentHash mgr.nextRequestId senderIdx
        newHtlcId mgr.htlcOriginsCap mgr.htlcOrigins)
      (hnext : r.mgr.nextRequestId = mgr.nextRequestId+1)
      (hactions : r.actions = [.sendPay bolt11 msg.paymentHash mgr.nextRequestId])

theorem RouteOutcome.bridging {w : AddWorld} {msg : AddHtlcMsg}
    (h : RouteOutcome m f w clientIdx msg mgr added newHtlcId r) :
    Bridging w clientIdx msg newHtlcId mgr r := by
  cases h with
  | kept => exact .none rfl (.inl rfl) fun _ => rfl
  | charged => exact .none rfl (.inl rfl) fun _ => rfl
  | destRefused _ dest =>
    cases dest <;> exact .none rfl (.inl rfl) fun _ => rfl
  | placed _ dest _ _ _ _ _ _ _ _ _ hpay =>
    cases dest <;> exact .none rfl (.inl rfl) fun _ => hpay
  | bridge _ bolt11 _ hbridge horigins =>
    cases hsent : w.sentPay with
    | false =>
      rw [hsent] at horigins
      exact .none horigins (.inr rfl) fun hok => nomatch hok
    | true =>
      rw [hsent] at horigins
      exact .paid bolt11 (hbridge hsent) horigins rfl rfl

theorem paymentsMade_nil (h : r.ok = true → r.actions.any isPay = false) :
    paymentsMade mgr clientIdx r = [] := by
  unfold paymentsMade
  split
  · rfl
  · split_ifs with hok
    · rw [filterMap_eq_nil_iff]
      intro a ha
      have hnot := any_eq_false.mp (h hok) a ha
      unfold sentPayment
      split
      · exact absurd rfl hnot
      · rfl
    · rfl

theorem mem_paymentsMade (hch : mgr.channel? clientIdx = some ch)
    (hp : p ∈ paymentsMade mgr clientIdx r) :
    ∃ bolt11 paymentHash requestId, .sendPay bolt11 paymentHash requestId ∈ r.actions ∧
      p = ⟨requestId,clientIdx,ch.nextHtlcId,paymentHash⟩ := by
  unfold paymentsMade at hp
  rw [hch] at hp
  split_ifs at hp
  · obtain ⟨a,ha,hsent⟩ := mem_filterMap.mp hp
    unfold sentPayment at hsent
    split at hsent
    · exact ⟨_,_,_,ha,(some.inj hsent).symm⟩
    · cases hsent
  · exact absurd hp not_mem_nil

theorem next_request_lt (hroom : RoomLeft mgr) : mgr.nextRequestId < mgr.nextRequestId+1 := by
  rw [UInt64.lt_iff_toNat_lt,UInt64.toNat_add,show (1 : UInt64).toNat = 1 from rfl,
    Nat.mod_eq_of_lt hroom.requests]
  exact Nat.lt_succ_self _

theorem Fills.recorded {origins : List HtlcOrigin} {k : ℕ} {o : HtlcOrigin}
    (h : Fills k o mgr.htlcOrigins origins) (hok : MgrOk mgr) (hactive : o.active = true)
    (hnames : o.Names p) (hcltv : o.cltvExpiry = 0) (hid : p.requestId = mgr.nextRequestId) :
    Recorded p origins := by
  refine ⟨k,o,h.entry,hactive,hnames,hcltv,fun j x hx hxid => ?_⟩
  by_contra hj
  rw [h.others j hj] at hx
  have hlt := hok.requests j x hx
  rw [hxid,hid] at hlt
  exact UInt64.lt_irrefl _ hlt

end

section

variable {m : Musig} {s : BridgeRun}

structure PaymentStep (s t : BridgeRun) : Prop where
  move : ∃ made payments, t.outstanding = made ++ payments ∧ (∀ p ∈ payments, p ∈ s.outstanding) ∧
    BridgeMove payments s.mgr t.mgr ∧ ∀ p ∈ made, p.Followed t.mgr

theorem PaymentStep.of_move {t : BridgeRun} (h : BridgeMove t.outstanding s.mgr t.mgr)
    (hsub : ∀ p ∈ t.outstanding, p ∈ s.outstanding) : PaymentStep s t :=
  ⟨[],t.outstanding,rfl,hsub,h,fun _ hp => absurd hp not_mem_nil⟩

theorem PaymentStep.of_quiet {mgr' : LspMgr} {made : List Outbound} (hmade : made = [])
    (h : BridgeMove s.outstanding s.mgr mgr') : PaymentStep s ⟨mgr',made ++ s.outstanding⟩ := by
  subst hmade
  exact .of_move h fun p hp => hp

variable {clientIdx : ℕ} {f : Factory} {mgr : LspMgr} {o : BridgeOp}

theorem add_step {w : AddWorld} {parsed : Option AddHtlcMsg} (hok : MgrOk s.mgr)
    (hroom : RoomLeft s.mgr) (hfits : PayOk m s clientIdx w parsed) :
    PaymentStep s ⟨(handleAddHtlc m f w clientIdx parsed s.mgr).mgr,
      paymentsMade s.mgr clientIdx (handleAddHtlc m f w clientIdx parsed s.mgr) ++
        s.outstanding⟩ := by
  have houtcome : AddOutcome m f w clientIdx s.mgr parsed _ := handleAddHtlc_outcome parsed
  generalize handleAddHtlc m f w clientIdx parsed s.mgr = r at houtcome ⊢
  have hgrown {r : Handled} {ch ch' : Channel} {g : Htlc} {i : ℕ}
      (hch : s.mgr.channel? clientIdx = some ch) (hch' : r.mgr.channel? clientIdx = some ch')
      (hentered : Entered ch ch' g)
      (hothers : i ≠ clientIdx → Rel Turnover (s.mgr.channel? i) (r.mgr.channel? i)) :
      Rel Turnover (s.mgr.channel? i) (r.mgr.channel? i) := by
    by_cases hi : i = clientIdx
    · subst hi
      rw [hch,hch']
      exact .some (.entered ch' g hentered (.refl ch'))
    · exact hothers hi
  cases houtcome with
  | dropped => exact .of_quiet (paymentsMade_nil fun _ => rfl) (Swept.refl _).move
  | refused _ _ cap _ hfound =>
    exact .of_quiet (paymentsMade_nil fun _ => rfl)
      (setChannel_swept hfound (Recapped.thinned ⟨cap,rfl⟩)).move
  | broken _ _ ch' hadds hadded =>
    refine .of_quiet (paymentsMade_nil fun _ => rfl) ⟨fun i => ?_,fun _ => .release _ _ (.same _),
      UInt64.le_refl _⟩
    have hself : (s.mgr.setChannel clientIdx ch').channel? clientIdx = some ch' :=
      channel_setChannel_self hadds.found
    exact hgrown hadds.found hself hadded.entered
      fun hi => turnover_of_eq (channel_setChannel_other (Ne.symm hi))
  | routed msg ch ch' saved r hadds hadded hcommit hroute hsaved =>
    have hch' := hroute.senderChannel hadds.found
    have hchannels (i : ℕ) : Rel Turnover (s.mgr.channel? i) (r.mgr.channel? i) :=
      hgrown hadds.found hch' hadded.entered fun hi => hroute.turnover hi
    cases hroute.bridging with
    | none horigins hnext hpay =>
      refine .of_quiet (paymentsMade_nil fun hr => ?_) ⟨hchannels,fun j => ?_,?_⟩
      · change (saved++r.actions).any isPay = false
        rw [any_append,hsaved.2,hpay hr]
        rfl
      · change SlotMove _ _ _ r.mgr.htlcOrigins[j]?
        rw [horigins]
        exact .release _ _ (.same _)
      · change s.mgr.nextRequestId ≤ r.mgr.nextRequestId
        rcases hnext with heq | heq
        · rw [heq]
          exact UInt64.le_refl _
        · rw [heq]
          exact UInt64.le_of_lt (next_request_lt hroom)
    | paid _ hbridge horigins hnext hactions =>
      have hlt := next_request_lt hroom
      obtain ⟨k,o,hfills,hactive,hnames,hcltv⟩ : ∃ k o,
          Fills k o s.mgr.htlcOrigins r.mgr.htlcOrigins ∧ o.active = true ∧
            o.Names ⟨s.mgr.nextRequestId,clientIdx,ch.nextHtlcId,msg.paymentHash⟩ ∧
            o.cltvExpiry = 0 := by
        rw [horigins]
        exact recordedPay_fills (hfits msg ch hadds hcommit hbridge)
      refine ⟨_,s.outstanding,rfl,fun _ hp => hp,⟨hchannels,fun j => ?_,?_⟩,fun p hp => ?_⟩
      · refine hfills.moves (.inl (.inr ⟨?_,?_⟩)) j
        · rw [hnames.request]
          exact UInt64.le_refl _
        · change o.requestId < r.mgr.nextRequestId
          rw [hnames.request,hnext]
          exact hlt
      · change s.mgr.nextRequestId ≤ r.mgr.nextRequestId
        rw [hnext]
        exact UInt64.le_of_lt hlt
      · obtain rfl : p = ⟨s.mgr.nextRequestId,clientIdx,ch.nextHtlcId,msg.paymentHash⟩ := by
          obtain ⟨bolt11',paymentHash,requestId,ha,heq⟩ := mem_paymentsMade hadds.found hp
          change _ ∈ saved ++ r.actions at ha
          rw [hactions] at ha
          rcases mem_append.mp ha with hin | hin
          · exact absurd rfl (any_eq_false.mp hsaved.2 _ hin)
          · obtain ⟨-,rfl,rfl⟩ := sendPay.inj (mem_singleton.mp hin)
            exact heq
        exact ⟨hfills.recorded hok hactive hnames hcltv rfl,⟨ch',hch',
          hadded.entered.held (hok.channels _ ch hadds.found) (hroom.ids _ ch hadds.found) rfl rfl
            rfl⟩,(UInt64.ne_of_lt hok.positive).symm⟩

theorem fulfill_noPay {w : FulfillWorld} {parsed : Option FulfillHtlcMsg} :
    (handleFulfillHtlc m w clientIdx parsed mgr).actions.any isPay = false := by
  have houtcome : FulfillOutcome m w clientIdx mgr parsed _ := handleFulfillHtlc_outcome parsed
  generalize handleFulfillHtlc m w clientIdx parsed mgr = r at houtcome ⊢
  cases houtcome with
  | dropped => rfl
  | broken => rfl
  | bridge _ _ _ _ _ _ _ _ _ _ _ _ _ _ hpay => exact hpay
  | scanned =>
    rw [any_append,Bool.or_eq_false_iff]
    refine ⟨rfl,any_eq_false.mpr fun a ha => Bool.eq_false_iff.mp ?_⟩
    exact backPropagate_forall (P := fun a => a.isPay = false) (fun _ _ => rfl) (fun _ _ => rfl)
      (fun _ _ => rfl) _ _ a ha

theorem fail_noPay {draw : PcsDraw} {parsed : Option UInt64} :
    (handleFailHtlc draw clientIdx parsed mgr).actions.any isPay = false := by
  unfold handleFailHtlc
  split <;> rfl

theorem client_step {o : HubOp} (hok : MgrOk s.mgr) (hguard : BridgeGuard m s (.client o)) :
    PaymentStep s (bridgeStep m s (.client o)) := by
  obtain ⟨hroom,hfits⟩ := hguard
  obtain ⟨f,clientIdx,msg⟩ := o
  unfold bridgeStep HubOp.handle lspChannelsHandleMsg
  dsimp only
  by_cases hrange : clientIdx ≥ s.mgr.entries.length
  · rw [if_pos hrange]
    exact .of_quiet (paymentsMade_nil fun _ => rfl) (Swept.refl _).move
  · rw [if_neg hrange]
    cases msg with
    | updateAddHtlc => exact add_step hok hroom hfits
    | updateFulfillHtlc =>
      exact .of_quiet (paymentsMade_nil fun _ => fulfill_noPay) (fulfill_swept hfits).move
    | updateFailHtlc =>
      exact .of_quiet (paymentsMade_nil fun _ => fail_noPay) fail_swept.move

theorem bridge_step {msg : BridgeMsg} (hfits : BridgeOp.Fits m s (.bridge f msg)) :
    PaymentStep s (bridgeStep m s (.bridge f msg)) := by
  cases msg with
  | addHtlc w parsed =>
    refine .of_move ?_ fun p hp => hp
    cases parsed with
    | none => exact (Swept.refl _).move
    | some msg => exact (handleBridgeAdd_outcome w msg).move hfits
  | payResult _ parsed =>
    refine .of_move payResult_swept.move fun p hp => ?_
    cases parsed with
    | none => exact hp
    | some => exact (mem_filter.mp hp).1

theorem BridgeGuard.step (hok : MgrOk s.mgr) (hguard : BridgeGuard m s o) :
    PaymentStep s (bridgeStep m s o) := by
  cases o with
  | client => exact client_step hok hguard
  | bridge => exact bridge_step hguard.2
  | invoice =>
    exact .of_move (registerInvoice_swept _ _ _).move fun p hp => hp
  | blocks => exact .of_move (checkTimeouts_swept _ _ _).move fun p hp => hp
  | bridgeTimeouts =>
    exact .of_move (sweepAll_swept (checkBridgeOrigin_swept _ _ _) _ _).move fun p hp => hp

structure BridgeRun.Ok (s : BridgeRun) : Prop where
  mgr : MgrOk s.mgr
  payments : ∀ p ∈ s.outstanding, p.Followed s.mgr

theorem BridgeRun.Ok.step (h : s.Ok) (hguard : BridgeGuard m s o) : (bridgeStep m s o).Ok := by
  obtain ⟨made,payments,hout,hsub,hmove,hmade⟩ := (hguard.step h.mgr).move
  refine ⟨hmove.ok h.mgr hguard.1,fun p hp => ?_⟩
  rw [hout] at hp
  rcases mem_append.mp hp with hnew | hold
  · exact hmade p hnew
  · exact hmove.followed h.mgr hguard.1 hold (h.payments p (hsub p hold))

end

end SuperScalar
