import SuperScalar.Lsp.Forward

namespace SuperScalar

section

variable (m : Musig)

structure FulfillHtlcMsg where
  htlcId : UInt64
  preimage : Blob 32
deriving DecidableEq

structure FulfillWorld where
  payee : Round
  senders : ℕ → ℕ → Round

def Htlc.incoming (h : Htlc) (paymentHash : Blob 32) : Bool :=
  h.isActive && h.direction = .received && h.paymentHash = paymentHash

-- The id read through a pointer to slot `i` of the array after its active entries moved down; the
-- slots past them keep what they held.
def slotId (i : ℕ) (held compacted : List Htlc) : UInt64 :=
  (((compacted ++ held.drop compacted.length)[i]?).map Htlc.id).getD 0

def scanHtlcs (preimage : Blob 32) (rounds : ℕ → Round) (s : ℕ) :
    ℕ → ℕ → Channel → Channel × List LspAction
  | 0, _, ch => (ch,[])
  | fuel+1, i, ch =>
    match ch.htlcs[i]? with
    | none => (ch,[])
    | some h =>
      if !h.incoming (m.sha256 preimage.val) then
        scanHtlcs preimage rounds s fuel (i+1) ch
      else if (rounds i).snapshotFails ch.htlcs.length then
        scanHtlcs preimage rounds s fuel (i+1) ch
      else
        match channelFulfillHtlc m.toSecp h.id preimage (rounds i).draw ch with
        | (ch,false) => scanHtlcs preimage rounds s fuel (i+1) ch
        | (paid,true) =>
          let id := slotId i ch.htlcs paid.htlcs
          let told := LspAction.send s (.updateFulfillHtlc id preimage)
          match channelCreateCommitmentPartialSig m paid with
          | (unsigned,none) =>
            let later := scanHtlcs preimage rounds s fuel (i+1) unsigned
            (later.1,told :: later.2)
          | (signed,some _) =>
            let acked := (receiveAck m false (rounds i) signed).1
            (acked,[told,savedBalance s acked,.deleteHtlc s id])

def scanChannel (w : FulfillWorld) (clientIdx : ℕ) (preimage : Blob 32) (s : ℕ) (ch : Channel) :
    Channel × List LspAction :=
  if s = clientIdx then (ch,[])
  else scanHtlcs m preimage (w.senders s) s ch.htlcs.length 0 ch

def backPropagate (w : FulfillWorld) (clientIdx : ℕ) (preimage : Blob 32) (mgr : LspMgr) :
    LspMgr × List LspAction :=
  ({ mgr with
      entries := mgr.entries.mapIdx (fun s e =>
        { e with channel := (scanChannel m w clientIdx preimage s e.channel).1 }) },
    (mgr.entries.mapIdx (fun s e =>
      (scanChannel m w clientIdx preimage s e.channel).2)).flatten)

def deactivateInvoice (paymentHash : Blob 32) (mgr : LspMgr) : LspMgr :=
  match mgr.invoices.findIdx? (fun inv => inv.active && inv.paymentHash = paymentHash) with
  | none => mgr
  | some i =>
    { mgr with invoices := mgr.invoices.modify i (fun inv => { inv with active := false }) }

def handleFulfillHtlc (w : FulfillWorld) (clientIdx : ℕ) (parsed : Option FulfillHtlcMsg)
    (mgr : LspMgr) : Handled :=
  match parsed, mgr.channel? clientIdx with
  | some msg, some ch =>
    if w.payee.snapshotFails ch.htlcs.length then ⟨mgr,[],false⟩
    else
      match channelFulfillHtlc m.toSecp msg.htlcId msg.preimage w.payee.draw ch with
      | (_,false) => ⟨mgr,[],false⟩
      | (paid,true) =>
        match commitChannel m false w.payee paid with
        | (ch,false) => ⟨mgr.setChannel clientIdx ch,[],false⟩
        | (ch,true) =>
          let paymentHash := m.sha256 msg.preimage.val
          let saved := [savedBalance clientIdx ch,.deleteHtlc clientIdx msg.htlcId]
          let (mgr,bridgeHtlcId) := lspChannelsGetBridgeOrigin paymentHash
            (deactivateInvoice paymentHash (mgr.setChannel clientIdx ch))
          if bridgeHtlcId > 0 && mgr.bridgeConnected then
            ⟨mgr,saved ++ [.sendBridgeFulfill paymentHash msg.preimage bridgeHtlcId],true⟩
          else
            let scanned := backPropagate m w clientIdx msg.preimage mgr
            ⟨scanned.1,saved ++ scanned.2,true⟩
  | _, _ => ⟨mgr,[],false⟩

def handleFailHtlc (draw : PcsDraw) (clientIdx : ℕ) (parsed : Option UInt64) (mgr : LspMgr) :
    Handled :=
  match parsed, mgr.channel? clientIdx with
  | some htlcId, some ch =>
    ⟨mgr.setChannel clientIdx (channelFailHtlc htlcId draw ch).1,[.deleteHtlc clientIdx htlcId],
      true⟩
  | _, _ => ⟨mgr,[],false⟩

inductive ClientMsg where
  | updateAddHtlc (w : AddWorld) (parsed : Option AddHtlcMsg)
  | updateFulfillHtlc (w : FulfillWorld) (parsed : Option FulfillHtlcMsg)
  | updateFailHtlc (draw : PcsDraw) (parsed : Option UInt64)

def lspChannelsHandleMsg (f : Factory) (clientIdx : ℕ) (msg : ClientMsg) (mgr : LspMgr) : Handled :=
  if clientIdx ≥ mgr.entries.length then ⟨mgr,[],false⟩
  else
    match msg with
    | .updateAddHtlc w parsed => handleAddHtlc m f w clientIdx parsed mgr
    | .updateFulfillHtlc w parsed => handleFulfillHtlc m w clientIdx parsed mgr
    | .updateFailHtlc draw parsed => handleFailHtlc draw clientIdx parsed mgr

end

section

variable {m : Musig} {preimage : Blob 32} {rounds : ℕ → Round} {s i fuel : ℕ} {ch ch' : Channel}
  {id : UInt64} {before after : List Htlc} {h : Htlc}

structure PaidOut (secp : Secp) (preimage : Blob 32) (id : UInt64) (before : List Htlc) (h : Htlc)
    (after : List Htlc) (ch ch' : Channel) : Prop where
  entry : HtlcAt ch id before h after
  hash : secp.sha256 preimage.val = h.paymentHash
  effect : ∃ draw, SameFunds
    ((ch.withoutHtlc h h.direction.recipient (before++after)).nextCommitment draw) ch'

theorem htlcs_withoutHtlc (ch : Channel) (h : Htlc) (payee : Ledger.Side) (rest : List Htlc)
    (draw : PcsDraw) :
    ((ch.withoutHtlc h payee rest).nextCommitment draw).htlcs = rest.filter Htlc.isActive :=
  (nextCommitment_sameHtlcs _ draw).htlcs

theorem PaidOut.htlcs (hpaid : PaidOut m.toSecp preimage id before h after ch ch') :
    ch'.htlcs = (before++after).filter Htlc.isActive := by
  obtain ⟨draw,heffect⟩ := hpaid.effect
  exact heffect.htlcs.trans (htlcs_withoutHtlc _ _ _ _ _)

-- Slot `i` starts a fulfil that goes through, and `h` is the entry it takes out.
structure Hit (m : Musig) (preimage : Blob 32) (rounds : ℕ → Round) (ch : Channel) (i : ℕ)
    (before : List Htlc) (h : Htlc) (after : List Htlc) : Prop where
  slot : ∃ x, ch.htlcs[i]? = some x ∧ x.incoming (m.sha256 preimage.val) = true ∧
    HtlcAt ch x.id before h after
  snapshot : (rounds i).snapshotFails ch.htlcs.length = false
  hash : m.sha256 preimage.val = h.paymentHash

def Quiet (m : Musig) (preimage : Blob 32) (rounds : ℕ → Round) (ch : Channel) (i : ℕ) : Prop :=
  ∀ before h after, ¬ Hit m preimage rounds ch i before h after

def paidChannel (rounds : ℕ → Round) (ch : Channel) (i : ℕ) (before : List Htlc) (h : Htlc)
    (after : List Htlc) : Channel :=
  (ch.withoutHtlc h h.direction.recipient (before++after)).nextCommitment (rounds i).draw

def toldId (ch : Channel) (i : ℕ) (before after : List Htlc) : UInt64 :=
  slotId i ch.htlcs ((before++after).filter Htlc.isActive)

theorem scanHtlcs_past (hpast : ch.htlcs.length ≤ i) :
    scanHtlcs m preimage rounds s fuel i ch = (ch,[]) := by
  cases fuel with
  | zero => rfl
  | succ => rw [scanHtlcs,List.getElem?_eq_none hpast]

theorem scanHtlcs_quiet (hquiet : Quiet m preimage rounds ch i) :
    scanHtlcs m preimage rounds s (fuel+1) i ch = scanHtlcs m preimage rounds s fuel (i+1) ch := by
  rw [scanHtlcs]
  cases hslot : ch.htlcs[i]? with
  | none =>
    have hlen := List.getElem?_eq_none_iff.mp hslot
    exact (scanHtlcs_past (Nat.le_succ_of_le hlen)).symm
  | some x =>
    dsimp only
    split_ifs with hincoming hsnapshot
    · rfl
    · rfl
    · rcases channelFulfillHtlc_cases m.toSecp x.id preimage (rounds i).draw ch with
        ⟨heq,-⟩ | ⟨before,h,after,hat,hhash,-⟩
      · rw [heq]
      · refine absurd ⟨⟨x,hslot,?_,hat⟩,Bool.eq_false_iff.mpr hsnapshot,hhash⟩
          (hquiet before h after)
        rwa [Bool.not_eq_true,Bool.not_eq_false'] at hincoming

theorem scanHtlcs_hit (hhit : Hit m preimage rounds ch i before h after) :
    scanHtlcs m preimage rounds s (fuel+1) i ch =
      match channelCreateCommitmentPartialSig m (paidChannel rounds ch i before h after) with
      | (unsigned,none) =>
        ((scanHtlcs m preimage rounds s fuel (i+1) unsigned).1,
          .send s (.updateFulfillHtlc (toldId ch i before after) preimage) ::
            (scanHtlcs m preimage rounds s fuel (i+1) unsigned).2)
      | (signed,some _) =>
        ((receiveAck m false (rounds i) signed).1,
          [.send s (.updateFulfillHtlc (toldId ch i before after) preimage),
            savedBalance s (receiveAck m false (rounds i) signed).1,
            .deleteHtlc s (toldId ch i before after)]) := by
  obtain ⟨x,hslot,hincoming,hat⟩ := hhit.slot
  rw [scanHtlcs,hslot]
  dsimp only
  rw [hincoming,hhit.snapshot,hat.fulfilled hhit.hash]
  dsimp only [Bool.not_true,Bool.false_eq_true,if_false]
  rw [htlcs_withoutHtlc]
  rfl

theorem scanHtlcs_to {k : ℕ} (hik : i ≤ k) (hquiet : ∀ j, i ≤ j → j < k →
    Quiet m preimage rounds ch j) :
    scanHtlcs m preimage rounds s (k-i + fuel) i ch = scanHtlcs m preimage rounds s fuel k ch := by
  induction hd : k - i generalizing i with
  | zero =>
    obtain rfl : i = k := by omega
    rw [Nat.zero_add]
  | succ _ ih =>
    rw [Nat.add_right_comm,scanHtlcs_quiet (hquiet i (Nat.le_refl i) (by omega)),
      ih (by omega) (fun j hj hjk => hquiet j (by omega) hjk) (by omega)]

end

section

variable {m : Musig} {w : FulfillWorld} {clientIdx : ℕ} {mgr : LspMgr}

def usedOrigins (paymentHash : Blob 32) (origins : List HtlcOrigin) : List HtlcOrigin :=
  match origins.findIdx? (fun o => o.active && o.paymentHash = paymentHash) with
  | none => origins
  | some i => origins.modify i (fun o => { o with active := false })

def PayeeCommits (m : Musig) (w : FulfillWorld) (msg : FulfillHtlcMsg) (ch : Channel) : Prop :=
  (commitChannel m false w.payee
    (channelFulfillHtlc m.toSecp msg.htlcId msg.preimage w.payee.draw ch).1).2 = true

inductive FulfillOutcome (m : Musig) (w : FulfillWorld) (clientIdx : ℕ) (mgr : LspMgr) :
    Option FulfillHtlcMsg → Handled → Prop
  | dropped (parsed : Option FulfillHtlcMsg) : FulfillOutcome m w clientIdx mgr parsed ⟨mgr,[],false⟩
  | broken (msg : FulfillHtlcMsg) (ch ch' : Channel) (before after : List Htlc) (h : Htlc)
      (hfound : mgr.channel? clientIdx = some ch)
      (hpaid : PaidOut m.toSecp msg.preimage msg.htlcId before h after ch ch')
      (hcommit : ¬ PayeeCommits m w msg ch) :
      FulfillOutcome m w clientIdx mgr (some msg) ⟨mgr.setChannel clientIdx ch',[],false⟩
  | bridge (msg : FulfillHtlcMsg) (ch ch' : Channel) (before after : List Htlc) (h : Htlc)
      (invoices : List InvoiceEntry) (origins : List HtlcOrigin) (actions : List LspAction)
      (hfound : mgr.channel? clientIdx = some ch)
      (hpaid : PaidOut m.toSecp msg.preimage msg.htlcId before h after ch ch')
      (hconnected : mgr.bridgeConnected = true) (hsent : ∀ i msg, .send i msg ∉ actions)
      (horigins : origins = usedOrigins (m.sha256 msg.preimage.val) mgr.htlcOrigins)
      (hpay : actions.any LspAction.isPay = false)
      (hwrites : ∃ id, actions = [savedBalance clientIdx ch',.deleteHtlc clientIdx msg.htlcId,
        .sendBridgeFulfill (m.sha256 msg.preimage.val) msg.preimage id]) :
      FulfillOutcome m w clientIdx mgr (some msg)
        ⟨{ mgr.setChannel clientIdx ch' with invoices := invoices, htlcOrigins := origins },
          actions,true⟩
  | scanned (msg : FulfillHtlcMsg) (ch ch' : Channel) (before after : List Htlc) (h : Htlc)
      (invoices : List InvoiceEntry) (origins : List HtlcOrigin)
      (hfound : mgr.channel? clientIdx = some ch)
      (hpaid : PaidOut m.toSecp msg.preimage msg.htlcId before h after ch ch')
      (horigins : origins = usedOrigins (m.sha256 msg.preimage.val) mgr.htlcOrigins) :
      FulfillOutcome m w clientIdx mgr (some msg)
        ⟨(backPropagate m w clientIdx msg.preimage
            { mgr.setChannel clientIdx ch' with invoices := invoices, htlcOrigins := origins }).1,
          [savedBalance clientIdx ch',.deleteHtlc clientIdx msg.htlcId] ++
            (backPropagate m w clientIdx msg.preimage
              { mgr.setChannel clientIdx ch' with invoices := invoices, htlcOrigins := origins }).2,
          true⟩

theorem deactivateInvoice_eq (paymentHash : Blob 32) (mgr : LspMgr) :
    ∃ invoices, deactivateInvoice paymentHash mgr = { mgr with invoices := invoices } := by
  unfold deactivateInvoice
  split
  · exact ⟨mgr.invoices,rfl⟩
  · exact ⟨_,rfl⟩

theorem getBridgeOrigin_eq (paymentHash : Blob 32) (mgr : LspMgr) :
    ∃ id, lspChannelsGetBridgeOrigin paymentHash mgr =
      ({ mgr with htlcOrigins := usedOrigins paymentHash mgr.htlcOrigins },id) := by
  unfold lspChannelsGetBridgeOrigin usedOrigins
  cases mgr.htlcOrigins.findIdx? (fun o => o.active && o.paymentHash = paymentHash) with
  | none => exact ⟨0,rfl⟩
  | some => exact ⟨_,rfl⟩

theorem handleFulfillHtlc_outcome (parsed : Option FulfillHtlcMsg) :
    FulfillOutcome m w clientIdx mgr parsed (handleFulfillHtlc m w clientIdx parsed mgr) := by
  unfold handleFulfillHtlc
  split
  · rename_i msg ch hfound
    split_ifs with hsnapshot
    · exact .dropped _
    rcases channelFulfillHtlc_cases m.toSecp msg.htlcId msg.preimage w.payee.draw ch with
      ⟨heq,-⟩ | ⟨before,h,after,hat,hhash,heq⟩
    · rw [heq]
      exact .dropped _
    rw [heq]
    dsimp only
    have hsame := commitChannel_sameFunds (m := m) false w.payee
      ((ch.withoutHtlc h h.direction.recipient (before++after)).nextCommitment w.payee.draw)
    cases hcommit : commitChannel m false w.payee
        ((ch.withoutHtlc h h.direction.recipient (before++after)).nextCommitment
          w.payee.draw) with
    | mk ch' ok =>
      rw [hcommit] at hsame
      have hpaid : PaidOut m.toSecp msg.preimage msg.htlcId before h after ch ch' :=
        ⟨hat,hhash,w.payee.draw,hsame⟩
      cases ok with
      | false =>
        refine .broken msg ch ch' before after h hfound hpaid fun hcommits => ?_
        unfold PayeeCommits at hcommits
        rw [heq,hcommit] at hcommits
        cases hcommits
      | true =>
        dsimp only
        obtain ⟨invoices,hinvoices⟩ := deactivateInvoice_eq (m.sha256 msg.preimage.val)
          (mgr.setChannel clientIdx ch')
        rw [hinvoices]
        obtain ⟨bridgeHtlcId,horigins⟩ := getBridgeOrigin_eq (m.sha256 msg.preimage.val)
          { mgr.setChannel clientIdx ch' with invoices := invoices }
        rw [horigins]
        split_ifs with hbridge
        · refine .bridge msg ch ch' before after h invoices _ _ hfound hpaid ?_ ?_ rfl rfl ⟨_,rfl⟩
          · exact (Bool.and_eq_true _ _ ▸ hbridge).2
          · simp [savedBalance]
        · exact .scanned msg ch ch' before after h invoices _ hfound hpaid rfl
  · exact .dropped _

theorem backPropagate_channel (preimage : Blob 32) (mgr : LspMgr) (s : ℕ) :
    (backPropagate m w clientIdx preimage mgr).1.channel? s =
      (mgr.channel? s).map (fun ch => (scanChannel m w clientIdx preimage s ch).1) := by
  simp only [LspMgr.channel?,backPropagate]
  simp only [List.getElem?_mapIdx,Option.map_map]
  rfl

end

end SuperScalar
