import SuperScalar.Lsp.Fulfill

namespace SuperScalar

section

variable (m : Musig) (f : Factory)

def maxInvoiceRegistry : ℕ := 256

def lspChannelsRegisterInvoice (paymentHash : Blob 32) (destClient : ℕ) (mgr : LspMgr) :
    Option LspMgr :=
  if destClient ≥ mgr.entries.length then none
  else
    match mgr.invoices.findIdx? (fun inv => !inv.active) with
    | some i =>
      some { mgr with invoices := mgr.invoices.set i ⟨paymentHash,destClient,true⟩ }
    | none =>
      if mgr.invoices.length ≥ maxInvoiceRegistry then none
      else some { mgr with invoices := mgr.invoices ++ [⟨paymentHash,destClient,true⟩] }

-- `keysend` is the client a spontaneous payment asks for.
structure BridgeAddMsg where
  paymentHash : Blob 32
  amountMsat : UInt64
  cltvExpiry : UInt32
  htlcId : UInt64
  keysend : Option ℕ
deriving DecidableEq

structure InboundWorld where
  round : Round
  sentAdd : Bool
  rollback : PcsDraw

def inboundDest (msg : BridgeAddMsg) (mgr : LspMgr) : LspMgr × Except String ℕ :=
  match lspChannelsLookupInvoice mgr msg.paymentHash with
  | some destIdx => (mgr,.ok destIdx)
  | none =>
    match msg.keysend with
    | none => (mgr,.error "unknown_payment_hash")
    | some asked =>
      let destIdx := if asked ≥ mgr.entries.length then 0 else asked
      match lspChannelsRegisterInvoice msg.paymentHash destIdx mgr with
      | none => (mgr,.error "keysend_register_failed")
      | some mgr => (mgr,.ok destIdx)

def inboundCheck (msg : BridgeAddMsg) : Except String Unit :=
  if msg.amountMsat % 1000 ≠ 0 then .error "fractional_msat_unsupported"
  else if msg.amountMsat/1000 = 0 then .error "amount_too_small"
  else
    match lspValidateCltvForForward msg.cltvExpiry f.cltvTimeout (lspComputeFactoryCltvDelta f) with
    | none => .error "cltv_expiry_out_of_bounds"
    | some _ => .ok ()

def recordInbound (msg : BridgeAddMsg) (destIdx : ℕ) (destHtlcId : UInt64) (mgr : LspMgr) :
    LspMgr :=
  let tracked := lspChannelsTrackBridgeOrigin msg.paymentHash msg.htlcId mgr
  match tracked.htlcOrigins.findIdx? (fun o => o.active && o.paymentHash = msg.paymentHash) with
  | none => tracked
  | some i =>
    { tracked with
      htlcOrigins := tracked.htlcOrigins.modify i (fun o =>
        { o with
          cltvExpiry := msg.cltvExpiry
          senderIdx := destIdx
          senderHtlcId := destHtlcId }) }

def deliverInbound (w : InboundWorld) (msg : BridgeAddMsg) (destIdx : ℕ) (destHtlcId : UInt64)
    (ch : Channel) (mgr : LspMgr) : Handled :=
  let add := LspAction.send destIdx
    (.updateAddHtlc destHtlcId (jsonNumber msg.amountMsat) msg.paymentHash msg.cltvExpiry)
  if !w.sentAdd then ⟨mgr.setChannel destIdx ch,[add],false⟩
  else
    match channelCreateCommitmentPartialSig m ch with
    | (ch,none) => ⟨mgr.setChannel destIdx ch,[add],false⟩
    | (ch,some _) =>
      if !w.round.sent then ⟨mgr.setChannel destIdx ch,[add],false⟩
      else if w.round.ack = .missing then
        ⟨mgr.setChannel destIdx (channelFailHtlc destHtlcId w.rollback ch).1,
          [add,.sendBridgeFail msg.paymentHash "client_disconnected" msg.htlcId],true⟩
      else
        let acked := (receiveAck m false w.round ch).1
        ⟨mgr.setChannel destIdx acked,
          [add,savedBalance destIdx acked,.saveHtlc destIdx (persistedHtlc .offered
            (msg.amountMsat/1000) msg.paymentHash msg.cltvExpiry destHtlcId)],true⟩

def handleBridgeAdd (w : InboundWorld) (parsed : Option BridgeAddMsg) (mgr : LspMgr) : Handled :=
  match parsed with
  | none => ⟨mgr,[],false⟩
  | some msg =>
    let refused (reason : String) (mgr : LspMgr) : Handled :=
      ⟨mgr,[.sendBridgeFail msg.paymentHash reason msg.htlcId],true⟩
    match inboundDest msg mgr with
    | (mgr,.error reason) => refused reason mgr
    | (mgr,.ok destIdx) =>
      match inboundCheck f msg with
      | .error reason => refused reason mgr
      | .ok () =>
        match mgr.channel? destIdx with
        | none => ⟨mgr,[],false⟩
        | some ch =>
          if w.round.snapshotFails ch.htlcs.length then ⟨mgr,[],false⟩
          else
            match channelAddHtlc .offered (msg.amountMsat/1000) msg.paymentHash msg.cltvExpiry
              w.round.grow w.round.draw ch with
            | (ch,none) => refused "insufficient_funds" (mgr.setChannel destIdx ch)
            | (ch,some destHtlcId) =>
              deliverInbound m w msg destIdx destHtlcId ch
                (recordInbound msg destIdx destHtlcId mgr)

end

section

variable (m : Musig)

structure PayResultMsg where
  requestId : UInt64
  success : Bool
  preimage : Blob 32
deriving DecidableEq

def resolveHtlc (r : Round) (msg : PayResultMsg) (htlcId : UInt64) (ch : Channel) : Channel :=
  if msg.success then (channelFulfillHtlc m.toSecp htlcId msg.preimage r.draw ch).1
  else (channelFailHtlc htlcId r.draw ch).1

def PayResultMsg.update (msg : PayResultMsg) (htlcId : UInt64) : LspMsg :=
  if msg.success then .updateFulfillHtlc htlcId msg.preimage
  else .updateFailHtlc htlcId "bridge_pay_failed"

def settlePayment (r : Round) (msg : PayResultMsg) (clientIdx : ℕ) (htlcId : UInt64)
    (ch : Channel) : Channel × List LspAction :=
  let resolved := resolveHtlc m r msg htlcId ch
  let settled :=
    if msg.success then (receiveAck m false r (channelCreateCommitmentPartialSig m resolved).1).1
    else resolved
  (settled,[.send clientIdx (msg.update htlcId),savedBalance clientIdx settled,
    .deleteHtlc clientIdx htlcId])

def releaseOrigin (i : ℕ) (mgr : LspMgr) : LspMgr :=
  { mgr with htlcOrigins := mgr.htlcOrigins.modify i (fun o => { o with active := false }) }

def handlePayResult (r : Round) (parsed : Option PayResultMsg) (mgr : LspMgr) : Handled :=
  match parsed with
  | none => ⟨mgr,[],false⟩
  | some msg =>
    match mgr.htlcOrigins.findIdx? (fun o => o.active && o.requestId = msg.requestId) with
    | none => ⟨mgr,[],true⟩
    | some i =>
      let released := releaseOrigin i mgr
      match (mgr.htlcOrigins[i]?).bind (fun o => (mgr.channel? o.senderIdx).map (o,·)) with
      | none => ⟨released,[],true⟩
      | some (o,ch) =>
        let settled := settlePayment m r msg o.senderIdx o.senderHtlcId ch
        ⟨released.setChannel o.senderIdx settled.1,settled.2,true⟩

inductive BridgeMsg where
  | addHtlc (w : InboundWorld) (parsed : Option BridgeAddMsg)
  | payResult (r : Round) (parsed : Option PayResultMsg)

def lspChannelsHandleBridgeMsg (f : Factory) (msg : BridgeMsg) (mgr : LspMgr) : Handled :=
  match msg with
  | .addHtlc w parsed => handleBridgeAdd m f w parsed mgr
  | .payResult r parsed => handlePayResult m r parsed mgr

end

def failByHash (paymentHash : Blob 32) (draw : PcsDraw) (ch : Channel) : Channel :=
  match ch.htlcs.find? (fun h => h.isActive && h.paymentHash = paymentHash) with
  | none => ch
  | some h => (channelFailHtlc h.id draw ch).1

def sweepAll (sweep : ℕ → LspMgr → LspMgr × List LspAction) :
    List ℕ → LspMgr → LspMgr × List LspAction
  | [], mgr => (mgr,[])
  | i :: rest, mgr =>
    let first := sweep i mgr
    let later := sweepAll sweep rest first.1
    (later.1,first.2 ++ later.2)

def sweepOrigin (height : UInt32) (draws : ℕ → ℕ → PcsDraw) (i : ℕ) (mgr : LspMgr) :
    LspMgr × List LspAction :=
  match mgr.htlcOrigins[i]? with
  | none => (mgr,[])
  | some o =>
    if o.active && o.cltvExpiry ≠ 0 && height + 10 ≥ o.cltvExpiry then
      (releaseOrigin i (mgr.mapChannels (fun c => failByHash o.paymentHash (draws i c))),
        [.sendBridgeFail (Blob.zero 32) "cltv_expiry_too_soon" o.bridgeHtlcId])
    else (mgr,[])

structure BlockWorld where
  scan : ℕ → ℕ → PcsDraw
  sweep : ℕ → ℕ → PcsDraw

def checkTimeouts (height : UInt32) (w : BlockWorld) (mgr : LspMgr) : LspMgr × List LspAction :=
  let scanned := mgr.mapChannels (fun c ch => (channelCheckHtlcTimeouts height (w.scan c) ch).1)
  let deleted := (scanned.entries.mapIdx (fun c e =>
    (e.channel.htlcs.filter (fun h => h.state = .failed)).map
      (fun h => LspAction.deleteHtlc c h.id))).flatten
  let swept :=
    if mgr.bridgeConnected then
      sweepAll (sweepOrigin height w.sweep) (List.range mgr.htlcOrigins.length) scanned
    else (scanned,[])
  (swept.1,deleted ++ swept.2)

def checkBridgeOrigin (height : UInt32) (draws : ℕ → PcsDraw) (reached : ℕ → Bool) (i : ℕ)
    (mgr : LspMgr) : LspMgr × List LspAction :=
  match mgr.htlcOrigins[i]? with
  | none => (mgr,[])
  | some o =>
    if o.active && o.bridgeHtlcId ≠ 0 && o.cltvExpiry ≠ 0 &&
        height + factoryCltvDeltaDefault ≥ o.cltvExpiry then
      let told :=
        if mgr.bridgeConnected then
          [LspAction.sendBridgeFail o.paymentHash "htlc_timeout" o.bridgeHtlcId]
        else []
      match mgr.channel? o.senderIdx with
      | none => (releaseOrigin i mgr,told)
      | some ch =>
        let failed := (channelFailHtlc o.senderHtlcId (draws i) ch).1
        (releaseOrigin i (mgr.setChannel o.senderIdx failed),
          .deleteHtlc o.senderIdx o.senderHtlcId ::
            (if reached o.senderIdx then
              [.send o.senderIdx (.updateFailHtlc o.senderHtlcId "htlc_timeout")] else []) ++ told)
    else (mgr,[])

def lspChannelsCheckBridgeHtlcTimeouts (height : UInt32) (draws : ℕ → PcsDraw) (reached : ℕ → Bool)
    (mgr : LspMgr) : LspMgr × List LspAction :=
  sweepAll (checkBridgeOrigin height draws reached) (List.range mgr.htlcOrigins.length) mgr

end SuperScalar
