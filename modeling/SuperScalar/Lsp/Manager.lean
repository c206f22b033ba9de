import SuperScalar.Factory.Advance
import SuperScalar.Peer.HtlcIds

namespace SuperScalar

-- The wire carries numbers as doubles: 53 significant bits, rounded to nearest, ties to even.
def toDouble (n : ℕ) : ℕ :=
  if n < 2^53 then n
  else
    let unit := 2^(n.log2-52)
    let whole := n/unit
    let rest := n % unit
    if unit < 2*rest ∨ (unit = 2*rest ∧ whole % 2 = 1) then (whole+1)*unit else whole*unit

def jsonNumber (n : UInt64) : ℕ := toDouble n.toNat

def ofJsonNumber (n : ℕ) : UInt64 := UInt64.ofNat n

theorem jsonNumber_roundtrip {n : UInt64} (h : n.toNat < 2^53) :
    ofJsonNumber (jsonNumber n) = n := by
  rw [jsonNumber,toDouble,if_pos h,ofJsonNumber,UInt64.ofNat_toNat]

def factoryCltvDeltaDefault : UInt32 := 40

structure LspEntry where
  channel : Channel
  channelId : UInt32
  ready : Bool
  accumulatedFeesSats : UInt64
deriving DecidableEq

structure InvoiceEntry where
  paymentHash : Blob 32
  destClient : ℕ
  active : Bool
deriving DecidableEq

structure HtlcOrigin where
  paymentHash : Blob 32
  bridgeHtlcId : UInt64
  requestId : UInt64
  senderIdx : ℕ
  senderHtlcId : UInt64
  cltvExpiry : UInt32
  active : Bool
deriving DecidableEq

inductive JitState where
  | absent
  | funding
  | opened
  | migrating
  | closed
deriving DecidableEq

structure JitChannel where
  clientIdx : ℕ
  state : JitState
  jitChannelId : UInt32
  channel : Channel
deriving DecidableEq

inductive EconomicMode where
  | lspTakesAll
  | profitShared
deriving DecidableEq

structure LspMgr where
  entries : List LspEntry
  bridgeConnected : Bool
  invoices : List InvoiceEntry
  htlcOrigins : List HtlcOrigin
  htlcOriginsCap : ℕ
  nextRequestId : UInt64
  jitChannels : List JitChannel
  routingFeePpm : UInt64
  lspBalancePct : UInt16
  feeRateSatPerKvb : Option UInt64
  economicMode : EconomicMode
  accumulatedFeesSats : UInt64
deriving DecidableEq

inductive LspMsg where
  | updateAddHtlc (htlcId : UInt64) (amountMsat : ℕ) (paymentHash : Blob 32) (cltvExpiry : UInt32)
  | updateFulfillHtlc (htlcId : UInt64) (preimage : Blob 32)
  | updateFailHtlc (htlcId : UInt64) (reason : String)
deriving DecidableEq

inductive LspAction where
  | send (clientIdx : ℕ) (msg : LspMsg)
  | sendPay (bolt11 : String) (paymentHash : Blob 32) (requestId : UInt64)
  | sendBridgeFulfill (paymentHash preimage : Blob 32) (bridgeHtlcId : UInt64)
  | sendBridgeFail (paymentHash : Blob 32) (reason : String) (bridgeHtlcId : UInt64)
  | saveBalance (channelId : ℕ) (localAmount remoteAmount commitmentNumber : UInt64)
  | saveHtlc (channelId : ℕ) (htlc : Htlc)
  | deleteHtlc (channelId : ℕ) (htlcId : UInt64)
deriving DecidableEq

structure Handled where
  mgr : LspMgr
  actions : List LspAction
  ok : Bool

def Handled.after (actions : List LspAction) (r : Handled) : Handled :=
  { r with actions := actions ++ r.actions }

namespace LspMgr

def channel? (mgr : LspMgr) (i : ℕ) : Option Channel := (mgr.entries[i]?).map LspEntry.channel

def setChannel (mgr : LspMgr) (i : ℕ) (ch : Channel) : LspMgr :=
  { mgr with entries := mgr.entries.modify i (fun e => { e with channel := ch }) }

def setJitChannel (mgr : LspMgr) (i : ℕ) (ch : Channel) : LspMgr :=
  { mgr with jitChannels := mgr.jitChannels.modify i (fun j => { j with channel := ch }) }

def mapChannels (mgr : LspMgr) (change : ℕ → Channel → Channel) : LspMgr :=
  { mgr with entries := mgr.entries.mapIdx (fun c e => { e with channel := change c e.channel }) }

def counters (mgr : LspMgr) : List UInt64 := mgr.entries.map LspEntry.accumulatedFeesSats

def accrue (mgr : LspMgr) (i : ℕ) (feeSats : UInt64) : LspMgr :=
  { mgr with
    accumulatedFeesSats := mgr.accumulatedFeesSats + feeSats
    entries := mgr.entries.modify i
      (fun e => { e with accumulatedFeesSats := e.accumulatedFeesSats + feeSats }) }

end LspMgr

def lspChannelsLookupInvoice (mgr : LspMgr) (paymentHash : Blob 32) : Option ℕ :=
  (mgr.invoices.find? (fun inv => inv.active && inv.paymentHash = paymentHash)).map
    InvoiceEntry.destClient

def lspChannelsTrackBridgeOrigin (paymentHash : Blob 32) (bridgeHtlcId : UInt64) (mgr : LspMgr) :
    LspMgr :=
  match mgr.htlcOrigins.findIdx? (fun o => !o.active) with
  | some i =>
    { mgr with
      htlcOrigins := mgr.htlcOrigins.modify i (fun o =>
        { o with
          paymentHash := paymentHash
          bridgeHtlcId := bridgeHtlcId
          cltvExpiry := 0
          active := true }) }
  | none =>
    if mgr.htlcOrigins.length ≥ mgr.htlcOriginsCap then mgr
    else
      { mgr with htlcOrigins := mgr.htlcOrigins ++ [⟨paymentHash,bridgeHtlcId,0,0,0,0,true⟩] }

def lspChannelsGetBridgeOrigin (paymentHash : Blob 32) (mgr : LspMgr) : LspMgr × UInt64 :=
  match mgr.htlcOrigins.findIdx? (fun o => o.active && o.paymentHash = paymentHash) with
  | none => (mgr,0)
  | some i =>
    ({ mgr with htlcOrigins := mgr.htlcOrigins.modify i (fun o => { o with active := false }) },
      ((mgr.htlcOrigins[i]?).map HtlcOrigin.bridgeHtlcId).getD 0)

def jitChannelFind (mgr : LspMgr) (clientIdx : ℕ) : Option ℕ :=
  mgr.jitChannels.findIdx? (fun j =>
    j.clientIdx = clientIdx && j.state ≠ .absent && j.state ≠ .closed)

inductive DestChannel where
  | factory
  | jit (i : ℕ)
deriving DecidableEq

def destChannel (mgr : LspMgr) (destIdx : ℕ) : Option (DestChannel × Channel) :=
  match mgr.entries[destIdx]? with
  | none => none
  | some e =>
    if e.ready then some (.factory,e.channel)
    else
      match jitChannelFind mgr destIdx with
      | none => none
      | some i =>
        match mgr.jitChannels[i]? with
        | none => none
        | some j => if j.state = .opened then some (.jit i,j.channel) else none

def LspMgr.setDest (mgr : LspMgr) (destIdx : ℕ) (dest : DestChannel) (ch : Channel) : LspMgr :=
  match dest with
  | .factory => mgr.setChannel destIdx ch
  | .jit i => mgr.setJitChannel i ch

section

variable (m : Musig)

def verifyRevocationSecret (ch : Channel) (commitmentNum : UInt64) (secret : Blob 32) : Bool :=
  match m.ecPubkeyCreate secret with
  | none => false
  | some derived =>
    match channelGetRemotePcp m ch commitmentNum with
    | none => true
    | some stored => m.ecPubkeySerialize derived = m.ecPubkeySerialize stored

inductive AckReply where
  | missing
  | unreadable
  | revoked (secret : Blob 32) (nextPoint : Blob 33)
deriving DecidableEq

structure Round where
  snapshot : Bool
  grow : Bool
  draw : PcsDraw
  sent : Bool
  ack : AckReply
  growRevocations : Bool

def Round.snapshotFails (r : Round) (n : ℕ) : Bool := n > 0 && !r.snapshot

def receiveAck (verify : Bool) (r : Round) (ch : Channel) : Channel × Bool :=
  match r.ack with
  | .missing => (ch,false)
  | .unreadable => (ch,true)
  | .revoked secret nextPoint =>
    let oldCn := ch.commitmentNumber-1
    if verify && !verifyRevocationSecret m ch oldCn secret then (ch,false)
    else
      let stored := channelReceiveRevocationFlat oldCn secret r.growRevocations ch
      match m.ecPubkeyParse nextPoint with
      | none => (stored,true)
      | some nextPcp => (channelSetRemotePcp (stored.commitmentNumber+1) nextPcp stored,true)

def commitChannel (verify : Bool) (r : Round) (ch : Channel) : Channel × Bool :=
  match channelCreateCommitmentPartialSig m ch with
  | (ch,none) => (ch,false)
  | (ch,some _) => if r.sent then receiveAck m verify r ch else (ch,false)

end

section

variable {m : Musig} {r : Round} {ch ch' : Channel}

theorem receiveAck_sameFunds (verify : Bool) (r : Round) (ch : Channel) :
    SameFunds ch (receiveAck m verify r ch).1 := by
  unfold receiveAck
  cases r.ack with
  | missing => exact .refl ch
  | unreadable => exact .refl ch
  | revoked secret nextPoint =>
    dsimp only
    split_ifs
    · exact .refl ch
    · obtain ⟨revocations,heq⟩ := receiveRevocation_eq (ch.commitmentNumber - 1) secret
        r.growRevocations ch
      rw [heq]
      cases m.ecPubkeyParse nextPoint with
      | none => rfl
      | some nextPcp =>
        obtain ⟨first,second,heq⟩ := setRemotePcp_eq (ch.commitmentNumber + 1) nextPcp
          { ch with receivedRevocations := revocations }
        dsimp only
        rw [heq]
        rfl

theorem commitChannel_sameFunds (verify : Bool) (r : Round) (ch : Channel) :
    SameFunds ch (commitChannel m verify r ch).1 := by
  have hsig := createSig_sameFunds (m := m) ch
  unfold commitChannel
  cases hcreate : channelCreateCommitmentPartialSig m ch with
  | mk signed sig =>
    rw [hcreate] at hsig
    cases sig with
    | none => exact hsig
    | some =>
      split_ifs
      · exact hsig.trans (receiveAck_sameFunds verify r signed)
      · exact hsig

end

def lspPoint : Pubkey := Secp.sampleHash 64 (List.replicate 32 0)

def lspChannel : Channel :=
  channelSetRemotePubnonces (List.replicate 4 sampleNonce)
    (channelInitNoncePool (List.replicate 4 (Blob.zero 132,Blob.zero 132))
      { Channel.sample with
        funderIsLocal := true
        remotePcp0 := some ⟨0,lspPoint⟩
        remotePcp1 := some ⟨1,lspPoint⟩ })

def LspMgr.sample (channels : List Channel) : LspMgr where
  entries := channels.mapIdx (fun i ch => ⟨ch,UInt32.ofNat i,true,0⟩)
  bridgeConnected := false
  invoices := []
  htlcOrigins := []
  htlcOriginsCap := 256
  nextRequestId := 1
  jitChannels := []
  routingFeePpm := 1000
  lspBalancePct := 50
  feeRateSatPerKvb := none
  economicMode := .profitShared
  accumulatedFeesSats := 0

def goodRound : Round :=
  ⟨true,true,⟨true,none⟩,true,.revoked (Blob.zero 32) (Blob.fill 33 2),true⟩

end SuperScalar
