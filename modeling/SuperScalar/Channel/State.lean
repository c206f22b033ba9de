import SuperScalar.Crypto.Musig

namespace SuperScalar

def maxHtlcs : ℕ := 483

def defaultHtlcsCap : ℕ := 64

def channelDustLimitSats : UInt64 := 546

def channelReserveSats : UInt64 := 5000

inductive HtlcDirection where
  | offered
  | received
deriving DecidableEq

inductive HtlcState where
  | active
  | fulfilled
  | failed
deriving DecidableEq

structure Htlc where
  direction : HtlcDirection
  state : HtlcState
  amountSats : UInt64
  paymentHash : Blob 32
  paymentPreimage : Blob 32
  cltvExpiry : UInt32
  id : UInt64
  feeAtAdd : UInt64
deriving DecidableEq

inductive PtlcState where
  | active
  | settled
  | failed
deriving DecidableEq

structure Ptlc where
  direction : HtlcDirection
  state : PtlcState
  amountSats : UInt64
  paymentPoint : Pubkey
  id : UInt64
  cltvExpiry : UInt32
  preSig : Blob 64
  hasPreSig : Bool
  adaptedSig : Blob 64
  hasAdaptedSig : Bool
  feeAtAdd : UInt64
deriving DecidableEq

structure RemotePcp where
  num : UInt64
  point : Pubkey
deriving DecidableEq

-- `localPcs` and `receivedRevocations` are the whole allocated arrays, of the capacity's length.
structure Channel where
  fundingTxid : Blob 32
  fundingVout : UInt32
  fundingAmount : UInt64
  fundingSpk : Bytes
  localFundingPubkey : Pubkey
  remoteFundingPubkey : Pubkey
  localFundingKeypair : Keypair
  fundingKeyagg : Keyagg
  localFundingSignerIdx : ℕ
  localPaymentBasepoint : Pubkey
  localDelayedPaymentBasepoint : Pubkey
  localRevocationBasepoint : Pubkey
  localHtlcBasepoint : Pubkey
  remotePaymentBasepoint : Pubkey
  remoteDelayedPaymentBasepoint : Pubkey
  remoteRevocationBasepoint : Pubkey
  remoteHtlcBasepoint : Pubkey
  commitmentNumber : UInt64
  localPcs : List (Blob 32)
  nLocalPcs : ℕ
  remotePcp0 : Option RemotePcp
  remotePcp1 : Option RemotePcp
  receivedRevocations : List (Option (Blob 32))
  localAmount : UInt64
  remoteAmount : UInt64
  htlcs : List Htlc
  htlcsCap : ℕ
  nextHtlcId : UInt64
  ptlcs : List Ptlc
  ptlcsCap : ℕ
  nextPtlcId : UInt64
  toSelfDelay : UInt32
  feeRateSatPerKvb : UInt64
  funderIsLocal : Bool
  useRevocationLeaf : Bool
  localNoncePool : MusigNoncePool
  remotePubnoncesSer : List (Blob 66)
  remoteNonceCount : ℕ
  remoteNonceNext : ℕ
  chanMerkleRoot : Option (Blob 32)
  lastHtlcCheckHeight : UInt32
  fundingPendingReorg : Bool
deriving DecidableEq

section

def doubleUntil : ℕ → ℕ → ℕ → ℕ
  | 0, cap, _ => cap
  | fuel+1, cap, needed => if cap < needed then doubleUntil fuel (cap*2) needed else cap

def grownCap (cap needed : ℕ) : ℕ := doubleUntil 64 (if cap = 0 then 512 else cap*2) needed

def growTo {α : Type} (zero : α) (xs : List α) (cap : ℕ) : List α :=
  xs ++ List.replicate (cap-xs.length) zero

theorem growTo_get {α : Type} {zero x : α} {xs : List α} {cap i : ℕ} (h : xs[i]? = some x) :
    (growTo zero xs cap)[i]? = some x := by
  obtain ⟨hlt,-⟩ := List.getElem?_eq_some_iff.mp h
  rw [growTo,List.getElem?_append_left hlt,h]

structure PcsDraw where
  grow : Bool
  random : Option (Blob 32)

def channelEnsurePcsCap (needed : ℕ) (grow : Bool) (ch : Channel) : Option Channel :=
  if needed ≤ ch.localPcs.length then some ch
  else if grow then
    some { ch with
      localPcs := growTo (Blob.zero 32) ch.localPcs (grownCap ch.localPcs.length needed) }
  else none

def channelEnsureRevocationsCap (needed : ℕ) (grow : Bool) (ch : Channel) : Option Channel :=
  if needed ≤ ch.receivedRevocations.length then some ch
  else if grow then
    some { ch with
      receivedRevocations :=
        growTo none ch.receivedRevocations (grownCap ch.receivedRevocations.length needed) }
  else none

def channelGenerateLocalPcs (commitmentNum : UInt64) (draw : PcsDraw) (ch : Channel) : Channel :=
  match channelEnsurePcsCap (commitmentNum+1).toNat draw.grow ch with
  | none => ch
  | some ch =>
    match draw.random with
    | none => ch
    | some secret =>
      { ch with
        localPcs := ch.localPcs.set commitmentNum.toNat secret
        nLocalPcs := max ch.nLocalPcs (commitmentNum+1).toNat }

def channelGetLocalPcs (ch : Channel) (commitmentNum : UInt64) : Option (Blob 32) :=
  if commitmentNum.toNat ≥ ch.nLocalPcs then none
  else ch.localPcs[commitmentNum.toNat]?

def channelSetRemotePcp (commitmentNum : UInt64) (pcp : Pubkey) (ch : Channel) : Channel :=
  let new : Option RemotePcp := some ⟨commitmentNum,pcp⟩
  match ch.remotePcp0, ch.remotePcp1 with
  | some a, second =>
    if a.num = commitmentNum then { ch with remotePcp0 := new }
    else
      match second with
      | none => { ch with remotePcp1 := new }
      | some b =>
        if b.num = commitmentNum then { ch with remotePcp1 := new }
        else if a.num ≤ b.num then { ch with remotePcp0 := new }
        else { ch with remotePcp1 := new }
  | none, some b =>
    if b.num = commitmentNum then { ch with remotePcp1 := new } else { ch with remotePcp0 := new }
  | none, none => { ch with remotePcp0 := new }

def channelReceiveRevocationFlat (commitmentNum : UInt64) (secret : Blob 32) (grow : Bool)
    (ch : Channel) : Channel :=
  match channelEnsureRevocationsCap (commitmentNum+1).toNat grow ch with
  | none => ch
  | some ch =>
    { ch with
      receivedRevocations := ch.receivedRevocations.set commitmentNum.toNat (some secret) }

def channelGetReceivedRevocation (ch : Channel) (commitmentNum : UInt64) : Option (Blob 32) :=
  (ch.receivedRevocations[commitmentNum.toNat]?).join

def storedPcp (commitmentNum : UInt64) : Option RemotePcp → Option Pubkey
  | some slot => if slot.num = commitmentNum then some slot.point else none
  | none => none

def slotNum : Option RemotePcp → UInt64
  | some slot => slot.num
  | none => 0

variable (m : Musig)

def channelGetRemotePcp (ch : Channel) (commitmentNum : UInt64) : Option Pubkey :=
  match storedPcp commitmentNum ch.remotePcp0, storedPcp commitmentNum ch.remotePcp1 with
  | some point, _ => some point
  | none, some point => some point
  | none, none =>
    if commitmentNum < max (slotNum ch.remotePcp0) (slotNum ch.remotePcp1) then
      (channelGetReceivedRevocation ch commitmentNum).bind m.ecPubkeyCreate
    else none

def channelGetPerCommitmentPoint (ch : Channel) (commitmentNum : UInt64) : Option Pubkey :=
  (channelGetLocalPcs ch commitmentNum).bind m.ecPubkeyCreate

def channelGetPerCommitmentSecret (ch : Channel) (commitmentNum : UInt64) : Option (Blob 32) :=
  channelGetLocalPcs ch commitmentNum

end

section

variable (m : Musig)

def keyaggSpk (ka : Keyagg) : Option (Blob 34) := do
  let internalSer ← m.xonlyPubkeySerialize ka.aggPubkey
  let twk := sha256Tagged m.toSecp .tapTweak internalSer.val
  let tweakedFull ← m.xonlyPubkeyTweakAdd ka.aggPubkey twk
  let (tweakedXonly,_) ← m.xonlyPubkeyFromPubkey tweakedFull
  some (buildP2trScriptPubkey m.toSecp tweakedXonly)

def matchingKeyagg (pubkeys : List Pubkey) (fundingSpk : Bytes) : Option Keyagg := do
  let ka ← musigAggregateKeys m.toSecp pubkeys
  let spk ← keyaggSpk m ka
  if spk.val = fundingSpk then some ka else none

def fundingKeyaggFor (localKey remoteKey : Pubkey) (fundingSpk : Bytes) : Option (Keyagg × ℕ) :=
  match matchingKeyagg m [localKey,remoteKey] fundingSpk with
  | some ka => some (ka,0)
  | none =>
    match matchingKeyagg m [remoteKey,localKey] fundingSpk with
    | some ka => some (ka,1)
    | none => (musigAggregateKeys m.toSecp [localKey,remoteKey]).map (fun ka => (ka,0))

structure ChannelParams where
  localFundingSecret : Blob 32
  localFundingPubkey : Pubkey
  remoteFundingPubkey : Pubkey
  fundingTxid : Blob 32
  fundingVout : UInt32
  fundingAmount : UInt64
  fundingSpk : Bytes
  localAmount : UInt64
  remoteAmount : UInt64
  toSelfDelay : UInt32

def channelInit (p : ChannelParams) (alloc : Bool) (draw0 draw1 : PcsDraw) : Option Channel := do
  if !alloc then none
  let keypair ← m.keypairCreate p.localFundingSecret
  let (keyagg,signerIdx) ←
    fundingKeyaggFor m p.localFundingPubkey p.remoteFundingPubkey p.fundingSpk
  let unset : Pubkey := Blob.zero 64
  let ch : Channel :=
    { fundingTxid := p.fundingTxid
      fundingVout := p.fundingVout
      fundingAmount := p.fundingAmount
      fundingSpk := p.fundingSpk
      localFundingPubkey := p.localFundingPubkey
      remoteFundingPubkey := p.remoteFundingPubkey
      localFundingKeypair := keypair
      fundingKeyagg := keyagg
      localFundingSignerIdx := signerIdx
      localPaymentBasepoint := unset
      localDelayedPaymentBasepoint := unset
      localRevocationBasepoint := unset
      localHtlcBasepoint := unset
      remotePaymentBasepoint := unset
      remoteDelayedPaymentBasepoint := unset
      remoteRevocationBasepoint := unset
      remoteHtlcBasepoint := unset
      commitmentNumber := 0
      localPcs := List.replicate 512 (Blob.zero 32)
      nLocalPcs := 0
      remotePcp0 := none
      remotePcp1 := none
      receivedRevocations := List.replicate 512 none
      localAmount := p.localAmount
      remoteAmount := p.remoteAmount
      htlcs := []
      htlcsCap := defaultHtlcsCap
      nextHtlcId := 0
      ptlcs := []
      ptlcsCap := 0
      nextPtlcId := 0
      toSelfDelay := p.toSelfDelay
      feeRateSatPerKvb := 1000
      funderIsLocal := false
      useRevocationLeaf := false
      localNoncePool := MusigNoncePool.empty
      remotePubnoncesSer := []
      remoteNonceCount := 0
      remoteNonceNext := 0
      chanMerkleRoot := none
      lastHtlcCheckHeight := 0
      fundingPendingReorg := false }
  some (channelGenerateLocalPcs 1 draw1 (channelGenerateLocalPcs 0 draw0 ch))

end

def Channel.sample : Channel :=
  { fundingTxid := Blob.zero 32
    fundingVout := 0
    fundingAmount := 1020000
    fundingSpk := []
    localFundingPubkey := Blob.zero 64
    remoteFundingPubkey := Blob.zero 64
    localFundingKeypair := Blob.zero 96
    fundingKeyagg := ⟨Blob.zero 64,Blob.zero 197⟩
    localFundingSignerIdx := 0
    localPaymentBasepoint := Blob.zero 64
    localDelayedPaymentBasepoint := Blob.zero 64
    localRevocationBasepoint := Blob.zero 64
    localHtlcBasepoint := Blob.zero 64
    remotePaymentBasepoint := Blob.zero 64
    remoteDelayedPaymentBasepoint := Blob.zero 64
    remoteRevocationBasepoint := Blob.zero 64
    remoteHtlcBasepoint := Blob.zero 64
    commitmentNumber := 0
    localPcs := [Blob.zero 32,Blob.zero 32]
    nLocalPcs := 2
    remotePcp0 := none
    remotePcp1 := none
    receivedRevocations := []
    localAmount := 500000
    remoteAmount := 500000
    htlcs := []
    htlcsCap := 64
    nextHtlcId := 0
    ptlcs := []
    ptlcsCap := 0
    nextPtlcId := 0
    toSelfDelay := 144
    feeRateSatPerKvb := 1000
    funderIsLocal := false
    useRevocationLeaf := false
    localNoncePool := MusigNoncePool.empty
    remotePubnoncesSer := []
    remoteNonceCount := 0
    remoteNonceNext := 0
    chanMerkleRoot := none
    lastHtlcCheckHeight := 0
    fundingPendingReorg := false }

end SuperScalar
