import SuperScalar.Channel.State

namespace SuperScalar

open Bitcoin

def HtlcDirection.flip : HtlcDirection → HtlcDirection
  | .offered => .received
  | .received => .offered

def Htlc.flip (h : Htlc) : Htlc := { h with direction := h.direction.flip }

def Ptlc.flip (p : Ptlc) : Ptlc := { p with direction := p.direction.flip }

def Htlc.hasOutput (h : Htlc) : Bool := h.state = .active && h.amountSats ≥ channelDustLimitSats

def Ptlc.hasOutput (p : Ptlc) : Bool := p.state = .active && p.amountSats ≥ channelDustLimitSats

section

variable (m : Musig)

def channelDerivePubkey (basepoint perCommitmentPoint : Pubkey) : Option Pubkey :=
  m.ecPubkeyTweakAdd basepoint (m.sha256 ((m.ecPubkeySerialize perCommitmentPoint).val ++
    (m.ecPubkeySerialize basepoint).val))

def channelDeriveRevocationPubkey (revocationBasepoint perCommitmentPoint : Pubkey) :
    Option Pubkey := do
  let rb := (m.ecPubkeySerialize revocationBasepoint).val
  let pcp := (m.ecPubkeySerialize perCommitmentPoint).val
  let term1 ← m.ecPubkeyTweakMul revocationBasepoint (m.sha256 (rb++pcp))
  let term2 ← m.ecPubkeyTweakMul perCommitmentPoint (m.sha256 (pcp++rb))
  m.ecPubkeyCombine [term1,term2]

end

section

variable (m : Musig)

structure CommitmentView where
  fundingTxid : Blob 32
  fundingVout : UInt32
  localDelayedPaymentBasepoint : Pubkey
  localHtlcBasepoint : Pubkey
  remotePaymentBasepoint : Pubkey
  remoteRevocationBasepoint : Pubkey
  remoteHtlcBasepoint : Pubkey
  localAmount : UInt64
  remoteAmount : UInt64
  htlcs : List Htlc
  ptlcs : List Ptlc
  toSelfDelay : UInt32
  useRevocationLeaf : Bool

def Channel.view (ch : Channel) : CommitmentView :=
  { fundingTxid := ch.fundingTxid
    fundingVout := ch.fundingVout
    localDelayedPaymentBasepoint := ch.localDelayedPaymentBasepoint
    localHtlcBasepoint := ch.localHtlcBasepoint
    remotePaymentBasepoint := ch.remotePaymentBasepoint
    remoteRevocationBasepoint := ch.remoteRevocationBasepoint
    remoteHtlcBasepoint := ch.remoteHtlcBasepoint
    localAmount := ch.localAmount
    remoteAmount := ch.remoteAmount
    htlcs := ch.htlcs.filter Htlc.hasOutput
    ptlcs := ch.ptlcs.filter Ptlc.hasOutput
    toSelfDelay := ch.toSelfDelay
    useRevocationLeaf := ch.useRevocationLeaf }

def p2trOutput (amount : UInt64) (key : XonlyPubkey) : TxOut :=
  ⟨amount,(buildP2trScriptPubkey m.toSecp key).val⟩

def toLocalOutput (v : CommitmentView) (revocationXonly delayedXonly : XonlyPubkey) :
    Option TxOut := do
  let csvLeaf ← tapscriptBuildCsvDelay m.toSecp v.toSelfDelay delayedXonly
  let leaves ←
    if v.useRevocationLeaf then
      (tapscriptBuildRevocationChecksig m.toSecp revocationXonly).map (fun leaf => [csvLeaf,leaf])
    else some [csvLeaf]
  let root ← tapscriptMerkleRoot m.toSecp leaves
  let (tweaked,_) ← tapscriptTweakPubkey m.toSecp revocationXonly root
  some (p2trOutput m v.localAmount tweaked)

def toRemoteOutput (v : CommitmentView) (remotePaymentPubkey : Pubkey) : Option TxOut := do
  let (remoteXonly,_) ← m.xonlyPubkeyFromPubkey remotePaymentPubkey
  let internalSer ← m.xonlyPubkeySerialize remoteXonly
  let tweak := sha256Tagged m.toSecp .tapTweak internalSer.val
  let tweakedFull ← m.xonlyPubkeyTweakAdd remoteXonly tweak
  let (tweaked,_) ← m.xonlyPubkeyFromPubkey tweakedFull
  some (p2trOutput m v.remoteAmount tweaked)

def htlcLeaves (toSelfDelay : UInt32) (localKey remoteKey : XonlyPubkey) (h : Htlc) :
    Option (List TapscriptLeaf) :=
  match h.direction with
  | .offered => do
    let success ← tapscriptBuildHtlcOfferedSuccess m.toSecp h.paymentHash remoteKey
    let timeout ← tapscriptBuildHtlcOfferedTimeout m.toSecp h.cltvExpiry toSelfDelay localKey
    some [success,timeout]
  | .received => do
    let success ← tapscriptBuildHtlcReceivedSuccess m.toSecp h.paymentHash toSelfDelay localKey
    let timeout ← tapscriptBuildHtlcReceivedTimeout m.toSecp h.cltvExpiry remoteKey
    some [success,timeout]

def htlcOutput (toSelfDelay : UInt32) (revocationXonly localKey remoteKey : XonlyPubkey)
    (h : Htlc) : Option TxOut := do
  let leaves ← htlcLeaves m toSelfDelay localKey remoteKey h
  let root ← tapscriptMerkleRoot m.toSecp leaves
  let (tweaked,_) ← tapscriptTweakPubkey m.toSecp revocationXonly root
  some (p2trOutput m h.amountSats tweaked)

def htlcKey (basepoint perCommitmentPoint : Pubkey) : Pubkey :=
  (channelDerivePubkey m basepoint perCommitmentPoint).getD (Blob.zero 64)

def htlcOutputs (v : CommitmentView) (revocationXonly : XonlyPubkey) (pcp : Pubkey) :
    Option (List TxOut) :=
  if v.htlcs = [] then some []
  else do
    let (localKey,_) ← m.xonlyPubkeyFromPubkey (htlcKey m v.localHtlcBasepoint pcp)
    let (remoteKey,_) ← m.xonlyPubkeyFromPubkey (htlcKey m v.remoteHtlcBasepoint pcp)
    v.htlcs.mapM (htlcOutput m v.toSelfDelay revocationXonly localKey remoteKey)

def uncheckedXonly (key : Pubkey) : XonlyPubkey :=
  ((m.xonlyPubkeyFromPubkey key).map Prod.fst).getD (Blob.zero 64)

def unbuiltLeaf : TapscriptLeaf := ⟨[],Blob.zero 32⟩

def ptlcLeaves (toSelfDelay : UInt32) (localKey remoteKey : XonlyPubkey) (ppHash : Blob 32)
    (p : Ptlc) : List TapscriptLeaf :=
  match p.direction with
  | .offered =>
    [(tapscriptBuildHtlcOfferedSuccess m.toSecp ppHash remoteKey).getD unbuiltLeaf,
      (tapscriptBuildHtlcOfferedTimeout m.toSecp p.cltvExpiry toSelfDelay localKey).getD
        unbuiltLeaf]
  | .received =>
    [(tapscriptBuildHtlcReceivedSuccess m.toSecp ppHash toSelfDelay localKey).getD unbuiltLeaf,
      (tapscriptBuildHtlcReceivedTimeout m.toSecp p.cltvExpiry remoteKey).getD unbuiltLeaf]

def ptlcOutput (toSelfDelay : UInt32) (revocationXonly localKey remoteKey : XonlyPubkey)
    (p : Ptlc) : Option (Option TxOut) :=
  match m.xonlyPubkeyFromPubkey p.paymentPoint with
  | none => some none
  | some (ppXonly,_) => do
    let ppHash := (m.xonlyPubkeySerialize ppXonly).getD (Blob.zero 32)
    let root ← tapscriptMerkleRoot m.toSecp (ptlcLeaves m toSelfDelay localKey remoteKey ppHash p)
    let (tweaked,_) ← tapscriptTweakPubkey m.toSecp revocationXonly root
    some (some (p2trOutput m p.amountSats tweaked))

def ptlcOutputs (v : CommitmentView) (revocationXonly : XonlyPubkey) (pcp : Pubkey) :
    Option (List TxOut) := do
  let localKey := uncheckedXonly m (htlcKey m v.localHtlcBasepoint pcp)
  let remoteKey := uncheckedXonly m (htlcKey m v.remoteHtlcBasepoint pcp)
  let outputs ← v.ptlcs.mapM (ptlcOutput m v.toSelfDelay revocationXonly localKey remoteKey)
  some outputs.reduceOption

def commitmentOutputs (v : CommitmentView) (pcp : Pubkey) : Option (List TxOut) := do
  let revocationPubkey ← channelDeriveRevocationPubkey m v.remoteRevocationBasepoint pcp
  let delayedPubkey ← channelDerivePubkey m v.localDelayedPaymentBasepoint pcp
  let remotePaymentPubkey ← channelDerivePubkey m v.remotePaymentBasepoint pcp
  let (revocationXonly,_) ← m.xonlyPubkeyFromPubkey revocationPubkey
  let (delayedXonly,_) ← m.xonlyPubkeyFromPubkey delayedPubkey
  let toLocal ← toLocalOutput m v revocationXonly delayedXonly
  let toRemote ← toRemoteOutput m v remotePaymentPubkey
  let htlcs ← htlcOutputs m v revocationXonly pcp
  let ptlcs ← ptlcOutputs m v revocationXonly pcp
  some (toLocal :: toRemote :: (htlcs++ptlcs))

end

section

variable (m : Musig)

def channelBuildCommitmentTxImpl (ch : Channel) (pcpOverride : Option Pubkey) :
    Option (Bytes × Blob 32) := do
  let pcp ←
    match pcpOverride with
    | some pcp => some pcp
    | none => channelGetPerCommitmentPoint m ch ch.commitmentNumber
  let outputs ← commitmentOutputs m ch.view pcp
  let (tx,txid) :=
    buildUnsignedTxV m.toSecp ch.fundingTxid ch.fundingVout 0xFFFFFFFE outputs 3
  some (tx,reverseBytes txid)

def channelBuildCommitmentTx (ch : Channel) : Option (Bytes × Blob 32) :=
  if ch.fundingPendingReorg then none else channelBuildCommitmentTxImpl m ch none

def Channel.remoteView (ch : Channel) : Channel :=
  { ch with
    localAmount := ch.remoteAmount
    remoteAmount := ch.localAmount
    localDelayedPaymentBasepoint := ch.remoteDelayedPaymentBasepoint
    remoteRevocationBasepoint := ch.localRevocationBasepoint
    remotePaymentBasepoint := ch.localPaymentBasepoint
    localHtlcBasepoint := ch.remoteHtlcBasepoint
    remoteHtlcBasepoint := ch.localHtlcBasepoint
    htlcs := ch.htlcs.map Htlc.flip
    ptlcs := ch.ptlcs.map Ptlc.flip }

def channelBuildCommitmentTxForRemote (ch : Channel) : Option (Bytes × Blob 32) := do
  let remotePcp ← channelGetRemotePcp m ch ch.commitmentNumber
  channelBuildCommitmentTxImpl m ch.remoteView (some remotePcp)

end

section

variable {m : Musig} {ch ch' : Channel}

theorem impl_congr {pcp : Pubkey} (h : ch.view = ch'.view) :
    channelBuildCommitmentTxImpl m ch (some pcp) =
      channelBuildCommitmentTxImpl m ch' (some pcp) := by
  have htxid : ch.fundingTxid = ch'.fundingTxid := congrArg CommitmentView.fundingTxid h
  have hvout : ch.fundingVout = ch'.fundingVout := congrArg CommitmentView.fundingVout h
  unfold channelBuildCommitmentTxImpl
  rw [h,htxid,hvout]

theorem impl_none (m : Musig) (ch : Channel) :
    channelBuildCommitmentTxImpl m ch none =
      (channelGetPerCommitmentPoint m ch ch.commitmentNumber).bind
        (fun pcp => channelBuildCommitmentTxImpl m ch (some pcp)) := by
  cases h : channelGetPerCommitmentPoint m ch ch.commitmentNumber with
  | none => simp [channelBuildCommitmentTxImpl,h]
  | some => simp [channelBuildCommitmentTxImpl,h]

theorem impl_none_congr (h : ch.view = ch'.view)
    (hpoint : channelGetPerCommitmentPoint m ch ch.commitmentNumber =
      channelGetPerCommitmentPoint m ch' ch'.commitmentNumber) :
    channelBuildCommitmentTxImpl m ch none = channelBuildCommitmentTxImpl m ch' none := by
  simp only [impl_none,hpoint]
  simp only [impl_congr h]

end

end SuperScalar
