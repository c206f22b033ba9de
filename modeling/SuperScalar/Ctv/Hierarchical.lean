import SuperScalar.Ctv.SingleLayer

namespace SuperScalar

open Bitcoin

def ctvHierFactoryMaxUsers : ℕ := 65536

def ctvHierFactoryMaxFanout : UInt8 := 16

def ctvHierFactoryMaxDepth : UInt8 := 8

structure HierSubtree where
  th : Blob 32
  keyagg : Keyagg
  spk : Blob 34
  amount : UInt64
deriving DecidableEq

structure CtvHierFactory where
  depth : UInt8
  fanout : UInt8
  slotDepositSats : UInt64
  recoveryOffsetBlocks : UInt32
  activationOffsetBlocks : UInt32
  lspPubkey : Pubkey
  userPubkeys : List Pubkey
  nInternalNodes : UInt32
  totalFundingSats : UInt64
  recoveryCltvAbsolute : UInt32
  activationCltvAbsolute : UInt32
  rootTh : Blob 32
  rootKeyagg : Keyagg
  fundingSpk : Blob 34
deriving DecidableEq

def CtvHierFactory.nUsers (f : CtvHierFactory) : ℕ := f.userPubkeys.length

def childSlice {α : Type} (users : List α) (fanout i : ℕ) : List α :=
  (users.drop (i*(users.length/fanout))).take (users.length/fanout)

def serializeChildren (children : List (UInt64 × Blob 34)) : Bytes :=
  (children.map (fun c => serializeOutput c.1 c.2.val 34)).flatten ++ serializeAnchor

section

variable (secp : Secp) (lspPk : Pubkey) (fanout : UInt8) (slotDeposit : UInt64)
  (activationCltv : UInt32)

def leafChild (users : List Pubkey) (i : ℕ) : Option (UInt64 × Blob 34) := do
  let userPk ← users[i]?
  let (_,leafSpk) ← buildUserLeafSpk2of2 secp lspPk userPk activationCltv
  some (slotDeposit,leafSpk)

def finishSubtree (keyagg : Keyagg) (children : List (UInt64 × Blob 34)) : Option HierSubtree := do
  let totalAmount := (children.map Prod.fst).foldl (· + ·) 0 + ctvFactoryAnchorSats
  let outputsHash := secp.sha256 (serializeChildren children)
  let sequencesHash := secp.sha256 (wU32Le 0xFFFFFFFE)
  let th := ctvTemplateHash secp 2 0 1 sequencesHash (fanout.toUInt32+1) outputsHash 0
  let spk ← buildFactoryFundingSpk secp keyagg (some th) none
  some ⟨th,keyagg,spk,totalAmount⟩

def hierBuildSubtree : ℕ → List Pubkey → Option HierSubtree
  | 0, users => do
    let keyagg ← musigAggregateKeys secp (lspPk :: users)
    let children ← (List.range fanout.toNat).mapM
      (leafChild secp lspPk slotDeposit activationCltv users)
    finishSubtree secp fanout keyagg children
  | depthRemaining+1, users => do
    let keyagg ← musigAggregateKeys secp (lspPk :: users)
    let children ← (List.range fanout.toNat).mapM (fun i => do
      let child ← hierBuildSubtree depthRemaining (childSlice users fanout.toNat i)
      some (child.amount,child.spk))
    finishSubtree secp fanout keyagg children

def hierComputeSubtreeSpk (depthRemaining : ℕ) (users : List Pubkey) :
    Option (UInt64 × Blob 34) := do
  let sub ← hierBuildSubtree secp lspPk fanout slotDeposit activationCltv depthRemaining users
  some (sub.amount,sub.spk)

def computeLayerTxid (parent : OutPoint) (outputsConcat : Bytes) : Blob 32 :=
  sha256Double secp ([wU32Le 2,[0x01],parent.txid.val,wU32Le parent.vout,[0x00],
    wU32Le 0xFFFFFFFE] ++ writeOutputCount (fanout.toNat+1) ++
    [outputsConcat,wU32Le 0]).flatten

def layerChild (depthRemaining : ℕ) (users : List Pubkey) (i : ℕ) : Option (UInt64 × Blob 34) :=
  match depthRemaining with
  | 0 => leafChild secp lspPk slotDeposit activationCltv users i
  | d+1 => hierComputeSubtreeSpk secp lspPk fanout slotDeposit activationCltv d
      (childSlice users fanout.toNat i)

def layerChildren (depthRemaining : ℕ) (users : List Pubkey) : Option (List (UInt64 × Blob 34)) :=
  (List.range fanout.toNat).mapM
    (layerChild secp lspPk fanout slotDeposit activationCltv depthRemaining users)

def resolveLayers : ℕ → List ℕ → OutPoint → List Pubkey → Option (Blob 32)
  | 0, _, current, users => do
    let children ← layerChildren secp lspPk fanout slotDeposit activationCltv 0 users
    some (computeLayerTxid secp fanout current (serializeChildren children))
  | depthRemaining+1, path, current, users => do
    let children ← layerChildren secp lspPk fanout slotDeposit activationCltv
      (depthRemaining+1) users
    let layerTxid := computeLayerTxid secp fanout current (serializeChildren children)
    let step ← path.head?
    resolveLayers depthRemaining path.tail ⟨layerTxid,UInt32.ofNat step⟩
      (childSlice users fanout.toNat step)

end

def leafPath (fanout : ℕ) : ℕ → ℕ → ℕ → List ℕ
  | 0, _, _ => []
  | steps+1, usersPerSubtree, idx =>
    let usersPerSubtree := usersPerSubtree/fanout
    idx / usersPerSubtree :: leafPath fanout steps usersPerSubtree (idx % usersPerSubtree)

def expectedUsers (fanout : ℕ) : ℕ → ℕ → Option ℕ
  | 0, expectedN => some expectedN
  | layers+1, expectedN =>
    if expectedN*fanout > ctvHierFactoryMaxUsers then none
    else expectedUsers fanout layers (expectedN*fanout)

def ctvHierFactoryBuild (secp : Secp) (f : CtvHierFactory) (fundingBlockHeight : UInt32) :
    Option CtvHierFactory :=
  if f.depth = 0 ∨ f.depth > ctvHierFactoryMaxDepth ∨ f.fanout < 2 ∨
      f.fanout > ctvHierFactoryMaxFanout ∨ f.slotDepositSats = 0 then none
  else do
    let expectedN ← expectedUsers f.fanout.toNat f.depth.toNat 1
    if f.nUsers ≠ expectedN then none
    else
      let nInternalNodes := UInt32.ofNat ((expectedN-1)/(f.fanout.toNat-1))
      let f := { f with
        nInternalNodes := nInternalNodes
        totalFundingSats := UInt64.ofNat f.nUsers * f.slotDepositSats +
          nInternalNodes.toUInt64 * ctvFactoryAnchorSats
        recoveryCltvAbsolute := absoluteCltv fundingBlockHeight f.recoveryOffsetBlocks
        activationCltvAbsolute := absoluteCltv fundingBlockHeight f.activationOffsetBlocks }
      let root ← hierBuildSubtree secp f.lspPubkey f.fanout f.slotDepositSats
        f.activationCltvAbsolute (f.depth.toNat-1) f.userPubkeys
      let sweepLeaf ← buildOptionalSweepLeaf secp f.lspPubkey f.recoveryOffsetBlocks
        f.recoveryCltvAbsolute
      let fundingSpk ← buildFactoryFundingSpk secp root.keyagg (some root.th) sweepLeaf
      some { f with rootTh := root.th, rootKeyagg := root.keyagg, fundingSpk := fundingSpk }

def ctvHierFactoryComputeLeafOutpoint (secp : Secp) (f : CtvHierFactory) (userIndex : ℕ)
    (funding : OutPoint) : Option OutPoint :=
  if userIndex ≥ f.nUsers then none
  else do
    let path := leafPath f.fanout.toNat (f.depth.toNat-1) f.nUsers userIndex
    let leafTxid ← resolveLayers secp f.lspPubkey f.fanout f.slotDepositSats
      f.activationCltvAbsolute (f.depth.toNat-1) path funding f.userPubkeys
    some ⟨leafTxid,UInt32.ofNat (userIndex % f.fanout.toNat)⟩

end SuperScalar
