import SuperScalar.Channel.State
import SuperScalar.Dw.State

namespace SuperScalar

open Bitcoin

def factoryMaxLeaves : ℕ := 128

def factoryMaxNodes : ℕ := 512

def factoryMaxLevels : ℕ := 8

def nsequenceDisableBip68 : UInt32 := 0xFFFFFFFF

def lStockCsvDefaultBlocks : UInt32 := 144

def timeoutStepBlocks : UInt32 := 5

def factoryArity1 : ℕ := 1

def factoryArity2 : ℕ := 2

def factoryArityPs : ℕ := 3

inductive PlacementMode where
  | sequential
  | inward
  | outward
  | timezoneCluster
deriving DecidableEq

inductive FactoryNodeType where
  | kickoff
  | state
  | psSubfactory
deriving DecidableEq

structure FactoryConfig where
  maxSigners : ℕ
  maxNodes : ℕ
  maxLeaves : ℕ
  maxOutputsPerNode : ℕ
  signers_le : maxSigners ≤ 128
  nodes_le : maxNodes ≤ 512
  leaves_le : maxLeaves ≤ 128
  outputs_le : maxOutputsPerNode ≤ 16
deriving DecidableEq

structure ParticipantProfile where
  contributionSats : UInt64
  uptimeScore : UInt32
  timezoneBucket : UInt8
  profitShareBps : UInt16
deriving DecidableEq

structure FactoryNode where
  type : FactoryNodeType
  signerIndices : List ℕ
  keyagg : Keyagg
  spendingSpk : Blob 34
  unsignedTx : Tx
  txid : Blob 32
  nsequence : UInt32
  isBuilt : Bool
  outputs : List TxOut
  dwLayerIndex : Option ℕ
  parentIndex : Option ℕ
  parentVout : ℕ
  childIndices : List ℕ
  inputAmount : UInt64
  isPsLeaf : Bool
  psChainLen : ℕ
  psPrevTxid : Blob 32
  psPrevChanAmount : UInt64
  psChainConfirmedHeight : UInt32
  psNPrevOutputs : ℕ
  psPrevOutputs : List TxOut
  subfactoryNodeIndices : List ℕ
  isStaticOnly : Bool
deriving DecidableEq

structure Factory where
  pubkeys : List Pubkey
  profiles : List ParticipantProfile
  nodes : List FactoryNode
  fundingTxid : Blob 32
  fundingVout : UInt32
  fundingAmountSats : UInt64
  fundingSpk : Bytes
  counter : DwCounter
  stepBlocks : UInt16
  statesPerLayer : UInt32
  feePerTx : UInt64
  fee : Option UInt64
  cltvTimeout : UInt32
  hasShachain : Bool
  leafLayers : List DwLayer
  nLeafNodes : ℕ
  leafNodeIndices : List ℕ
  perLeafEnabled : Bool
  leafArity : ℕ
  levelArity : List ℕ
  staticThresholdDepth : UInt32
  lStockCsvBlocks : UInt32
  psSubfactoryArity : ℕ
  placementMode : PlacementMode
  config : FactoryConfig
deriving DecidableEq

def Factory.nParticipants (f : Factory) : ℕ := f.pubkeys.length

-- What the code takes from its environment: the crypto library, the C library's `qsort`, the
-- comparison of two floats given by their bits, and the memory in front of `counter.layers`.
structure Env where
  secp : Secp
  qsort : (ℕ → ℕ → Int) → List ℕ → List ℕ
  floatLt : UInt32 → UInt32 → Bool
  layerBefore : DwLayer
  qsort_perm : ∀ cmp xs, (qsort cmp xs).Perm xs

def Env.sample : Env where
  secp := Secp.sample
  qsort cmp xs := xs.insertionSort (fun a b => cmp a b ≤ 0)
  floatLt a b := a < b
  layerBefore := ⟨0,34,0⟩
  qsort_perm _ xs := List.perm_insertionSort _ xs

def factoryConfigDefault : FactoryConfig where
  maxSigners := 128
  maxNodes := 512
  maxLeaves := 128
  maxOutputsPerNode := 16
  signers_le := by decide
  nodes_le := by decide
  leaves_le := by decide
  outputs_le := by decide

def Factory.sample (nClients leafArity psSubfactoryArity : ℕ) : Factory where
  pubkeys := (List.range (nClients+1)).map (fun i => ⟨Wire.leBytes 64 i,Wire.leBytes_length 64 i⟩)
  profiles := []
  nodes := []
  fundingTxid := Blob.zero 32
  fundingVout := 0
  fundingAmountSats := 1000000
  fundingSpk := List.replicate 34 0
  counter := ⟨[],0,0⟩
  stepBlocks := 144
  statesPerLayer := 4
  feePerTx := 200
  fee := none
  cltvTimeout := 0
  hasShachain := false
  leafLayers := []
  nLeafNodes := 0
  leafNodeIndices := []
  perLeafEnabled := false
  leafArity := leafArity
  levelArity := []
  staticThresholdDepth := 0
  lStockCsvBlocks := 0
  psSubfactoryArity := psSubfactoryArity
  placementMode := .sequential
  config := factoryConfigDefault

end SuperScalar
