import SuperScalar.Factory.Node

namespace SuperScalar

open Bitcoin

section

variable (env : Env) (f : Factory)

def Factory.pubkey (i : ℕ) : Pubkey := f.pubkeys.getD i (Blob.zero 64)

def taprootTweakPubkey (internalKey : XonlyPubkey) (root : Option (Blob 32)) :
    Option (XonlyPubkey × Bool) := do
  let internalSer ← env.secp.xonlyPubkeySerialize internalKey
  let tweak := sha256Tagged env.secp .tapTweak (match root with
    | some r => internalSer.val ++ r.val
    | none => internalSer.val)
  let tweakedFull ← env.secp.xonlyPubkeyTweakAdd internalKey tweak
  env.secp.xonlyPubkeyFromPubkey tweakedFull

def buildMusigP2trSpk (pubkeys : List Pubkey) (root : Option (Blob 32)) :
    Option (Keyagg × Blob 34) := do
  let keyagg ← musigAggregateKeys env.secp pubkeys
  let (tweaked,_) ← taprootTweakPubkey env keyagg.aggPubkey root
  some (keyagg,buildP2trScriptPubkey env.secp tweaked)

def cltvRoot (cltv : UInt32) : Option (Blob 32) := do
  let (lspXonly,_) ← env.secp.xonlyPubkeyFromPubkey (f.pubkey 0)
  let leaf ← tapscriptBuildCltvTimeout env.secp cltv lspXonly
  tapscriptMerkleRoot env.secp [leaf]

def buildLStockSpk (keyagg : Keyagg) : Option (Blob 34) := do
  let (lspXonly,_) ← env.secp.xonlyPubkeyFromPubkey (f.pubkey 0)
  let csv := if f.lStockCsvBlocks > 0 then f.lStockCsvBlocks else lStockCsvDefaultBlocks
  let csvLeaf ← tapscriptBuildCsvDelay env.secp csv lspXonly
  let root ← tapscriptMerkleRoot env.secp [csvLeaf]
  let (tweaked,_) ← tapscriptTweakPubkey env.secp keyagg.aggPubkey root
  some (buildP2trScriptPubkey env.secp tweaked)

def chanMerkleRoot : Option (Blob 32) :=
  if f.cltvTimeout > 0 then cltvRoot env f f.cltvTimeout else none

def channelSpk (clientIdx : ℕ) : Option (Blob 34) := do
  let (_,spk) ← buildMusigP2trSpk env [f.pubkey clientIdx,f.pubkey 0] (chanMerkleRoot env f)
  some spk

def leafOutputs (keyagg : Keyagg) (clients : List ℕ) (outputTotal : UInt64) :
    Option (List TxOut) := do
  let nOutputs := UInt64.ofNat (clients.length+1)
  let perOutput := outputTotal/nOutputs
  let remainder := outputTotal-perOutput*nOutputs
  if perOutput < channelDustLimitSats then none
  else
    let channels ← clients.mapM (fun c => (channelSpk env f c).map (fun spk =>
      (⟨perOutput,spk.val⟩ : TxOut)))
    let lStock ← buildLStockSpk env f keyagg
    some (channels ++ [⟨perOutput + remainder,lStock.val⟩])

def setupLeafOutputs (node : FactoryNode) (clientA clientB : ℕ) (inputAmount : UInt64) :
    Option FactoryNode := do
  let outputs ← leafOutputs env f node.keyagg [clientA,clientB] (inputAmount-f.feePerTx)
  some { node with outputs := outputs }

def setupSingleLeafOutputs (node : FactoryNode) (client : ℕ) (inputAmount : UInt64) :
    Option FactoryNode := do
  let outputs ← leafOutputs env f node.keyagg [client] (inputAmount-f.feePerTx)
  some { node with outputs := outputs }

def setupNwayLeafOutputs (node : FactoryNode) (clients : List ℕ) (inputAmount : UInt64) :
    Option FactoryNode :=
  if clients.length+1 > f.config.maxOutputsPerNode then none
  else if inputAmount ≤ f.feePerTx then none
  else do
    let outputs ← leafOutputs env f node.keyagg clients (inputAmount-f.feePerTx)
    some { node with outputs := outputs }

def setupPsLeafOutputs (node : FactoryNode) (inputAmount : UInt64) : Option FactoryNode :=
  let outputTotal := if inputAmount > f.feePerTx then inputAmount-f.feePerTx else 0
  let perOutput := outputTotal/2
  let remainder := outputTotal-perOutput*2
  if perOutput < channelDustLimitSats then none
  else do
    let lStock ← buildLStockSpk env f node.keyagg
    some { node with
      outputs := [⟨perOutput,node.spendingSpk.val⟩,⟨perOutput + remainder,lStock.val⟩]
      isPsLeaf := true
      psChainLen := 0
      psPrevTxid := Blob.zero 32
      psPrevChanAmount := 0 }

end

end SuperScalar
