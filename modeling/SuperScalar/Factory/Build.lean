import SuperScalar.Factory.Shape
import SuperScalar.Factory.Outputs

namespace SuperScalar

open Bitcoin UInt64 ParticipantProfile

-- The nodes that one call of `buildSubtree` appends, its first node apart, and the leaves it records.
structure Block where
  root : FactoryNode
  rest : List FactoryNode
  leaves : List ℕ
deriving DecidableEq

def Block.nodes (b : Block) : List FactoryNode := b.root :: b.rest

structure Child where
  index : ℕ
  budget : UInt64
  block : Block
deriving DecidableEq

def Child.output (c : Child) : TxOut := ⟨c.budget,c.block.root.spendingSpk.val⟩

def buildChildren (build : ℕ → ℕ → List ℕ → ℕ → UInt64 → Option Block)
    (perChildBudget budgetRemainder : UInt64) (nActual : ℕ) :
    List ℕ → ℕ → ℕ → ℕ → List ℕ → Option (List Child)
  | [], _, _, _, _ => some []
  | part :: parts, nNodes, leafCounter, nBuilt, clients =>
    if part = 0 then
      buildChildren build perChildBudget budgetRemainder nActual parts nNodes leafCounter nBuilt
        clients
    else do
      let budget :=
        if nBuilt = nActual-1 then perChildBudget + budgetRemainder else perChildBudget
      let block ← build nNodes leafCounter (clients.take part) nBuilt budget
      let rest ← buildChildren build perChildBudget budgetRemainder nActual parts
        (nNodes+block.nodes.length) (leafCounter+block.leaves.length) (nBuilt+1)
        (clients.drop part)
      some (⟨nNodes,budget,block⟩ :: rest)

structure Timeouts where
  kickoff : UInt32
  state : UInt32

def nodeTimeouts (cltv : UInt32) (depth : ℕ) : Timeouts :=
  if depth = 0 then ⟨0,cltv⟩
  else
    let koOffset := UInt32.ofNat (2*depth-1) * timeoutStepBlocks
    let stOffset := UInt32.ofNat (2*depth) * timeoutStepBlocks
    ⟨if cltv > koOffset then cltv-koOffset else 0,if cltv > stOffset then cltv-stOffset else 0⟩

def dwLayerAt (f : Factory) (depth : ℕ) : Option ℕ :=
  let layer : Int := depth - staticThreshold f
  if layer < 0 then none
  else if layer ≥ f.counter.nLayers then some (f.counter.nLayers-1)
  else some layer.toNat

section

variable (env : Env) (f : Factory)

def addNode (nNodes : ℕ) (type : FactoryNodeType) (signers : List ℕ) (parentIndex : Option ℕ)
    (parentVout : ℕ) (dwLayerIndex : Option ℕ) (nodeCltv : UInt32) : Option FactoryNode :=
  if nNodes ≥ f.config.maxNodes then none
  else do
    let root ← if nodeCltv > 0 then (cltvRoot env f nodeCltv).map some else some none
    let (keyagg,spk) ← buildMusigP2trSpk env (signers.map f.pubkey) root
    some {
      type := type
      signerIndices := signers
      keyagg := keyagg
      spendingSpk := spk
      unsignedTx := ⟨0,[],[],0⟩
      txid := Blob.zero 32
      nsequence := 0
      isBuilt := false
      outputs := []
      dwLayerIndex := dwLayerIndex
      parentIndex := parentIndex
      parentVout := parentVout
      childIndices := []
      inputAmount := 0
      isPsLeaf := false
      psChainLen := 0
      psPrevTxid := Blob.zero 32
      psPrevChanAmount := 0
      psChainConfirmedHeight := 0
      psNPrevOutputs := 0
      psPrevOutputs := []
      subfactoryNodeIndices := []
      isStaticOnly := false }

def buildSubfactories (leafIdx perSub : ℕ) (perOutput : UInt64) (clients : List ℕ) :
    ℕ → ℕ → Option (List FactoryNode)
  | 0, _ => some []
  | count+1, si =>
    let startClient := si*perSub
    if startClient ≥ clients.length then none
    else do
      let subClients := (clients.drop startClient).take perSub
      let sub ← addNode env f (leafIdx+1 + si) .psSubfactory (0 :: subClients) (some leafIdx) si
        none 0
      let sub ← setupNwayLeafOutputs env f sub subClients perOutput
      let rest ← buildSubfactories leafIdx perSub perOutput clients count (si+1)
      some ({ sub with inputAmount := perOutput, isPsLeaf := true, psChainLen := 0 } :: rest)

def setupPsLeafWithSubfactories (leafIdx : ℕ) (leaf : FactoryNode) (clients : List ℕ)
    (inputAmount : UInt64) : Option (FactoryNode × List FactoryNode) :=
  let k := f.psSubfactoryArity
  if k ≤ 1 ∨ clients.length = 0 ∨ clients.length > k*k then none
  else
    let perSub := min ((clients.length + k-1)/k) k
    let nOutputs := k+1
    if perSub = 0 ∨ nOutputs > f.config.maxOutputsPerNode ∨ inputAmount ≤ f.feePerTx then none
    else
      let outputTotal := inputAmount-f.feePerTx
      let perOutput := outputTotal / ofNat nOutputs
      let remainder := outputTotal-perOutput * ofNat nOutputs
      if perOutput < channelDustLimitSats then none
      else do
        let subs ← buildSubfactories env f leafIdx perSub perOutput clients k 0
        let lStock ← buildLStockSpk env f leaf.keyagg
        let indices := (List.range k).map (fun si => leafIdx+1 + si)
        some ({ leaf with
          outputs := subs.map (fun sub => ⟨perOutput,sub.spendingSpk.val⟩) ++
            [⟨perOutput + remainder,lStock.val⟩]
          isPsLeaf := true
          psChainLen := 0
          psPrevTxid := Blob.zero 32
          psPrevChanAmount := 0
          childIndices := indices
          subfactoryNodeIndices := indices },subs)

def setupLeaf (arity stIdx : ℕ) (st : FactoryNode) (clients : List ℕ) (amount : UInt64) :
    Option (FactoryNode × List FactoryNode) :=
  if arity = factoryArityPs then
    if f.psSubfactoryArity > 1 then setupPsLeafWithSubfactories env f stIdx st clients amount
    else (setupPsLeafOutputs env f st amount).map (fun st => (st,[]))
  else if clients.length = 1 then
    (setupSingleLeafOutputs env f st (clients.getD 0 0) amount).map (fun st => (st,[]))
  else if arity = 2 ∧ clients.length = 2 then
    (setupLeafOutputs env f st (clients.getD 0 0) (clients.getD 1 0) amount).map
      (fun st => (st,[]))
  else (setupNwayLeafOutputs env f st clients amount).map (fun st => (st,[]))

def nonEmptyParts (parts : List ℕ) : ℕ := parts.countP (fun p => p > 0)

def partsAllowed (parts : List ℕ) : Bool :=
  2 ≤ parts.length && parts.length ≤ f.config.maxOutputsPerNode && nonEmptyParts parts ≠ 0

def perChildBudget (budget : UInt64) (parts : List ℕ) : UInt64 :=
  budget / ofNat (nonEmptyParts parts)

def budgetRemainder (budget : UInt64) (parts : List ℕ) : UInt64 :=
  budget - perChildBudget budget parts * ofNat (nonEmptyParts parts)

def buildSubtree : ℕ → ℕ → ℕ → List ℕ → Option ℕ → ℕ → ℕ → UInt64 → Option Block
  | 0, _, _, _, _, _, _, _ => none
  | fuel+1, nNodes, leafCounter, clients, parent, parentVout, depth, inputAmount =>
    let signers := 0 :: clients
    let timeouts := nodeTimeouts f.cltvTimeout depth
    let arity := arityAtDepth f depth
    let isLeaf := subtreeIsLeaf f arity clients.length
    let isStatic := (depth : Int) < staticThreshold f ∧ isLeaf = false
    let parts := splitClientsForArity arity clients.length
    if clients.length = 0 then none
    else if isStatic then
      if partsAllowed f parts = false ∨ inputAmount ≤ f.feePerTx then none
      else do
        let ko ← addNode env f nNodes .kickoff signers parent parentVout none timeouts.kickoff
        let budget := inputAmount-f.feePerTx
        let children ← buildChildren
          (fun n lc cs slot amount => buildSubtree fuel n lc cs (some nNodes) slot (depth+1) amount)
          (perChildBudget budget parts) (budgetRemainder budget parts) (nonEmptyParts parts) parts
          (nNodes+1) leafCounter 0 clients
        some {
          root := { ko with
            isStaticOnly := true
            inputAmount := inputAmount
            outputs := children.map Child.output
            childIndices := children.map Child.index }
          rest := children.flatMap (fun c => c.block.nodes)
          leaves := children.flatMap (fun c => c.block.leaves) }
    else if inputAmount ≤ f.feePerTx then none
    else do
      let ko ← addNode env f nNodes .kickoff signers parent parentVout none timeouts.kickoff
      let st ← addNode env f (nNodes+1) .state signers (some nNodes) 0 (dwLayerAt f depth)
        timeouts.state
      let koOutAmount := inputAmount-f.feePerTx
      let ko := { ko with
        outputs := [⟨koOutAmount,st.spendingSpk.val⟩]
        childIndices := [nNodes+1]
        inputAmount := inputAmount }
      let st := { st with inputAmount := koOutAmount }
      if isLeaf then
        let (st,subs) ← setupLeaf env f arity (nNodes+1) st clients koOutAmount
        if leafCounter ≥ factoryMaxLeaves then none
        else some { root := ko, rest := st :: subs, leaves := [nNodes+1] }
      else if partsAllowed f parts = false ∨ koOutAmount ≤ f.feePerTx then none
      else
        let budget := koOutAmount-f.feePerTx
        let children ← buildChildren
          (fun n lc cs slot amount =>
            buildSubtree fuel n lc cs (some (nNodes+1)) slot (depth+1) amount)
          (perChildBudget budget parts) (budgetRemainder budget parts) (nonEmptyParts parts) parts
          (nNodes+2) leafCounter 0 clients
        let st := { st with
          outputs := children.map Child.output
          childIndices := children.map Child.index }
        some {
          root := ko
          rest := st :: children.flatMap (fun c => c.block.nodes)
          leaves := children.flatMap (fun c => c.block.leaves) }

def Factory.leafNode (i : ℕ) : ℕ := f.leafNodeIndices.getD i 0

def Factory.leafLayer (i : ℕ) : DwLayer :=
  f.leafLayers.getD i (dwLayerInit f.stepBlocks f.statesPerLayer)

def counterLayer : Option ℕ → DwLayer
  | none => env.layerBefore
  | some i => f.counter.layers.getD i (dwLayerInit f.stepBlocks f.statesPerLayer)

def nodeNsequence (nodeIdx : ℕ) (node : FactoryNode) : UInt32 :=
  if node.isStaticOnly then 0xFFFFFFFE
  else if node.type = .kickoff then nsequenceDisableBip68
  else if node.isPsLeaf then 0xFFFFFFFE
  else
    let leaf := if f.perLeafEnabled then
      (List.range f.nLeafNodes).find? (fun i => f.leafNode i = nodeIdx) else none
    match leaf with
    | some i => dwCurrentNsequence (f.leafLayer i)
    | none => dwCurrentNsequence (counterLayer env f node.dwLayerIndex)

def unsignedTx (inputs : List TxInput) (outputs : List TxOut) : Tx :=
  ⟨2,inputs.map TxInput.toTxIn,outputs,0⟩

def finishNodeTx (node : FactoryNode) (nsequence : UInt32) (inputs : List TxInput) : FactoryNode :=
  let tx := unsignedTx inputs node.outputs
  { node with
    nsequence := nsequence
    unsignedTx := tx
    txid := tx.txid env.secp.sha256
    isBuilt := true }

def parentOutpoint (nodes : List FactoryNode) (node : FactoryNode) : OutPoint :=
  match node.parentIndex with
  | none => ⟨f.fundingTxid,f.fundingVout⟩
  | some p => ⟨((nodes[p]?).map FactoryNode.txid).getD (Blob.zero 32),UInt32.ofNat node.parentVout⟩

def buildNodeTx (nodes : List FactoryNode) (nodeIdx : ℕ) (node : FactoryNode) : FactoryNode :=
  let nsequence := nodeNsequence env f nodeIdx node
  let input := parentOutpoint f nodes node
  finishNodeTx env node nsequence [⟨input.txid,input.vout,nsequence⟩]

def buildNodeTxs : List FactoryNode → List FactoryNode → List FactoryNode
  | built, [] => built
  | built, node :: rest =>
    buildNodeTxs (built ++ [buildNodeTx env f (built ++ node :: rest) built.length node]) rest

def buildAllUnsignedTxs : Factory := { f with nodes := buildNodeTxs env f [] f.nodes }

def balanceDesc (a b : ℕ) : Int :=
  let ba := (f.profiles[a]?.map contributionSats).getD 0
  let bb := (f.profiles[b]?.map contributionSats).getD 0
  if ba > bb then -1 else if ba < bb then 1 else 0

def uptimeAsc (a b : ℕ) : Int :=
  let ua := (f.profiles[a]?.map uptimeScore).getD 0
  let ub := (f.profiles[b]?.map uptimeScore).getD 0
  let ba := (f.profiles[a]?.map contributionSats).getD 0
  let bb := (f.profiles[b]?.map contributionSats).getD 0
  if env.floatLt ua ub then -1 else if env.floatLt ub ua then 1
  else if ba < bb then -1 else if ba > bb then 1 else 0

def timezoneCluster (a b : ℕ) : Int :=
  let ta := (f.profiles[a]?.map timezoneBucket).getD 0
  let tb := (f.profiles[b]?.map timezoneBucket).getD 0
  let ua := (f.profiles[a]?.map uptimeScore).getD 0
  let ub := (f.profiles[b]?.map uptimeScore).getD 0
  if ta < tb then -1 else if ta > tb then 1
  else if env.floatLt ub ua then -1 else if env.floatLt ua ub then 1 else 0

def placedClients (nClients : ℕ) : List ℕ :=
  let clients := (List.range nClients).map (· + 1)
  if nClients > 1 then
    match f.placementMode with
    | .sequential => clients
    | .inward => env.qsort (balanceDesc f) clients
    | .outward => env.qsort (uptimeAsc env f) clients
    | .timezoneCluster => env.qsort (timezoneCluster env f) clients
  else clients

def factoryBuildTree : Option Factory :=
  let nClients := f.nParticipants-1
  if f.nParticipants < 2 ∨ f.nParticipants > f.config.maxSigners then none
  else if f.leafArity = factoryArity2 ∧ nClients < 2 then none
  else
    let f := { f with feePerTx := f.fee.getD f.feePerTx }
    let (treeDepth,nLeaves) := treeMetrics f nClients
    let nDwLayers := dwNLayersFor treeDepth (staticThreshold f)
    let totalNodesUb := 2*(2*nLeaves-1)
    if totalNodesUb > f.config.maxNodes ∨ nLeaves > f.config.maxLeaves ∨ nDwLayers > dwMaxLayers then
      none
    else
      let f := { f with
        counter := dwCounterInit nDwLayers f.stepBlocks f.statesPerLayer
        nLeafNodes := nLeaves
        leafLayers := List.replicate nLeaves (dwLayerInit f.stepBlocks f.statesPerLayer) }
      let minFunding := ofNat totalNodesUb * f.feePerTx + ofNat nLeaves * 1092
      if f.fundingAmountSats < minFunding then none
      else do
        let block ← buildSubtree env f (nClients+1) 0 0 (placedClients env f nClients) none 0 0
          f.fundingAmountSats
        let f := { f with nodes := block.nodes, leafNodeIndices := block.leaves }
        some (buildAllUnsignedTxs env f)

end

end SuperScalar
