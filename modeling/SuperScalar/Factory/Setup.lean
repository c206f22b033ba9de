import SuperScalar.Factory.Skeleton

namespace SuperScalar

open Bitcoin Factory

section

def factoryMaxSigners : ℕ := 128

def shapedClients (nParticipants : ℕ) : ℕ := if nParticipants > 1 then nParticipants-1 else 1

def factoryInitFromPubkeys (pubkeys : List Pubkey) (stepBlocks : UInt16)
    (statesPerLayer : UInt32) : Factory :=
  let nc := shapedClients pubkeys.length
  let nLeaves := computeLeafCountPsk nc factoryArity2 1
  { pubkeys := pubkeys
    profiles := []
    nodes := []
    fundingTxid := Blob.zero 32
    fundingVout := 0
    fundingAmountSats := 0
    fundingSpk := []
    counter := dwCounterInit (computeTreeDepthPsk nc factoryArity2 1 + 1) stepBlocks statesPerLayer
    stepBlocks := stepBlocks
    statesPerLayer := statesPerLayer
    feePerTx := 200
    fee := none
    cltvTimeout := 0
    hasShachain := false
    leafLayers := List.replicate nLeaves (dwLayerInit stepBlocks statesPerLayer)
    nLeafNodes := nLeaves
    leafNodeIndices := []
    perLeafEnabled := false
    leafArity := factoryArity2
    levelArity := []
    staticThresholdDepth := 0
    lStockCsvBlocks := 0
    psSubfactoryArity := 1
    placementMode := .timezoneCluster
    config := factoryConfigDefault }

variable (f : Factory)

def Factory.resize (shape : ℕ × ℕ) : Factory :=
  { f with
    nLeafNodes := shape.2
    counter := dwCounterInit (dwNLayersFor shape.1 (staticThreshold f)) f.stepBlocks
      f.statesPerLayer
    leafLayers := List.replicate shape.2 (dwLayerInit f.stepBlocks f.statesPerLayer)
    perLeafEnabled := false }

def factorySetArity (arity : ℕ) : Factory :=
  let f := { f with leafArity := arity, levelArity := [] }
  let nc := shapedClients f.nParticipants
  f.resize (computeTreeDepthPsk nc arity (psLeafCapacity f),
    computeLeafCountPsk nc arity (psLeafCapacity f))

def factorySetLevelArity (arities : List UInt8) : Factory :=
  let levels := (arities.take factoryMaxLevels).map UInt8.toNat
  let f := { f with levelArity := levels, leafArity := levels.getLastD 0 }
  f.resize (simulateTree f (shapedClients f.nParticipants))

def factorySetStaticNearRoot (threshold : UInt32) : Factory :=
  let f := { f with staticThresholdDepth := threshold }
  f.resize (treeMetrics f (shapedClients f.nParticipants))

def cappedSubfactoryArity (k : UInt32) : ℕ := min (max k.toNat 1) 15

def factorySetPsSubfactoryArity (k : UInt32) : Factory :=
  let f := { f with psSubfactoryArity := cappedSubfactoryArity k }
  if f.leafArity ≠ factoryArityPs then f
  else
    let nc := shapedClients f.nParticipants
    f.resize (computeTreeDepthPsk nc factoryArityPs (psLeafCapacity f),
      computeLeafCountPsk nc factoryArityPs (psLeafCapacity f))

def factorySetFunding (txid : Blob 32) (vout : UInt32) (amountSats : UInt64) (spk : Bytes) :
    Factory :=
  if spk.length > 34 then f
  else { f with
    fundingTxid := txid
    fundingVout := vout
    fundingAmountSats := amountSats
    fundingSpk := spk }

end

section

def Factory.drawn (f : Factory) : Factory :=
  { f with
    profiles := []
    nodes := []
    fundingSpk := []
    hasShachain := false
    placementMode := .sequential }

def Factory.plan (f : Factory) : Factory :=
  { f.drawn with counter := ⟨[],0,0⟩, nLeafNodes := 0, leafLayers := [] }

variable (env : Env) (f : Factory)

theorem buildSubfactories_drawn (leafIdx perSub : ℕ) (perOutput : UInt64) (clients : List ℕ)
    (count si : ℕ) :
    buildSubfactories env f.drawn leafIdx perSub perOutput clients count si =
      buildSubfactories env f leafIdx perSub perOutput clients count si := by
  induction count generalizing si with
  | zero => rfl
  | succ _ ih =>
    simp only [buildSubfactories,ih]
    rfl

theorem setupLeaf_drawn (arity stIdx : ℕ) (st : FactoryNode) (clients : List ℕ)
    (amount : UInt64) :
    setupLeaf env f.drawn arity stIdx st clients amount =
      setupLeaf env f arity stIdx st clients amount := by
  simp only [setupLeaf,setupPsLeafWithSubfactories,buildSubfactories_drawn]
  rfl

theorem buildSubtree_drawn (fuel : ℕ) :
    buildSubtree env f.drawn fuel = buildSubtree env f fuel := by
  induction fuel with
  | zero => rfl
  | succ _ ih =>
    funext nNodes leafCounter clients parent parentVout depth inputAmount
    simp only [buildSubtree,ih,setupLeaf_drawn]
    rfl

theorem buildNodeTxs_drawn (built nodes : List FactoryNode) :
    buildNodeTxs env f.drawn built nodes = buildNodeTxs env f built nodes := by
  induction nodes generalizing built with
  | nil => rfl
  | cons _ _ ih =>
    simp only [buildNodeTxs,ih]
    rfl

theorem simulateLoop_plan (fuel : ℕ) (stack : List (ℕ × ℕ)) (maxDepth leaves : ℕ) :
    simulateLoop f.plan fuel stack maxDepth leaves = simulateLoop f fuel stack maxDepth leaves := by
  induction fuel generalizing stack maxDepth leaves with
  | zero => rfl
  | succ _ ih =>
    cases stack with
    | nil => rfl
    | cons =>
      simp only [simulateLoop,ih]
      rfl

theorem treeMetrics_plan (nClients : ℕ) : treeMetrics f.plan nClients = treeMetrics f nClients := by
  simp only [treeMetrics,simulateTree,simulateLoop_plan]
  rfl

theorem prepared_plan : f.plan.prepared.drawn = f.prepared.drawn := by
  have hmetrics : treeMetrics f.plan.priced f.plan.nClients = treeMetrics f.priced f.nClients :=
    treeMetrics_plan f.priced f.nClients
  simp only [prepared,hmetrics]
  rfl

end

section

def Factory.accepted (f : Factory) : Bool :=
  let metrics := treeMetrics f.priced f.nClients
  let totalNodesUb := 2*(2*metrics.2-1)
  2 ≤ f.nParticipants && f.nParticipants ≤ f.config.maxSigners &&
    !(f.leafArity = factoryArity2 && f.nClients < 2) &&
    totalNodesUb ≤ f.config.maxNodes && metrics.2 ≤ f.config.maxLeaves &&
    dwNLayersFor metrics.1 (staticThreshold f) ≤ dwMaxLayers &&
    UInt64.ofNat totalNodesUb * f.priced.feePerTx + UInt64.ofNat metrics.2 * 1092 ≤
      f.fundingAmountSats

variable (env : Env) (f : Factory)

theorem factoryBuildTree_eq :
    factoryBuildTree env f =
      if f.accepted then ((rootPlace env f).build env f.prepared (f.nClients+1)).map
        (fun b => buildAllUnsignedTxs env (b.installed f.prepared))
      else none := by
  rw [factoryBuildTree]
  split
  · next hcount =>
    rw [if_neg]
    simp only [accepted,Bool.and_eq_true,decide_eq_true_eq]
    omega
  next hcount =>
  split
  · next hpair =>
    rw [if_neg]
    simp only [accepted,Bool.and_eq_true,Bool.not_eq_true',decide_eq_true_eq,
      Bool.and_eq_false_iff,decide_eq_false_iff_not]
    rintro ⟨⟨⟨⟨⟨-,harity | hfew⟩,-⟩,-⟩,-⟩,-⟩
    · exact harity hpair.1
    · exact hfew hpair.2
  next hpair =>
  dsimp only
  split
  · next hsize =>
    rw [if_neg]
    simp only [accepted,Bool.and_eq_true,decide_eq_true_eq]
    intro h
    obtain ⟨⟨⟨⟨-,hnodes⟩,hleaves⟩,hlayers⟩,-⟩ := h
    rcases hsize with hsize | hsize | hsize
    · exact absurd hnodes (Nat.not_le.mpr hsize)
    · exact absurd hleaves (Nat.not_le.mpr hsize)
    · exact absurd hlayers (Nat.not_le.mpr hsize)
  next hsize =>
  split
  · next hfunds =>
    rw [if_neg]
    simp only [accepted,Bool.and_eq_true,decide_eq_true_eq]
    exact fun h => absurd h.2 (UInt64.not_le.mpr hfunds)
  next hfunds =>
  simp only [not_or,not_lt,gt_iff_lt] at hcount hsize
  rw [if_pos]
  · rw [Option.map_eq_bind]
    rfl
  · simp only [accepted,Bool.and_eq_true,Bool.not_eq_true',decide_eq_true_eq,
      Bool.and_eq_false_iff,decide_eq_false_iff_not]
    refine ⟨⟨⟨⟨⟨hcount,?_⟩,hsize.1⟩,hsize.2.1⟩,hsize.2.2⟩,UInt64.not_lt.mp hfunds⟩
    exact not_and_or.mp hpair

theorem accepted_plan : f.plan.accepted = f.accepted := by
  have hmetrics : treeMetrics f.plan.priced f.plan.nClients = treeMetrics f.priced f.nClients :=
    treeMetrics_plan f.priced f.nClients
  simp only [accepted,hmetrics]
  rfl

variable {env f} {g : Factory}

theorem built_nodes (b : Block) (h : f.prepared.drawn = g.prepared.drawn) :
    (buildAllUnsignedTxs env (b.installed f.prepared)).nodes =
      (buildAllUnsignedTxs env (b.installed g.prepared)).nodes := by
  have hdrawn : (b.installed f.prepared).drawn = (b.installed g.prepared).drawn :=
    congrArg (fun k : Factory => { k with leafNodeIndices := b.leaves }) h
  change buildNodeTxs env _ [] b.nodes = buildNodeTxs env _ [] b.nodes
  rw [← buildNodeTxs_drawn,hdrawn,buildNodeTxs_drawn]

theorem factoryBuildTree_congr (hplan : f.plan = g.plan)
    (hplaced : placedClients env f f.nClients = placedClients env g g.nClients) :
    (factoryBuildTree env f).map nodes = (factoryBuildTree env g).map nodes := by
  have hdrawn : f.prepared.drawn = g.prepared.drawn := by
    rw [← prepared_plan,hplan,prepared_plan]
  have haccepted : f.accepted = g.accepted := by rw [← accepted_plan,hplan,accepted_plan]
  have hclients : f.nClients = g.nClients := (congrArg nClients hplan :)
  have hamount : f.fundingAmountSats = g.fundingAmountSats :=
    (congrArg fundingAmountSats hplan :)
  have hbuild : (rootPlace env f).build env f.prepared (f.nClients+1) =
      (rootPlace env g).build env g.prepared (g.nClients+1) := by
    simp only [Place.build,rootPlace,hplaced,hamount]
    rw [← buildSubtree_drawn env f.prepared,hdrawn,buildSubtree_drawn,hclients]
  simp only [factoryBuildTree_eq,haccepted,hbuild]
  split_ifs
  · simp only [Option.map_map]
    congr 1
    funext b
    exact built_nodes b hdrawn
  · rfl

end

end SuperScalar
