import SuperScalar.Factory.Skeleton

namespace SuperScalar

def cliArityBolt2016Ceiling : UInt32 := 2016

def DwLayer.unwindBlocks (layer : DwLayer) : UInt32 :=
  if layer.maxStates > 1 then layer.stepBlocks.toUInt32*(layer.maxStates-1) else 0

def discounted (ewt leafCost : UInt32) : UInt32 := if ewt > leafCost then ewt-leafCost else 0

def factoryEarlyWarningTime (f : Factory) : UInt32 :=
  let ewt := f.counter.layers.foldl (fun ewt layer => ewt + layer.unwindBlocks) 0
  let hasPs := (List.range f.nLeafNodes).any (fun i =>
    ((f.nodes[f.leafNode i]?).map FactoryNode.isPsLeaf).getD false)
  match f.counter.layers.getLast? with
  | some leafLayer => if hasPs then discounted ewt leafLayer.unwindBlocks else ewt
  | none => ewt

def arityAtDepthRaw (levelArities : List ℕ) (leafArity depth : ℕ) : ℕ :=
  if levelArities = [] then leafArity
  else if depth < levelArities.length then levelArities.getD depth 0
  else levelArities.getLastD 0

def shapeIsLeaf (a nc : ℕ) : Bool :=
  if a = 1 ∨ a = factoryArityPs then nc ≤ 1 else nc ≤ a

def shapeLoop (arity : ℕ → ℕ) (isLeaf : ℕ → ℕ → Bool) :
    ℕ → List (ℕ × ℕ) → ℕ → Bool → ℕ × Bool
  | 0, _, maxDepth, hasPsLeaf => (maxDepth,hasPsLeaf)
  | _+1, [], maxDepth, hasPsLeaf => (maxDepth,hasPsLeaf)
  | fuel+1, (nc,d) :: stack, maxDepth, hasPsLeaf =>
    if nc = 0 then shapeLoop arity isLeaf fuel stack maxDepth hasPsLeaf
    else
      let maxDepth := max maxDepth d
      let a := arity d
      if isLeaf a nc then
        shapeLoop arity isLeaf fuel stack maxDepth (hasPsLeaf || decide (a = factoryArityPs))
      else shapeLoop arity isLeaf fuel (pushFrames (d+1) (splitClientsForArity a nc) stack)
        maxDepth hasPsLeaf

def factoryComputeEwtForShape (levelArities : List ℕ) (leafArity nClients : ℕ)
    (staticThreshold : UInt32) (stepBlocks : UInt16) (statesPerLayer : UInt32) : UInt32 :=
  if nClients = 0 then 0
  else
    let walk := shapeLoop (arityAtDepthRaw levelArities leafArity) shapeIsLeaf
      (2*nClients+1) [(nClients,0)] 0 false
    let nLayers := dwNLayersFor walk.1 staticThreshold.toInt32.toInt
    let perLayer := (dwLayerInit stepBlocks statesPerLayer).unwindBlocks
    let ewt := UInt32.ofNat nLayers * perLayer
    let leafIsPs := walk.2 || decide (levelArities = [] ∧ leafArity = factoryArityPs)
    if leafIsPs ∧ nLayers > 0 then discounted ewt perLayer else ewt

structure Verdict where
  ewt : UInt32
  error : Option String
deriving DecidableEq

def shapeText (levelArities : List ℕ) (leafArity : ℕ) : String :=
  if levelArities = [] then toString leafArity
  else ",".intercalate (levelArities.map toString)

def staticClause (staticThreshold : UInt32) : String :=
  if staticThreshold > 0 then " --static-near-root " ++ toString staticThreshold else ""

def ceilingError (levelArities : List ℕ) (leafArity nClients : ℕ) (staticThreshold ewt : UInt32) :
    String :=
  "Error: --arity " ++ shapeText levelArities leafArity ++ " --clients " ++ toString nClients ++
    staticClause staticThreshold ++ " produces ewt " ++ toString ewt ++ " blocks (~" ++
    toString (ewt/144) ++ " days at 144 blk/day), exceeds BOLT 2016-block ceiling. " ++
    "See docs/factory-arity.md for canonical shapes. " ++
    "Try mixed arity with wider mid-tree branching (e.g. --arity 2,4,8) " ++
    "or add --static-near-root 1 or 2 to remove DW state from near-root layers."

def cliValidateShapeForBolt2016 (levelArities : List ℕ) (leafArity nClients : ℕ)
    (staticThreshold : UInt32) (stepBlocks : UInt16) (statesPerLayer : UInt32) : Verdict :=
  let ewt := factoryComputeEwtForShape levelArities leafArity nClients staticThreshold stepBlocks
    statesPerLayer
  if ewt ≤ cliArityBolt2016Ceiling then ⟨ewt,none⟩
  else ⟨ewt,some (ceilingError levelArities leafArity nClients staticThreshold ewt)⟩

-- Bit 31 switches the relative lock off; the low 16 bits count blocks.
def bip68Blocks (nsequence : UInt32) : ℕ :=
  if nsequence.toNat < 2^31 then nsequence.toNat % 2 ^ 16 else 0

def nodeDelay (env : Env) (h : Factory) (i : ℕ) (n : FactoryNode) : ℕ :=
  bip68Blocks (nodeNsequence env h i n)

inductive UnwindTime (env : Env) (h : Factory) : ℕ → ℕ → Prop
  | root {i : ℕ} {n : FactoryNode} (node : h.NodeAt i n) (parent : n.parentIndex = none) :
      UnwindTime env h i (nodeDelay env h i n)
  | child {p i total : ℕ} {n : FactoryNode} (above : UnwindTime env h p total)
      (node : h.NodeAt i n) (parent : n.parentIndex = some p) :
      UnwindTime env h i (total + nodeDelay env h i n)

structure DwLayer.Takes (stepBlocks : UInt16) (maxStates : UInt32) (layer : DwLayer) : Prop where
  step : layer.stepBlocks = stepBlocks
  states : layer.maxStates = maxStates
  bound : layer.currentState ≤ maxStates-1

structure CounterState (g h : Factory) : Prop where
  tree : SameTree g h
  count : h.counter.nLayers = g.counter.nLayers
  layers : ∀ layer ∈ h.counter.layers, layer.Takes g.stepBlocks g.statesPerLayer
  leafLayers : ∀ layer ∈ h.leafLayers, layer.Takes g.stepBlocks g.statesPerLayer

def UnwindsWithin (env : Env) (g : Factory) (blocks : ℕ) : Prop :=
  ∀ h, CounterState g h → ∀ i total, UnwindTime env h i total → total ≤ blocks

section

variable (env : Env) (f g : Factory)

structure EwtSound : Prop where
  covers : UnwindsWithin env g (factoryEarlyWarningTime g).toNat
  simulated : factoryComputeEwtForShape f.levelArity f.leafArity f.nClients f.staticThresholdDepth
    f.stepBlocks f.statesPerLayer = factoryEarlyWarningTime g
  validated : (cliValidateShapeForBolt2016 f.levelArity f.leafArity f.nClients
      f.staticThresholdDepth f.stepBlocks f.statesPerLayer).error = none →
    UnwindsWithin env g cliArityBolt2016Ceiling.toNat

structure LeafShape where
  depth : ℕ
  isPs : Bool
deriving DecidableEq

def leafShapes (d nc : ℕ) : List LeafShape :=
  treeLeaves (fun depth _ => ⟨depth,decide (arityAtDepth f depth = factoryArityPs)⟩) f nc d nc

def Factory.shape : List LeafShape := leafShapes f 0 f.nClients

def deepest (leaves : List LeafShape) : ℕ := (leaves.map LeafShape.depth).foldr max 0

-- The states on the way from depth `d` down to a leaf that wait for a delay.
def LeafShape.levels (d : ℕ) (leaf : LeafShape) : ℕ :=
  leaf.depth - max d (staticThreshold f).toNat + if leaf.isPs then 0 else 1

def Factory.layerBlocks : ℕ := f.stepBlocks.toNat*(f.statesPerLayer.toNat-1)

def Factory.countedBlocks (leaves : List LeafShape) : ℕ :=
  dwNLayersFor (deepest leaves) (staticThreshold f) * f.layerBlocks % 2 ^ 32 -
    if leaves.any LeafShape.isPs then f.layerBlocks % 2 ^ 32 else 0

def worstDelay (stepBlocks : UInt16) (maxStates : UInt32) : ℕ :=
  (Finset.range ((maxStates-1).toNat+1)).sup (fun state =>
    (dwNsequenceForState stepBlocks maxStates (UInt32.ofNat state)).toNat)

structure EwtFits : Prop where
  covers : ∀ leaf ∈ f.shape, leaf.levels f 0 * worstDelay f.stepBlocks f.statesPerLayer ≤
    f.countedBlocks f.shape
  early : ∀ leaf ∈ f.shape, leaf.isPs = false → (leaf.depth : Int) < staticThreshold f →
    (dwCurrentNsequence env.layerBefore).toNat ≤ f.countedBlocks f.shape
  simulated : f.countedBlocks (Factory.shape { f with psSubfactoryArity := 1 }) =
    f.countedBlocks f.shape

end

end SuperScalar
