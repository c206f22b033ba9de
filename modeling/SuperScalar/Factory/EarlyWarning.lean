import SuperScalar.Factory.Levels
import SuperScalar.Factory.Clocks

namespace SuperScalar

open Bitcoin Offset List UInt32 Nat Factory

section

variable {stepBlocks : UInt16} {maxStates : UInt32} {layer : DwLayer}

theorem bip68_dw (layer : DwLayer) :
    bip68Blocks (dwCurrentNsequence layer) = (dwCurrentNsequence layer).toNat := by
  have hlt : (dwCurrentNsequence layer).toNat < 2^16 := by
    exact UInt16.toNat_lt _
  rw [bip68Blocks,if_pos (by omega),mod_eq_of_lt hlt]

theorem DwLayer.Takes.delay_le (h : layer.Takes stepBlocks maxStates) :
    (dwCurrentNsequence layer).toNat ≤ worstDelay stepBlocks maxStates := by
  have hmem := Finset.mem_range.mpr (Nat.lt_succ_of_le (UInt32.le_iff_toNat_le.mp h.bound))
  have hle := Finset.le_sup (f := fun state =>
    (dwNsequenceForState stepBlocks maxStates (UInt32.ofNat state)).toNat) hmem
  rw [UInt32.ofNat_toNat] at hle
  rw [dwCurrentNsequence,h.step,h.states]
  exact hle

theorem worstDelay_taken (stepBlocks : UInt16) (maxStates : UInt32) :
    ∃ layer : DwLayer, layer.Takes stepBlocks maxStates ∧
      (dwCurrentNsequence layer).toNat = worstDelay stepBlocks maxStates := by
  obtain ⟨state,hmem,hsup⟩ := Finset.exists_mem_eq_sup
    (Finset.range ((maxStates-1).toNat+1)) ⟨0,by simp⟩ (fun state =>
      (dwNsequenceForState stepBlocks maxStates (ofNat state)).toNat)
  have hlt := Finset.mem_range.mp hmem
  have hsize := (maxStates-1).toNat_lt
  refine ⟨⟨stepBlocks,maxStates,ofNat state⟩,⟨rfl,rfl,?_⟩,hsup.symm⟩
  rw [le_iff_toNat_le,toNat_ofNat_of_lt' (hlt.trans_le hsize)]
  omega

end

section

variable {f : Factory}

theorem discounted_toNat (ewt leafCost : UInt32) :
    (discounted ewt leafCost).toNat = ewt.toNat-leafCost.toNat := by
  rw [discounted]
  split
  · next hgt =>
    have hle : leafCost ≤ ewt := UInt32.le_of_lt hgt
    rw [UInt32.toNat_sub_of_le _ _ hle]
  · next hle =>
    have hle := UInt32.le_iff_toNat_le.mp (UInt32.not_lt.mp hle)
    rw [Nat.sub_eq_zero_of_le hle]
    rfl

theorem unwindBlocks_toNat (f : Factory) :
    (dwLayerInit f.stepBlocks f.statesPerLayer).unwindBlocks.toNat = f.layerBlocks % 2 ^ 32 := by
  rw [DwLayer.unwindBlocks,layerBlocks,dwLayerInit]
  split
  · next hgt =>
    have hone : (1 : UInt32) ≤ f.statesPerLayer := UInt32.le_of_lt hgt
    rw [UInt32.toNat_mul,UInt32.toNat_sub_of_le _ _ hone,UInt16.toNat_toUInt32]
    rfl
  · next hle =>
    have hle := UInt32.le_iff_toNat_le.mp (UInt32.not_lt.mp hle)
    have hzero : f.statesPerLayer.toNat-1 = 0 := Nat.sub_eq_zero_of_le hle
    rw [hzero,Nat.mul_zero]
    rfl

theorem layers_toNat (f : Factory) (n : ℕ) :
    (UInt32.ofNat n * (dwLayerInit f.stepBlocks f.statesPerLayer).unwindBlocks).toNat =
      n * f.layerBlocks % 2 ^ 32 := by
  rw [UInt32.toNat_mul,unwindBlocks_toNat,UInt32.toNat_ofNat',← Nat.mul_mod]

theorem foldl_replicate (n : ℕ) (layer : DwLayer) (ewt : UInt32) :
    (replicate n layer).foldl (fun ewt layer => ewt + layer.unwindBlocks) ewt =
      ewt + ofNat n * layer.unwindBlocks := by
  induction n generalizing ewt with
  | zero => simp
  | succ _ ih =>
    rw [List.replicate_succ,List.foldl_cons,ih,UInt32.ofNat_add,UInt32.add_mul,UInt32.add_assoc]
    congr 1
    rw [UInt32.add_comm]
    congr 1
    exact (one_mul _).symm

theorem dwNLayersFor_pos (depth : ℕ) (threshold : Int) : 0 < dwNLayersFor depth threshold := by
  rw [dwNLayersFor]
  simp only [dwMaxLayers]
  omega

theorem leafShapes_congr {g : Factory} (harity : ∀ d, arityAtDepth f d = arityAtDepth g d)
    (hcap : psLeafCapacity f = psLeafCapacity g) (d nc : ℕ) :
    leafShapes f d nc = leafShapes g d nc := by
  have hleaf : (fun (depth _ : ℕ) => (⟨depth,decide (arityAtDepth f depth = factoryArityPs)⟩ :
      LeafShape)) = fun depth _ => ⟨depth,decide (arityAtDepth g depth = factoryArityPs)⟩ := by
    funext depth _
    rw [harity]
  simp only [leafShapes,hleaf]
  exact treeLeaves_congr harity hcap nc d nc

theorem uniform_ps_shape (hconf : ArityConfigured f) (hu : f.levelArity = [])
    (ha : f.leafArity = factoryArityPs) {d nc : ℕ} (hpos : 0 < nc) {leaf : LeafShape}
    (hleaf : leaf ∈ leafShapes f d nc) : leaf.isPs = true := by
  induction nc using Nat.strong_induction_on generalizing d with
  | h nc ih =>
    by_cases hl : subtreeIsLeaf f (arityAtDepth f d) nc = true
    · rw [leafShapes_leaf hpos hl] at hleaf
      rw [mem_singleton.mp hleaf]
      exact decide_eq_true ((arityAtDepth_uniform hu d).trans ha)
    · have hl := Bool.eq_false_of_not_eq_true hl
      have hsplits := inner_splits hconf hl
      obtain ⟨part,hpart,hmem⟩ := (mem_leafShapes_inner hconf hpos hl).mp hleaf
      exact ih part (hsplits.smaller part hpart) (hsplits.pos part hpart) hmem

theorem shape_ewt (hconf : ArityConfigured f) (hpos : 0 < f.nClients)
    (hle : f.nClients ≤ factoryMaxNodes) :
    (factoryComputeEwtForShape f.levelArity f.leafArity f.nClients f.staticThresholdDepth
      f.stepBlocks f.statesPerLayer).toNat =
      f.countedBlocks (shape { f with psSubfactoryArity := 1 }) := by
  generalize hflat : ({ f with psSubfactoryArity := 1 } : Factory) = flat
  have harity : arityAtDepthRaw f.levelArity f.leafArity = arityAtDepth flat := by
    rw [← hflat]
    rfl
  have hleaf : shapeIsLeaf = subtreeIsLeaf flat := by
    have hcap : psLeafCapacity flat = 1 := by
      rw [← hflat]
      rfl
    funext a nc
    rw [shapeIsLeaf,subtreeIsLeaf,hcap]
    by_cases h1 : a = 1
    · rw [if_pos (Or.inl h1),if_pos h1]
    · by_cases h3 : a = factoryArityPs
      · rw [if_pos (Or.inr h3),if_neg h1,if_pos h3]
      · rw [if_neg (not_or.mpr ⟨h1,h3⟩),if_neg h1,if_neg h3]
  have hconf' : ArityConfigured flat := by
    rw [← hflat]
    exact hconf
  have hwalk : shapeLoop (arityAtDepth flat) (subtreeIsLeaf flat) (2*f.nClients+1)
      [(f.nClients,0)] 0 false = (deepest flat.shape,flat.shape.any LeafShape.isPs) := by
    have hn : flat.nClients = f.nClients := by
      rw [← hflat]
      rfl
    rw [shape,hn]
    exact shape_walk hconf' hpos hle
  have hany : (flat.shape.any LeafShape.isPs ||
      decide (f.levelArity = [] ∧ f.leafArity = factoryArityPs)) =
        flat.shape.any LeafShape.isPs := by
    by_cases hps : f.levelArity = [] ∧ f.leafArity = factoryArityPs
    · have hn : 0 < flat.nClients := by
        rw [← hflat]
        exact hpos
      obtain ⟨⟨leaf,hmem⟩,-⟩ := leafShapes_depth hconf' hn
      have htrue : flat.shape.any LeafShape.isPs = true := by
        refine any_eq_true.mpr ⟨leaf,hmem,?_⟩
        refine uniform_ps_shape hconf' ?_ ?_ hn hmem
        · rw [← hflat]
          exact hps.1
        · rw [← hflat]
          exact hps.2
      rw [htrue,Bool.true_or]
    · rw [decide_eq_false hps,Bool.or_false]
  rw [factoryComputeEwtForShape,if_neg hpos.ne',harity,hleaf,hwalk]
  dsimp only
  rw [hany,countedBlocks]
  have hthreshold : f.staticThresholdDepth.toInt32.toInt = staticThreshold f := rfl
  cases hps : flat.shape.any LeafShape.isPs with
  | true =>
    rw [if_pos ⟨rfl,dwNLayersFor_pos _ _⟩,discounted_toNat,layers_toNat,unwindBlocks_toNat]
    rfl
  | false =>
    rw [if_neg (fun h => absurd h.1 (by decide)),layers_toNat]
    rfl

end

section

variable {env : Env} {f g h : Factory} {b : Block}

theorem Levels.transfer {R S : ℕ → FactoryNode → Prop} {top i k : ℕ}
    (hrs : ∀ j x, R j x → ∃ y, S j y ∧ y.parentIndex = x.parentIndex ∧ y.waits = x.waits)
    (hlevels : Levels R top i k) : Levels S top i k := by
  induction hlevels with
  | top node =>
    obtain ⟨y,hy,-,hwaits⟩ := hrs _ _ node
    rw [← hwaits]
    exact .top hy
  | down _ node deep parent ih =>
    obtain ⟨y,hy,hparent,hwaits⟩ := hrs _ _ node
    rw [← hwaits]
    exact .down ih hy deep (hparent.trans parent)

theorem SameShape.waits {n m : FactoryNode} (hs : SameShape n m) : n.waits = m.waits := by
  simp only [FactoryNode.waits,hs.static,hs.type,hs.ps]

structure TreeLevels (f g : Factory) : Prop where
  origin : ∀ n, g.NodeAt 0 n → n.parentIndex = none
  root : ∀ i n, g.NodeAt i n → n.parentIndex = none → i = 0
  bound : ∀ i k, Levels g.NodeAt 0 i k → ∃ leaf ∈ f.shape, k ≤ leaf.levels f 0
  reach : ∀ leaf ∈ f.shape, ∃ i, Levels g.NodeAt 0 i (leaf.levels f 0)
  early : ∀ i n k, g.NodeAt i n → n.waits = 1 → n.dwLayerIndex = none → Levels g.NodeAt 0 i k →
    k = 1 ∧ ∃ leaf ∈ f.shape, leaf.isPs = false ∧ (leaf.depth : Int) < staticThreshold f
  found : ∀ leaf ∈ f.shape, leaf.isPs = false → (leaf.depth : Int) < staticThreshold f →
    ∃ i n, g.NodeAt i n ∧ n.waits = 1 ∧ n.dwLayerIndex = none ∧ Levels g.NodeAt 0 i 1
  layered : ∀ i n l, g.NodeAt i n → n.waits = 1 → n.dwLayerIndex = some l → l < g.counter.nLayers

theorem BuiltFrom.counted (hb : BuiltFrom env f g b) (hconf : ArityConfigured f) :
    Counted f.prepared (rootPlace env f) b :=
  buildSubtree_counted (f := f.prepared) hconf hb.block

theorem BuiltFrom.shapes (env : Env) (f : Factory) :
    placeShapes f.prepared (rootPlace env f) = f.shape := by
  have hlen := placedClients_length env f f.nClients
  change leafShapes f.prepared 0 (placedClients env f f.nClients).length = _
  rw [hlen]
  exact leafShapes_congr (f := f.prepared) (g := f) (fun _ => rfl) rfl _ _

theorem BuiltFrom.treeLevels (hb : BuiltFrom env f g b) (hconf : ArityConfigured f) :
    TreeLevels f g := by
  have hcounted := hb.counted hconf
  have hshapes := BuiltFrom.shapes env f
  have hdown : ∀ j x, At 0 b.nodes j x → ∃ y, g.NodeAt j y ∧ SameShape y x := by
    rw [hb.result]
    exact fun j x hx => nodeAt_of_at env f.prepared hx
  have hup : ∀ j y, g.NodeAt j y → ∃ x, At 0 b.nodes j x ∧ SameShape y x := by
    rw [hb.result]
    exact fun j y hy => at_of_nodeAt hy
  have hto : ∀ i k, BlockLevels (rootPlace env f) b i k → Levels g.NodeAt 0 i k := by
    intro i k hk
    refine hk.transfer ?_
    intro j x hx
    obtain ⟨y,hy,hs⟩ := hdown j x hx
    exact ⟨y,hy,hs.parent,hs.waits⟩
  have hfrom : ∀ i k, Levels g.NodeAt 0 i k → BlockLevels (rootPlace env f) b i k := by
    intro i k hk
    refine hk.transfer ?_
    intro j y hy
    obtain ⟨x,hx,hs⟩ := hup j y hy
    exact ⟨x,hx,hs.parent.symm,hs.waits.symm⟩
  refine ⟨?_,?_,?_,?_,?_,?_,?_⟩
  · intro n hn
    obtain ⟨x,hx,hs⟩ := hup 0 n hn
    have hroot : At 0 b.nodes 0 b.root := at_cons.mpr (Or.inl ⟨rfl,rfl⟩)
    rw [hs.parent,hx.unique hroot,hcounted.linked.parent]
    rfl
  · intro i n hn hnone
    obtain ⟨x,hx,hs⟩ := hup i n hn
    by_contra hi
    obtain ⟨p,parent,-,-,hparent,-⟩ := hcounted.linked.up i x hx hi
    exact absurd (hs.parent.symm.trans hnone) (by rw [hparent]; nofun)
  · intro i k hk
    rw [← hshapes]
    exact hcounted.bound i k (hfrom i k hk)
  · intro leaf hleaf
    rw [← hshapes] at hleaf
    obtain ⟨i,hi⟩ := hcounted.reach leaf hleaf
    exact ⟨i,hto i _ hi⟩
  · intro i n k hn hwaits hlayer hk
    obtain ⟨x,hx,hs⟩ := hup i n hn
    rw [← hshapes]
    exact hcounted.early i x k hx (hs.waits.symm.trans hwaits) (hs.layer.symm.trans hlayer)
      (hfrom i k hk)
  · intro leaf hleaf hps hearly
    rw [← hshapes] at hleaf
    obtain ⟨i,x,hx,hwaits,hlayer,hlevels⟩ := hcounted.found leaf hleaf hps hearly
    obtain ⟨y,hy,hs⟩ := hdown i x hx
    exact ⟨i,y,hy,hs.waits.trans hwaits,hs.layer.trans hlayer,hto i 1 hlevels⟩
  · intro i n l hn hwaits hl
    obtain ⟨x,hx,hs⟩ := hup i n hn
    have hle := hcounted.layered i x l hx (hs.waits.symm.trans hwaits) (hs.layer.symm.trans hl)
    have hpos : 0 < f.prepared.counter.nLayers := by
      have hlayers := dwNLayersFor_pos (treeMetrics f.priced f.nClients).1 (staticThreshold f)
      exact hlayers.trans_eq length_replicate.symm
    rw [hb.result]
    exact lt_of_le_of_lt hle (sub_lt hpos one_pos)

theorem BuiltFrom.any_ps (hb : BuiltFrom env f g b) (hconf : ArityConfigured f) :
    (range g.nLeafNodes).any (fun i =>
      ((g.nodes[g.leafNode i]?).map FactoryNode.isPsLeaf).getD false) =
      f.shape.any LeafShape.isPs := by
  have hcounted := hb.counted hconf
  have hshapes := BuiltFrom.shapes env f
  have hsk := hb.skeleton hconf
  have htip : ∀ j, j < g.nLeafNodes → ∃ n, g.NodeAt (g.leafNode j) n ∧ IsTip n ∧
      ∃ leaf ∈ f.shape, leaf.isPs = n.isPsLeaf := by
    intro j hj
    obtain ⟨n,hn,htip⟩ := hsk.tips hj
    obtain ⟨x,hx,hs⟩ : ∃ x, At 0 b.nodes (g.leafNode j) x ∧ SameShape n x := by
      revert hn
      rw [hb.result]
      exact at_of_nodeAt
    have hx' : IsTip x := ⟨hs.type.symm.trans htip.1,by rw [← hs.children,← hs.subs,htip.2]⟩
    obtain ⟨leaf,hleaf,hps⟩ := hcounted.tips _ x hx hx'
    rw [hshapes] at hleaf
    exact ⟨n,hn,htip,leaf,hleaf,hps.trans hs.ps.symm⟩
  rw [Bool.eq_iff_iff,any_eq_true,any_eq_true]
  constructor
  · rintro ⟨j,hj,hps⟩
    obtain ⟨n,hn,-,leaf,hleaf,heq⟩ := htip j (mem_range.mp hj)
    rw [show g.nodes[g.leafNode j]? = some n from hn] at hps
    exact ⟨leaf,hleaf,heq.trans hps⟩
  · rintro ⟨leaf,hleaf,hps⟩
    suffices hlisted : ∃ j n, j < g.nLeafNodes ∧ g.NodeAt (g.leafNode j) n ∧ n.isPsLeaf = true by
      obtain ⟨j,n,hj,hn,hn'⟩ := hlisted
      refine ⟨j,mem_range.mpr hj,?_⟩
      rw [show g.nodes[g.leafNode j]? = some n from hn]
      exact hn'
    by_cases hexact : f.levelArity ≠ [] ∨ f.leafArity ≠ factoryArityPs
    · rw [← hshapes] at hleaf
      obtain ⟨i,x,hx,hx',hpsx⟩ := hcounted.shown leaf hleaf
      obtain ⟨j,hj,hget⟩ := hb.listed_tip hconf hexact hx hx'
      obtain ⟨n,hn,hs⟩ : ∃ n, g.NodeAt i n ∧ SameShape n x := by
        rw [hb.result]
        exact nodeAt_of_at env f.prepared hx
      have hnode : g.leafNode j = i := by
        rw [hb.result]
        change b.leaves.getD j 0 = i
        rw [getD_eq_getElem?_getD,hget]
        rfl
      refine ⟨j,n,?_,hnode ▸ hn,hs.ps.trans (hpsx.trans hps)⟩
      rw [hb.result]
      exact hj
    · -- With one arity every leaf is a PS leaf, and at least one is listed.
      have hu : f.levelArity = [] := by
        by_contra hu
        exact hexact (Or.inl hu)
      have ha : f.leafArity = factoryArityPs := by
        by_contra ha
        exact hexact (Or.inr ha)
      have hcap := psLeafCapacity_pos f
      have hpos : 0 < g.nLeafNodes := by
        rw [hb.result]
        change 0 < f.prepared.nLeafNodes
        rw [nLeafNodes_ps hu ha]
        have := hb.nClients_pos
        exact div_pos (by omega) hcap
      obtain ⟨n,hn,-,leaf',hleaf',heq⟩ := htip 0 hpos
      exact ⟨0,n,hpos,hn,heq.symm.trans (uniform_ps_shape hconf hu ha hb.nClients_pos hleaf')⟩

theorem BuiltFrom.warning (hb : BuiltFrom env f g b) (hconf : ArityConfigured f) :
    (factoryEarlyWarningTime g).toNat = f.countedBlocks f.shape := by
  have hdepth : (treeMetrics f.priced f.nClients).1 = deepest f.shape := by
    rw [treeMetrics_depth (f := f.priced) hconf hb.nClients_pos hb.nClients_le,shape]
    exact congrArg deepest (leafShapes_congr (f := f.priced) (g := f) (fun _ => rfl) rfl _ _)
  have hcounter : g.counter.layers = replicate (dwNLayersFor (deepest f.shape)
      (staticThreshold f)) (dwLayerInit f.stepBlocks f.statesPerLayer) := by
    rw [← hdepth,hb.result]
    rfl
  have hpos := dwNLayersFor_pos (deepest f.shape) (staticThreshold f)
  have hlast : g.counter.layers.getLast? = some (dwLayerInit f.stepBlocks f.statesPerLayer) := by
    rw [hcounter,getLast?_replicate,if_neg hpos.ne']
  have hsum : g.counter.layers.foldl (fun ewt layer => ewt + layer.unwindBlocks) 0 =
      ofNat (dwNLayersFor (deepest f.shape) (staticThreshold f)) *
        (dwLayerInit f.stepBlocks f.statesPerLayer).unwindBlocks := by
    rw [hcounter,foldl_replicate,UInt32.zero_add]
  rw [factoryEarlyWarningTime,hlast,hsum,hb.any_ps hconf,countedBlocks]
  dsimp only
  split
  · rw [discounted_toNat,layers_toNat,unwindBlocks_toNat]
  · rw [layers_toNat,Nat.sub_zero]

section

variable (hsk : Skeleton env g) (hlevels : TreeLevels f g)

theorem delay_fixed {i : ℕ} {n : FactoryNode} (hwaits : n.waits = 0) : nodeDelay env h i n = 0 := by
  have hfixed : n.isStaticOnly = true ∨ n.type = .kickoff ∨ n.isPsLeaf = true := by
    by_contra hnot
    rw [FactoryNode.waits,if_neg hnot] at hwaits
    cases hwaits
  rw [nodeDelay,nodeNsequence]
  by_cases hstatic : n.isStaticOnly = true
  · rw [if_pos hstatic]
    rfl
  by_cases hkind : n.type = .kickoff
  · rw [if_neg hstatic,if_pos hkind]
    rfl
  · rw [if_neg hstatic,if_neg hkind,if_pos ((hfixed.resolve_left hstatic).resolve_left hkind)]
    rfl

theorem CounterState.counterLayer (hc : CounterState g h) (l : ℕ) :
    (counterLayer env h (some l)).Takes g.stepBlocks g.statesPerLayer := by
  rw [SuperScalar.counterLayer,getD_eq_getElem?_getD]
  cases hl : h.counter.layers[l]? with
  | none => exact ⟨hc.tree.stepBlocks,hc.tree.statesPerLayer,UInt32.zero_le⟩
  | some layer => exact hc.layers layer (mem_of_getElem? hl)

theorem CounterState.leafLayer (hc : CounterState g h) (j : ℕ) :
    (h.leafLayer j).Takes g.stepBlocks g.statesPerLayer := by
  rw [Factory.leafLayer,getD_eq_getElem?_getD]
  cases hl : h.leafLayers[j]? with
  | none => exact ⟨hc.tree.stepBlocks,hc.tree.statesPerLayer,UInt32.zero_le⟩
  | some layer => exact hc.leafLayers layer (mem_of_getElem? hl)

include hsk

theorem delay_moving (hc : CounterState g h) {i : ℕ} {n : FactoryNode} (hn : g.NodeAt i n)
    (hwaits : n.waits = 1) :
    nodeDelay env h i n ≤ worstDelay g.stepBlocks g.statesPerLayer ∨
      n.dwLayerIndex = none ∧ n.childIndices = [] ∧
        nodeDelay env h i n = (dwCurrentNsequence env.layerBefore).toNat := by
  have hread : ∀ layer : DwLayer, layer.Takes g.stepBlocks g.statesPerLayer →
      bip68Blocks (dwCurrentNsequence layer) ≤ worstDelay g.stepBlocks g.statesPerLayer := by
    intro layer hlayer
    rw [bip68_dw]
    exact hlayer.delay_le
  rw [nodeDelay]
  cases (hsk.ok i n hn).kind with
  | kickoff type => exact absurd ((waits_kickoff type).symm.trans hwaits) (by decide)
  | inner type ps _ _ children layer =>
    obtain ⟨l,hl⟩ := Option.ne_none_iff_exists'.mp layer
    left
    rw [(inner_sequence hsk hn type ps children).2 h hc.tree,hl]
    exact hread _ (hc.counterLayer l)
  | leaf tip _ direct =>
    have hps := not_ps_of_waits hwaits
    obtain ⟨j,hj,hi⟩ := hsk.moving i n hn tip hps
    rw [tip_sequence hsk hn tip hps hj hi hc.tree]
    split
    · exact Or.inl (hread _ (hc.leafLayer j))
    · cases hl : n.dwLayerIndex with
      | some l => exact Or.inl (hread _ (hc.counterLayer l))
      | none => exact Or.inr ⟨rfl,direct hps,bip68_dw _⟩
  | sub _ ps => exact absurd ((waits_ps ps).symm.trans hwaits) (by decide)

include hlevels

structure TimeBound (env : Env) (g : Factory) (i total k : ℕ) : Prop where
  levels : Levels g.NodeAt 0 i k
  time : total ≤ k * worstDelay g.stepBlocks g.statesPerLayer ∨
    ∃ n, g.NodeAt i n ∧ n.waits = 1 ∧ n.dwLayerIndex = none ∧ n.childIndices = [] ∧
      total ≤ (dwCurrentNsequence env.layerBefore).toNat

theorem unwind_bound (hc : CounterState g h) {i total : ℕ} (ht : UnwindTime env h i total) :
    ∃ k, TimeBound env g i total k := by
  induction ht with
  | @root i n node parent =>
    obtain ⟨m,hm,hlinks⟩ := hc.tree.symm.node node
    have hparent := (links_parent hlinks).trans parent
    obtain rfl := hlevels.root i m hm hparent
    have hdelay : nodeDelay env h 0 n = nodeDelay env h 0 m := by
      simp only [nodeDelay,nodeNsequence_links hlinks.symm]
    rw [hdelay]
    refine ⟨m.waits,.top hm,?_⟩
    rcases waits_cases m with hwaits | hwaits
    · rw [delay_fixed hwaits]
      exact Or.inl (zero_le _)
    · rw [hwaits,Nat.one_mul]
      rcases delay_moving hsk hc hm hwaits with hle | ⟨hlayer,hchildren,heq⟩
      · exact Or.inl hle
      · exact Or.inr ⟨m,hm,hwaits,hlayer,hchildren,heq.le⟩
  | @child p i total n _ node parent ih =>
    obtain ⟨k,habove,htime⟩ := ih
    obtain ⟨m,hm,hlinks⟩ := hc.tree.symm.node node
    have hparent := (links_parent hlinks).trans parent
    obtain ⟨x,hx,hlt,hchild,-⟩ := hsk.up i m p hm hparent
    have hdelay : nodeDelay env h i n = nodeDelay env h i m := by
      simp only [nodeDelay,nodeNsequence_links hlinks.symm]
    have htotal : total ≤ k * worstDelay g.stepBlocks g.statesPerLayer := by
      rcases htime with hle | ⟨y,hy,-,-,hnil,-⟩
      · exact hle
      · obtain rfl := Option.mem_unique hy hx
        rw [hnil] at hchild
        cases hchild
    have hdown : Levels g.NodeAt 0 i (k+m.waits) := .down habove hm (by omega) hparent
    rw [hdelay]
    refine ⟨k + m.waits,hdown,?_⟩
    rcases waits_cases m with hwaits | hwaits
    · rw [delay_fixed hwaits,hwaits]
      exact Or.inl htotal
    · rcases delay_moving hsk hc hm hwaits with hle | ⟨hlayer,hchildren,heq⟩
      · left
        rw [hwaits,Nat.add_mul,Nat.one_mul]
        exact Nat.add_le_add htotal hle
      · right
        obtain ⟨hone,-⟩ := hlevels.early i m _ hm hwaits hlayer hdown
        obtain rfl : k = 0 := by omega
        exact ⟨m,hm,hwaits,hlayer,hchildren,by omega⟩

end

def Factory.turnedTo (g : Factory) (layer : DwLayer) (perLeaf : Bool) : Factory :=
  { g with
    counter := { g.counter with layers := replicate g.counter.nLayers layer }
    leafLayers := replicate g.nLeafNodes layer
    perLeafEnabled := perLeaf }

section

variable {layer : DwLayer}

theorem turnedTo_state (hlayer : layer.Takes g.stepBlocks g.statesPerLayer) (perLeaf : Bool) :
    CounterState g (g.turnedTo layer perLeaf) := by
  refine ⟨⟨rfl,rfl⟩,length_replicate,?_,?_⟩
  · intro l hl
    rwa [eq_of_mem_replicate hl]
  · intro l hl
    rwa [eq_of_mem_replicate hl]

theorem turnedTo_counter {l : ℕ} (hl : l < g.counter.nLayers) (perLeaf : Bool) :
    counterLayer env (g.turnedTo layer perLeaf) (some l) = layer := by
  change (replicate g.counter.nLayers layer)[l]?.getD _ = layer
  rw [getElem?_replicate_of_lt hl]
  rfl

theorem turnedTo_leaf {j : ℕ} (hj : j < g.nLeafNodes) (perLeaf : Bool) :
    (g.turnedTo layer perLeaf).leafLayer j = layer := by
  change (replicate g.nLeafNodes layer)[j]?.getD _ = layer
  rw [getElem?_replicate_of_lt hj]
  rfl

variable (hsk : Skeleton env g) (hlevels : TreeLevels f g)

include hsk

theorem delay_early {i : ℕ} {n : FactoryNode} (hn : g.NodeAt i n) (hwaits : n.waits = 1)
    (hlayer : n.dwLayerIndex = none) : nodeDelay env (g.turnedTo layer false) i n =
      (dwCurrentNsequence env.layerBefore).toNat := by
  have hsame : SameTree g (g.turnedTo layer false) := ⟨rfl,rfl⟩
  rw [nodeDelay,← bip68_dw]
  cases (hsk.ok i n hn).kind with
  | kickoff type => exact absurd ((waits_kickoff type).symm.trans hwaits) (by decide)
  | inner _ _ _ _ _ hsome => exact absurd hlayer hsome
  | leaf tip =>
    have hps := not_ps_of_waits hwaits
    obtain ⟨j,hj,hi⟩ := hsk.moving i n hn tip hps
    rw [tip_sequence hsk hn tip hps hj hi hsame,hlayer]
    rfl
  | sub _ ps => exact absurd ((waits_ps ps).symm.trans hwaits) (by decide)

include hlevels

theorem delay_turnedTo {i : ℕ} {n : FactoryNode} (hn : g.NodeAt i n) (hwaits : n.waits = 1) :
    nodeDelay env (g.turnedTo layer true) i n = (dwCurrentNsequence layer).toNat := by
  have hsame : SameTree g (g.turnedTo layer true) := ⟨rfl,rfl⟩
  rw [nodeDelay,← bip68_dw]
  cases (hsk.ok i n hn).kind with
  | kickoff type => exact absurd ((waits_kickoff type).symm.trans hwaits) (by decide)
  | inner type ps _ _ children hlayer =>
    obtain ⟨l,hl⟩ := Option.ne_none_iff_exists'.mp hlayer
    have hlt := hlevels.layered i n l hn hwaits hl
    rw [(inner_sequence hsk hn type ps children).2 _ hsame,hl,turnedTo_counter hlt]
  | leaf tip =>
    have hps := not_ps_of_waits hwaits
    obtain ⟨j,hj,hi⟩ := hsk.moving i n hn tip hps
    have hread := tip_sequence hsk hn tip hps hj hi hsame
    rw [if_pos (show (g.turnedTo layer true).perLeafEnabled = true from rfl),
      turnedTo_leaf hj] at hread
    rw [hread]
  | sub _ ps => exact absurd ((waits_ps ps).symm.trans hwaits) (by decide)

omit hsk

theorem levels_time {i k delay : ℕ} {perLeaf : Bool} (hk : Levels g.NodeAt 0 i k)
    (hdelay : ∀ j n, g.NodeAt j n → n.waits = 1 →
      nodeDelay env (g.turnedTo layer perLeaf) j n = delay ∨ k = 0) :
    UnwindTime env (g.turnedTo layer perLeaf) i (k*delay) := by
  have hnode : ∀ j n k, g.NodeAt j n → n.waits ≤ k → (n.waits = 1 →
      nodeDelay env (g.turnedTo layer perLeaf) j n = delay ∨ k = 0) →
        nodeDelay env (g.turnedTo layer perLeaf) j n = n.waits*delay := by
    intro j n k hn hle h
    rcases waits_cases n with hwaits | hwaits
    · rw [delay_fixed hwaits,hwaits,Nat.zero_mul]
    · rw [(h hwaits).resolve_right (by omega),hwaits,Nat.one_mul]
  induction hk with
  | @top n node =>
    rw [← hnode 0 n _ node le_rfl (hdelay 0 n node)]
    exact .root node (hlevels.origin n node)
  | @down _ i _ n _ node _ parent ih =>
    rw [add_mul,← hnode i n _ node (le_add_left _ _) (hdelay i n node)]
    refine .child (ih ?_) node parent
    intro j m hm hwaits
    exact (hdelay j m hm hwaits).imp_right (fun hzero => by omega)

include hsk

theorem worst_unwind {leaf : LeafShape} (hleaf : leaf ∈ f.shape) :
    ∃ h i, CounterState g h ∧ UnwindTime env h i
      (leaf.levels f 0 * worstDelay g.stepBlocks g.statesPerLayer) := by
  obtain ⟨layer,htakes,hworst⟩ := worstDelay_taken g.stepBlocks g.statesPerLayer
  obtain ⟨i,hi⟩ := hlevels.reach leaf hleaf
  refine ⟨g.turnedTo layer true,i,turnedTo_state htakes true,levels_time hlevels hi ?_⟩
  intro j n hn hwaits
  rw [← hworst]
  exact Or.inl (delay_turnedTo hsk hlevels hn hwaits)

theorem early_unwind {leaf : LeafShape} (hleaf : leaf ∈ f.shape) (hps : leaf.isPs = false)
    (hearly : (leaf.depth : Int) < staticThreshold f) :
    ∃ h i, CounterState g h ∧ UnwindTime env h i (dwCurrentNsequence env.layerBefore).toNat := by
  obtain ⟨layer,htakes,-⟩ := worstDelay_taken g.stepBlocks g.statesPerLayer
  obtain ⟨i,n,hn,hwaits,hlayer,hi⟩ := hlevels.found leaf hleaf hps hearly
  refine ⟨g.turnedTo layer false,i,turnedTo_state htakes false,?_⟩
  have hdelay : nodeDelay env (g.turnedTo layer false) i n =
      (dwCurrentNsequence env.layerBefore).toNat := delay_early hsk hn hwaits hlayer
  rw [← hdelay]
  generalize hone : 1 = k at hi
  cases hi with
  | @top _ node =>
    exact .root hn (hlevels.origin n hn)
  | @down p _ k _ above node _ parent =>
    obtain rfl := Option.mem_unique hn node
    obtain rfl : k = 0 := by omega
    have htime : UnwindTime env (g.turnedTo layer false) p (0*0) :=
      levels_time hlevels above (fun _ _ _ _ => Or.inr rfl)
    have hchild := UnwindTime.child htime hn parent
    rwa [Nat.zero_mul,Nat.zero_add] at hchild

end


theorem early_warning_sound_iff (env : Env) (f g : Factory) (hconf : ArityConfigured f)
    (h : factoryBuildTree env f = some g) : EwtSound env f g ↔ EwtFits env f := by
  obtain ⟨b,hb⟩ := factoryBuildTree_spec h
  have hsk := hb.skeleton hconf
  have hlevels := hb.treeLevels hconf
  have hwarning := hb.warning hconf
  have hshape := shape_ewt hconf hb.nClients_pos hb.nClients_le
  have hstep : g.stepBlocks = f.stepBlocks := by
    rw [hb.result]
    rfl
  have hstates : g.statesPerLayer = f.statesPerLayer := by
    rw [hb.result]
    rfl
  constructor
  · rintro ⟨hcovers,hsim,-⟩
    rw [hwarning] at hcovers
    refine ⟨?_,?_,?_⟩
    · intro leaf hleaf
      obtain ⟨k,i,hk,htime⟩ := worst_unwind hsk hlevels hleaf
      rw [hstep,hstates] at htime
      exact hcovers k hk i _ htime
    · intro leaf hleaf hps hearly
      obtain ⟨k,i,hk,htime⟩ := early_unwind hsk hlevels hleaf hps hearly
      exact hcovers k hk i _ htime
    · rw [← hshape,hsim,hwarning]
  · rintro ⟨hcovers,hearly,hsim⟩
    have hwithin : UnwindsWithin env g (factoryEarlyWarningTime g).toNat := by
      intro k hk i total htime
      obtain ⟨n,hn,hbound⟩ := unwind_bound hsk hlevels hk htime
      rw [hwarning]
      rcases hbound with hle | ⟨m,hm,hwaits,hlayer,-,hle⟩
      · obtain ⟨leaf,hleaf,hdeep⟩ := hlevels.bound i n hn
        rw [hstep,hstates] at hle
        exact (hle.trans (mul_le_mul_right _ hdeep)).trans (hcovers leaf hleaf)
      · obtain ⟨-,leaf,hleaf,hps,hdepth⟩ := hlevels.early i m n hm hwaits hlayer hn
        exact hle.trans (hearly leaf hleaf hps hdepth)
    have hsame : factoryComputeEwtForShape f.levelArity f.leafArity f.nClients
        f.staticThresholdDepth f.stepBlocks f.statesPerLayer = factoryEarlyWarningTime g := by
      rw [← UInt32.toNat_inj,hshape,hsim,hwarning]
    refine ⟨hwithin,hsame,?_⟩
    intro hvalid k hk i total htime
    rw [cliValidateShapeForBolt2016,hsame] at hvalid
    split at hvalid
    · next hle => exact (hwithin k hk i total htime).trans (le_iff_toNat_le.mp hle)
    · cases hvalid

theorem early_warning_sound_four_clients : ∃ g,
    factoryBuildTree Env.sample (sample 4 2 1) = some g ∧ EwtSound Env.sample (sample 4 2 1) g := by
  have hbuilt : (factoryBuildTree Env.sample (sample 4 2 1)).isSome = true := by
    decide +kernel
  obtain ⟨g,hg⟩ := Option.isSome_iff_exists.mp hbuilt
  refine ⟨g,hg,(early_warning_sound_iff Env.sample (sample 4 2 1) g ?_ hg).mpr ?_⟩
  · exact ⟨fun _ => Or.inr (Or.inl rfl),by simp [sample]⟩
  · exact ⟨by decide +kernel,by decide +kernel,by decide +kernel⟩

def Factory.lopsided : Factory :=
  { sample 3 2 1 with levelArity := [2,3,2], statesPerLayer := 8 }

theorem early_warning_misses_layer : ∃ g h i,
    factoryBuildTree Env.sample lopsided = some g ∧ CounterState g h ∧
      UnwindTime Env.sample h i 3024 ∧ factoryEarlyWarningTime g = 2016 ∧
      cliValidateShapeForBolt2016 [2,3,2] 2 3 0 144 8 = ⟨2016,none⟩ := by
  obtain ⟨g,hg,hwarning,hstep,hstates⟩ : ∃ g,
      factoryBuildTree Env.sample lopsided = some g ∧
        factoryEarlyWarningTime g = 2016 ∧ g.stepBlocks = 144 ∧ g.statesPerLayer = 8 := by
    decide +kernel
  have hconf : ArityConfigured lopsided :=
    ⟨fun h => absurd h (by decide),by decide⟩
  obtain ⟨b,hb⟩ := factoryBuildTree_spec hg
  have hleaf : (⟨2,false⟩ : LeafShape) ∈ lopsided.shape := by decide +kernel
  obtain ⟨h,i,hh,htime⟩ := worst_unwind (hb.skeleton hconf) (hb.treeLevels hconf) hleaf
  have htotal : (⟨2,false⟩ : LeafShape).levels lopsided 0 * worstDelay 144 8 = 3024 := by
    decide +kernel
  rw [hstep,hstates,htotal] at htime
  exact ⟨g,h,i,hg,hh,htime,hwarning,by decide +kernel⟩

end

end SuperScalar
