import SuperScalar.Factory.Tree

namespace SuperScalar

open Bitcoin Offset List FactoryNode

def FactoryNode.links (n : FactoryNode) : FactoryNode :=
  { n.blank with
    outputs := []
    psChainLen := 0
    psPrevTxid := Blob.zero 32
    psPrevChanAmount := 0
    psChainConfirmedHeight := 0
    psNPrevOutputs := 0
    psPrevOutputs := [] }

section

variable {n m : FactoryNode} (h : n.links = m.links)

include h

theorem links_type : n.type = m.type := (congrArg type h :)

theorem links_keyagg : n.keyagg = m.keyagg := (congrArg keyagg h :)

theorem links_layer : n.dwLayerIndex = m.dwLayerIndex := (congrArg dwLayerIndex h :)

theorem links_parent : n.parentIndex = m.parentIndex := (congrArg parentIndex h :)

theorem links_vout : n.parentVout = m.parentVout := (congrArg parentVout h :)

theorem links_children : n.childIndices = m.childIndices := (congrArg childIndices h :)

theorem links_ps : n.isPsLeaf = m.isPsLeaf := (congrArg isPsLeaf h :)

theorem links_static : n.isStaticOnly = m.isStaticOnly := (congrArg isStaticOnly h :)

end

def Factory.base (f : Factory) : Factory :=
  { f with nodes := [], counter := ⟨[],0,0⟩, leafLayers := [], perLeafEnabled := false }

structure SameTree (f h : Factory) : Prop where
  base : h.base = f.base
  links : h.nodes.map links = f.nodes.map links

namespace SameTree

variable {f g h : Factory}

theorem refl (f : Factory) : SameTree f f := ⟨rfl,rfl⟩

theorem symm (hs : SameTree f h) : SameTree h f := ⟨hs.base.symm,hs.links.symm⟩

theorem trans (hfirst : SameTree f g) (hlater : SameTree g h) : SameTree f h :=
  ⟨hlater.base.trans hfirst.base,hlater.links.trans hfirst.links⟩

variable {i : ℕ} {n : FactoryNode}

variable (hs : SameTree f h)

include hs

theorem node (hn : f.NodeAt i n) : ∃ m, h.NodeAt i m ∧ m.links = n.links := by
  have hget := congrArg (·[i]?) hs.links
  simp only [getElem?_map] at hget
  rw [show f.nodes[i]? = some n from hn] at hget
  exact Option.map_eq_some_iff.mp hget

theorem links_eq {m : FactoryNode} (hn : f.NodeAt i n) (hm : h.NodeAt i m) : m.links = n.links := by
  obtain ⟨m',hm',heq⟩ := hs.node hn
  rwa [Option.mem_unique hm hm']

theorem leafNode (j : ℕ) : h.leafNode j = f.leafNode j := by
  have hleaves : h.leafNodeIndices = f.leafNodeIndices :=
    (congrArg Factory.leafNodeIndices hs.base :)
  simp only [Factory.leafNode,hleaves]

theorem nLeafNodes : h.nLeafNodes = f.nLeafNodes :=
  (congrArg Factory.nLeafNodes hs.base :)

theorem stepBlocks : h.stepBlocks = f.stepBlocks :=
  (congrArg Factory.stepBlocks hs.base :)

theorem statesPerLayer : h.statesPerLayer = f.statesPerLayer :=
  (congrArg Factory.statesPerLayer hs.base :)

theorem leafLayer (hl : h.leafLayers = f.leafLayers) (j : ℕ) : h.leafLayer j = f.leafLayer j := by
  simp only [Factory.leafLayer,hl,hs.stepBlocks,hs.statesPerLayer]

theorem lStockSpk (env : Env) (keyagg : Keyagg) :
    buildLStockSpk env h keyagg = buildLStockSpk env f keyagg :=
  (congrArg (fun k => buildLStockSpk env k keyagg) hs.base :)

end SameTree

def Factory.IsParent (g : Factory) (p i : ℕ) : Prop :=
  ∃ n, g.NodeAt i n ∧ n.parentIndex = some p

def Factory.Above (g : Factory) : ℕ → ℕ → Prop := Relation.TransGen g.IsParent

instance (g : Factory) : IsTrans ℕ g.Above := inferInstanceAs (IsTrans ℕ (Relation.TransGen _))

variable {g : Factory} {a i : ℕ} {env : Env}

theorem above_iff : g.Above a i ↔ ∃ p, g.IsParent p i ∧ (a = p ∨ g.Above a p) := by
  constructor
  · intro h
    cases h with
    | single hp => exact ⟨a,hp,Or.inl rfl⟩
    | tail hrest hp => exact ⟨_,hp,Or.inr hrest⟩
  · rintro ⟨p,hp,rfl | hrest⟩
    · exact .single hp
    · exact .tail hrest hp

structure Skeleton (env : Env) (g : Factory) : Prop where
  up : ∀ i n p, g.NodeAt i n → n.parentIndex = some p → ∃ parent, g.NodeAt p parent ∧ p < i ∧
    parent.childIndices[n.parentVout]? = some i ∧
    parent.outputs[n.parentVout]? = some ⟨n.inputAmount,n.spendingSpk.val⟩ ∧
    (parent.isPsLeaf = true → n.isPsLeaf = true ∧ n.type = .psSubfactory)
  ok : ∀ i n, g.NodeAt i n → NodeOk env g n
  leafNodes : ∀ l ∈ g.leafNodeIndices, ∃ n, g.NodeAt l n ∧ IsTip n
  nonEmpty : g.leafNodeIndices ≠ []
  listed : ∀ j, j < g.nLeafNodes → g.leafNode j ∈ g.leafNodeIndices
  moving : ∀ i n, g.NodeAt i n → IsTip n → n.isPsLeaf = false →
    ∃ j, j < g.nLeafNodes ∧ g.leafNode j = i
  distinct : ∀ j k, j < g.nLeafNodes → k < g.nLeafNodes → g.leafNode j = g.leafNode k → j = k
  layers : 0 ≤ staticThreshold g → ∀ i s, g.NodeAt i s → s.type = .state →
    s.dwLayerIndex = some 0 ∨ s.dwLayerIndex = none ∨ LayerStep g g.NodeAt s

theorem Skeleton.tips (hsk : Skeleton env g) {j : ℕ} (hj : j < g.nLeafNodes) :
    ∃ n, g.NodeAt (g.leafNode j) n ∧ IsTip n :=
  hsk.leafNodes _ (hsk.listed j hj)

theorem Skeleton.above_lt (hsk : Skeleton env g) (ha : g.Above a i) : a < i := by
  have hlt : ∀ p j, g.IsParent p j → p < j := by
    rintro p j ⟨n,hn,hp⟩
    obtain ⟨-,-,hlt,-⟩ := hsk.up j n p hn hp
    exact hlt
  induction ha with
  | single hp => exact hlt _ _ hp
  | tail _ hp ih => exact ih.trans (hlt _ _ hp)

section

variable {env : Env} {f g : Factory} {b : Block}

variable {n parent m : FactoryNode} {i p k : ℕ} {R : ℕ → FactoryNode → Prop}

theorem LeafAt.tip_child (huniq : ∀ j x y, R j x → R j y → x = y) (hleaf : LeafAt env f R p parent)
    (htip : IsTip parent) (hchild : parent.childIndices[k]? = some i) (hn : R i n) :
    n.isPsLeaf = true ∧ n.type = .psSubfactory := by
  obtain ⟨depth,subs,hset⟩ := hleaf
  obtain ⟨st,input,-,-,hnil,hsetup⟩ := hset.setup
  rw [htip.2,hsetup.subIndices hnil,getElem?_map] at hchild
  obtain ⟨k',hk',rfl⟩ := Option.map_eq_some_iff.mp hchild
  have hlt := mem_range.mp (mem_of_getElem? hk')
  have hget := getElem?_eq_getElem hlt
  obtain ⟨amount,hsub,-⟩ := hsetup.subs k' _ hget
  rw [huniq _ _ _ hn (hset.subs k' _ hget)]
  exact ⟨hsub.ps,hsub.type⟩

theorem kickoff_or_tip (h : NodeOk env f n) (hps : n.isPsLeaf = true) :
    IsTip n ∨ n.childIndices = [] := by
  cases h.kind with
  | kickoff _ hnot => exact absurd (hnot.symm.trans hps) (by decide)
  | inner _ hnot => exact absurd (hnot.symm.trans hps) (by decide)
  | leaf htip => exact Or.inl htip
  | sub _ _ _ _ hnil => exact Or.inr hnil

section

variable (h : BuiltFrom env f g b)

include h

variable (hconf : ArityConfigured f)

include hconf

theorem BuiltFrom.ps_child
    (hn : At 0 b.nodes i n) (hp : At 0 b.nodes p parent) (hchild : parent.childIndices[k]? = some i)
    (hps : parent.isPsLeaf = true) : n.isPsLeaf = true ∧ n.type = .psSubfactory := by
  obtain ⟨ms,hms⟩ := h.leafNodes hconf
  rcases kickoff_or_tip (buildSubtree_nodes h.block parent hp.mem) hps with htip | hnil
  · have hmem := ((buildSubtree_leafy h.block).tips p parent hp).mpr htip
    obtain ⟨j,hj⟩ := mem_iff_getElem?.mp hmem
    obtain ⟨m,-,hm⟩ := hms.nodes.getElem?_left hj
    have huniq : ∀ j x y, At 0 b.nodes j x → At 0 b.nodes j y → x = y :=
      fun _ _ _ hx hy => hx.unique hy
    obtain rfl := huniq _ _ _ hp hm.choose_spec.choose_spec.leaf
    exact hm.tip_child huniq htip hchild hn
  · rw [hnil] at hchild
    cases hchild

theorem BuiltFrom.leaves_le : f.prepared.nLeafNodes ≤ b.leaves.length := by
  rw [h.leaves_length hconf]
  exact nLeafNodes_le hconf h.nClients_pos h.nClients_le

theorem BuiltFrom.leaves_ne_nil : b.leaves ≠ [] := by
  obtain ⟨ms,hms⟩ := h.leafNodes hconf
  intro hnil
  have hnodes := hms.nodes
  rw [hnil,forall₂_nil_left_iff] at hnodes
  have hlen := congrArg length hms.clients
  rw [hnodes,placedClients_length] at hlen
  exact h.nClients_pos.ne hlen

theorem BuiltFrom.listed_tip
    (hexact : f.levelArity ≠ [] ∨ f.leafArity ≠ factoryArityPs) (hn : At 0 b.nodes i n)
    (htip : IsTip n) : ∃ j, j < f.prepared.nLeafNodes ∧ b.leaves[j]? = some i := by
  have hmem := ((buildSubtree_leafy h.block).tips i n hn).mpr htip
  obtain ⟨j,hj⟩ := mem_iff_getElem?.mp hmem
  refine ⟨j,?_,hj⟩
  rw [nLeafNodes_exact hconf h.nClients_pos h.nClients_le (hexact.imp_right Or.inl),
    ← h.leaves_length hconf]
  exact (List.getElem?_eq_some_iff.mp hj).1

theorem BuiltFrom.moving_leaf
    (hn : At 0 b.nodes i n) (htip : IsTip n) (hps : n.isPsLeaf = false) :
    ∃ j, j < f.prepared.nLeafNodes ∧ b.leaves[j]? = some i := by
  refine h.listed_tip hconf ?_ hn htip
  by_contra hnot
  have hu : f.levelArity = [] := by
    by_contra hu
    exact hnot (Or.inl hu)
  have ha : f.leafArity = factoryArityPs := by
    by_contra ha
    exact hnot (Or.inr ha)
  have hmem := ((buildSubtree_leafy h.block).tips i n hn).mpr htip
  obtain ⟨j,hj⟩ := mem_iff_getElem?.mp hmem
  obtain ⟨ms,hms⟩ := h.leafNodes hconf
  obtain ⟨m,-,depth,subs,hset⟩ := hms.nodes.getElem?_left hj
  obtain ⟨st,input,-,hst,-,hsetup⟩ := hset.setup
  have harity : arityAtDepth f.prepared depth = factoryArityPs :=
    (arityAtDepth_uniform hu depth).trans ha
  have hm : m.isPsLeaf = true := by rw [hsetup.ps hst,harity,decide_eq_true rfl]
  rw [hn.unique hset.leaf,hm] at hps
  cases hps

end

theorem SameShape.nodeOk (hs : SameShape n m)
    (hspk : ∀ keyagg, buildLStockSpk env g keyagg = buildLStockSpk env f keyagg)
    (hfee : g.feePerTx = f.feePerTx) (h : NodeOk env f m) : NodeOk env g n := by
  refine ⟨?_,⟨hs.chainLen.trans h.chain.len,hs.prevAmount.trans h.chain.amount,
    hs.prevOutputs.trans h.chain.prevOutputs⟩,?_⟩
  · have htip : IsTip m → IsTip n := by
      rintro ⟨htype,hchildren⟩
      exact ⟨hs.type.trans htype,hs.children.trans (hchildren.trans hs.subs.symm)⟩
    cases h.kind with
    | kickoff type ps subs children =>
      exact .kickoff (hs.type.trans type) (hs.ps.trans ps) (hs.subs.trans subs)
        (hs.children ▸ children)
    | inner type ps moving subs children layer =>
      exact .inner (hs.type.trans type) (hs.ps.trans ps) (hs.static.trans moving)
        (hs.subs.trans subs) (hs.children ▸ children) (hs.layer ▸ layer)
    | leaf tip moving direct lStock =>
      refine .leaf (htip tip) (hs.static.trans moving) ?_ ?_
      · intro hps
        exact hs.children.trans (direct (hs.ps.symm.trans hps))
      · simp only [hs.keyagg,hs.outputs,hspk]
        exact lStock
    | sub type ps moving subs children outputs =>
      exact .sub (hs.type.trans type) (hs.ps.trans ps) (hs.static.trans moving)
        (hs.subs.trans subs) (hs.children.trans children) (hs.outputs ▸ outputs)
  · rw [hs.outputs,hs.amount,hfee]
    exact h.value

theorem SameShape.layerStep {k : Factory} {S : ℕ → FactoryNode → Prop} {s : FactoryNode}
    (hs : SameShape s m) (hup : ∀ j x, R j x → ∃ y, S j y ∧ SameShape y x) (h : LayerStep k R m) :
    LayerStep k S s := by
  obtain ⟨i,ko,q,a,hi,hq,hparent,htype,hko,hbelow⟩ := h
  obtain ⟨ko',hi',hsko⟩ := hup i ko hi
  obtain ⟨a',hq',hsa⟩ := hup q a hq
  refine ⟨i,ko',q,a',hi',hq',hs.parent.trans hparent,hsko.type.trans htype,hsko.parent.trans hko,?_⟩
  rw [hs.layer]
  rcases hbelow with ⟨hstatic,hlayer⟩ | ⟨hstate,hmoving,l,hl,hlayer⟩
  · exact Or.inl ⟨hsa.static.trans hstatic,hlayer⟩
  · exact Or.inr ⟨hsa.type.trans hstate,hsa.static.trans hmoving,l,hsa.layer.trans hl,hlayer⟩

theorem BuiltFrom.skeleton (h : BuiltFrom env f g b) (hconf : ArityConfigured f) :
    Skeleton env g := by
  have hlinked := buildSubtree_linked h.block
  have hleafy := buildSubtree_leafy h.block
  have hlayered := buildSubtree_layered h.block
  have hok := buildSubtree_nodes h.block
  have hroot : At 0 b.nodes 0 b.root := at_cons.mpr (Or.inl ⟨rfl,rfl⟩)
  have hcount := h.leaves_le hconf
  have hleaf : ∀ j, j < f.prepared.nLeafNodes → b.leaves[j]? = some (b.leaves.getD j 0) := by
    intro j hj
    rw [getD_eq_getElem?_getD,getElem?_eq_getElem (by omega)]
    rfl
  have hmoving : ∀ i n, At 0 b.nodes i n → IsTip n → n.isPsLeaf = false →
      ∃ j, j < f.prepared.nLeafNodes ∧ b.leaves[j]? = some i := fun _ _ => h.moving_leaf hconf
  have hps : ∀ (i p k : ℕ) (n parent : FactoryNode), At 0 b.nodes i n → At 0 b.nodes p parent →
      parent.childIndices[k]? = some i → parent.isPsLeaf = true →
      n.isPsLeaf = true ∧ n.type = .psSubfactory :=
    fun _ _ _ _ _ => h.ps_child hconf
  have hne := h.leaves_ne_nil hconf
  obtain ⟨-,-,-,hblock,rfl⟩ := h
  refine ⟨?_,?_,?_,hne,fun j hj => mem_of_getElem? (hleaf j hj),?_,?_,?_⟩
  · intro i n p hn hindex
    obtain ⟨m,hm,hshape⟩ := at_of_nodeAt hn
    have hi : i ≠ 0 := by
      rintro rfl
      obtain rfl := hm.unique hroot
      rw [hshape.parent,hlinked.parent] at hindex
      cases hindex
    obtain ⟨q,parent,hq,hlt,hparent,hchild,hout⟩ := hlinked.up i m hm hi
    obtain rfl : p = q := Option.mem_unique hindex (hshape.parent.trans hparent)
    obtain ⟨parent',hp',hshape'⟩ := nodeAt_of_at env f.prepared hq
    refine ⟨parent',hp',hlt,?_,?_,?_⟩
    · rw [hshape'.children,hshape.vout]
      exact hchild
    · rw [hshape'.outputs,hshape.vout,hshape.amount,hshape.spk]
      exact hout
    · rw [hshape'.ps,hshape.ps,hshape.type]
      exact hps _ _ _ _ _ hm hq hchild
  · intro i n hn
    obtain ⟨m,hm,hshape⟩ := at_of_nodeAt hn
    exact hshape.nodeOk (f := f.prepared) (fun _ => rfl) rfl (hok m hm.mem)
  · intro l hl
    obtain ⟨m,hm⟩ := hleafy.present l hl
    obtain ⟨n,hn,hshape⟩ := nodeAt_of_at env f.prepared hm
    obtain ⟨htype,htip⟩ := (hleafy.tips l m hm).mp hl
    exact ⟨n,hn,hshape.type.trans htype,hshape.children.trans (htip.trans hshape.subs.symm)⟩
  · intro i n hn htip hnot
    obtain ⟨m,hm,hshape⟩ := at_of_nodeAt hn
    obtain ⟨j,hj,hget⟩ := hmoving _ _ hm
      ⟨hshape.type.symm.trans htip.1,hshape.children.symm.trans (htip.2.trans hshape.subs)⟩
      (hshape.ps.symm.trans hnot)
    refine ⟨j,hj,?_⟩
    exact Option.mem_unique (hleaf j hj) hget
  · intro j k hj hk heq
    have hnodup := hleafy.sorted.imp (fun h => Nat.ne_of_lt h)
    have hget := (hleaf j hj).trans (congrArg some heq)
    exact (getElem?_inj (lt_of_lt_of_le hj hcount) hnodup).mp (hget.trans (hleaf k hk).symm)
  · intro hthreshold i s hs htype
    obtain ⟨m,hm,hshape⟩ := at_of_nodeAt hs
    by_cases hi : i = 1
    · subst hi
      have hlayer := (hlayered.head m hm (hshape.type.symm.trans htype)).2
      rw [hshape.layer,hlayer]
      exact (dwLayerAt_root hthreshold).imp_right Or.inl
    · right
      right
      exact hshape.layerStep (fun j x hx => nodeAt_of_at env f.prepared hx)
        (hlayered.deep i m hm hi (hshape.type.symm.trans htype))

end

end SuperScalar
