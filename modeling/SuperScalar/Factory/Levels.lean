import SuperScalar.Factory.ShapeDepth

namespace SuperScalar

open Bitcoin Offset List Option Nat

def FactoryNode.waits (n : FactoryNode) : ℕ :=
  if n.isStaticOnly = true ∨ n.type = .kickoff ∨ n.isPsLeaf = true then 0 else 1

inductive Levels (R : ℕ → FactoryNode → Prop) (top : ℕ) : ℕ → ℕ → Prop
  | top {n : FactoryNode} (node : R top n) : Levels R top top n.waits
  | down {p i k : ℕ} {n : FactoryNode} (above : Levels R top p k) (node : R i n) (deep : i ≠ top)
      (parent : n.parentIndex = some p) : Levels R top i (k+n.waits)

section

variable {n : FactoryNode}

theorem waits_cases (n : FactoryNode) : n.waits = 0 ∨ n.waits = 1 := by
  rw [FactoryNode.waits]
  split
  · exact Or.inl rfl
  · exact Or.inr rfl

theorem waits_kickoff (h : n.type = .kickoff) : n.waits = 0 := if_pos (Or.inr (Or.inl h))

theorem waits_ps (h : n.isPsLeaf = true) : n.waits = 0 := if_pos (Or.inr (Or.inr h))

theorem not_ps_of_waits (h : n.waits = 1) : n.isPsLeaf = false := by
  rw [← Bool.not_eq_true]
  exact fun hps => absurd ((waits_ps hps).symm.trans h) (by decide)

theorem waits_state (htype : n.type = .state) (hmoving : n.isStaticOnly = false) :
    n.waits = if n.isPsLeaf then 0 else 1 := by
  cases hps : n.isPsLeaf with
  | true => exact waits_ps hps
  | false =>
    rw [FactoryNode.waits,if_neg (by simp [htype,hmoving,hps])]
    rfl

end

-- A subtree `S` hung below the node `q` of `R`, which is `w` levels down.
structure Hung (R S : ℕ → FactoryNode → Prop) (top root q w : ℕ) : Prop where
  sub : ∀ j x, S j x → R j x
  after : ∀ j x, S j x → j ≠ top
  parent : ∀ x, S root x → x.parentIndex = some q
  inside : ∀ j x p, S j x → j ≠ root → x.parentIndex = some p → ∃ y, S p y
  base : Levels R top q w
  only : ∀ k, Levels R top q k → k = w

namespace Hung

variable {R S : ℕ → FactoryNode → Prop} {top root q w i k : ℕ}

theorem lift (h : Hung R S top root q w) (hlevels : Levels S root i k) : Levels R top i (w+k) := by
  induction hlevels with
  | top node => exact .down h.base (h.sub _ _ node) (h.after _ _ node) (h.parent _ node)
  | down _ node _ parent ih =>
    rw [← add_assoc]
    exact .down ih (h.sub _ _ node) (h.after _ _ node) parent

theorem drop (h : Hung R S top root q w) (hunique : ∀ j x y, R j x → R j y → x = y)
    (hlevels : Levels R top i k) {x : FactoryNode} (hx : S i x) :
    ∃ k', Levels S root i k' ∧ k = w + k' := by
  induction hlevels generalizing x with
  | top => exact absurd rfl (h.after _ _ hx)
  | @down p i k n above node _ parent ih =>
    obtain rfl := hunique i n x node (h.sub i x hx)
    by_cases hroot : i = root
    · subst hroot
      obtain rfl := mem_unique (h.parent n hx) parent
      rw [h.only k above]
      exact ⟨n.waits,.top hx,rfl⟩
    · obtain ⟨y,hy⟩ := h.inside i n p hx hroot parent
      obtain ⟨k',hk',rfl⟩ := ih hy
      exact ⟨k' + n.waits,.down hk' hx hroot parent,add_assoc w k' n.waits⟩

end Hung

def blockNodes (p : Place) (b : Block) : ℕ → FactoryNode → Prop := At p.nNodes b.nodes

def BlockLevels (p : Place) (b : Block) : ℕ → ℕ → Prop := Levels (blockNodes p b) p.nNodes

def placeShapes (f : Factory) (p : Place) : List LeafShape := leafShapes f p.depth p.clients.length

structure Counted (f : Factory) (p : Place) (b : Block) : Prop where
  linked : Linked p b
  bound : ∀ i k, BlockLevels p b i k → ∃ leaf ∈ placeShapes f p, k ≤ leaf.levels f p.depth
  reach : ∀ leaf ∈ placeShapes f p, ∃ i, BlockLevels p b i (leaf.levels f p.depth)
  early : ∀ i n k, blockNodes p b i n → n.waits = 1 → n.dwLayerIndex = none →
    BlockLevels p b i k → k = 1 ∧ ∃ leaf ∈ placeShapes f p, leaf.isPs = false ∧
      (leaf.depth : Int) < staticThreshold f
  found : ∀ leaf ∈ placeShapes f p, leaf.isPs = false → (leaf.depth : Int) < staticThreshold f →
    ∃ i n, blockNodes p b i n ∧ n.waits = 1 ∧ n.dwLayerIndex = none ∧ BlockLevels p b i 1
  layered : ∀ i n l, blockNodes p b i n → n.waits = 1 → n.dwLayerIndex = some l →
    l ≤ f.counter.nLayers-1
  tips : ∀ i n, blockNodes p b i n → IsTip n → ∃ leaf ∈ placeShapes f p, leaf.isPs = n.isPsLeaf
  shown : ∀ leaf ∈ placeShapes f p, ∃ i n, blockNodes p b i n ∧ IsTip n ∧ n.isPsLeaf = leaf.isPs

structure Seat (P : Place → Block → Prop) (parent depth size : ℕ) (c : Child) (p : Place) :
    Prop where
  holds : P p c.block
  index : p.nNodes = c.index
  depth : p.depth = depth
  parent : p.parent = some parent
  size : p.clients.length = size

namespace Chain

variable {P : Place → Block → Prop} {parent depth n lc slot : ℕ} {parts clients : List ℕ}
  {children : List Child}

theorem seat_of_part (h : Chain P parent depth n lc slot parts clients children) {part : ℕ}
    (hpart : part ∈ parts) : ∃ c ∈ children, ∃ p, Seat P parent depth part c p := by
  induction h with
  | nil => simp at hpart
  | cons index block _ ih =>
    rcases mem_cons.mp hpart with rfl | hpart
    · exact ⟨_,mem_cons_self,_,block,index.symm,rfl,rfl,rfl⟩
    · obtain ⟨c,hc,hseat⟩ := ih hpart
      exact ⟨c,mem_cons_of_mem _ hc,hseat⟩

variable {j : ℕ} {x : FactoryNode}

variable (h : Chain P parent depth n lc slot parts clients children)

include h

theorem seat_of_node
    (hx : At n (childNodes children) j x) :
    ∃ c ∈ children, ∃ part ∈ parts, ∃ p, Seat P parent depth part c p ∧
      blockNodes p c.block j x := by
  induction h with
  | nil => simp at hx
  | cons index block _ ih =>
    rw [childNodes_cons] at hx
    rcases at_append.mp hx with hx | hx
    · exact ⟨_,mem_cons_self,_,mem_cons_self,_,⟨block,index.symm,rfl,rfl,rfl⟩,hx⟩
    · obtain ⟨c,hc,part,hpart,hseat⟩ := ih hx
      exact ⟨c,mem_cons_of_mem _ hc,part,mem_cons_of_mem _ hpart,hseat⟩

theorem embeds {c : Child}
    (hc : c ∈ children) (hx : At c.index c.block.nodes j x) : At n (childNodes children) j x := by
  induction h with
  | nil => simp at hc
  | cons index _ _ ih =>
    rw [childNodes_cons,at_append]
    rcases mem_cons.mp hc with rfl | hc
    · exact Or.inl (index ▸ hx)
    · exact Or.inr (ih hc)

end Chain

section

variable {env : Env} {f : Factory}

variable {p : Place} {children : List Child} {n parent depth q : ℕ} {amount : UInt64}
  {P : Place → Block → Prop} {leaf : LeafShape} {ko st : FactoryNode}

theorem ChildrenAt.linked (h : ChildrenAt f (Counted f) p parent n amount children) :
    ChildrenAt f Linked p parent n amount children :=
  ⟨h.inner,h.splits,h.fee,h.chain.imp (fun _ _ _ _ hc => hc.linked),h.budget,h.shares⟩

theorem Seat.nodes {size : ℕ} {c : Child} (h : Seat P parent depth size c p) :
    blockNodes p c.block = At c.index c.block.nodes := by
  rw [blockNodes,h.index]

theorem Seat.shapes {size : ℕ} {c : Child} (h : Seat P parent depth size c p) :
    placeShapes f p = leafShapes f depth size := by
  rw [placeShapes,h.depth,h.size]

structure OwnNode (f : Factory) (p : Place) (b : Block) (w i : ℕ) (x : FactoryNode) : Prop where
  layer : x.waits = 1 → ∃ l, x.dwLayerIndex = some l ∧ l ≤ f.counter.nLayers-1
  inner : ¬IsTip x
  few : ∀ k, BlockLevels p b i k → k ≤ w

structure Branch (f : Factory) (p : Place) (b : Block) (q n w : ℕ) (children : List Child) : Prop where
  linked : Linked p b
  sub : ∀ j x, At n (childNodes children) j x → blockNodes p b j x
  after : p.nNodes < n
  base : BlockLevels p b q w
  only : ∀ k, BlockLevels p b q k → k = w
  levels : ∀ leaf : LeafShape, p.depth+1 ≤ leaf.depth →
    leaf.levels f p.depth = w + leaf.levels f (p.depth+1)
  own : ∀ i x, blockNodes p b i x → At n (childNodes children) i x ∨ OwnNode f p b w i x
  moving : w = 0 ∨ staticThreshold f ≤ p.depth

theorem ChildrenAt.shapes (hc : ChildrenAt f P p q n amount children) (hconf : ArityConfigured f)
    (hpos : 0 < p.clients.length) : leaf ∈ placeShapes f p ↔
      ∃ part ∈ p.parts f, leaf ∈ leafShapes f (p.depth+1) part :=
  mem_leafShapes_inner hconf hpos hc.inner

theorem ChildrenAt.deeper (hc : ChildrenAt f P p q n amount children) (hconf : ArityConfigured f)
    {part : ℕ} (hpart : part ∈ p.parts f) (hleaf : leaf ∈ leafShapes f (p.depth+1) part) :
    p.depth + 1 ≤ leaf.depth :=
  (leafShapes_depth hconf (hc.splits.pos part hpart)).2 leaf hleaf

section

variable {p : Place} {b : Block} {q n w : ℕ} {amount : UInt64} {children : List Child}
  (hconf : ArityConfigured f) (hpos : 0 < p.clients.length)
  (hc : ChildrenAt f (Counted f) p q n amount children) (hg : Branch f p b q n w children)

include hc hg

theorem Branch.hung {c : Child} (hmem : c ∈ children) {size : ℕ} {s : Place}
    (hseat : Seat (Counted f) q (p.depth+1) size c s) :
    Hung (blockNodes p b) (blockNodes s c.block) p.nNodes s.nNodes q w := by
  have hge := hc.chain.index_ge hmem
  have hafter := hg.after
  have hlinked := hseat.holds.linked
  refine ⟨?_,?_,?_,?_,hg.base,hg.only⟩
  · intro j x hx
    rw [hseat.nodes] at hx
    exact hg.sub j x (hc.chain.embeds hmem hx)
  · intro j x hx
    have hrange := (At.range hx).1
    rw [hseat.index] at hrange
    omega
  · intro x hx
    have hroot : blockNodes s c.block s.nNodes c.block.root := at_cons.mpr (Or.inl ⟨rfl,rfl⟩)
    rw [At.unique hx hroot,hlinked.parent,hseat.parent]
  · intro j x r hx hj hparent
    obtain ⟨r',y,hy,-,hr',-⟩ := hlinked.up j x hx hj
    obtain rfl := mem_unique hparent hr'
    exact ⟨y,hy⟩

include hconf hpos

theorem Branch.counted : Counted f p b := by
  have hunique : ∀ j x y, blockNodes p b j x → blockNodes p b j y → x = y :=
    fun _ _ _ hx hy => At.unique hx hy
  have hshapes : ∀ leaf, leaf ∈ placeShapes f p ↔ ∃ part ∈ p.parts f,
      leaf ∈ leafShapes f (p.depth+1) part := fun _ => hc.shapes hconf hpos
  refine ⟨hg.linked,?_,?_,?_,?_,?_,?_,?_⟩
  · intro i k hk
    obtain ⟨x,hx⟩ : ∃ x, blockNodes p b i x := by
      cases hk with
      | top node => exact ⟨_,node⟩
      | down _ node => exact ⟨_,node⟩
    rcases hg.own i x hx with hchild | hown
    · obtain ⟨c,hmem,part,hpart,s,hseat,hin⟩ := hc.chain.seat_of_node hchild
      obtain ⟨k',hk',rfl⟩ := (hg.hung hc hmem hseat).drop hunique hk hin
      obtain ⟨leaf,hleaf,hle⟩ := hseat.holds.bound i k' hk'
      rw [hseat.shapes] at hleaf
      refine ⟨leaf,(hshapes leaf).mpr ⟨part,hpart,hleaf⟩,?_⟩
      rw [hg.levels leaf (hc.deeper hconf hpart hleaf)]
      rw [hseat.depth] at hle
      omega
    · obtain ⟨⟨leaf,hleaf⟩,-⟩ := leafShapes_depth hconf hpos
      obtain ⟨part,hpart,hdeep⟩ := (hshapes leaf).mp hleaf
      refine ⟨leaf,hleaf,?_⟩
      rw [hg.levels leaf (hc.deeper hconf hpart hdeep)]
      exact (hown.few k hk).trans (le_add_right _ _)
  · intro leaf hleaf
    obtain ⟨part,hpart,hdeep⟩ := (hshapes leaf).mp hleaf
    obtain ⟨c,hmem,s,hseat⟩ := hc.chain.seat_of_part hpart
    obtain ⟨i,hi⟩ := hseat.holds.reach leaf (hseat.shapes ▸ hdeep)
    refine ⟨i,?_⟩
    rw [hg.levels leaf (hc.deeper hconf hpart hdeep),← hseat.depth]
    exact (hg.hung hc hmem hseat).lift hi
  · intro i x k hx hwaits hlayer hk
    rcases hg.own i x hx with hchild | hown
    · obtain ⟨c,hmem,part,hpart,s,hseat,hin⟩ := hc.chain.seat_of_node hchild
      obtain ⟨k',hk',rfl⟩ := (hg.hung hc hmem hseat).drop hunique hk hin
      obtain ⟨rfl,leaf,hleaf,hps,hearly⟩ := hseat.holds.early i x k' hin hwaits hlayer hk'
      rw [hseat.shapes] at hleaf
      have hdeep := hc.deeper hconf hpart hleaf
      refine ⟨?_,leaf,(hshapes leaf).mpr ⟨part,hpart,hleaf⟩,hps,hearly⟩
      rcases hg.moving with hzero | hmoving
      · omega
      · omega
    · obtain ⟨l,hl,-⟩ := hown.layer hwaits
      exact absurd (hlayer.symm.trans hl) nofun
  · intro leaf hleaf hps hearly
    obtain ⟨part,hpart,hdeep⟩ := (hshapes leaf).mp hleaf
    obtain ⟨c,hmem,s,hseat⟩ := hc.chain.seat_of_part hpart
    obtain ⟨i,x,hx,hwaits,hlayer,hlevels⟩ := hseat.holds.found leaf (hseat.shapes ▸ hdeep) hps hearly
    have hhung := hg.hung hc hmem hseat
    refine ⟨i,x,hhung.sub i x hx,hwaits,hlayer,?_⟩
    have hbelow := hc.deeper hconf hpart hdeep
    have hlifted := hhung.lift hlevels
    rcases hg.moving with rfl | hmoving
    · rwa [zero_add] at hlifted
    · omega
  · intro i x l hx hwaits hl
    rcases hg.own i x hx with hchild | hown
    · obtain ⟨c,hmem,part,hpart,s,hseat,hin⟩ := hc.chain.seat_of_node hchild
      exact hseat.holds.layered i x l hin hwaits hl
    · obtain ⟨l',hl',hle⟩ := hown.layer hwaits
      rwa [mem_unique hl hl']
  · intro i x hx htip
    rcases hg.own i x hx with hchild | hown
    · obtain ⟨c,hmem,part,hpart,s,hseat,hin⟩ := hc.chain.seat_of_node hchild
      obtain ⟨leaf,hleaf,hps⟩ := hseat.holds.tips i x hin htip
      rw [hseat.shapes] at hleaf
      exact ⟨leaf,(hshapes leaf).mpr ⟨part,hpart,hleaf⟩,hps⟩
    · exact absurd htip hown.inner
  · intro leaf hleaf
    obtain ⟨part,hpart,hdeep⟩ := (hshapes leaf).mp hleaf
    obtain ⟨c,hmem,s,hseat⟩ := hc.chain.seat_of_part hpart
    obtain ⟨i,x,hx,hrest⟩ := hseat.holds.shown leaf (hseat.shapes ▸ hdeep)
    exact ⟨i,x,(hg.hung hc hmem hseat).sub i x hx,hrest⟩

end

theorem dwLayerAt_le {l : ℕ} (h : dwLayerAt f depth = some l) : l ≤ f.counter.nLayers-1 := by
  rw [dwLayerAt] at h
  split_ifs at h with hearly hdeep
  · exact (some.inj h).ge
  · have hl := some.inj h
    omega

theorem levels_below_static (h : (p.depth : Int) < staticThreshold f) (leaf : LeafShape) :
    leaf.levels f p.depth = 0 + leaf.levels f (p.depth+1) := by
  simp only [LeafShape.levels]
  omega

theorem levels_below_moving (h : staticThreshold f ≤ (p.depth : Int))
    (hdeep : p.depth+1 ≤ leaf.depth) : leaf.levels f p.depth = 1 + leaf.levels f (p.depth+1) := by
  simp only [LeafShape.levels]
  omega

theorem counted_static (hconf : ArityConfigured f) (hko : KickoffAt env f p ko)
    (hstatic : (p.depth : Int) < staticThreshold f)
    (hc : ChildrenAt f (Counted f) p p.nNodes (p.nNodes+1) p.amount children) :
    Counted f p (staticBlock p ko children) := by
  have hpos : 0 < p.clients.length := length_pos_iff.mpr hko.nonEmpty
  have hroot : blockNodes p (staticBlock p ko children) p.nNodes
      (staticBlock p ko children).root := at_cons.mpr (Or.inl ⟨rfl,rfl⟩)
  have hzero : (staticBlock p ko children).root.waits = 0 := if_pos (Or.inl rfl)
  have honly : ∀ k, BlockLevels p (staticBlock p ko children) p.nNodes k → k = 0 := by
    intro k hk
    cases hk with
    | top node => rw [At.unique node hroot,hzero]
    | down _ _ deep => exact absurd rfl deep
  have hg : Branch f p (staticBlock p ko children) p.nNodes (p.nNodes+1) 0 children := by
    refine ⟨linked_static hko hc.linked,fun j x hx => at_cons.mpr (Or.inr hx),lt_succ_self _,
      ?_,honly,fun leaf _ => levels_below_static hstatic leaf,?_,Or.inl rfl⟩
    · rw [← hzero]
      exact .top hroot
    · intro i x hx
      rcases at_cons.mp hx with ⟨rfl,rfl⟩ | hx
      · refine Or.inr ⟨fun h => absurd (hzero.symm.trans h) (by decide),fun htip => ?_,?_⟩
        · exact absurd ((addNode_fresh hko.added).type.symm.trans htip.1) (by decide)
        · exact fun k hk => (honly k hk).le
      · exact Or.inl hx
  exact hg.counted hconf hpos hc

theorem moving_levels {s : FactoryNode} (st : FactoryNode) (tail : List FactoryNode)
    (leaves : List ℕ) (hko : KickoffAt env f p ko) (hparent : s.parentIndex = some p.nNodes) :
    BlockLevels p ⟨movingKickoff f p ko st,s :: tail,leaves⟩ (p.nNodes+1) s.waits ∧
      (∀ k, BlockLevels p ⟨movingKickoff f p ko st,s :: tail,leaves⟩ p.nNodes k → k = 0) ∧
      ∀ k, BlockLevels p ⟨movingKickoff f p ko st,s :: tail,leaves⟩ (p.nNodes+1) k →
        k = s.waits := by
  have hkind : (movingKickoff f p ko st).type = .kickoff := (addNode_fresh hko.added).type
  have htop : blockNodes p ⟨movingKickoff f p ko st,s :: tail,leaves⟩ p.nNodes
      (movingKickoff f p ko st) := at_cons.mpr (Or.inl ⟨rfl,rfl⟩)
  have hnext : blockNodes p ⟨movingKickoff f p ko st,s :: tail,leaves⟩ (p.nNodes+1) s :=
    at_cons.mpr (Or.inr (at_cons.mpr (Or.inl ⟨rfl,rfl⟩)))
  have hzero : ∀ k, BlockLevels p ⟨movingKickoff f p ko st,s :: tail,leaves⟩ p.nNodes k →
      k = 0 := by
    intro k hk
    cases hk with
    | top node => rw [At.unique node htop,waits_kickoff hkind]
    | down _ _ deep => exact absurd rfl deep
  refine ⟨?_,hzero,?_⟩
  · have hbase : BlockLevels p ⟨movingKickoff f p ko st,s :: tail,leaves⟩ p.nNodes 0 := by
      rw [← waits_kickoff hkind]
      exact .top htop
    have hlevels := Levels.down hbase hnext (succ_ne_self _) hparent
    rwa [zero_add] at hlevels
  · intro k hk
    generalize hi : p.nNodes+1 = i at hk
    cases hk with
    | top => omega
    | @down _ _ k _ above node _ parent =>
      subst hi
      obtain rfl := At.unique node hnext
      obtain rfl := mem_unique hparent parent
      rw [hzero k above,zero_add]

theorem counted_inner (hconf : ArityConfigured f) (hko : KickoffAt env f p ko)
    (hst : StateAt env f p st)
    (hc : ChildrenAt f (Counted f) p (p.nNodes+1) (p.nNodes+2) (p.amount-f.feePerTx) children)
    : Counted f p (innerBlock f p ko st children) := by
  have hpos : 0 < p.clients.length := length_pos_iff.mpr hko.nonEmpty
  have hfresh := addNode_fresh hst.added
  have hmoving : ¬ (p.depth : Int) < staticThreshold f := fun hlt => hst.moving ⟨hlt,hc.inner⟩
  have hone : (innerState f p st children).waits = 1 := by
    have hstate := waits_state (n := innerState f p st children) hfresh.type hfresh.moving
    have hps : (innerState f p st children).isPsLeaf = false := hfresh.ps
    rw [hstate,hps]
    rfl
  obtain ⟨hbase,hzero,honly⟩ := moving_levels (s := innerState f p st children) st
    (childNodes children) (innerBlock f p ko st children).leaves hko hfresh.parent
  rw [hone] at hbase honly
  have hg : Branch f p (innerBlock f p ko st children) (p.nNodes+1) (p.nNodes+2) 1 children := by
    refine ⟨linked_inner hko hst hc.linked,fun j x hx => at_cons.mpr (Or.inr (at_cons.mpr
      (Or.inr hx))),by omega,hbase,honly,
      fun leaf hdeep => levels_below_moving (by omega) hdeep,?_,Or.inr (by omega)⟩
    intro i x hx
    rcases at_cons.mp hx with ⟨rfl,rfl⟩ | hx
    · have hkind := (addNode_fresh hko.added).type
      refine Or.inr ⟨fun h => absurd ((waits_kickoff hkind).symm.trans h) (by decide),
        fun htip => absurd (hkind.symm.trans htip.1) (by decide),?_⟩
      exact fun k hk => (hzero k hk).le.trans (zero_le _)
    rcases at_cons.mp hx with ⟨rfl,rfl⟩ | hx
    · refine Or.inr ⟨fun _ => ?_,fun htip => ?_,fun k hk => (honly k hk).le⟩
      · have hlayer := hfresh.layer
        obtain ⟨l,hl⟩ := ne_none_iff_exists'.mp (dwLayerAt_some hmoving)
        exact ⟨l,hlayer.trans hl,dwLayerAt_le hl⟩
      · have hchildren : children.map Child.index = st.subfactoryNodeIndices := htip.2
        rw [hfresh.subs,map_eq_nil_iff] at hchildren
        exact hc.chain.children_ne_nil hko.nonEmpty hchildren
    · exact Or.inl hx
  exact hg.counted hconf hpos hc

theorem counted_leaf {st' : FactoryNode} {subs : List FactoryNode} (hko : KickoffAt env f p ko)
    (hst : StateAt env f p st) (hleaf : p.isLeaf f = true)
    (hsetup : LeafSetup env f (p.arity f) (p.nNodes+1) (movingState f p st) p.clients
      (p.amount-f.feePerTx) st' subs) :
    Counted f p (leafBlock f p ko st st' subs) := by
  have hpos : 0 < p.clients.length := length_pos_iff.mpr hko.nonEmpty
  have hfresh := addNode_fresh hst.added
  have htype := hsetup.same.type.trans hfresh.type
  have hmoving := hsetup.same.moving.trans hfresh.moving
  have hparent := hsetup.same.parent.trans hfresh.parent
  have hlayer := hsetup.same.layer.trans hfresh.layer
  have hps := hsetup.ps hfresh.ps
  have hshape : placeShapes f p = [⟨p.depth,st'.isPsLeaf⟩] := by
    rw [hps]
    exact leafShapes_leaf hpos hleaf
  have hwaits : st'.waits = (⟨p.depth,st'.isPsLeaf⟩ : LeafShape).levels f p.depth := by
    rw [waits_state htype hmoving,LeafShape.levels]
    dsimp only
    omega
  have hstate : blockNodes p (leafBlock f p ko st st' subs) (p.nNodes+1) st' :=
    at_cons.mpr (Or.inr (at_cons.mpr (Or.inl ⟨rfl,rfl⟩)))
  obtain ⟨hbase,hzero,honly⟩ := moving_levels st subs [p.nNodes + 1] hko hparent
  have hkind := (addNode_fresh hko.added).type
  -- Sub-factories spend the leaf and add nothing to it.
  have hall : ∀ i k, BlockLevels p (leafBlock f p ko st st' subs) i k → k ≤ st'.waits := by
    intro i k hk
    cases hk with
    | top node =>
      exact (hzero _ (.top node)).le.trans (zero_le _)
    | @down _ _ k n above node deep parent =>
      rcases at_cons.mp node with ⟨rfl,-⟩ | hn
      · exact absurd rfl deep
      rcases at_cons.mp hn with ⟨rfl,rfl⟩ | hn
      · exact (honly _ (.down above node deep parent)).le
      · obtain ⟨amount,hsub,-⟩ := hsetup.subs _ n hn.2
        obtain rfl := mem_unique hsub.parent parent
        rw [waits_ps hsub.ps]
        exact (honly k above).le
  have htip : IsTip st' :=
    ⟨htype,(hsetup.children hfresh.children).trans (hsetup.subIndices hfresh.subs).symm⟩
  have honly_state : ∀ i n, blockNodes p (leafBlock f p ko st st' subs) i n →
      n.waits = 1 ∨ IsTip n → n = st' := by
    intro i n hn h
    rcases at_cons.mp hn with ⟨-,rfl⟩ | hn
    · rcases h with h | h
      · exact absurd ((waits_kickoff hkind).symm.trans h) (by decide)
      · exact absurd (hkind.symm.trans h.1) (by decide)
    rcases at_cons.mp hn with ⟨-,rfl⟩ | hn
    · rfl
    obtain ⟨amount,hsub,-⟩ := hsetup.subs _ n hn.2
    rcases h with h | h
    · exact absurd ((waits_ps hsub.ps).symm.trans h) (by decide)
    · exact absurd (hsub.type.symm.trans h.1) (by decide)
  refine ⟨linked_leaf hko hst hsetup,?_,?_,?_,?_,?_,?_,?_⟩
  · intro i k hk
    refine ⟨⟨p.depth,st'.isPsLeaf⟩,by rw [hshape]; exact mem_singleton_self _,?_⟩
    rw [← hwaits]
    exact hall i k hk
  · intro leaf hmem
    rw [hshape] at hmem
    obtain rfl := mem_singleton.mp hmem
    rw [← hwaits]
    exact ⟨p.nNodes+1,hbase⟩
  · intro i n k hn hone hnone hk
    obtain rfl := honly_state i n hn (Or.inl hone)
    have hle := hall i k hk
    have hpositive : 1 ≤ k := by
      rw [← hone]
      cases hk with
      | top node => rw [At.unique node hn]
      | down _ node => rw [At.unique node hn]; exact le_add_left _ _
    refine ⟨by omega,⟨p.depth,n.isPsLeaf⟩,?_,?_,?_⟩
    · rw [hshape]
      exact mem_singleton_self _
    · rw [← Bool.not_eq_true]
      intro htrue
      exact absurd ((waits_ps htrue).symm.trans hone) (by decide)
    · by_contra hlate
      exact dwLayerAt_some hlate (hlayer.symm.trans hnone)
  · intro leaf hmem hfalse hearly
    rw [hshape] at hmem
    obtain rfl := mem_singleton.mp hmem
    have hone : st'.waits = 1 := by
      have hfalse : st'.isPsLeaf = false := hfalse
      rw [waits_state htype hmoving,hfalse]
      rfl
    refine ⟨p.nNodes+1,st',hstate,hone,?_,hone ▸ hbase⟩
    rw [hlayer,dwLayerAt,if_pos (by dsimp only at hearly; omega)]
  · intro i n l hn hone hl
    obtain rfl := honly_state i n hn (Or.inl hone)
    exact dwLayerAt_le (hlayer.symm.trans hl)
  · intro i n hn hn'
    obtain rfl := honly_state i n hn (Or.inr hn')
    exact ⟨⟨p.depth,n.isPsLeaf⟩,by rw [hshape]; exact mem_singleton_self _,rfl⟩
  · intro leaf hmem
    rw [hshape] at hmem
    obtain rfl := mem_singleton.mp hmem
    exact ⟨p.nNodes+1,st',hstate,htip,rfl⟩

theorem buildSubtree_counted (hconf : ArityConfigured f) {fuel : ℕ} {b : Block}
    (h : p.build env f fuel = some b) : Counted f p b := by
  refine buildSubtree_induct ?_ ?_ ?_ h
  · intro p ko children hko hstatic hc
    exact counted_static hconf hko hstatic hc
  · intro p ko st st' subs hko hst hleaf _ hsetup
    exact counted_leaf hko hst hleaf (setupLeaf_spec hko.nonEmpty hsetup)
  · intro p ko st children hko hst hc
    exact counted_inner hconf hko hst hc

end

end SuperScalar
