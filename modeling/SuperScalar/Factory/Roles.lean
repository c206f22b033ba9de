import SuperScalar.Factory.Links

namespace SuperScalar

open Bitcoin Offset List

def IsTip (n : FactoryNode) : Prop :=
  n.type = .state ∧ n.childIndices = n.subfactoryNodeIndices

inductive Kind (env : Env) (f : Factory) (n : FactoryNode) : Prop
  | kickoff (type : n.type = .kickoff) (ps : n.isPsLeaf = false)
      (subs : n.subfactoryNodeIndices = []) (children : n.childIndices ≠ [])
  | inner (type : n.type = .state) (ps : n.isPsLeaf = false) (moving : n.isStaticOnly = false)
      (subs : n.subfactoryNodeIndices = []) (children : n.childIndices ≠ [])
      (layer : n.dwLayerIndex ≠ none)
  | leaf (tip : IsTip n) (moving : n.isStaticOnly = false)
      (direct : n.isPsLeaf = false → n.childIndices = [])
      (lStock : ∃ front last lStock, buildLStockSpk env f n.keyagg = some lStock ∧
        n.outputs = front ++ [⟨last,lStock.val⟩] ∧ front ≠ [])
  | sub (type : n.type = .psSubfactory) (ps : n.isPsLeaf = true) (moving : n.isStaticOnly = false)
      (subs : n.subfactoryNodeIndices = []) (children : n.childIndices = [])
      (outputs : 2 ≤ n.outputs.length)

structure NodeOk (env : Env) (f : Factory) (n : FactoryNode) : Prop where
  kind : Kind env f n
  chain : Unchained n
  value : f.feePerTx ≤ n.inputAmount →
    outputTotal n.outputs + f.feePerTx.toNat = n.inputAmount.toNat

structure Leafy (p : Place) (b : Block) : Prop where
  sorted : b.leaves.Pairwise (· < ·)
  present : ∀ l ∈ b.leaves, ∃ n, At p.nNodes b.nodes l n
  tips : ∀ j n, At p.nNodes b.nodes j n → (j ∈ b.leaves ↔ IsTip n)

namespace Chain

variable {parent depth n lc slot : ℕ} {parts clients : List ℕ} {children : List Child}

variable {P : Place → Block → Prop} {x : FactoryNode}

section

variable (h : Chain P parent depth n lc slot parts clients children)

include h

theorem all_nodes {Q : FactoryNode → Prop}
    (hpq : ∀ p b, P p b → ∀ x ∈ b.nodes, Q x) (hx : x ∈ childNodes children) : Q x := by
  induction h with
  | nil => simp at hx
  | cons _ block _ ih =>
    rw [childNodes_cons] at hx
    rcases mem_append.mp hx with hx | hx
    · exact hpq _ _ block x hx
    · exact ih hx

theorem children_ne_nil
    (hne : clients ≠ []) : children ≠ [] := by
  cases h with
  | nil => exact absurd rfl hne
  | cons => exact cons_ne_nil _ _

end

variable (h : Chain Leafy parent depth n lc slot parts clients children)

include h

theorem leaves_present {l : ℕ}
    (hl : l ∈ children.flatMap (fun c => c.block.leaves)) :
    ∃ x, At n (childNodes children) l x := by
  induction h with
  | nil => simp at hl
  | cons _ block _ ih =>
    rw [flatMap_cons,mem_append] at hl
    rw [childNodes_cons]
    rcases hl with hl | hl
    · obtain ⟨x,hx⟩ := block.present l hl
      exact ⟨x,at_append.mpr (Or.inl hx)⟩
    · obtain ⟨x,hx⟩ := ih hl
      exact ⟨x,at_append.mpr (Or.inr hx)⟩

theorem leaves_sorted : (children.flatMap (fun c => c.block.leaves)).Pairwise (· < ·) := by
  induction h with
  | nil => exact Pairwise.nil
  | cons _ block rest ih =>
    rw [flatMap_cons,pairwise_append]
    refine ⟨block.sorted,ih,?_⟩
    intro a ha b hb
    obtain ⟨x,hx⟩ := block.present a ha
    obtain ⟨y,hy⟩ := rest.leaves_present hb
    exact hx.range.2.trans_le hy.range.1

theorem leaf_after {j : ℕ} (hj : j < n) : j ∉ children.flatMap (fun c => c.block.leaves) := by
  intro hl
  obtain ⟨x,hx⟩ := h.leaves_present hl
  exact absurd hx.range.1 (Nat.not_le.mpr hj)

theorem leaf_tips {j : ℕ}
    (hx : At n (childNodes children) j x) :
    j ∈ children.flatMap (fun c => c.block.leaves) ↔ IsTip x := by
  induction h with
  | nil => simp at hx
  | cons _ block rest ih =>
    rw [childNodes_cons] at hx
    rw [flatMap_cons,mem_append]
    rcases at_append.mp hx with hx | hx
    · rw [← block.tips j x hx,or_iff_left]
      intro hj
      obtain ⟨y,hy⟩ := rest.leaves_present hj
      exact absurd (hx.range.2.trans_le hy.range.1) (lt_irrefl j)
    · rw [← ih hx,or_iff_right]
      intro hj
      obtain ⟨y,hy⟩ := block.present j hj
      exact absurd (hy.range.2.trans_le hx.range.1) (lt_irrefl j)

end Chain

section

variable {env : Env} {f : Factory}

theorem childOutputs_total {children : List Child} :
    outputTotal (children.map Child.output) = (children.map (fun c => c.budget.toNat)).sum := by
  rw [outputTotal,map_map]
  rfl

variable {p : Place} {fuel : ℕ} {b : Block}

theorem movingKickoff_ok {ko : FactoryNode} (hko : KickoffAt env f p ko) (st : FactoryNode) :
    NodeOk env f (movingKickoff f p ko st) := by
  have hfresh := addNode_fresh hko.added
  have hle : f.feePerTx ≤ p.amount := UInt64.le_of_lt hko.fee
  refine ⟨.kickoff hfresh.type hfresh.ps hfresh.subs (cons_ne_nil _ _),
    ⟨hfresh.chain.len,hfresh.chain.amount,hfresh.chain.prevOutputs⟩,?_⟩
  intro _
  change outputTotal [⟨p.amount-f.feePerTx,st.spendingSpk.val⟩] + _ = p.amount.toNat
  rw [outputTotal_cons,outputTotal_nil,Nat.add_zero]
  rw [UInt64.toNat_sub_of_le _ _ hle]
  exact Nat.sub_add_cancel (UInt64.le_iff_toNat_le.mp hle)

theorem dwLayerAt_some {depth : ℕ} (h : ¬ (depth : Int) < staticThreshold f) :
    dwLayerAt f depth ≠ none := by
  rw [dwLayerAt]
  split_ifs with h0
  · omega
  · exact Option.some_ne_none _
  · exact Option.some_ne_none _

theorem buildSubtree_nodes (h : p.build env f fuel = some b) : ∀ n ∈ b.nodes, NodeOk env f n := by
  refine buildSubtree_induct (P := fun _ b => ∀ n ∈ b.nodes, NodeOk env f n) ?_ ?_ ?_ h
  · intro p ko children hko _ hc n hn
    have hfresh := addNode_fresh hko.added
    rcases mem_cons.mp hn with rfl | hn
    · have hne := hc.chain.children_ne_nil hko.nonEmpty
      refine ⟨.kickoff hfresh.type hfresh.ps hfresh.subs ?_,
        ⟨hfresh.chain.len,hfresh.chain.amount,hfresh.chain.prevOutputs⟩,?_⟩
      · simpa [staticBlock] using hne
      · intro _
        change outputTotal (children.map Child.output) + _ = p.amount.toNat
        rw [childOutputs_total]
        exact hc.budget
    · exact hc.chain.all_nodes (fun _ _ hb => hb) hn
  · intro p ko st st' subs hko hst hleaf _ hsetup n hn
    have hfresh := addNode_fresh hst.added
    have hspec := setupLeaf_spec hko.nonEmpty hsetup
    have hps := hspec.ps hfresh.ps
    have hchildren := hspec.children hfresh.children
    rcases mem_cons.mp hn with rfl | hn
    · exact movingKickoff_ok hko st
    rcases mem_cons.mp hn with rfl | hn
    · refine ⟨.leaf ⟨hspec.same.type.trans hfresh.type,
          hchildren.trans (hspec.subIndices hfresh.subs).symm⟩
          (hspec.same.moving.trans hfresh.moving) ?_ ?_,hspec.chain
          ⟨hfresh.chain.len,hfresh.chain.amount,hfresh.chain.prevOutputs⟩,?_⟩
      · intro hnot
        rw [hps,decide_eq_false_iff_not] at hnot
        rw [hchildren,hspec.noSubs (Or.inl hnot)]
        rfl
      · obtain ⟨front,last,lStock,hlStock,houts,hne⟩ := hspec.lStock
        exact ⟨front,last,lStock,hspec.same.keyagg ▸ hlStock,houts,hne⟩
      · rw [hspec.same.amount]
        exact hspec.total
    · obtain ⟨si,hget⟩ := mem_iff_getElem?.mp hn
      obtain ⟨amount,hsub,-⟩ := hspec.subs si n hget
      obtain ⟨per,last,spks,lStock,hall,-,houts⟩ := hsub.outputs.channels
      refine ⟨.sub hsub.type hsub.ps hsub.moving hsub.subs hsub.children ?_,hsub.chain,?_⟩
      · have hone := length_pos_iff.mpr hsub.nonEmpty
        rw [hall.length_eq] at hone
        rw [houts,length_append,length_map,length_singleton]
        omega
      · intro hle
        rw [hsub.outputs.total,hsub.amount]
        rw [hsub.amount] at hle
        rw [UInt64.toNat_sub_of_le _ _ hle]
        exact Nat.sub_add_cancel (UInt64.le_iff_toNat_le.mp hle)
  · intro p ko st children hko hst hc n hn
    have hfresh := addNode_fresh hst.added
    rcases mem_cons.mp hn with rfl | hn
    · exact movingKickoff_ok hko st
    rcases mem_cons.mp hn with rfl | hn
    · have hne := hc.chain.children_ne_nil hko.nonEmpty
      refine ⟨.inner hfresh.type hfresh.ps hfresh.moving hfresh.subs ?_ ?_,
        ⟨hfresh.chain.len,hfresh.chain.amount,hfresh.chain.prevOutputs⟩,?_⟩
      · simpa [innerState] using hne
      · change st.dwLayerIndex ≠ none
        rw [hfresh.layer]
        exact dwLayerAt_some (fun hlt => hst.moving ⟨hlt,hc.inner⟩)
      · intro _
        change outputTotal (children.map Child.output) + _ = (p.amount-f.feePerTx).toNat
        rw [childOutputs_total]
        exact hc.budget
    · exact hc.chain.all_nodes (fun _ _ hb => hb) hn

theorem kickoff_not_tip {x : FactoryNode} (h : x.type = .kickoff) : ¬ IsTip x :=
  fun htip => absurd (h.symm.trans htip.1) (by decide)

theorem buildSubtree_leafy (h : p.build env f fuel = some b) : Leafy p b := by
  refine buildSubtree_induct ?_ ?_ ?_ h
  · intro p ko children hko _ hc
    have hfresh := addNode_fresh hko.added
    refine ⟨hc.chain.leaves_sorted,?_,?_⟩
    · intro l hl
      obtain ⟨x,hx⟩ := hc.chain.leaves_present hl
      exact ⟨x,at_cons.mpr (Or.inr hx)⟩
    · intro j n hn
      rcases at_cons.mp hn with ⟨rfl,rfl⟩ | hn
      · exact iff_of_false (hc.chain.leaf_after (by omega)) (kickoff_not_tip hfresh.type)
      · exact hc.chain.leaf_tips hn
  · intro p ko st st' subs hko hst _ _ hsetup
    have hkickoff := addNode_fresh hko.added
    have hfresh := addNode_fresh hst.added
    have hspec := setupLeaf_spec hko.nonEmpty hsetup
    refine ⟨pairwise_singleton _ _,?_,?_⟩
    · intro l hl
      obtain rfl := mem_singleton.mp hl
      exact ⟨st',at_cons.mpr (Or.inr (at_cons.mpr (Or.inl ⟨rfl,rfl⟩)))⟩
    · intro j n hn
      change j ∈ [p.nNodes+1] ↔ IsTip n
      rw [mem_singleton]
      rcases at_cons.mp hn with ⟨rfl,rfl⟩ | hn
      · exact iff_of_false (by omega) (kickoff_not_tip hkickoff.type)
      rcases at_cons.mp hn with ⟨rfl,rfl⟩ | hn
      · simp only [true_iff]
        exact ⟨hspec.same.type.trans hfresh.type,(hspec.children hfresh.children).trans
          (hspec.subIndices hfresh.subs).symm⟩
      · have hrange := hn.range
        obtain ⟨amount,hsub,-⟩ := hspec.subs _ n hn.2
        refine iff_of_false (by omega) fun htip => ?_
        exact absurd (hsub.type.symm.trans htip.1) (by decide)
  · intro p ko st children hko hst hc
    have hkickoff := addNode_fresh hko.added
    have hfresh := addNode_fresh hst.added
    have hne := hc.chain.children_ne_nil hko.nonEmpty
    refine ⟨hc.chain.leaves_sorted,?_,?_⟩
    · intro l hl
      obtain ⟨x,hx⟩ := hc.chain.leaves_present hl
      exact ⟨x,at_cons.mpr (Or.inr (at_cons.mpr (Or.inr hx)))⟩
    · intro j n hn
      rcases at_cons.mp hn with ⟨rfl,rfl⟩ | hn
      · exact iff_of_false (hc.chain.leaf_after (by omega)) (kickoff_not_tip hkickoff.type)
      rcases at_cons.mp hn with ⟨rfl,rfl⟩ | hn
      · refine iff_of_false (hc.chain.leaf_after (by omega)) fun htip => ?_
        have hnil := htip.2.trans hfresh.subs
        exact absurd (map_eq_nil_iff.mp hnil) hne
      · exact hc.chain.leaf_tips hn

end

section

variable {env : Env} {f : Factory}

def LayerBelow (f : Factory) (a : FactoryNode) (layer : Option ℕ) : Prop :=
  (a.isStaticOnly = true ∧ (layer = some 0 ∨ layer = none)) ∨
    (a.type = .state ∧ a.isStaticOnly = false ∧ ∃ l, a.dwLayerIndex = some l ∧
      layer = some (min (l+1) (f.counter.nLayers-1)))

def LayerStep (f : Factory) (R : ℕ → FactoryNode → Prop) (s : FactoryNode) : Prop :=
  ∃ k ko q a, R k ko ∧ R q a ∧ s.parentIndex = some k ∧ ko.type = .kickoff ∧
    ko.parentIndex = some q ∧ LayerBelow f a s.dwLayerIndex

variable {s : FactoryNode} {R : ℕ → FactoryNode → Prop} {depth parent n lc slot : ℕ}
  {parts clients : List ℕ} {children : List Child}

theorem LayerStep.mono {S : ℕ → FactoryNode → Prop} (h : ∀ j n, R j n → S j n) :
    LayerStep f R s → LayerStep f S s := by
  rintro ⟨k,ko,q,a,hk,hq,hrest⟩
  exact ⟨k,ko,q,a,h _ _ hk,h _ _ hq,hrest⟩

structure Layered (f : Factory) (p : Place) (b : Block) : Prop where
  type : b.root.type = .kickoff
  parent : b.root.parentIndex = p.parent
  head : ∀ s, At p.nNodes b.nodes (p.nNodes+1) s → s.type = .state →
    s.parentIndex = some p.nNodes ∧ s.dwLayerIndex = dwLayerAt f p.depth
  deep : ∀ j s, At p.nNodes b.nodes j s → j ≠ p.nNodes+1 → s.type = .state →
    LayerStep f (At p.nNodes b.nodes) s

section

variable (h : Chain (Layered f) parent depth n lc slot parts clients children)

include h

theorem Chain.layered {top : FactoryNode}
    (hsub : ∀ j x, At n (childNodes children) j x → R j x) (htop : R parent top)
    (hbelow : LayerBelow f top (dwLayerAt f depth)) {j : ℕ} (hs : At n (childNodes children) j s)
    (htype : s.type = .state) : LayerStep f R s := by
  induction h with
  | nil => simp at hs
  | @cons n _ _ _ _ _ c children _ block _ ih =>
    rw [childNodes_cons] at hs hsub
    rcases at_append.mp hs with hs | hs
    · by_cases hj : j = n+1
      · subst hj
        obtain ⟨hparent,hlayer⟩ := block.head s hs htype
        have hroot : At n (c.block.nodes ++ childNodes children) n c.block.root :=
          at_append.mpr (Or.inl (at_cons.mpr (Or.inl ⟨rfl,rfl⟩)))
        exact ⟨n,c.block.root,parent,top,hsub _ _ hroot,htop,hparent,block.type,
          block.parent,hlayer ▸ hbelow⟩
      · exact (block.deep j s hs hj htype).mono
          (fun j x hx => hsub j x (at_append.mpr (Or.inl hx)))
    · exact ih (fun j x hx => hsub j x (at_append.mpr (Or.inr hx))) hs

theorem Chain.first_kickoff
    (hs : At n (childNodes children) n s) : s.type = .kickoff := by
  cases h with
  | nil => simp at hs
  | @cons _ _ _ _ _ _ c children _ block =>
    have hroot : At n (childNodes (c :: children)) n c.block.root := by
      rw [childNodes_cons]
      exact at_append.mpr (Or.inl (at_cons.mpr (Or.inl ⟨rfl,rfl⟩)))
    rw [hs.unique hroot]
    exact block.type

end

theorem dwLayerAt_static (h : (depth : Int) < staticThreshold f) :
    dwLayerAt f (depth+1) = some 0 ∨ dwLayerAt f (depth+1) = none := by
  by_cases hnext : ((depth+1 : ℕ) : Int) < staticThreshold f
  · right
    rw [dwLayerAt,if_pos (by omega)]
  · left
    have hzero : ((depth+1 : ℕ) : Int) - staticThreshold f = 0 := by omega
    rw [dwLayerAt,hzero,if_neg (by omega)]
    split_ifs with hn
    · congr 1
      omega
    · rfl

theorem dwLayerAt_moving (h : ¬ (depth : Int) < staticThreshold f) :
    ∃ l, dwLayerAt f depth = some l ∧
      dwLayerAt f (depth+1) = some (min (l+1) (f.counter.nLayers-1)) := by
  refine ⟨min ((depth : Int) - staticThreshold f).toNat (f.counter.nLayers-1),?_,?_⟩
  · rw [dwLayerAt,if_neg (by omega)]
    split_ifs with hn <;> congr 1 <;> omega
  · rw [dwLayerAt,if_neg (by omega)]
    split_ifs with hn <;> congr 1 <;> omega

theorem dwLayerAt_root (h : 0 ≤ staticThreshold f) :
    dwLayerAt f 0 = some 0 ∨ dwLayerAt f 0 = none := by
  by_cases hpos : 0 < staticThreshold f
  · right
    rw [dwLayerAt,if_pos (by omega)]
  · left
    rw [dwLayerAt,if_neg (by omega)]
    split_ifs with hn <;> congr 1 <;> omega

theorem buildSubtree_layered {fuel : ℕ} {p : Place} {b : Block}
    (h : p.build env f fuel = some b) : Layered f p b := by
  refine buildSubtree_induct ?_ ?_ ?_ h
  · intro p ko children hko hstatic hc
    have hfresh := addNode_fresh hko.added
    have htop : At p.nNodes (staticBlock p ko children).nodes p.nNodes
        (staticBlock p ko children).root := at_cons.mpr (Or.inl ⟨rfl,rfl⟩)
    have hdeep : ∀ j s, At p.nNodes (staticBlock p ko children).nodes j s → s.type = .state →
        LayerStep f (At p.nNodes (staticBlock p ko children).nodes) s := by
      intro j s hs htype
      rcases at_cons.mp hs with ⟨-,rfl⟩ | hs
      · exact absurd (hfresh.type.symm.trans htype) (by decide)
      · exact hc.chain.layered (fun _ _ hx => at_cons.mpr (Or.inr hx)) htop
          (Or.inl ⟨rfl,dwLayerAt_static hstatic⟩) hs htype
    refine ⟨hfresh.type,hfresh.parent,?_,fun j s hs _ htype => hdeep j s hs htype⟩
    intro s hs htype
    rcases at_cons.mp hs with ⟨hj,-⟩ | hs
    · omega
    · exact absurd ((hc.chain.first_kickoff hs).symm.trans htype) (by decide)
  · intro p ko st st' subs hko hst _ _ hsetup
    have hkickoff := addNode_fresh hko.added
    have hfresh := addNode_fresh hst.added
    have hspec := setupLeaf_spec hko.nonEmpty hsetup
    refine ⟨hkickoff.type,hkickoff.parent,?_,?_⟩
    · intro s hs _
      have hst' : At p.nNodes (leafBlock f p ko st st' subs).nodes (p.nNodes+1) st' :=
        at_cons.mpr (Or.inr (at_cons.mpr (Or.inl ⟨rfl,rfl⟩)))
      obtain rfl := hs.unique hst'
      exact ⟨hspec.same.parent.trans hfresh.parent,hspec.same.layer.trans hfresh.layer⟩
    · intro j s hs hj htype
      rcases at_cons.mp hs with ⟨-,rfl⟩ | hs
      · exact absurd (hkickoff.type.symm.trans htype) (by decide)
      rcases at_cons.mp hs with ⟨rfl,-⟩ | hs
      · exact absurd rfl hj
      · obtain ⟨amount,hsub,-⟩ := hspec.subs _ s hs.2
        exact absurd (hsub.type.symm.trans htype) (by decide)
  · intro p ko st children hko hst hc
    have hkickoff := addNode_fresh hko.added
    have hfresh := addNode_fresh hst.added
    have htop : At p.nNodes (innerBlock f p ko st children).nodes (p.nNodes+1)
        (innerState f p st children) := at_cons.mpr (Or.inr (at_cons.mpr (Or.inl ⟨rfl,rfl⟩)))
    have hmoving : ¬ (p.depth : Int) < staticThreshold f := fun hlt => hst.moving ⟨hlt,hc.inner⟩
    obtain ⟨l,hl,hnext⟩ := dwLayerAt_moving hmoving
    refine ⟨hkickoff.type,hkickoff.parent,?_,?_⟩
    · intro s hs _
      obtain rfl := hs.unique htop
      exact ⟨hfresh.parent,hfresh.layer⟩
    · intro j s hs hj htype
      rcases at_cons.mp hs with ⟨-,rfl⟩ | hs
      · exact absurd (hkickoff.type.symm.trans htype) (by decide)
      rcases at_cons.mp hs with ⟨rfl,-⟩ | hs
      · exact absurd rfl hj
      · exact hc.chain.layered (fun _ _ hx => at_cons.mpr (Or.inr (at_cons.mpr (Or.inr hx)))) htop
          (Or.inr ⟨hfresh.type,hfresh.moving,l,hfresh.layer.trans hl,hnext⟩) hs htype

end

end SuperScalar
