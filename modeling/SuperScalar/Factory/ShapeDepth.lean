import SuperScalar.Factory.Unwind

namespace SuperScalar

open List Nat

section

variable {f : Factory}

theorem leafShapes_leaf {d nc : ℕ} (hpos : 0 < nc)
    (hleaf : subtreeIsLeaf f (arityAtDepth f d) nc = true) :
    leafShapes f d nc = [⟨d,decide (arityAtDepth f d = factoryArityPs)⟩] :=
  treeLeaves_leaf hpos hleaf

theorem mem_leafShapes_inner (hconf : ArityConfigured f) {d nc : ℕ} (hpos : 0 < nc)
    (hleaf : subtreeIsLeaf f (arityAtDepth f d) nc = false) {leaf : LeafShape} :
    leaf ∈ leafShapes f d nc ↔ ∃ part ∈ splitClientsForArity (arityAtDepth f d) nc,
      leaf ∈ leafShapes f (d+1) part := by
  have hinner : leafShapes f d nc = (splitClientsForArity (arityAtDepth f d) nc).flatMap
      (leafShapes f (d+1)) := treeLeaves_inner hconf hpos hleaf
  rw [hinner,mem_flatMap]

theorem leafShapes_depth (hconf : ArityConfigured f) {d nc : ℕ} (hpos : 0 < nc) :
    (∃ leaf, leaf ∈ leafShapes f d nc) ∧ ∀ leaf ∈ leafShapes f d nc, d ≤ leaf.depth := by
  induction nc using Nat.strong_induction_on generalizing d with
  | h nc ih =>
    by_cases hleaf : subtreeIsLeaf f (arityAtDepth f d) nc = true
    · rw [leafShapes_leaf hpos hleaf]
      simp
    · have hleaf := Bool.eq_false_of_not_eq_true hleaf
      have hsplits := inner_splits hconf hleaf
      constructor
      · have hne : splitClientsForArity (arityAtDepth f d) nc ≠ [] :=
          ne_nil_of_length_pos (by have := split_length_two (hconf.pos d) hleaf; omega)
        obtain ⟨part,hpart⟩ := exists_mem_of_ne_nil _ hne
        obtain ⟨leaf,hmem⟩ :=
          (ih part (hsplits.smaller part hpart) (hsplits.pos part hpart)).1
        exact ⟨leaf,(mem_leafShapes_inner hconf hpos hleaf).mpr ⟨part,hpart,hmem⟩⟩
      · intro leaf hmem
        obtain ⟨part,hpart,hmem⟩ := (mem_leafShapes_inner hconf hpos hleaf).mp hmem
        have := (ih part (hsplits.smaller part hpart) (hsplits.pos part hpart)).2 leaf hmem
        omega

theorem deepest_le {leaves : List LeafShape} {j : ℕ} :
    deepest leaves ≤ j ↔ ∀ leaf ∈ leaves, leaf.depth ≤ j := by
  induction leaves with
  | nil => simp [deepest]
  | cons _ _ ih =>
    rw [forall_mem_cons,← ih]
    exact Nat.max_le

end

section

variable {f : Factory}

structure WalkFinds (f : Factory) (stack : List (ℕ × ℕ)) (maxDepth : ℕ) (hasPsLeaf : Bool)
    (result : ℕ × Bool) : Prop where
  depth : ∀ j, result.1 ≤ j ↔
    maxDepth ≤ j ∧ ∀ fr ∈ stack, ∀ leaf ∈ leafShapes f fr.2 fr.1, leaf.depth ≤ j
  ps : result.2 = true ↔
    hasPsLeaf = true ∨ ∃ fr ∈ stack, ∃ leaf ∈ leafShapes f fr.2 fr.1, leaf.isPs = true

theorem shapeLoop_finds (hconf : ArityConfigured f) {fuel : ℕ} {stack : List (ℕ × ℕ)}
    {maxDepth : ℕ} {hasPsLeaf : Bool} (hfit : FramesFit fuel stack) :
    WalkFinds f stack maxDepth hasPsLeaf
      (shapeLoop (arityAtDepth f) (subtreeIsLeaf f) fuel stack maxDepth hasPsLeaf) := by
  induction fuel generalizing stack maxDepth hasPsLeaf with
  | zero =>
    rw [hfit.stuck]
    exact ⟨by simp [shapeLoop],by simp [shapeLoop]⟩
  | succ _ ih =>
    rcases stack with _ | ⟨⟨nc,d⟩,stack⟩
    · exact ⟨by simp [shapeLoop],by simp [shapeLoop]⟩
    obtain ⟨hnc,hrest⟩ := hfit.pop
    rw [shapeLoop,if_neg hnc.ne']
    dsimp only
    split
    · next hleaf =>
      have hnext : WalkFinds f stack (max maxDepth d)
          (hasPsLeaf || decide (arityAtDepth f d = factoryArityPs)) _ := ih hrest
      obtain ⟨hdepth,hps⟩ := hnext
      refine ⟨?_,?_⟩
      · intro j
        rw [hdepth,forall_mem_cons,leafShapes_leaf hnc hleaf,forall_mem_singleton,
          Nat.max_le,and_assoc]
      · rw [hps,exists_mem_cons_iff,leafShapes_leaf hnc hleaf]
        simp [or_assoc]
    · next hleaf =>
      have hleaf := Bool.eq_false_of_not_eq_true hleaf
      obtain ⟨hpush,hnext⟩ := hfit.push hconf hleaf
      have hfinds : WalkFinds f _ (max maxDepth d) hasPsLeaf _ := ih hnext
      obtain ⟨hdepth,hps⟩ := hfinds
      have hmem : ∀ leaf, leaf ∈ leafShapes f d nc ↔
          ∃ part ∈ splitClientsForArity (arityAtDepth f d) nc,
            leaf ∈ leafShapes f (d+1) part := fun _ => mem_leafShapes_inner hconf hnc hleaf
      rw [hpush]
      refine ⟨?_,?_⟩
      · intro j
        rw [hdepth,List.forall_mem_cons,List.forall_mem_append,Nat.max_le]
        simp only [mem_reverse,forall_mem_map,hmem]
        constructor
        · rintro ⟨⟨hmax,-⟩,hparts,hstack⟩
          exact ⟨hmax,fun leaf ⟨part,hpart,hin⟩ => hparts part hpart leaf hin,hstack⟩
        · rintro ⟨hmax,hparts,hstack⟩
          obtain ⟨⟨leaf,hin⟩,hge⟩ := leafShapes_depth hconf hnc
          have hle := hparts leaf ((hmem leaf).mp hin)
          have hd := hge leaf hin
          exact ⟨⟨hmax,hd.trans hle⟩,fun part hpart leaf hin => hparts leaf ⟨part,hpart,hin⟩,hstack⟩
      · rw [hps,exists_mem_cons_iff]
        constructor
        · rintro (hseen | ⟨fr,hfr,leaf,hin,htrue⟩)
          · exact Or.inl hseen
          rcases mem_append.mp hfr with hfr | hfr
          · obtain ⟨part,hpart,rfl⟩ := mem_map.mp (mem_reverse.mp hfr)
            exact Or.inr (Or.inl ⟨leaf,(hmem leaf).mpr ⟨part,hpart,hin⟩,htrue⟩)
          · exact Or.inr (Or.inr ⟨fr,hfr,leaf,hin,htrue⟩)
        · rintro (hseen | ⟨leaf,hin,htrue⟩ | ⟨fr,hfr,hlater⟩)
          · exact Or.inl hseen
          · obtain ⟨part,hpart,hin⟩ := (hmem leaf).mp hin
            have hfr : (part,d+1) ∈ ((splitClientsForArity (arityAtDepth f d) nc).map
                (fun p => (p,d+1))).reverse := by simpa using hpart
            exact Or.inr ⟨(part,d+1),mem_append_left _ hfr,leaf,hin,htrue⟩
          · exact Or.inr ⟨fr,mem_append_right _ hfr,hlater⟩

theorem simulateLoop_depth (f : Factory) (fuel : ℕ) (stack : List (ℕ × ℕ)) (maxDepth leaves : ℕ)
    (hasPsLeaf : Bool) : (simulateLoop f fuel stack maxDepth leaves).1 =
      (shapeLoop (arityAtDepth f) (subtreeIsLeaf f) fuel stack maxDepth hasPsLeaf).1 := by
  induction fuel generalizing stack maxDepth leaves hasPsLeaf with
  | zero => rfl
  | succ _ ih =>
    rcases stack with _ | ⟨⟨nc,d⟩,stack⟩
    · rfl
    rw [simulateLoop,shapeLoop]
    dsimp only
    split_ifs
    · exact ih _ _ _ _
    · exact ih _ _ _ _
    · exact ih _ _ _ _

theorem shape_walk (hconf : ArityConfigured f) {n : ℕ} (hpos : 0 < n) (hle : n ≤ factoryMaxNodes) :
    shapeLoop (arityAtDepth f) (subtreeIsLeaf f) (2*n+1) [(n,0)] 0 false =
      (deepest (leafShapes f 0 n),(leafShapes f 0 n).any LeafShape.isPs) := by
  have hfinds : WalkFinds f [(n,0)] 0 false _ := shapeLoop_finds hconf (FramesFit.start hpos hle)
  obtain ⟨hdepth,hps⟩ := hfinds
  refine Prod.ext ?_ ?_
  · refine eq_of_forall_ge_iff ?_
    intro j
    rw [hdepth,deepest_le]
    simp
  · rw [Bool.eq_iff_iff,hps,any_eq_true]
    simp

end

section

variable {f : Factory}

theorem bitLength_le {fuel v j : ℕ} (hfuel : v ≤ fuel) : bitLength fuel v ≤ j ↔ v < 2^j := by
  induction fuel generalizing v j with
  | zero =>
    obtain rfl := le_zero.mp hfuel
    simp [bitLength]
  | succ _ ih =>
    rw [bitLength]
    split
    · next hzero =>
      subst hzero
      simp
    · next hv =>
      cases j with
      | zero =>
        rw [pow_zero]
        omega
      | succ =>
        rw [add_le_add_iff_right,ih (by omega),pow_succ]
        omega

theorem computeTreeDepthPsk_le {n a cap j : ℕ} :
    computeTreeDepthPsk n a cap ≤ j ↔ computeLeafCountPsk n a cap ≤ 2^j := by
  have hpow : 0 < 2^j := Nat.pow_pos (by decide)
  rw [computeTreeDepthPsk]
  split
  · next hsmall =>
    simp only [Nat.zero_le,true_iff]
    omega
  · next hbig =>
    rw [bitLength_le (by omega)]
    omega

theorem uniform_depth_le (hconf : ArityConfigured f) (hu : f.levelArity = []) {c : ℕ}
    (hleaf : ∀ n, subtreeIsLeaf f f.leafArity n = decide (n ≤ c))
    (hparts : ∀ n x, (∀ part ∈ splitClientsForArity f.leafArity n, part ≤ c*x) ↔
      n ≤ 2*(c*x))
    {d nc j : ℕ} (hpos : 0 < nc) :
    (∀ leaf ∈ leafShapes f d nc, leaf.depth ≤ d + j) ↔ nc ≤ c*2^j := by
  have harity := arityAtDepth_uniform hu
  induction nc using Nat.strong_induction_on generalizing d j with
  | h nc ih =>
    by_cases hsmall : nc ≤ c
    · rw [leafShapes_leaf hpos (by rw [harity,hleaf]; exact decide_eq_true hsmall)]
      have hbig : c ≤ c*2^j := Nat.le_mul_of_pos_right _ (Nat.pow_pos (by decide))
      simp only [List.forall_mem_singleton,Nat.le_add_right,true_iff]
      exact hsmall.trans hbig
    · have hin : subtreeIsLeaf f (arityAtDepth f d) nc = false := by
        rw [harity,hleaf]
        exact decide_eq_false hsmall
      have hsplits := inner_splits hconf hin
      have hdown : (∀ leaf ∈ leafShapes f d nc, leaf.depth ≤ d + j) ↔
          ∀ part ∈ splitClientsForArity f.leafArity nc, ∀ leaf ∈ leafShapes f (d+1) part,
            leaf.depth ≤ d + j := by
        simp only [mem_leafShapes_inner hconf hpos hin,harity]
        exact ⟨fun h part hpart leaf hmem => h leaf ⟨part,hpart,hmem⟩,
          fun h leaf ⟨part,hpart,hmem⟩ => h part hpart leaf hmem⟩
      rw [harity] at hsplits
      cases j with
      | zero =>
        rw [Nat.pow_zero,Nat.mul_one,iff_false_right hsmall]
        intro hall
        obtain ⟨⟨leaf,hmem⟩,-⟩ := leafShapes_depth hconf hpos
        obtain ⟨part,hpart,hmem'⟩ := (mem_leafShapes_inner hconf hpos hin).mp hmem
        rw [harity] at hpart
        have hge := (leafShapes_depth hconf (hsplits.pos part hpart)).2 leaf hmem'
        have hle := hall leaf hmem
        omega
      | succ j =>
        have hsucc : d + (j+1) = d+1 + j := by omega
        have hpow : c*2^(j+1) = 2*(c*2^j) := by ring
        rw [hdown,hpow,← hparts,hsucc]
        refine forall₂_congr ?_
        intro part hpart
        exact ih part (hsplits.smaller part hpart) (hsplits.pos part hpart)

theorem ceil_div_le {n c x : ℕ} (hc : 0 < c) : (n + c-1)/c ≤ x ↔ n ≤ c*x := by
  rw [div_le_iff_le_mul_add_pred hc]
  omega

theorem halves_le (n y : ℕ) : (∀ part ∈ [n/2,n-n/2], part ≤ y) ↔ n ≤ 2*y := by
  simp only [forall_mem_cons,not_mem_nil,false_implies,implies_true,and_true]
  omega

theorem pairs_le (n x : ℕ) : (∀ part ∈ splitClientsForArity factoryArity2 n, part ≤ 2*x) ↔
    n ≤ 2*(2*x) := by
  have hparts : splitClientsForArity factoryArity2 n = [min ((n+1)/2/2*2) n,
    n - min ((n+1)/2/2*2) n] := rfl
  rw [hparts]
  simp only [forall_mem_cons,not_mem_nil,false_implies,implies_true,and_true]
  omega

theorem treeMetrics_depth (hconf : ArityConfigured f) {n : ℕ} (hpos : 0 < n)
    (hle : n ≤ factoryMaxNodes) : (treeMetrics f n).1 = deepest (leafShapes f 0 n) := by
  rw [treeMetrics]
  split
  · next hu =>
    refine eq_of_forall_ge_iff ?_
    intro j
    have hdepth := fun c hleaf hparts =>
      uniform_depth_le hconf hu (c := c) hleaf hparts (d := 0) (j := j) hpos
    simp only [zero_add] at hdepth
    rw [computeTreeDepthPsk_le,deepest_le]
    rcases hconf.1 hu with ha | ha | ha
    · rw [hdepth 1 (fun n => by rw [ha]; rfl) (fun n x => by rw [ha]; exact halves_le n _),ha,
        one_mul]
      rfl
    · rw [hdepth 2 (fun n => by rw [ha]; rfl) (fun n x => by rw [ha]; exact pairs_le n x),ha]
      change (n+1)/2 ≤ 2^j ↔ _
      omega
    · have hcap := psLeafCapacity_pos f
      rw [hdepth (psLeafCapacity f) (fun n => by rw [ha]; rfl)
        (fun n x => by rw [ha]; exact halves_le n _),ha,← ceil_div_le hcap]
      rw [computeLeafCountPsk,if_neg (by decide),if_pos rfl]
      rw [max_eq_left hcap]
  · next hu =>
    have hwalk := shape_walk hconf hpos hle
    rw [simulateTree,simulateLoop_depth f _ _ _ _ false,hwalk]

end

end SuperScalar
