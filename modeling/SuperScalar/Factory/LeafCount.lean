import SuperScalar.Factory.Split

namespace SuperScalar

open List Nat

section

variable {f : Factory}

def treeLeaves {α : Type} (leaf : ℕ → ℕ → α) (f : Factory) : ℕ → ℕ → ℕ → List α
  | 0, _, _ => []
  | fuel+1, d, nc =>
    if subtreeIsLeaf f (arityAtDepth f d) nc then [leaf d nc]
    else (splitClientsForArity (arityAtDepth f d) nc).flatMap (treeLeaves leaf f fuel (d+1))

def treeSizes (f : Factory) : ℕ → ℕ → ℕ → List ℕ
  | 0, _, _ => []
  | fuel+1, d, nc =>
    if subtreeIsLeaf f (arityAtDepth f d) nc then [nc]
    else (splitClientsForArity (arityAtDepth f d) nc).flatMap
      (fun part => treeSizes f fuel (d+1) part)

def leafSizes (f : Factory) (d nc : ℕ) : List ℕ := treeSizes f nc d nc

def leafCount (f : Factory) (d nc : ℕ) : ℕ := (leafSizes f d nc).length

def ArityConfigured (f : Factory) : Prop :=
  (f.levelArity = [] → f.leafArity = factoryArity1 ∨ f.leafArity = factoryArity2 ∨
    f.leafArity = factoryArityPs) ∧
  ∀ a ∈ f.levelArity, 1 ≤ a ∧ a ≤ 15

variable {α : Type} {g : Factory} {nc d : ℕ}

theorem treeLeaves_congr {leaf : ℕ → ℕ → α} (harity : ∀ d, arityAtDepth f d = arityAtDepth g d)
    (hcap : psLeafCapacity f = psLeafCapacity g) (fuel d nc : ℕ) :
    treeLeaves leaf f fuel d nc = treeLeaves leaf g fuel d nc := by
  have hleaf : ∀ a n, subtreeIsLeaf f a n = subtreeIsLeaf g a n := by
    intro a n
    simp only [subtreeIsLeaf,hcap]
  induction fuel generalizing d nc with
  | zero => rfl
  | succ fuel ih =>
    have hrec := funext (ih (d+1))
    simp only [treeLeaves,harity,hleaf,hrec]

theorem treeSizes_eq (f : Factory) (fuel d nc : ℕ) :
    treeSizes f fuel d nc = treeLeaves (fun _ size => size) f fuel d nc := by
  induction fuel generalizing d nc with
  | zero => rfl
  | succ _ ih => simp only [treeSizes,treeLeaves,ih]

theorem treeSizes_congr (harity : ∀ d, arityAtDepth f d = arityAtDepth g d)
    (hcap : psLeafCapacity f = psLeafCapacity g) (fuel d nc : ℕ) :
    treeSizes f fuel d nc = treeSizes g fuel d nc := by
  simp only [treeSizes_eq,treeLeaves_congr harity hcap]

theorem ArityConfigured.pos (h : ArityConfigured f) (d : ℕ) : 0 < arityAtDepth f d := by
  unfold arityAtDepth
  split_ifs with hnil hdepth
  · rcases h.1 hnil with h | h | h <;> rw [h] <;> decide
  · rw [getD_eq_getElem?_getD,getElem?_eq_getElem hdepth]
    exact (h.2 _ (getElem_mem hdepth)).1
  · rw [getLastD_eq_getLast?,getLast?_eq_some_getLast hnil]
    exact (h.2 _ (getLast_mem hnil)).1

theorem split_length_two {a : ℕ} (ha : 0 < a) (hleaf : subtreeIsLeaf f a nc = false) :
    2 ≤ (splitClientsForArity a nc).length := by
  unfold splitClientsForArity
  split_ifs with hbin h2
  · exact le_rfl
  · exact le_rfl
  · have h1 : a ≠ 1 := fun h => hbin (Or.inl h)
    have h3 : a ≠ factoryArityPs := fun h => hbin (Or.inr h)
    have hnc : a < nc := by simpa [subtreeIsLeaf,h1,h3] using hleaf
    obtain ⟨c,rfl⟩ := Nat.exists_eq_add_of_lt ha
    obtain ⟨hlen,-⟩ := splitEvenly_full (0 + c + 1) nc hnc.le
    have hleft := splitEvenly_left (0+c) nc
    have hgt : ¬ ((splitEvenly (0 + c+1) nc).2 > 0 ∧
        (splitEvenly (0 + c+1) nc).1.length > 0) := by omega
    simp only [if_neg hgt]
    omega

theorem inner_splits (hconf : ArityConfigured f)
    (hleaf : subtreeIsLeaf f (arityAtDepth f d) nc = false) :
    Splits (splitClientsForArity (arityAtDepth f d) nc) nc :=
  split_splits f hleaf (split_length_two (hconf.pos d) hleaf)

theorem flatMap_congr_mem {β : Type} {xs : List α} {g h : α → List β} (hgh : ∀ x ∈ xs, g x = h x) :
    xs.flatMap g = xs.flatMap h := by
  simp only [flatMap_def,map_congr_left hgh]

section

variable {α : Type} {leaf : ℕ → ℕ → α}

variable {d nc : ℕ}

theorem treeLeaves_stable (hconf : ArityConfigured f) {fuel fuel' : ℕ} (hpos : 0 < nc)
    (hfuel : nc ≤ fuel) (hfuel' : nc ≤ fuel') :
    treeLeaves leaf f fuel d nc = treeLeaves leaf f fuel' d nc := by
  induction fuel generalizing fuel' d nc with
  | zero => omega
  | succ _ ih =>
    cases fuel' with
    | zero => omega
    | succ =>
      simp only [treeLeaves]
      split
      · rfl
      next hleaf =>
      have hsplits := inner_splits hconf (Bool.eq_false_of_not_eq_true hleaf)
      apply flatMap_congr_mem
      intro part hpart
      have hlt := hsplits.smaller part hpart
      exact ih (hsplits.pos part hpart) (by omega) (by omega)

theorem treeLeaves_leaf (hpos : 0 < nc) (hleaf : subtreeIsLeaf f (arityAtDepth f d) nc = true) :
    treeLeaves leaf f nc d nc = [leaf d nc] := by
  obtain ⟨m,rfl⟩ := exists_eq_succ_of_ne_zero hpos.ne'
  rw [treeLeaves,if_pos hleaf]

theorem treeLeaves_inner (hconf : ArityConfigured f) (hpos : 0 < nc)
    (hleaf : subtreeIsLeaf f (arityAtDepth f d) nc = false) :
    treeLeaves leaf f nc d nc = (splitClientsForArity (arityAtDepth f d) nc).flatMap
      (fun part => treeLeaves leaf f part (d+1) part) := by
  have hsplits := inner_splits hconf hleaf
  obtain ⟨m,rfl⟩ := exists_eq_succ_of_ne_zero hpos.ne'
  rw [treeLeaves,if_neg (by rw [hleaf]; decide)]
  apply flatMap_congr_mem
  intro part hpart
  have hlt := hsplits.smaller part hpart
  exact treeLeaves_stable hconf (hsplits.pos part hpart) (by omega) le_rfl

end

theorem leafSizes_leaf (hpos : 0 < nc) (hleaf : subtreeIsLeaf f (arityAtDepth f d) nc = true) :
    leafSizes f d nc = [nc] := by
  rw [leafSizes,treeSizes_eq,treeLeaves_leaf hpos hleaf]

theorem leafSizes_inner (hconf : ArityConfigured f) (hpos : 0 < nc)
    (hleaf : subtreeIsLeaf f (arityAtDepth f d) nc = false) :
    leafSizes f d nc = (splitClientsForArity (arityAtDepth f d) nc).flatMap
      (leafSizes f (d+1)) := by
  rw [leafSizes,treeSizes_eq,treeLeaves_inner hconf hpos hleaf]
  apply flatMap_congr_mem
  intro part _
  rw [leafSizes,treeSizes_eq]

theorem leafCount_leaf (hpos : 0 < nc) (hleaf : subtreeIsLeaf f (arityAtDepth f d) nc = true) :
    leafCount f d nc = 1 := by
  rw [leafCount,leafSizes_leaf hpos hleaf,length_singleton]

theorem leafCount_inner (hconf : ArityConfigured f) (hpos : 0 < nc)
    (hleaf : subtreeIsLeaf f (arityAtDepth f d) nc = false) :
    leafCount f d nc = ((splitClientsForArity (arityAtDepth f d) nc).map
      (leafCount f (d+1))).sum := by
  rw [leafCount,leafSizes_inner hconf hpos hleaf,length_flatMap]
  rfl

end

section

variable {f : Factory}

theorem pushFrames_eq (d : ℕ) (parts : List ℕ) (stack : List (ℕ × ℕ))
    (h : stack.length + parts.length ≤ factoryMaxNodes) :
    pushFrames d parts stack = (parts.map (fun p => (p,d))).reverse ++ stack := by
  induction parts generalizing stack with
  | nil => rfl
  | cons _ _ ih =>
    rw [length_cons] at h
    rw [pushFrames,if_neg (by omega),ih _ (by rw [length_cons]; omega)]
    simp

theorem length_le_sum {xs : List ℕ} (h : ∀ x ∈ xs, 0 < x) : xs.length ≤ xs.sum := by
  induction xs with
  | nil => simp
  | cons x _ ih =>
    have hx := h x (by simp)
    have hxs := ih (fun y hy => h y (by simp [hy]))
    rw [length_cons,sum_cons]
    omega

theorem frames_cost {parts : List ℕ} (h : ∀ p ∈ parts, 0 < p) :
    (parts.map (fun p => 2*p-1)).sum + parts.length = 2*parts.sum := by
  induction parts with
  | nil => rfl
  | cons p _ ih =>
    have hp := h p (by simp)
    have hparts := ih (fun q hq => h q (by simp [hq]))
    simp only [map_cons,sum_cons,length_cons]
    omega

-- Every iteration pops a frame; a frame of `nc` clients is good for `2 * nc - 1` of them.
structure FramesFit (fuel : ℕ) (stack : List (ℕ × ℕ)) : Prop where
  pos : ∀ fr ∈ stack, 0 < fr.1
  room : (stack.map Prod.fst).sum ≤ factoryMaxNodes
  cost : (stack.map (fun fr => 2*fr.1-1)).sum ≤ fuel

theorem FramesFit.start {n : ℕ} (hpos : 0 < n) (hle : n ≤ factoryMaxNodes) :
    FramesFit (2*n+1) [(n,0)] :=
  ⟨by simpa using hpos,by simpa using hle,by simp; omega⟩

variable {stack : List (ℕ × ℕ)} {fuel nc d : ℕ}

theorem FramesFit.stuck (h : FramesFit 0 stack) : stack = [] := by
  cases stack with
  | nil => rfl
  | cons fr =>
    have hpos := h.pos fr (by simp)
    have hcost := h.cost
    rw [map_cons,sum_cons] at hcost
    omega

theorem FramesFit.pop (h : FramesFit (fuel+1) ((nc,d) :: stack)) :
    0 < nc ∧ FramesFit fuel stack := by
  have hnc : 0 < nc := h.pos (nc,d) (by simp)
  have hroom := h.room
  have hcost := h.cost
  simp only [map_cons,sum_cons] at hroom hcost
  exact ⟨hnc,fun fr hfr => h.pos fr (by simp [hfr]),by omega,by omega⟩

variable (hconf : ArityConfigured f)

include hconf

theorem FramesFit.push (h : FramesFit (fuel+1) ((nc,d) :: stack))
    (hleaf : subtreeIsLeaf f (arityAtDepth f d) nc = false) :
    pushFrames (d+1) (splitClientsForArity (arityAtDepth f d) nc) stack =
        ((splitClientsForArity (arityAtDepth f d) nc).map (fun p => (p,d+1))).reverse ++ stack ∧
      FramesFit fuel
        (((splitClientsForArity (arityAtDepth f d) nc).map (fun p => (p,d+1))).reverse ++
          stack) := by
  obtain ⟨hnc,hrest⟩ := h.pop
  have hsplits := inner_splits hconf hleaf
  have htwo := split_length_two (hconf.pos d) hleaf
  have hcost := frames_cost hsplits.pos
  have hlen := length_le_sum hsplits.pos
  have hstack : stack.length ≤ (stack.map Prod.fst).sum := by
    have := length_le_sum (show ∀ x ∈ stack.map Prod.fst, 0 < x by simpa using hrest.pos)
    simpa using this
  have hroom := h.room
  have hfuel := h.cost
  rw [hsplits.total] at hcost hlen
  simp only [map_cons,sum_cons] at hroom hfuel
  refine ⟨pushFrames_eq _ _ _ (by omega),?_,?_,?_⟩
  · intro fr hfr
    rcases mem_append.mp hfr with hfr | hfr
    · obtain ⟨part,hpart,rfl⟩ := mem_map.mp (mem_reverse.mp hfr)
      exact hsplits.pos part hpart
    · exact hrest.pos fr hfr
  · simp only [map_append,map_reverse,map_map,List.sum_append,
      sum_reverse,Function.comp_def,map_id',hsplits.total]
    exact hroom
  · simp only [map_append,map_reverse,map_map,List.sum_append,sum_reverse,Function.comp_def]
    omega

theorem simulateLoop_leaves {maxDepth leaves : ℕ}
    (hfit : FramesFit fuel stack) :
    (simulateLoop f fuel stack maxDepth leaves).2 =
      leaves + (stack.map (fun fr => leafCount f fr.2 fr.1)).sum := by
  induction fuel generalizing stack maxDepth leaves with
  | zero =>
    rw [hfit.stuck]
    rfl
  | succ _ ih =>
    rcases stack with _ | ⟨⟨nc,d⟩,stack⟩
    · rfl
    obtain ⟨hnc,hrest⟩ := hfit.pop
    rw [simulateLoop,if_neg hnc.ne',map_cons,sum_cons]
    dsimp only
    split
    · next hleaf =>
      rw [ih hrest,leafCount_leaf hnc hleaf]
      omega
    · next hleaf =>
      have hleaf := Bool.eq_false_of_not_eq_true hleaf
      obtain ⟨hpush,hnext⟩ := hfit.push hconf hleaf
      rw [hpush,ih hnext,leafCount_inner hconf hnc hleaf]
      simp only [map_append,map_reverse,map_map,List.sum_append,sum_reverse,Function.comp_def]

theorem simulateTree_leaves {nClients : ℕ} (hpos : 0 < nClients)
    (hle : nClients ≤ factoryMaxNodes) : (simulateTree f nClients).2 = leafCount f 0 nClients := by
  rw [simulateTree,simulateLoop_leaves hconf (FramesFit.start hpos hle)]
  simp

end

section

variable {f : Factory}

theorem arityAtDepth_uniform (h : f.levelArity = []) (d : ℕ) : arityAtDepth f d = f.leafArity := by
  rw [arityAtDepth,if_pos h]

variable {d nc cap n i j q : ℕ}

theorem leafSizes_ps_leaf (hu : f.levelArity = []) (ha : f.leafArity = factoryArityPs)
    (hpos : 0 < nc) (hle : nc ≤ psLeafCapacity f) : leafSizes f d nc = [nc] := by
  apply leafSizes_leaf hpos
  rw [arityAtDepth_uniform hu,ha]
  exact decide_eq_true hle

theorem leafCount_ps_leaf (hu : f.levelArity = []) (ha : f.leafArity = factoryArityPs)
    (hpos : 0 < nc) (hle : nc ≤ psLeafCapacity f) : leafCount f d nc = 1 := by
  rw [leafCount,leafSizes_ps_leaf hu ha hpos hle,length_singleton]

section

variable (hconf : ArityConfigured f) (hu : f.levelArity = []) (ha : f.leafArity = factoryArityPs)

include hconf hu ha

variable {d nc i : ℕ}

theorem leafSizes_ps_halves (hlt : psLeafCapacity f < nc) :
    leafSizes f d nc = leafSizes f (d+1) (nc/2) ++ leafSizes f (d+1) (nc-nc/2) := by
  have hleaf : subtreeIsLeaf f (arityAtDepth f d) nc = false := by
    rw [arityAtDepth_uniform hu,ha]
    exact decide_eq_false (not_le.mpr hlt)
  rw [leafSizes_inner hconf (zero_lt_of_lt hlt) hleaf,arityAtDepth_uniform hu,ha]
  simp [splitClientsForArity]

theorem leafCount_ps_halves (hlt : psLeafCapacity f < nc) :
    leafCount f d nc = leafCount f (d+1) (nc/2) + leafCount f (d+1) (nc-nc/2) := by
  rw [leafCount,leafSizes_ps_halves hconf hu ha hlt,length_append]
  rfl

theorem leafCount_ps_low {r : ℕ} (hr : r ≤ 2^i) :
    leafCount f d (psLeafCapacity f * 2 ^ i + r) = 2^i + r := by
  have hcap := psLeafCapacity_pos f
  induction i generalizing d r with
  | zero =>
    rw [pow_zero,mul_one]
    rw [pow_zero] at hr
    rcases le_one_iff_eq_zero_or_eq_one.mp hr with rfl | rfl
    · exact leafCount_ps_leaf hu ha hcap le_rfl
    · rw [leafCount_ps_halves hconf hu ha (lt_succ_self _),
        leafCount_ps_leaf hu ha (by omega) (by omega),leafCount_ps_leaf hu ha (by omega) (by omega)]
  | succ i ih =>
    have hpow : psLeafCapacity f * 2 ^ (i+1) = 2*(psLeafCapacity f * 2 ^ i) := by ring
    have hbig : psLeafCapacity f ≤ psLeafCapacity f * 2 ^ i :=
      Nat.le_mul_of_pos_right _ (Nat.pow_pos (by decide))
    have hleft : (psLeafCapacity f * 2 ^ (i+1) + r)/2 = psLeafCapacity f * 2 ^ i + r/2 := by
      omega
    have hright : psLeafCapacity f * 2 ^ (i+1) + r-(psLeafCapacity f * 2 ^ i + r/2) =
        psLeafCapacity f * 2 ^ i + (r-r/2) := by omega
    have htwo : 2^(i+1) = 2*2^i := by ring
    rw [leafCount_ps_halves hconf hu ha (by omega),hleft,hright,ih (by omega),ih (by omega)]
    omega

theorem leafCount_ps_high (hlow : (psLeafCapacity f + 1)*2^i ≤ nc)
    (hhigh : nc ≤ psLeafCapacity f * 2 ^ (i+1)) : leafCount f d nc = 2^(i+1) := by
  have hcap := psLeafCapacity_pos f
  induction i generalizing d nc with
  | zero =>
    rw [pow_zero,mul_one] at hlow
    rw [pow_one] at hhigh ⊢
    rw [leafCount_ps_halves hconf hu ha (by omega),leafCount_ps_leaf hu ha (by omega) (by omega),
      leafCount_ps_leaf hu ha (by omega) (by omega)]
  | succ i ih =>
    have hpow : (psLeafCapacity f + 1)*2^(i+1) = 2*((psLeafCapacity f + 1)*2^i) := by
      ring
    have hpow' : psLeafCapacity f * 2 ^ (i+1+1) = 2*(psLeafCapacity f * 2 ^ (i+1)) := by
      ring
    have hbig : psLeafCapacity f + 1 ≤ (psLeafCapacity f + 1)*2^i :=
      Nat.le_mul_of_pos_right _ (Nat.pow_pos (by decide))
    rw [leafCount_ps_halves hconf hu ha (by omega),ih (by omega) (by omega),
      ih (by omega) (by omega),pow_succ 2 (i+1)]
    omega

end

def HalvesFill (cap n : ℕ) : Prop :=
  (∃ j, (2^j-1)*cap < n ∧ n ≤ 2^j*cap) ∨ ∃ j, 1 ≤ j ∧ n = 2^j*cap+1

theorem exists_octave (hcap : 0 < cap) (hlt : cap < n) : ∃ i, cap*2^i < n ∧ n ≤ cap*2^(i+1) := by
  have hsome : ∃ m, n ≤ cap*2^m :=
    ⟨n,Nat.lt_two_pow_self.le.trans (Nat.le_mul_of_pos_left _ hcap)⟩
  obtain ⟨i,hi⟩ : ∃ i, Nat.find hsome = i + 1 := by
    refine Nat.exists_eq_succ_of_ne_zero ?_
    intro hzero
    have := Nat.find_spec hsome
    rw [hzero,Nat.pow_zero,Nat.mul_one] at this
    omega
  refine ⟨i,?_,hi ▸ Nat.find_spec hsome⟩
  have := Nat.find_min hsome (m := i) (by omega)
  omega

theorem octave_unique (hlow : cap*2^i < n) (hhigh : n ≤ cap*2^(i+1))
    (hj : (2^j-1)*cap < n) (hj' : n ≤ 2^j*cap) : j = i+1 := by
  have hgt : 2^i < 2^j := by
    rw [mul_comm (2^j)] at hj'
    exact Nat.lt_of_mul_lt_mul_left (hlow.trans_le hj')
  have hle : 2^j-1 < 2^(i+1) := by
    rw [mul_comm (2^j-1)] at hj
    exact Nat.lt_of_mul_lt_mul_left (hj.trans_le hhigh)
  have hij : i < j := (Nat.pow_lt_pow_iff_right (by decide)).mp hgt
  have hji : j ≤ i+1 := (Nat.pow_le_pow_iff_right (by decide : 1 < 2)).mp (by omega)
  omega

theorem octave_start (hlow : cap*2^i < n) (hhigh : n ≤ cap*2^(i+1))
    (hj : n = 2^j*cap+1) : j = i := by
  rw [mul_comm] at hj
  have hge : cap*2^i ≤ cap*2^j := by omega
  have hlt : cap*2^j < cap*2^(i+1) := by omega
  have hcap : 0 < cap := pos_of_ne_zero (by rintro rfl; omega)
  have hij : i ≤ j :=
    (Nat.pow_le_pow_iff_right (by decide : 1 < 2)).mp (Nat.le_of_mul_le_mul_left hge hcap)
  have hji : j < i+1 :=
    (Nat.pow_lt_pow_iff_right (by decide : 1 < 2)).mp (Nat.lt_of_mul_lt_mul_left hlt)
  omega

theorem ceil_div_low {r : ℕ} (hcap : 1 < cap) (hr : 0 < r) :
    2 ^ q + r = (cap*2^q + r + cap-1)/cap ↔ r = 1 := by
  have hexp : cap*2^q + r + cap-1 = (r + cap-1) + cap*2^q := by omega
  rw [hexp,add_mul_div_left _ _ (by omega),add_comm (2^q) r,add_right_cancel_iff,
    eq_comm,Nat.div_eq_iff (by omega)]
  constructor
  · rintro ⟨hlow,-⟩
    by_contra hne
    have : 2*r ≤ r*cap := by
      rw [mul_comm]
      exact mul_le_mul_left r hcap
    have hprod : r*cap = (r-2)*cap+2*cap := by
      rw [← add_mul]
      congr 1
      omega
    have hmul : r-2 ≤ (r-2)*cap := Nat.le_mul_of_pos_right _ (by omega)
    omega
  · rintro rfl
    omega

theorem ceil_div_high (hcap : 0 < cap) (hq : 0 < q) (hhigh : n ≤ q*cap) :
    q = (n + cap-1)/cap ↔ (q-1)*cap < n := by
  have hprod : q*cap = (q-1)*cap + cap := by
    rw [← Nat.succ_mul]
    congr 1
    omega
  rw [eq_comm,Nat.div_eq_iff hcap]
  omega

theorem ps_count_iff (hconf : ArityConfigured f) (hu : f.levelArity = [])
    (ha : f.leafArity = factoryArityPs) (hcap : 4 ≤ psLeafCapacity f) (hpos : 0 < n) :
    leafCount f 0 n = (n + psLeafCapacity f - 1) / psLeafCapacity f ↔
      HalvesFill (psLeafCapacity f) n := by
  generalize hc : psLeafCapacity f = cap at hcap ⊢
  by_cases hsmall : n ≤ cap
  · rw [leafCount_ps_leaf hu ha hpos (hc ▸ hsmall),ceil_div_high (by omega) (by omega) (by omega)]
    simp only [Nat.sub_self,Nat.zero_mul,hpos,true_iff]
    exact Or.inl ⟨0,by simpa using hpos,by simpa using hsmall⟩
  obtain ⟨i,hlow,hhigh⟩ := exists_octave (show 0 < cap by omega) (show cap < n by omega)
  have hpow : 0 < 2^i := Nat.pow_pos (by decide)
  have htwo : 2^(i+1) = 2*2^i := by ring
  have hsplit : (2^(i+1)-1)*cap = cap*2^i + (2^i-1)*cap := by
    rw [mul_comm cap,← add_mul]
    congr 1
    omega
  by_cases hband : n ≤ cap*2^i+2^i
  · obtain ⟨r,hr⟩ := Nat.exists_eq_add_of_le hlow.le
    have hcount := leafCount_ps_low hconf hu ha (i := i) (d := 0) (r := r) (by omega)
    rw [hc,← hr] at hcount
    rw [hcount]
    have hceil := ceil_div_low (q := i) (show 1 < cap by omega) (show 0 < r by omega)
    rw [← hr] at hceil
    rw [hceil]
    constructor
    · rintro rfl
      cases i with
      | zero => exact Or.inl ⟨1,by simp; omega,by simp; omega⟩
      | succ i => exact Or.inr ⟨i+1,by omega,by rw [hr,mul_comm]⟩
    · rintro (⟨j,hj,hj'⟩ | ⟨j,hj,heq⟩)
      · obtain rfl := octave_unique hlow hhigh hj hj'
        have hfour : (2^i-1)*4 ≤ (2^i-1)*cap := mul_le_mul_left _ hcap
        omega
      · obtain rfl := octave_start hlow hhigh heq
        rw [mul_comm] at heq
        omega
  · have hedge : (cap+1)*2^i ≤ n := by
      rw [add_mul,one_mul]
      omega
    have hcount := leafCount_ps_high hconf hu ha (d := 0)
      (show (psLeafCapacity f + 1)*2^i ≤ n by rw [hc]; exact hedge) (by rw [hc]; exact hhigh)
    rw [hcount,ceil_div_high (by omega) (by omega) (by rw [mul_comm]; exact hhigh)]
    constructor
    · intro hn
      exact Or.inl ⟨i+1,hn,by rw [mul_comm]; exact hhigh⟩
    · rintro (⟨j,hj,hj'⟩ | ⟨j,hj,heq⟩)
      · obtain rfl := octave_unique hlow hhigh hj hj'
        exact hj
      · obtain rfl := octave_start hlow hhigh heq
        rw [mul_comm] at heq
        have hge : 2^1 ≤ 2^j := Nat.pow_le_pow_right (by decide) hj
        omega

end

end SuperScalar
