import SuperScalar.Factory.Shape

namespace SuperScalar

open List

theorem splitEvenly_total (c r : ℕ) : (splitEvenly c r).1.sum + (splitEvenly c r).2 = r := by
  induction c generalizing r with
  | zero => simp [splitEvenly]
  | succ c ih =>
    unfold splitEvenly
    split_ifs with h0
    · simp [h0]
    · have hrec := ih (r - min ((r + (c+1)-1)/(c+1)) r)
      simp only [sum_cons]
      omega

theorem splitEvenly_left (c r : ℕ) : (splitEvenly (c+1) r).2 = 0 := by
  induction c generalizing r with
  | zero =>
    unfold splitEvenly
    split_ifs with h0
    · rfl
    · simp [splitEvenly]
  | succ _ ih =>
    unfold splitEvenly
    split_ifs with h0
    · rfl
    · exact ih _

theorem splitEvenly_full (c r : ℕ) (h : c ≤ r) :
    (splitEvenly c r).1.length = c ∧ ∀ p ∈ (splitEvenly c r).1, 0 < p := by
  induction c generalizing r with
  | zero => simp [splitEvenly]
  | succ c ih =>
    have h0 : r ≠ 0 := by omega
    have hdiv : 1 ≤ (r + (c+1)-1)/(c+1) := by
      rw [Nat.le_div_iff_mul_le (by omega)]
      omega
    have hcap : (r + (c+1)-1)/(c+1) ≤ r-c := by
      rw [Nat.div_le_iff_le_mul_add_pred (by omega)]
      have hprod : c ≤ c*(r-c) := Nat.le_mul_of_pos_right c (by omega)
      have hexp : (c+1)*(r-c) = c*(r-c) + (r-c) := by ring
      omega
    obtain ⟨hlen,hpos⟩ := ih (r - min ((r + (c + 1) - 1) / (c + 1)) r) (by omega)
    unfold splitEvenly
    rw [if_neg h0]
    refine ⟨by rw [length_cons,hlen],?_⟩
    intro p hp
    rcases mem_cons.mp hp with rfl | hp
    · omega
    · exact hpos p hp

theorem lt_sum_of_mem {parts : List ℕ} (hpos : ∀ p ∈ parts, 0 < p) (hlen : 2 ≤ parts.length)
    {p : ℕ} (hp : p ∈ parts) : p < parts.sum := by
  obtain ⟨before,after,rfl⟩ := append_of_mem hp
  have hother : 0 < before.sum + after.sum := by
    cases before with
    | cons q =>
      have := hpos q (by simp)
      simp only [sum_cons]
      omega
    | nil =>
      cases after with
      | cons q =>
        have := hpos q (by simp)
        simp only [sum_cons]
        omega
      | nil => simp at hlen
  simp only [sum_append,sum_cons]
  omega

structure Splits (parts : List ℕ) (nc : ℕ) : Prop where
  total : parts.sum = nc
  pos : ∀ p ∈ parts, 0 < p
  smaller : ∀ p ∈ parts, p < nc

theorem split_two {a b nc : ℕ} (ha : 0 < a) (hb : 0 < b) (h : a + b = nc) : Splits [a,b] nc where
  total := by simpa using h
  pos := by simp [ha,hb]
  smaller := by
    simp only [mem_cons,not_mem_nil,or_false,forall_eq_or_imp,forall_eq]
    omega

theorem psLeafCapacity_pos (f : Factory) : 0 < psLeafCapacity f := by
  unfold psLeafCapacity
  split_ifs with h
  · exact Nat.one_pos
  · exact Nat.mul_pos (by omega) (by omega)

theorem split_splits (f : Factory) {a nc : ℕ} (hleaf : subtreeIsLeaf f a nc = false)
    (hlen : 2 ≤ (splitClientsForArity a nc).length) : Splits (splitClientsForArity a nc) nc := by
  have hcap := psLeafCapacity_pos f
  by_cases hbin : a = 1 ∨ a = factoryArityPs
  · have hnc : 1 < nc := by
      rcases hbin with rfl | rfl
      · simpa [subtreeIsLeaf] using hleaf
      · simp only [subtreeIsLeaf,factoryArityPs] at hleaf
        have hgt : psLeafCapacity f < nc := by simpa using hleaf
        omega
    rw [splitClientsForArity,if_pos hbin]
    exact split_two (by omega) (by omega) (by omega)
  · have h1 : a ≠ 1 := fun h => hbin (Or.inl h)
    have h3 : a ≠ factoryArityPs := fun h => hbin (Or.inr h)
    have hnc : a < nc := by simpa [subtreeIsLeaf,h1,h3] using hleaf
    rw [splitClientsForArity,if_neg hbin] at hlen ⊢
    by_cases h2 : a = 2
    · rw [if_pos h2]
      exact split_two (by omega) (by omega) (by omega)
    · rw [if_neg h2] at hlen ⊢
      cases a with
      | zero => simp [splitEvenly] at hlen
      | succ c =>
        have hleft := splitEvenly_left c nc
        have htotal := splitEvenly_total (c+1) nc
        obtain ⟨hl,hpos⟩ := splitEvenly_full (c + 1) nc (by omega)
        have hgt : ¬ ((splitEvenly (c+1) nc).2 > 0 ∧ (splitEvenly (c+1) nc).1.length > 0) := by
          omega
        simp only [if_neg hgt] at hlen ⊢
        have hsum : (splitEvenly (c+1) nc).1.sum = nc := by omega
        exact ⟨hsum,hpos,fun p hp => hsum ▸ lt_sum_of_mem hpos hlen hp⟩

end SuperScalar
