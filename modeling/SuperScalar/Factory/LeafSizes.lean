import SuperScalar.Foundation.Chunks
import SuperScalar.Factory.LeafCount

namespace SuperScalar

open Chunks List Nat

section

variable {f : Factory}

theorem leafSizes_spec (hconf : ArityConfigured f) {d nc : ℕ} (hpos : 0 < nc) :
    (leafSizes f d nc).sum = nc ∧
      ∀ s ∈ leafSizes f d nc, 0 < s ∧ ∃ k, subtreeIsLeaf f (arityAtDepth f k) s = true := by
  induction nc using Nat.strong_induction_on generalizing d with
  | h nc ih =>
    by_cases hleaf : subtreeIsLeaf f (arityAtDepth f d) nc = true
    · rw [leafSizes_leaf hpos hleaf]
      exact ⟨sum_singleton,fun s hs => mem_singleton.mp hs ▸ ⟨hpos,d,hleaf⟩⟩
    · have hleaf := Bool.eq_false_of_not_eq_true hleaf
      have hsplits := inner_splits hconf hleaf
      have hpart := fun p hp => ih p (hsplits.smaller p hp) (d := d+1) (hsplits.pos p hp)
      rw [leafSizes_inner hconf hpos hleaf]
      constructor
      · rw [flatMap_def,sum_flatten,map_map,map_congr_left (f := sum ∘ leafSizes f (d+1)) (g := id)
            (fun p hp => (hpart p hp).1),map_id,hsplits.total]
      · intro s hs
        obtain ⟨p,hp,hs⟩ := mem_flatMap.mp hs
        exact (hpart p hp).2 s hs

section

variable (hconf : ArityConfigured f) (hu : f.levelArity = []) {d nc : ℕ} (hpos : 0 < nc)

include hconf hu hpos

theorem leafSizes_single
    (ha : f.leafArity = factoryArity1 ∨ f.leafArity = factoryArityPs ∧ psLeafCapacity f = 1) :
    ∀ s ∈ leafSizes f d nc, s = 1 := by
  intro s hs
  obtain ⟨hs,k,hleaf⟩ := (leafSizes_spec hconf hpos).2 s hs
  rw [arityAtDepth_uniform hu] at hleaf
  rcases ha with ha | ⟨ha,hcap⟩
  · rw [ha] at hleaf
    exact le_antisymm (of_decide_eq_true hleaf) hs
  · rw [ha] at hleaf
    exact le_antisymm ((of_decide_eq_true hleaf).trans hcap.le) hs

theorem leafCount_single
    (ha : f.leafArity = factoryArity1 ∨ f.leafArity = factoryArityPs ∧ psLeafCapacity f = 1) :
    leafCount f d nc = nc := by
  have hsum := (leafSizes_spec hconf (d := d) hpos).1
  rw [eq_replicate_of_mem (leafSizes_single hconf hu hpos ha),List.sum_replicate,smul_eq_mul,
    mul_one] at hsum
  exact hsum

theorem leafSizes_pairs (ha : f.leafArity = factoryArity2) : leafCount f d nc = (nc+1)/2 ∧
    Filled 2 (leafSizes f d nc) ∧ (nc % 2 = 0 → ∀ s ∈ leafSizes f d nc, s = 2) := by
  induction nc using Nat.strong_induction_on generalizing d with
  | h nc ih =>
    have harity : arityAtDepth f d = 2 := (arityAtDepth_uniform hu d).trans ha
    have hsmall : subtreeIsLeaf f 2 nc = decide (nc ≤ 2) := rfl
    rw [leafCount]
    by_cases hleaf : subtreeIsLeaf f (arityAtDepth f d) nc = true
    · rw [leafSizes_leaf hpos hleaf,length_singleton]
      rw [harity,hsmall,decide_eq_true_eq] at hleaf
      refine ⟨by omega,hleaf,?_⟩
      intro heven s hs
      rw [mem_singleton] at hs
      omega
    · have hleaf := Bool.eq_false_of_not_eq_true hleaf
      have hparts : splitClientsForArity 2 nc = [min ((nc+1)/2/2*2) nc,
        nc - min ((nc+1)/2/2*2) nc] := rfl
      rw [leafSizes_inner hconf hpos hleaf,harity,hparts]
      rw [harity,hsmall,decide_eq_false_iff_not] at hleaf
      obtain ⟨hcount,-,hleft⟩ := ih (min ((nc + 1) / 2 / 2 * 2) nc) (by omega) (by omega)
      obtain ⟨hcount',hfilled,hright⟩ := ih (nc - min ((nc + 1) / 2 / 2 * 2) nc) (by omega)
        (by omega)
      simp only [flatMap_cons,flatMap_nil,append_nil,length_append,mem_append]
      rw [leafCount] at hcount hcount'
      refine ⟨by omega,filled_append (hleft (by omega)) hfilled,?_⟩
      rintro heven s (hs | hs)
      · exact hleft (by omega) s hs
      · exact hright (by omega) s hs

end

theorem double_gap {cap a b : ℕ} (hcap : 2 ≤ cap) (hlt : a < b) : cap*2^a+2 ≤ cap*2^b := by
  have hpow : 2^a+2^a ≤ 2^b := by
    calc 2 ^ a + 2^a = 2^(a+1) := by ring
      _ ≤ 2^b := Nat.pow_le_pow_right (by decide) hlt
  have hmul := Nat.mul_le_mul_left cap hpow
  have hbase := Nat.mul_le_mul hcap (Nat.one_le_two_pow (n := a))
  rw [Nat.mul_add] at hmul
  omega

section

variable (hconf : ArityConfigured f) (hu : f.levelArity = []) (ha : f.leafArity = factoryArityPs)

include hconf hu ha

theorem leafSizes_ps_le {d nc : ℕ} (hpos : 0 < nc) :
    ∀ s ∈ leafSizes f d nc, s ≤ psLeafCapacity f := by
  intro s hs
  obtain ⟨-,k,hleaf⟩ := (leafSizes_spec hconf hpos).2 s hs
  rw [arityAtDepth_uniform hu,ha] at hleaf
  exact of_decide_eq_true hleaf

theorem ceil_le_leafCount {d nc : ℕ} (hpos : 0 < nc) :
    (nc + psLeafCapacity f - 1) / psLeafCapacity f ≤ leafCount f d nc := by
  have hcap := psLeafCapacity_pos f
  obtain ⟨hsum,-⟩ := leafSizes_spec hconf hpos
  have hle := sum_le_card_nsmul _ _ (leafSizes_ps_le hconf hu ha (d := d) hpos)
  rw [hsum,smul_eq_mul,mul_comm] at hle
  rw [div_le_iff_le_mul_add_pred hcap,leafCount]
  omega

theorem leafSizes_ps_full {d j : ℕ} :
    ∀ s ∈ leafSizes f d (psLeafCapacity f * 2 ^ j), s = psLeafCapacity f := by
  have hcap := psLeafCapacity_pos f
  induction j generalizing d with
  | zero =>
    rw [pow_zero,mul_one,leafSizes_ps_leaf hu ha hcap le_rfl]
    simp
  | succ j ih =>
    have hpow : psLeafCapacity f * 2 ^ (j+1) = 2*(psLeafCapacity f * 2 ^ j) := by ring
    have hbig : psLeafCapacity f ≤ psLeafCapacity f * 2 ^ j :=
      Nat.le_mul_of_pos_right _ (Nat.pow_pos (by decide))
    have hleft : psLeafCapacity f * 2 ^ (j+1) / 2 = psLeafCapacity f * 2 ^ j := by omega
    have hright : psLeafCapacity f * 2 ^ (j+1) - psLeafCapacity f * 2 ^ j =
        psLeafCapacity f * 2 ^ j := by omega
    rw [leafSizes_ps_halves hconf hu ha (by omega),hleft,hright]
    intro s hs
    rcases mem_append.mp hs with hs | hs <;> exact ih s hs

theorem ps_full_size (hcap : 2 ≤ psLeafCapacity f) {d nc : ℕ} (hpos : 0 < nc)
    (hfull : ∀ s ∈ leafSizes f d nc, s = psLeafCapacity f) :
    ∃ j, nc = psLeafCapacity f * 2 ^ j := by
  induction nc using Nat.strong_induction_on generalizing d with
  | h nc ih =>
    by_cases hle : nc ≤ psLeafCapacity f
    · rw [leafSizes_ps_leaf hu ha hpos hle] at hfull
      exact ⟨0,by simpa using hfull nc (by simp)⟩
    · rw [leafSizes_ps_halves hconf hu ha (by omega)] at hfull
      obtain ⟨a,ha'⟩ := ih (nc / 2) (by omega) (by omega)
        (fun s hs => hfull s (mem_append_left _ hs))
      obtain ⟨b,hb'⟩ := ih (nc - nc / 2) (by omega) (by omega)
        (fun s hs => hfull s (mem_append_right _ hs))
      -- The halves differ by one at most, so the two powers are the same.
      have hab : a = b := by
        rcases lt_trichotomy a b with hlt | heq | hlt
        · have := double_gap hcap hlt
          omega
        · exact heq
        · have := double_gap hcap hlt
          omega
      subst hab
      refine ⟨a+1,?_⟩
      have hpow : psLeafCapacity f * 2 ^ (a+1) = 2*(psLeafCapacity f * 2 ^ a) := by ring
      omega

theorem ps_filled_size (hcap : 2 ≤ psLeafCapacity f) {nc q m : ℕ} (hpos : 0 < nc)
    (hsizes : leafSizes f 0 nc = replicate q (psLeafCapacity f) ++ [m]) (hm : 1 < m) :
    nc ≤ psLeafCapacity f ∨ ∃ j, nc = psLeafCapacity f * 2 ^ j := by
  by_cases hle : nc ≤ psLeafCapacity f
  · exact Or.inl hle
  right
  rw [leafSizes_ps_halves hconf hu ha (by omega)] at hsizes
  obtain ⟨hsum,-⟩ := leafSizes_spec hconf
    (show 0 < nc-nc/2 by omega)
  have hne : leafSizes f (0+1) (nc-nc/2) ≠ [] := by
    intro hnil
    rw [hnil,sum_nil] at hsum
    omega
  obtain ⟨front,last,hback⟩ : ∃ front last, leafSizes f (0 + 1) (nc - nc / 2) = front ++ [last] :=
    ⟨_,_,(dropLast_append_getLast hne).symm⟩
  rw [hback,← append_assoc] at hsizes
  obtain ⟨hfront,hlast⟩ := append_inj' hsizes rfl
  obtain rfl : last = m := by simpa using hlast
  have hall : ∀ s ∈ leafSizes f (0+1) (nc/2) ++ front, s = psLeafCapacity f := by
    rw [hfront]
    exact fun s hs => eq_of_mem_replicate hs
  obtain ⟨a,ha'⟩ := ps_full_size hconf hu ha hcap (by omega)
    (fun s hs => hall s (mem_append_left _ hs))
  rcases mod_two_eq_zero_or_one nc with heven | hodd
  · refine ⟨a+1,?_⟩
    have hpow : psLeafCapacity f * 2 ^ (a+1) = 2*(psLeafCapacity f * 2 ^ a) := by ring
    omega
  · have hright : nc-nc/2 = psLeafCapacity f * 2 ^ a + 1 := by omega
    have hcount := leafCount_ps_low hconf hu ha (i := a) (d := 0+1)
      Nat.one_le_two_pow
    rw [← hright,leafCount,hback,length_append,length_singleton] at hcount
    have hrep : front = replicate (2^a) (psLeafCapacity f) :=
      eq_replicate_iff.mpr ⟨by omega,fun s hs => hall s (mem_append_right _ hs)⟩
    rw [hback,hright,hrep,List.sum_append,List.sum_replicate,List.sum_singleton,
      smul_eq_mul,mul_comm] at hsum
    omega

end

end

end SuperScalar
