import Mathlib.Algebra.Order.BigOperators.Group.Finset
import Mathlib.Algebra.BigOperators.Group.Finset.Piecewise
import Mathlib.Algebra.Ring.Nat
import Mathlib.Tactic.Common

namespace Lists

open List

variable {α : Type}

theorem append_one_inj {xs : List α} {x y : α} (h : xs ++ [x] = xs ++ [y]) : x = y :=
  singleton_inj.mp (append_cancel_left h)

theorem findIdx_modify {p : α → Bool} {change : α → α} (h : ∀ x, p (change x) = p x)
    (xs : List α) (i : ℕ) : (xs.modify i change).findIdx? p = xs.findIdx? p := by
  induction xs generalizing i with
  | nil => rw [modify_nil]
  | cons _ _ ih =>
    cases i with
    | zero => simp only [modify_zero_cons,findIdx?_cons,h]
    | succ => simp only [modify_succ_cons,findIdx?_cons,ih]

theorem findIdx_some_iff {p : α → Bool} {xs : List α} {i : ℕ} : xs.findIdx? p = some i ↔
    (∃ x, xs[i]? = some x ∧ p x = true) ∧
      ∀ (j : ℕ) (y : α), j < i → xs[j]? = some y → p y = false := by
  rw [findIdx?_eq_some_iff_getElem]
  constructor
  · rintro ⟨hlt,hp,hfirst⟩
    refine ⟨⟨xs[i],getElem?_eq_getElem hlt,hp⟩,fun j y hj hy => ?_⟩
    obtain ⟨hlt',rfl⟩ := List.getElem?_eq_some_iff.mp hy
    simpa using hfirst j hj
  · rintro ⟨⟨x,hx,hp⟩,hfirst⟩
    obtain ⟨hlt,rfl⟩ := List.getElem?_eq_some_iff.mp hx
    refine ⟨hlt,hp,fun j hj => ?_⟩
    simpa using hfirst j xs[j] hj (getElem?_eq_getElem (hj.trans hlt))

theorem flatten_eq_singleton_iff {xs : List (List α)} {x : α} :
    xs.flatten = [x] ↔
      ∃ s : ℕ, xs[s]? = some [x] ∧ ∀ (k : ℕ) l, k ≠ s → xs[k]? = some l → l = [] := by
  constructor
  · intro h
    obtain ⟨before,rest,after,rfl,hbefore,hrest⟩ := flatten_eq_cons_iff.mp h
    obtain ⟨rfl,hafter⟩ := append_eq_nil_iff.mp hrest.symm
    refine ⟨before.length,by simp,fun k l hk hl => ?_⟩
    rcases Nat.lt_or_gt_of_ne hk with hlt | hgt
    · rw [getElem?_append_left hlt] at hl
      exact hbefore l (mem_of_getElem? hl)
    · rw [getElem?_append_right hgt.le,getElem?_cons,if_neg (Nat.sub_ne_zero_of_lt hgt)] at hl
      exact flatten_eq_nil_iff.mp hafter l (mem_of_getElem? hl)
  · rintro ⟨s,hs,hother⟩
    have hlen : s < xs.length := (List.getElem?_eq_some_iff.mp hs).1
    have hsplit : xs = xs.take s ++ [x] :: xs.drop (s+1) := by
      have hget := (List.getElem?_eq_some_iff.mp hs).2
      rw [← hget,getElem_cons_drop,take_append_drop]
    have hbefore : ∀ l ∈ xs.take s, l = [] := by
      intro l hl
      obtain ⟨k,hk⟩ := mem_iff_getElem?.mp hl
      have hks : k < s := by
        have := (List.getElem?_eq_some_iff.mp hk).1
        rw [length_take] at this
        omega
      rw [getElem?_take_of_lt hks] at hk
      exact hother k l hks.ne hk
    have hafter : (xs.drop (s+1)).flatten = [] := by
      rw [flatten_eq_nil_iff]
      intro l hl
      obtain ⟨k,hk⟩ := mem_iff_getElem?.mp hl
      rw [getElem?_drop] at hk
      exact hother (s+1 + k) l (by omega) hk
    rw [flatten_eq_cons_iff]
    exact ⟨xs.take s,[],xs.drop (s+1),hsplit,hbefore,hafter.symm⟩

theorem removed_unique {before after before' after' : List α} {x y : α}
    (hsplit : before ++ x :: after = before' ++ y :: after')
    (hrest : before ++ after = before' ++ after') : x = y := by
  have hx : (before ++ x :: after).Perm (x :: (before++after)) := perm_middle
  have hy : (before' ++ y :: after').Perm (y :: (before'++after')) := perm_middle
  rw [← hsplit,← hrest] at hy
  have hcons : x ::ₘ (before ++ after : Multiset α) = y ::ₘ (before ++ after : Multiset α) :=
    Multiset.coe_eq_coe.mpr (hx.symm.trans hy)
  exact (Multiset.cons_inj_left _).mp hcons

theorem forall₂_modify {β : Type} {R S : α → β → Prop} {change : β → β} {xs : List α} {ys : List β}
    (h : Forall₂ R xs ys) (hkeep : ∀ a b, R a b → S a b)
    (hchange : ∀ a b, R a b → S a (change b)) (i : ℕ) : Forall₂ S xs (ys.modify i change) := by
  induction h generalizing i with
  | nil => simp
  | cons hx hxs ih =>
    cases i with
    | zero => exact .cons (hchange _ _ hx) (hxs.imp hkeep)
    | succ i => exact .cons (hkeep _ _ hx) (ih i)

theorem foldl_toNat (xs : List UInt64) (start : UInt64) :
    (xs.foldl (· + ·) start).toNat = (start.toNat + (xs.map UInt64.toNat).sum) % 2 ^ 64 := by
  induction xs generalizing start with
  | nil => exact (Nat.mod_eq_of_lt start.toNat_lt).symm
  | cons _ _ ih =>
    rw [foldl_cons,ih,UInt64.toNat_add,map_cons,sum_cons,Nat.mod_add_mod,Nat.add_assoc]

theorem sum_map_eq_range (value : α → ℕ) (xs : List α) {n : ℕ} (h : xs.length ≤ n) :
    (xs.map value).sum = ∑ i ∈ Finset.range n, ((xs[i]?).map value).getD 0 := by
  induction xs generalizing n with
  | nil => simp
  | cons _ _ ih =>
    cases n with
    | zero => cases h
    | succ =>
      rw [Finset.sum_range_succ',map_cons,sum_cons,ih (Nat.le_of_succ_le_succ h),Nat.add_comm]
      rfl

def spike (c x : ℕ) : ℕ → ℕ := fun i => if i = c then x else 0

theorem sum_spike {c x n : ℕ} (h : c < n) : ∑ i ∈ Finset.range n, spike c x i = x := by
  unfold spike
  rw [Finset.sum_ite_eq',if_pos (Finset.mem_range.mpr h)]

end Lists
