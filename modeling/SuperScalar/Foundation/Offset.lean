import Mathlib.Tactic

namespace Offset

variable {α : Type}

def At (base : ℕ) (xs : List α) (j : ℕ) (x : α) : Prop :=
  base ≤ j ∧ xs[j-base]? = some x

@[simp] theorem at_nil (base j : ℕ) (x : α) : ¬ At base [] j x := by
  simp [At]

variable {j base : ℕ} {x y : α} {xs : List α}

theorem at_cons : At base (x :: xs) j y ↔ (j = base ∧ y = x) ∨ At (base+1) xs j y := by
  constructor
  · rintro ⟨hle,hget⟩
    rcases Nat.eq_or_lt_of_le hle with rfl | hlt
    · exact Or.inl ⟨rfl,by simpa [eq_comm] using hget⟩
    · refine Or.inr ⟨hlt,?_⟩
      rwa [show j-base = j-(base+1)+1 by omega,List.getElem?_cons_succ] at hget
  · rintro (⟨rfl,rfl⟩ | ⟨hle,hget⟩)
    · exact ⟨le_rfl,by simp⟩
    · obtain ⟨d,rfl⟩ := Nat.exists_eq_add_of_le hle
      refine ⟨by omega,?_⟩
      rw [show base+1 + d-base = d+1 by omega,List.getElem?_cons_succ]
      rwa [Nat.add_sub_cancel_left] at hget

theorem at_append {ys : List α} :
    At base (xs++ys) j x ↔ At base xs j x ∨ At (base+xs.length) ys j x := by
  induction xs generalizing base with
  | nil => simp
  | cons y xs ih =>
    rw [List.cons_append,at_cons,at_cons,ih,or_assoc,List.length_cons,
      show base + (xs.length+1) = base+1 + xs.length by omega]

theorem at_zero : At 0 xs j x ↔ xs[j]? = some x := by
  simp [At]

theorem At.unique (hx : At base xs j x) (hy : At base xs j y) : x = y := by
  have h := hx.2.symm.trans hy.2
  exact Option.some.inj h

theorem At.range (h : At base xs j x) : base ≤ j ∧ j < base + xs.length := by
  obtain ⟨hle,hget⟩ := h
  obtain ⟨hlt,-⟩ := List.getElem?_eq_some_iff.mp hget
  omega

theorem At.mem (h : At base xs j x) : x ∈ xs :=
  List.mem_of_getElem? h.2

end Offset
