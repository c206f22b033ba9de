import Mathlib.Logic.Relation
import Mathlib.Tactic.Common

namespace Loop

variable {σ ρ : Type}

inductive Turn (σ ρ : Type) where
  | again (s : σ)
  | leave (r : ρ)

def run (body : σ → Turn σ ρ) : ℕ → σ → Option ρ
  | 0, _ => none
  | fuel+1, s =>
    match body s with
    | .leave r => some r
    | .again s' => run body fuel s'

def Turns (body : σ → Turn σ ρ) (s s' : σ) : Prop := body s = .again s'

def Reaches (body : σ → Turn σ ρ) : σ → σ → Prop := Relation.ReflTransGen (Turns body)

variable {body : σ → Turn σ ρ} {I : σ → Prop} {s : σ}

theorem Reaches.invariant (hstep : ∀ s s', I s → body s = .again s' → I s') {s t : σ}
    (h : Reaches body s t) (hs : I s) : I t := by
  induction h with
  | refl => exact hs
  | tail _ hlast ih => exact hstep _ _ ih hlast

theorem run_of_measure {Q : ρ → Prop} (measure : σ → ℕ)
    (hagain : ∀ s s', I s → body s = .again s' → I s' ∧ measure s' < measure s)
    (hleave : ∀ s r, I s → body s = .leave r → Q r) {n : ℕ} (hs : I s) (hn : measure s < n) :
    ∃ r, run body n s = some r ∧ Q r := by
  induction n generalizing s with
  | zero => exact absurd hn (Nat.not_lt_zero _)
  | succ _ ih =>
    rw [run]
    cases hbody : body s with
    | leave r => exact ⟨r,rfl,hleave s r hs hbody⟩
    | again s' =>
      obtain ⟨hs',hlt⟩ := hagain s s' hs hbody
      exact ih hs' (Nat.lt_of_lt_of_le hlt (Nat.le_of_lt_succ hn))

theorem run_none (h : ∀ s, I s → ∃ s', body s = .again s' ∧ I s') (hs : I s) (n : ℕ) :
    run body n s = none := by
  induction n generalizing s with
  | zero => rfl
  | succ _ ih =>
    obtain ⟨s',hbody,hs'⟩ := h s hs
    rw [run,hbody]
    exact ih hs'

theorem run_mono {n : ℕ} {r : ρ} (h : run body n s = some r) {k : ℕ} (hk : n ≤ k) :
    run body k s = some r := by
  induction n generalizing s k with
  | zero => cases h
  | succ n ih =>
    obtain ⟨k,rfl⟩ := Nat.exists_eq_add_of_le' (Nat.le_trans (Nat.succ_le_succ (Nat.zero_le n)) hk)
    rw [run] at h ⊢
    cases hbody : body s with
    | leave =>
      rw [hbody] at h
      exact h
    | again =>
      rw [hbody] at h
      exact ih h (Nat.le_of_succ_le_succ hk)

theorem run_unique {n k : ℕ} {r r' : ρ} (h : run body n s = some r) (h' : run body k s = some r') :
    r = r' := by
  have hn := run_mono h (Nat.le_max_left n k)
  rw [run_mono h' (Nat.le_max_right n k)] at hn
  exact (Option.some.inj hn).symm

end Loop
