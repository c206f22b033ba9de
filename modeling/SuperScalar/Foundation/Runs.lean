import Mathlib.Logic.Relation
import Mathlib.Tactic.Common

namespace Runs

variable {σ ο : Type}

section

variable (step : σ → ο → σ) (guard : σ → ο → Prop)

def Taken (s t : σ) : Prop := ∃ o, guard s o ∧ step s o = t

def Reaches : σ → σ → Prop := Relation.ReflTransGen (Taken step guard)

def play [∀ s o, Decidable (guard s o)] : σ → List ο → Option σ
  | s, [] => some s
  | s, o :: os => if guard s o then play (step s o) os else none

end

variable {step : σ → ο → σ} {guard : σ → ο → Prop}

theorem Reaches.preserves {I : σ → Prop} {R : σ → σ → Prop} (hrefl : ∀ s, R s s)
    (htrans : ∀ s t u, R s t → R t u → R s u)
    (hstep : ∀ s o, I s → guard s o → I (step s o) ∧ R s (step s o)) {s t : σ}
    (h : Reaches step guard s t) (hs : I s) : I t ∧ R s t := by
  induction h with
  | refl => exact ⟨hs,hrefl s⟩
  | tail _ hlast ih =>
    obtain ⟨o,hguard,rfl⟩ := hlast
    obtain ⟨hinv,hrel⟩ := hstep _ o ih.1 hguard
    exact ⟨hinv,htrans _ _ _ ih.2 hrel⟩

theorem Reaches.invariant {I : σ → Prop} (hstep : ∀ s o, I s → guard s o → I (step s o)) {s t : σ}
    (h : Reaches step guard s t) (hs : I s) : I t := by
  induction h with
  | refl => exact hs
  | tail _ hlast ih =>
    obtain ⟨o,hguard,rfl⟩ := hlast
    exact hstep _ o ih hguard

theorem reaches_of_play [∀ s o, Decidable (guard s o)] {s t : σ} {os : List ο}
    (h : play step guard s os = some t) : Reaches step guard s t := by
  induction os generalizing s with
  | nil =>
    cases h
    exact Relation.ReflTransGen.refl
  | cons o _ ih =>
    rw [play] at h
    split at h
    · rename_i hguard
      exact Relation.ReflTransGen.head ⟨o,hguard,rfl⟩ (ih h)
    · cases h

end Runs
