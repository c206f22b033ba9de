import Mathlib.Order.Basic

namespace Flight

variable {P M F : Type}

inductive InFlight (send : P → M → F × P) : P → List (M × F) → P → Prop
  | nil (p : P) : InFlight send p [] p
  | cons (p : P) (m : M) {rest : List (M × F)} {q : P} (h : InFlight send (send p m).2 rest q) :
      InFlight send p ((m,(send p m).1) :: rest) q

variable {send : P → M → F × P} {p q : P} {m : M} {frame : F} {rest : List (M × F)}

theorem InFlight.snoc (h : InFlight send p rest q) (m : M) :
    InFlight send p (rest ++ [(m,(send q m).1)]) (send q m).2 := by
  induction h with
  | nil p => exact .cons p m (.nil _)
  | cons p m' _ ih => exact .cons p m' ih

theorem InFlight.push {p' : P} (hsend : send p m = (frame,p')) (h : InFlight send p' rest q) :
    InFlight send p ((m,frame) :: rest) q := by
  have hcons : InFlight send p ((m,(send p m).1) :: rest) q := .cons p m (by rw [hsend]; exact h)
  rwa [hsend] at hcons

theorem InFlight.head (h : InFlight send p ((m,frame) :: rest) q) :
    frame = (send p m).1 ∧ InFlight send (send p m).2 rest q := by
  cases h with
  | cons _ _ h => exact ⟨rfl,h⟩

theorem InFlight.le {α : Type} [Preorder α] {f : P → α} (hf : ∀ p m, f p ≤ f (send p m).2)
    (h : InFlight send p rest q) : f p ≤ f q := by
  induction h with
  | nil => exact le_rfl
  | cons p m _ ih => exact (hf p m).trans ih

end Flight
