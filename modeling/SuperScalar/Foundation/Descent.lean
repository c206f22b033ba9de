import Mathlib.Order.WellFounded
import Mathlib.Logic.Relation
import Mathlib.Tactic.Common

namespace Descent

variable {ι α : Type} [PartialOrder α] {above : ι → ι → Prop}

def Drops (above : ι → ι → Prop) (old new : ι → α) : Prop :=
  ∀ i, (∀ a, above a i → new a = old a) → new i ≤ old i

theorem Drops.of_le {old new : ι → α} (h : ∀ i, new i ≤ old i) : Drops above old new :=
  fun i _ => h i

variable [IsTrans ι above]

theorem Drops.same_above (hwf : WellFounded above) {old mid new : ι → α}
    (hfirst : Drops above old mid) (hlater : Drops above mid new) {i : ι}
    (h : ∀ a, above a i → new a = old a) : ∀ a, above a i → mid a = old a := by
  intro a
  induction a using hwf.induction with
  | h a ih =>
    intro ha
    have hmid : ∀ b, above b a → mid b = old b := fun b hb => ih b hb (IsTrans.trans b a i hb ha)
    have hdown : mid a ≤ old a := hfirst a hmid
    have hnew : new a ≤ mid a :=
      hlater a (fun b hb => (h b (IsTrans.trans b a i hb ha)).trans (hmid b hb).symm)
    exact le_antisymm hdown (h a ha ▸ hnew)

theorem Drops.trans (hwf : WellFounded above) {old mid new : ι → α}
    (hfirst : Drops above old mid) (hlater : Drops above mid new) : Drops above old new := by
  intro i h
  have hmid := Drops.same_above hwf hfirst hlater h
  have hnew : ∀ a, above a i → new a = mid a := fun a ha => (h a ha).trans (hmid a ha).symm
  exact (hlater i hnew).trans (hfirst i hmid)

end Descent
