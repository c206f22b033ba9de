import Mathlib.Tactic

theorem List.mapM_option_iff {α β : Type} (f : α → Option β) (xs : List α) (ys : List β) :
    xs.mapM f = some ys ↔ List.Forall₂ (fun x y => f x = some y) xs ys := by
  induction xs generalizing ys with
  | nil => cases ys <;> simp
  | cons _ _ ih =>
    cases ys with
    | nil => simp [List.mapM_cons,Option.bind_eq_some_iff]
    | cons => simp [List.mapM_cons,← ih,Option.bind_eq_some_iff]

theorem List.mapM_option_some {α β : Type} {f : α → Option β} {xs : List α}
    (h : ∀ x ∈ xs, (f x).isSome = true) : ∃ ys, xs.mapM f = some ys := by
  induction xs with
  | nil => exact ⟨[],rfl⟩
  | cons x _ ih =>
    obtain ⟨y,hy⟩ := Option.isSome_iff_exists.mp (h x List.mem_cons_self)
    obtain ⟨ys,hys⟩ := ih fun z hz => h z (List.mem_cons_of_mem _ hz)
    refine ⟨y :: ys,?_⟩
    rw [List.mapM_cons,hy,hys]
    rfl

theorem List.Forall₂.getElem?_left {α β : Type} {R : α → β → Prop} {xs : List α} {ys : List β}
    (h : List.Forall₂ R xs ys) {k : ℕ} {x : α} (hx : xs[k]? = some x) :
    ∃ y, ys[k]? = some y ∧ R x y := by
  induction h generalizing k with
  | nil => simp at hx
  | @cons a b _ _ hab _ ih =>
    cases k with
    | zero =>
      obtain rfl : a = x := by simpa using hx
      exact ⟨b,rfl,hab⟩
    | succ k => simpa using ih (by simpa using hx)

instance Option.decidableExistsSome {α : Type} (o : Option α) (P : α → Prop) [DecidablePred P] :
    Decidable (∃ a, o = some a ∧ P a) :=
  match o with
  | none => isFalse fun ⟨_,h,_⟩ => nomatch h
  | some a => decidable_of_iff (P a) ⟨fun h => ⟨a,rfl,h⟩,fun ⟨_,h,hp⟩ => Option.some.inj h ▸ hp⟩

section

variable {α : Type} {R S : α → α → Prop} {a b : Option α} {x y : α}

theorem Option.rel_mono (h : Option.Rel R a b) (himp : ∀ x y, a = some x → R x y → S x y) :
    Option.Rel S a b := by
  cases h with
  | some hxy => exact .some (himp _ _ rfl hxy)
  | none => exact .none

theorem Option.rel_comp {T : α → α → Prop} {c : Option α} (h : Option.Rel R a b)
    (h' : Option.Rel S b c) (htrans : ∀ x y z, R x y → S y z → T x z) : Option.Rel T a c := by
  cases h with
  | some hxy =>
    cases h' with
    | some hyz => exact .some (htrans _ _ _ hxy hyz)
  | none =>
    cases h'
    exact .none

theorem Option.rel_of_eq (h : a = b) (hrefl : ∀ x, R x x) : Option.Rel R a b := by
  subst h
  cases a with
  | none => exact .none
  | some x => exact .some (hrefl x)

theorem Option.rel_mapped {f : α → α} (h : ∀ x, a = some x → R x (f x)) :
    Option.Rel R a (a.map f) := by
  cases a with
  | none => exact .none
  | some x => exact .some (h x rfl)

theorem Option.map_eq_of_rel {β : Type} {f : α → β} (h : Option.Rel R a b)
    (hf : ∀ x y, R x y → f y = f x) : b.map f = a.map f := by
  cases h with
  | some hxy => exact congrArg Option.some (hf _ _ hxy)
  | none => rfl

theorem Option.rel_before (h : Option.Rel R a b) (hb : b = some y) : ∃ x, a = some x ∧ R x y := by
  cases h with
  | some hxy =>
    cases hb
    exact ⟨_,rfl,hxy⟩
  | none => cases hb

theorem Option.rel_after (h : Option.Rel R a b) (ha : a = some x) : ∃ y, b = some y ∧ R x y := by
  cases h with
  | some hxy =>
    cases ha
    exact ⟨_,rfl,hxy⟩
  | none => cases ha

end
