import Mathlib.Tactic

namespace Chunks

open List Nat

variable {α : Type}

theorem slices_concat (xs : List α) (width count : ℕ) :
    (range count).flatMap (fun i => (xs.drop (i*width)).take width) = xs.take (count*width) := by
  induction count with
  | zero => simp
  | succ _ ih =>
    rw [range_succ,flatMap_append,ih,succ_mul,take_add]
    simp

def Filled (width : ℕ) : List ℕ → Prop
  | [] => True
  | [size] => size ≤ width
  | size :: next :: sizes => size = width ∧ Filled width (next :: sizes)

theorem filled_append {width : ℕ} {front back : List ℕ} (hfront : ∀ size ∈ front, size = width)
    (hback : Filled width back) : Filled width (front++back) := by
  induction front with
  | nil => exact hback
  | cons size front ih =>
    have hrest := ih (fun s hs => hfront s (by simp [hs]))
    have hsize := hfront size (by simp)
    rw [cons_append]
    cases h : front ++ back with
    | nil => exact hsize.le
    | cons => exact ⟨hsize,h ▸ hrest⟩

theorem Filled.of_all {width : ℕ} {sizes : List ℕ} (h : ∀ size ∈ sizes, size = width) :
    Filled width sizes := by
  rw [← append_nil sizes]
  exact filled_append h trivial

theorem flatten_getElem? {width : ℕ} (hwidth : 0 < width) {xs : List (List α)}
    (h : Filled width (xs.map length)) {c : ℕ} {a : α} (ha : xs.flatten[c]? = some a) :
    ∃ x, xs[c/width]? = some x ∧ x[c % width]? = some a := by
  induction xs generalizing c with
  | nil => simp at ha
  | cons x xs ih =>
    rw [flatten_cons] at ha
    by_cases hc : c < x.length
    · rw [getElem?_append_left hc] at ha
      have hle : x.length ≤ width := by
        cases xs with
        | nil => exact h
        | cons => exact h.1.le
      rw [div_eq_of_lt (by omega),mod_eq_of_lt (by omega)]
      exact ⟨x,rfl,ha⟩
    · rw [getElem?_append_right (by omega)] at ha
      have hx : x.length = width ∧ Filled width (xs.map length) := by
        cases xs with
        | nil => simp at ha
        | cons => exact h
      obtain ⟨y,hy,hget⟩ := ih hx.2 ha
      rw [hx.1] at hy hget hc
      have hdiv : c/width = (c-width)/width+1 := by
        rw [← add_div_right _ hwidth]
        congr 1
        omega
      have hmod : c % width = (c-width) % width := by
        rw [← add_mod_right (c-width)]
        congr 1
        omega
      rw [hdiv,hmod,getElem?_cons_succ]
      exact ⟨y,hy,hget⟩

theorem slice_getElem? {xs : List α} {start width v : ℕ} {a : α} :
    ((xs.drop start).take width)[v]? = some a ↔ v < width ∧ xs[start + v]? = some a := by
  rw [getElem?_take]
  split_ifs with hv
  · rw [getElem?_drop]
    simp [hv]
  · simp [hv]

theorem div_lt_ceil {c n width : ℕ} (hwidth : 0 < width) (hc : c < n) :
    c / width < (n + width-1)/width := by
  have hceil := lt_mul_div_succ (n + width-1) hwidth
  rw [mul_add,mul_one] at hceil
  rw [div_lt_iff_lt_mul hwidth,mul_comm]
  omega

theorem mod_square_split (k c : ℕ) : c % (k*k) / k * k + c % k = c % (k*k) := by
  rw [← mod_mul_right_mod c k k]
  exact div_add_mod' _ _

theorem sizes_of_blocks {width : ℕ} {sizes : List ℕ} (hne : sizes ≠ [])
    (hpos : ∀ s ∈ sizes, 0 < s) (hle : ∀ s ∈ sizes, s ≤ width)
    (hblock : ∀ i s, sizes[i]? = some s → min width (sizes.sum-i*width) ≤ s) :
    ∃ q m, sizes = replicate q width ++ [m] := by
  induction sizes with
  | nil => exact absurd rfl hne
  | cons s rest ih =>
    cases rest with
    | nil => exact ⟨0,s,rfl⟩
    | cons next rest =>
      have hnext := hpos next (by simp)
      have hs := hle s (by simp)
      have hfirst := hblock 0 s rfl
      simp only [sum_cons,zero_mul] at hfirst
      obtain rfl : s = width := by omega
      obtain ⟨q,m,hrest⟩ := ih (cons_ne_nil _ _) (fun x hx => hpos x (by simp [hx]))
        (fun x hx => hle x (mem_cons_of_mem _ hx)) (by
          intro i x hx
          have hi := hblock (i+1) x (by simpa using hx)
          rw [sum_cons,succ_mul] at hi
          rwa [show s + (next :: rest).sum-(i*s + s) = (next :: rest).sum-i*s by omega] at hi)
      exact ⟨q+1,m,by rw [hrest]; rfl⟩

end Chunks
