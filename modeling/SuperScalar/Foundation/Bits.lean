import SuperScalar.Foundation.Wire

namespace Bits

open List Nat

-- The low bits of a number, the highest of them first.
def low (n : ℕ) : ℕ → List Bool
  | 0 => []
  | k+1 => n.testBit k :: low n k

@[simp] theorem length_low (n k : ℕ) : (low n k).length = k := by
  induction k with
  | zero => rfl
  | succ _ ih => rw [low,length_cons,ih]

theorem low_congr {n m k : ℕ} (h : ∀ i < k, n.testBit i = m.testBit i) : low n k = low m k := by
  induction k with
  | zero => rfl
  | succ k ih => rw [low,low,h k (lt_succ_self k),ih fun i hi => h i (by omega)]

theorem testBit_of_low {n m k : ℕ} (h : low n k = low m k) : ∀ i < k, n.testBit i = m.testBit i := by
  induction k with
  | zero => exact fun _ hi => absurd hi (not_lt_zero _)
  | succ _ ih =>
    obtain ⟨hbit,hrest⟩ := cons.inj h
    intro i hi
    rcases Nat.lt_succ_iff_lt_or_eq.mp hi with hlt | rfl
    · exact ih hrest i hlt
    · exact hbit

theorem low_inj {n m k : ℕ} (hn : n < 2^k) (hm : m < 2^k) (h : low n k = low m k) : n = m := by
  apply eq_of_testBit_eq
  intro i
  by_cases hi : i < k
  · exact testBit_of_low h i hi
  · have hpow := Nat.pow_le_pow_right (show 0 < 2 by norm_num) (Nat.not_lt.mp hi)
    rw [testBit_lt_two_pow (hn.trans_le hpow),testBit_lt_two_pow (hm.trans_le hpow)]

theorem low_append (n j k : ℕ) : low n (j+k) = low (n >>> k) j ++ low n k := by
  induction j with
  | zero => rw [zero_add]; rfl
  | succ j ih =>
    rw [succ_add,low,low,ih,testBit_shiftRight,add_comm k j]
    rfl

theorem low_shl_or {a v w k size : ℕ} (hv : v < 2^w) (hk : k + w ≤ size) :
    low ((a <<< w % 2 ^ size) ||| v) (k+w) = low a k ++ low v w := by
  rw [low_append]
  congr 1
  · apply low_congr
    intro i hi
    have hhigh : v.testBit (w+i) = false :=
      Nat.testBit_lt_two_pow (hv.trans_le (Nat.pow_le_pow_right (by norm_num) (by omega)))
    rw [testBit_shiftRight,testBit_or,hhigh,Bool.or_false,testBit_mod_two_pow,
      decide_eq_true (by omega),Bool.true_and,testBit_shiftLeft,
      decide_eq_true (Nat.le_add_right w i),Bool.true_and,Nat.add_sub_cancel_left]
  · apply low_congr
    intro i hi
    rw [testBit_or,testBit_mod_two_pow,testBit_shiftLeft,
      decide_eq_false (not_le.mpr hi),Bool.false_and,Bool.and_false,Bool.false_or]

theorem shl_or_lt {a v w k size : ℕ} (ha : a < 2^k) (hv : v < 2^w) :
    (a <<< w % 2 ^ size) ||| v < 2^(k+w) := by
  refine or_lt_two_pow ((mod_le _ _).trans_lt ?_) ?_
  · rw [shiftLeft_eq,pow_add]
    exact mul_lt_mul_of_pos_right ha (by positivity)
  · exact hv.trans_le (Nat.pow_le_pow_right (by norm_num) (Nat.le_add_left w k))

theorem low_zero (k : ℕ) : low 0 k = replicate k false := by
  induction k with
  | zero => rfl
  | succ _ ih => rw [low,ih,zero_testBit,replicate_succ]

def flat (w : ℕ) (xs : Bytes) : List Bool := xs.flatMap (fun x => low x.toNat w)

@[simp] theorem flat_nil (w : ℕ) : flat w [] = [] := rfl

@[simp] theorem flat_cons (w : ℕ) (x : UInt8) (xs : Bytes) :
    flat w (x :: xs) = low x.toNat w ++ flat w xs := rfl

@[simp] theorem flat_append (w : ℕ) (xs ys : Bytes) :
    flat w (xs++ys) = flat w xs ++ flat w ys := flatMap_append

@[simp] theorem length_flat (w : ℕ) (xs : Bytes) : (flat w xs).length = w*xs.length := by
  induction xs with
  | nil => rfl
  | cons _ _ ih =>
    rw [flat_cons,length_append,length_low,ih,length_cons,mul_succ,add_comm]

theorem low_getElem? {n k i : ℕ} (hi : i < k) : (low n k)[i]? = some (n.testBit (k-1-i)) := by
  induction k generalizing i with
  | zero => exact absurd hi (not_lt_zero i)
  | succ _ ih =>
    cases i with
    | zero => rfl
    | succ =>
      rw [low,getElem?_cons_succ,ih (lt_of_succ_lt_succ hi)]
      congr 2
      omega

theorem flat_getElem? {w : ℕ} (hw : 0 < w) (xs : Bytes) (i : ℕ) : (flat w xs)[i]? =
    (xs[i/w]?).map (fun x => x.toNat.testBit (w-1-i % w)) := by
  induction xs generalizing i with
  | nil => rfl
  | cons _ _ ih =>
    rw [flat_cons]
    by_cases hi : i < w
    · rw [getElem?_append_left (by rwa [length_low]),low_getElem? hi,
        div_eq_of_lt hi,mod_eq_of_lt hi]
      rfl
    · have hle := not_lt.mp hi
      rw [getElem?_append_right (by rwa [length_low]),length_low,ih,
        div_eq_sub_div hw hle,getElem?_cons_succ,mod_eq_sub_mod hle]

theorem flat_take (w : ℕ) (xs : Bytes) (k : ℕ) : flat w (xs.take k) = (flat w xs).take (w*k) := by
  induction xs generalizing k with
  | nil => simp
  | cons x _ ih =>
    cases k with
    | zero => simp
    | succ k =>
      have hhead : (low x.toNat w).take (w + w*k) = low x.toNat w :=
        take_of_length_le (by rw [length_low]; omega)
      simp only [take_succ_cons,flat_cons,ih,mul_succ,add_comm,List.take_append,length_low,
        hhead,Nat.add_sub_cancel_left]

end Bits
