import Mathlib.Data.Nat.Digits.Lemmas
import SuperScalar.Foundation.Wire

namespace Decimal

open List

def isDigit (c : UInt8) : Bool := 48 ≤ c && c ≤ 57

def digitValue (c : UInt8) : ℕ := (c-48).toNat

def value (ds : Bytes) : ℕ := ds.foldl (fun n c => n*10 + digitValue c) 0

def digitChar (d : ℕ) : UInt8 := UInt8.ofNat (48+d)

def print (n : ℕ) : Bytes :=
  if n = 0 then [48] else (Nat.digits 10 n).reverse.map digitChar

theorem digitChar_cases {d : ℕ} (hd : d < 10) :
    isDigit (digitChar d) = true ∧ digitValue (digitChar d) = d := by
  interval_cases d <;> decide

theorem foldl_value (ds : Bytes) (n : ℕ) :
    ds.foldl (fun n c => n*10 + digitValue c) n = n*10^ds.length + value ds := by
  unfold value
  induction ds generalizing n with
  | nil => simp
  | cons c _ ih =>
    rw [foldl_cons,foldl_cons,ih,ih (0*10 + digitValue c),length_cons,pow_succ]
    ring

theorem value_append (xs ys : Bytes) : value (xs++ys) = value xs * 10 ^ ys.length + value ys := by
  rw [value,foldl_append,foldl_value]
  rfl

theorem value_digits {ds : List ℕ} (hds : ∀ d ∈ ds, d < 10) :
    value (ds.reverse.map digitChar) = Nat.ofDigits 10 ds := by
  induction ds with
  | nil => rfl
  | cons d _ ih =>
    have hd := (digitChar_cases (hds d mem_cons_self)).2
    rw [reverse_cons,map_append,value_append,
      ih fun x hx => hds x (mem_cons_of_mem d hx),Nat.ofDigits_cons]
    change _*10^1 + (0*10 + digitValue (digitChar d)) = _
    rw [hd]
    ring

theorem value_print (n : ℕ) : value (print n) = n := by
  unfold print
  split_ifs with hn
  · rw [hn]
    rfl
  · rw [value_digits fun d hd => Nat.digits_lt_base (by norm_num) hd,Nat.ofDigits_digits]

theorem print_isDigit (n : ℕ) : ∀ c ∈ print n, isDigit c = true := by
  unfold print
  split_ifs
  · intro c hc
    obtain rfl := mem_singleton.mp hc
    rfl
  · intro c hc
    obtain ⟨d,hd,rfl⟩ := mem_map.mp hc
    exact (digitChar_cases (Nat.digits_lt_base (by norm_num) (mem_reverse.mp hd))).1

theorem print_ne_nil (n : ℕ) : print n ≠ [] := by
  unfold print
  split_ifs with hn
  · exact cons_ne_nil _ _
  · intro hnil
    rw [map_eq_nil_iff,reverse_eq_nil_iff,Nat.digits_eq_nil_iff_eq_zero] at hnil
    exact hn hnil

theorem pow_print_le {n : ℕ} (hn : n ≠ 0) : 10^(print n).length ≤ 10*n := by
  rw [print,if_neg hn,length_map,length_reverse]
  exact Nat.base_pow_length_digits_le 10 n (by norm_num) hn

end Decimal
