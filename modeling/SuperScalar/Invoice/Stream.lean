import SuperScalar.Invoice.Regroup

namespace SuperScalar

open Bits List UInt64 UInt8 Nat

section

def readBits (d5 : Bytes) : ℕ → ℕ → UInt64 → UInt64 × ℕ
  | 0, off, v => (v,off)
  | n+1, off, v =>
    match d5[off/5]? with
    | none => (0,off)
    | some g =>
      readBits d5 n (off+1) (v <<< 1 ||| if g.toNat.testBit (4-off % 5) then 1 else 0)

theorem bit_toNat (b : Bool) : (if b then 1 else 0 : UInt64).toNat < 2^1 ∧
    low (if b then 1 else 0 : UInt64).toNat 1 = [b] := by
  cases b <;> decide

variable {k n : ℕ} {v : UInt64} {d5 : Bytes}

theorem low_shl_one (v : UInt64) (b : Bool) (hk : k < 64) :
    low (v <<< 1 ||| if b then 1 else 0).toNat (k+1) = low v.toNat k ++ [b] := by
  rw [UInt64.toNat_or,show (v <<< 1).toNat = v.toNat <<< 1 % 2 ^ 64 from UInt64.toNat_shiftLeft v 1,
    low_shl_or (bit_toNat b).1 hk,(bit_toNat b).2]

theorem shl_one_lt (b : Bool) (hv : v.toNat < 2^k) :
    (v <<< 1 ||| if b then 1 else 0).toNat < 2^(k+1) := by
  rw [UInt64.toNat_or,show (v <<< 1).toNat = v.toNat <<< 1 % 2 ^ 64 from UInt64.toNat_shiftLeft v 1]
  exact shl_or_lt hv (bit_toNat b).1

theorem readBits_spec (off : ℕ) (hlen : off + n ≤ 5*d5.length) (hk : k + n ≤ 64)
    (hv : v.toNat < 2^k) :
    (readBits d5 n off v).2 = off + n ∧ (readBits d5 n off v).1.toNat < 2^(k+n) ∧
      low (readBits d5 n off v).1.toNat (k+n) = low v.toNat k ++ ((flat 5 d5).drop off).take n := by
  induction n generalizing off k v with
  | zero => exact ⟨rfl,hv,by rw [take_zero,append_nil]; rfl⟩
  | succ n ih =>
    have hget : off/5 < d5.length := by omega
    have hbit := flat_getElem? (w := 5) (by norm_num) d5 off
    rw [getElem?_eq_getElem hget,Option.map_some] at hbit
    have hdrop := drop_eq_getElem?_toList_append (l := flat 5 d5) (i := off)
    rw [hbit] at hdrop
    rw [readBits,getElem?_eq_getElem hget]
    have hlow := low_shl_one v ((d5[off/5]).toNat.testBit (4-off % 5)) (k := k) (by omega)
    have hsmall := shl_one_lt ((d5[off/5]).toNat.testBit (4-off % 5)) hv
    obtain ⟨hoff,hlt,hbits⟩ := ih (off + 1) (by omega) (by omega) hsmall
    refine ⟨by rw [hoff]; omega,by rwa [add_right_comm] at hlt,?_⟩
    rw [show k + (n+1) = k+1 + n by omega,hbits,hlow,hdrop]
    simp

theorem readBits_eq {off : ℕ} {rest : List Bool}
    (hbits : (flat 5 d5).drop off = low v.toNat n ++ rest) (hn : n ≤ 64) (hv : v.toNat < 2^n) :
    readBits d5 n off 0 = (v,off + n) := by
  have hlength := congrArg length hbits
  rw [length_drop,length_flat,length_append,length_low] at hlength
  by_cases hzero : n = 0
  · subst hzero
    have hv0 : v = 0 := UInt64.toNat_inj.mp (by simpa using hv)
    rw [hv0]
    rfl
  · obtain ⟨hoff,hlt,hlow⟩ := readBits_spec off (k := 0) (v := 0)
      (show off + n ≤ 5*d5.length by omega) (by omega) (by norm_num)
    rw [zero_add] at hlt hlow
    rw [hbits,take_left' (length_low _ _)] at hlow
    exact Prod.ext (UInt64.toNat_inj.mp (low_inj hlt hv hlow)) hoff

end

section

structure BitWriter where
  d5 : Bytes
  off : ℕ

def setBit (g : UInt8) (i : ℕ) (b : Bool) : UInt8 :=
  if b then g ||| (1 <<< UInt8.ofNat i) else g &&& ~~~(1 <<< UInt8.ofNat i)

def writeBit (w : BitWriter) (b : Bool) : BitWriter :=
  if w.off/5 ≥ w.d5.length then w
  else ⟨w.d5.modify (w.off/5) (fun g => setBit g (4-w.off % 5) b),w.off + 1⟩

def writeBits (w : BitWriter) (val : UInt64) (nbits : ℕ) : BitWriter :=
  (low val.toNat nbits).foldl writeBit w

variable {i cap : ℕ} {w : BitWriter} {bits : List Bool}

theorem setBit_testBit (g : UInt8) (hi : i < 5) (b : Bool) {j : ℕ} (hj : j < 8) :
    (setBit g i b).toNat.testBit j = if j = i then b else g.toNat.testBit j := by
  have hone : (1 <<< UInt8.ofNat i : UInt8).toNat = 2^i := by
    interval_cases i <;> rfl
  unfold setBit
  cases b with
  | true =>
    rw [if_pos rfl,UInt8.toNat_or,Nat.testBit_or,hone,Nat.testBit_two_pow]
    by_cases hji : j = i
    · simp [hji]
    · simp [hji,Ne.symm hji]
  | false =>
    have hpow : 2^i < 2^8 := Nat.pow_lt_pow_right (by norm_num) (by omega)
    have hnot : (~~~(1 <<< UInt8.ofNat i : UInt8)).toNat = 2^8-(2^i+1) := by
      rw [UInt8.toNat_not,hone,Nat.sub_sub,Nat.add_comm]
      rfl
    rw [if_neg Bool.false_ne_true,UInt8.toNat_and,Nat.testBit_and,hnot,
      testBit_two_pow_sub_succ hpow,decide_eq_true hj,Bool.true_and,testBit_two_pow]
    by_cases hji : j = i
    · simp [hji]
    · simp [hji,Ne.symm hji]

theorem setBit_lt {g : UInt8} (hg : g.toNat < 2^5) (hi : i < 5) (b : Bool) :
    (setBit g i b).toNat < 2^5 := by
  unfold setBit
  cases b with
  | true =>
    rw [if_pos rfl,UInt8.toNat_or]
    refine or_lt_two_pow hg ?_
    interval_cases i <;> decide
  | false =>
    rw [if_neg Bool.false_ne_true,UInt8.toNat_and]
    exact Nat.and_le_left.trans_lt hg

theorem flat_setBit {d5 : Bytes} {off : ℕ} (b : Bool) (hoff : off < 5*d5.length) :
    flat 5 (d5.modify (off/5) fun g => setBit g (4-off % 5) b) = (flat 5 d5).set off b := by
  apply ext_getElem?
  intro j
  rw [flat_getElem? (by norm_num),getElem?_modify,getElem?_set,
    flat_getElem? (by norm_num),length_flat]
  have hget : off/5 < d5.length := by omega
  by_cases hgroup : off/5 = j/5
  · rw [← hgroup,getElem?_eq_getElem hget]
    simp only [Option.map_eq_map,Option.map_some,if_true]
    rw [setBit_testBit _ (by omega) b (by omega)]
    by_cases hj : off = j
    · rw [if_pos hj,if_pos (by omega),if_pos (by omega)]
    · rw [if_neg hj,if_neg (by omega)]
  · rw [if_neg (by rintro rfl; exact hgroup rfl)]
    simp [hgroup]

-- What the writer holds: the groups are of five bits and the bits before the offset are `bits`.
structure BitWriter.Holds (w : BitWriter) (cap : ℕ) (bits : List Bool) : Prop where
  length : w.d5.length = cap
  small : ∀ g ∈ w.d5, g.toNat < 2^5
  off : w.off = bits.length
  bits : (flat 5 w.d5).take w.off = bits

theorem BitWriter.Holds.writeBit (h : w.Holds cap bits) (b : Bool) (hroom : bits.length < 5*cap) :
    (writeBit w b).Holds cap (bits ++ [b]) := by
  have hoff : w.off < 5*w.d5.length := by rw [h.length,h.off]; exact hroom
  rw [SuperScalar.writeBit,if_neg (by omega)]
  refine ⟨by rw [length_modify,h.length],?_,by rw [length_append,h.off]; rfl,?_⟩
  · intro g hg
    obtain ⟨i,hi⟩ := mem_iff_getElem?.mp hg
    rw [getElem?_modify] at hi
    obtain ⟨x,hx,rfl⟩ := Option.map_eq_some_iff.mp hi
    have hsmall := h.small x (mem_of_getElem? hx)
    split_ifs
    · exact setBit_lt hsmall (by omega) b
    · exact hsmall
  · have hlength : (flat 5 w.d5).length = 5*w.d5.length := length_flat 5 w.d5
    rw [flat_setBit b hoff,take_add_one,getElem?_set_self (by omega),
      take_set_of_le (le_refl _),h.bits]
    rfl

theorem writeBit_full (hlength : w.d5.length = cap) (hoff : w.off = 5*cap) (b : Bool) :
    writeBit w b = w := by
  rw [writeBit,if_pos (by omega)]

theorem foldl_writeBit (h : w.Holds cap bits) (more : List Bool)
    (hroom : bits.length + more.length ≤ 5*cap) :
    (more.foldl writeBit w).Holds cap (bits++more) := by
  induction more generalizing w bits with
  | nil => rwa [append_nil]
  | cons b _ ih =>
    rw [length_cons] at hroom
    have hnext := ih (h.writeBit b (by omega)) (by rw [length_append]; simp; omega)
    rwa [append_assoc] at hnext

theorem foldl_writeBit_full (h : w.Holds cap bits) (more : List Bool)
    (hbits : bits.length ≤ 5*cap) (hroom : 5*cap ≤ bits.length + more.length) :
    (more.foldl writeBit w).off = 5*cap := by
  have hsplit := foldl_writeBit h (more.take (5*cap-bits.length))
    (by rw [length_take]; omega)
  have hfull (rest : List Bool) (w : BitWriter) (hlength : w.d5.length = cap)
      (hoff : w.off = 5*cap) : rest.foldl writeBit w = w := by
    induction rest with
    | nil => rfl
    | cons _ _ ih => rw [foldl_cons,writeBit_full hlength hoff,ih]
  have hoff : ((more.take (5*cap-bits.length)).foldl writeBit w).off = 5*cap := by
    rw [hsplit.off,length_append,length_take]
    omega
  rw [← take_append_drop (5*cap-bits.length) more,foldl_append,hfull _ _ hsplit.length hoff,hoff]

end

end SuperScalar
