import SuperScalar.Invoice.Regroup

namespace SuperScalar

open Bits List UInt32 Nat

def charset : Bytes :=
  [113,112,122,114,121,57,120,56,103,102,50,116,118,100,119,48,115,51,
    106,110,53,52,107,104,99,101,54,109,117,97,55,108]

def charsetRev (c : UInt8) : Option UInt8 := (charset.idxOf? c).map UInt8.ofNat

def charOf (g : UInt8) : UInt8 := charset.getD g.toNat 0

def toLower (c : UInt8) : UInt8 := if 65 ≤ c ∧ c ≤ 90 then c+32 else c

def bech32Feedback (c : UInt32) : UInt32 :=
  let c0 := c >>> 25
  (if c0 &&& 1 ≠ 0 then 0x3b6a57b2 else 0) ^^^ (if c0 &&& 2 ≠ 0 then 0x26508e6d else 0) ^^^
    (if c0 &&& 4 ≠ 0 then 0x1ea119fa else 0) ^^^ (if c0 &&& 8 ≠ 0 then 0x3d4233dd else 0) ^^^
    (if c0 &&& 16 ≠ 0 then 0x2a1462b3 else 0)

def bech32Step (c : UInt32) (v : UInt8) : UInt32 :=
  ((c &&& 0x1ffffff) <<< 5) ^^^ v.toUInt32 ^^^ bech32Feedback c

def bech32Polymod (v : Bytes) : UInt32 := v.foldl bech32Step 1

def hrpExpand (hrp : Bytes) : Bytes :=
  hrp.map (fun c : UInt8 => c >>> 5) ++ [0] ++ hrp.map (fun c : UInt8 => c &&& 0x1f)

def bech32ChecksumVal (hrp d5 : Bytes) : UInt32 :=
  if hrp.length*2+1 + d5.length+6 > 1024 then 0
  else bech32Polymod (hrpExpand hrp ++ d5 ++ replicate 6 0) ^^^ 1

def packChecksum (c : Bytes) : UInt32 :=
  (range 6).foldl (fun acc j =>
    acc ||| (c.getD j 0).toUInt32 <<< ofNat ((5-j)*5)) 0

def checksumGroups (chk : UInt32) : Bytes :=
  (range 6).map (fun j => ((chk >>> ofNat ((5-j)*5)) &&& 0x1f).toUInt8)

def bech32VerifyChecksum (hrp data : Bytes) : Prop := bech32Polymod (hrpExpand hrp ++ data) = 1

theorem and_two_pow_cases {k : UInt32} {i : ℕ} (hk : k.toNat = 2^i) (z : UInt32) :
    z &&& k = 0 ∨ z &&& k = k := by
  simp only [← UInt32.toNat_inj,UInt32.toNat_and,hk]
  cases hbit : z.toNat.testBit i with
  | false =>
    refine .inl (Nat.eq_of_testBit_eq fun j => ?_)
    rw [Nat.testBit_and,Nat.testBit_two_pow]
    by_cases hj : i = j
    · rw [← hj,hbit]
      simp
    · simp [hj]
  | true =>
    refine .inr (Nat.eq_of_testBit_eq fun j => ?_)
    rw [Nat.testBit_and,Nat.testBit_two_pow]
    by_cases hj : i = j
    · rw [← hj,hbit]
      simp
    · simp [hj]

theorem and_xor (a b m : UInt32) : (a ^^^ b) &&& m = (a &&& m) ^^^ (b &&& m) := by
  apply UInt32.toNat_inj.mp
  simp [Nat.and_xor_distrib_right]

theorem toggle_xor {k : UInt32} {i : ℕ} (hk : k.toNat = 2^i) (x y g : UInt32) :
    (if (x ^^^ y) &&& k ≠ 0 then g else 0) =
      (if x &&& k ≠ 0 then g else 0) ^^^ (if y &&& k ≠ 0 then g else 0) := by
  have hne : k ≠ 0 := by
    rintro rfl
    exact absurd hk.symm (by positivity)
  rw [and_xor]
  rcases and_two_pow_cases hk x with hx | hx <;> rcases and_two_pow_cases hk y with hy | hy <;>
    simp [hx,hy,hne]

theorem feedback_xor (a b : UInt32) :
    bech32Feedback (a ^^^ b) = bech32Feedback a ^^^ bech32Feedback b := by
  unfold bech32Feedback
  dsimp only
  rw [shiftRight_xor,toggle_xor (i := 0) rfl,toggle_xor (i := 1) rfl,
    toggle_xor (i := 2) rfl,toggle_xor (i := 3) rfl,toggle_xor (i := 4) rfl]
  ac_rfl

theorem step_xor (a p : UInt32) (v : UInt8) :
    bech32Step (a ^^^ p) v = bech32Step a 0 ^^^ bech32Step p v := by
  unfold bech32Step
  rw [feedback_xor,and_xor,shiftLeft_xor]
  rw [show (0 : UInt8).toUInt32 = 0 from rfl,UInt32.xor_zero]
  ac_rfl

theorem xor_eq_or {x v : UInt32} (hv : v.toNat < 2^5) : (x <<< 5) ^^^ v = (x <<< 5) ||| v := by
  apply UInt32.toNat_inj.mp
  apply Nat.eq_of_testBit_eq
  intro i
  rw [UInt32.toNat_xor,UInt32.toNat_or,Nat.testBit_xor,Nat.testBit_or]
  by_cases hi : i < 5
  · have hlow : (x <<< 5).toNat.testBit i = false := by
      rw [show (x <<< 5).toNat = x.toNat <<< 5 % 2 ^ 32 from UInt32.toNat_shiftLeft x 5,
        Nat.testBit_mod_two_pow,Nat.testBit_shiftLeft,decide_eq_false (show ¬i ≥ 5 by omega),
        Bool.false_and,Bool.and_false]
    rw [hlow,Bool.false_xor,Bool.false_or]
  · have hhigh : v.toNat.testBit i = false :=
      Nat.testBit_lt_two_pow (hv.trans_le (Nat.pow_le_pow_right (by norm_num) (by omega)))
    rw [hhigh,Bool.xor_false,Bool.or_false]

theorem step_small {p : UInt32} {v : UInt8} (hp : p.toNat < 2^25) (hv : v.toNat < 2^5) :
    bech32Step p v = (p <<< 5) ||| v.toUInt32 := by
  have hmask : p &&& 0x1ffffff = p := by
    apply UInt32.toNat_inj.mp
    rw [UInt32.toNat_and]
    change p.toNat &&& (2^25-1) = _
    rw [and_two_pow_sub_one_eq_mod,mod_eq_of_lt hp]
  have hshift : p >>> 25 = 0 := by
    apply UInt32.toNat_inj.mp
    rw [UInt32.toNat_shiftRight]
    change p.toNat >>> 25 = 0
    rw [shiftRight_eq_div_pow,div_eq_of_lt hp]
  have hfeedback : bech32Feedback p = 0 := by
    unfold bech32Feedback
    rw [hshift]
    rfl
  rw [bech32Step,hmask,hfeedback,UInt32.xor_zero]
  exact xor_eq_or hv

def horner (p : UInt32) (c : Bytes) : UInt32 := c.foldl (fun p v => p <<< 5 ||| v.toUInt32) p

theorem horner_spec {c : Bytes} (hc : ∀ v ∈ c, v.toNat < 2^5) {p : UInt32} {k : ℕ}
    (hk : k+5*c.length ≤ 32) (hp : p.toNat < 2^k) :
    low (horner p c).toNat (k+5*c.length) = low p.toNat k ++ flat 5 c ∧
      (horner p c).toNat < 2^(k+5*c.length) := by
  induction c generalizing p k with
  | nil => exact ⟨(append_nil _).symm,hp⟩
  | cons v c ih =>
    have hv := hc v mem_cons_self
    rw [length_cons] at hk
    have hpush : low (p <<< 5 ||| v.toUInt32).toNat (k+5) = low p.toNat k ++ low v.toNat 5 :=
      low_push (w := 5) (by exact hv) (by norm_num) (by omega)
    have hlt : (p <<< 5 ||| v.toUInt32).toNat < 2^(k+5) := by
      rw [UInt32.toNat_or,
        show (p <<< 5).toNat = p.toNat <<< 5 % 2 ^ 32 from UInt32.toNat_shiftLeft p 5]
      exact shl_or_lt hp hv
    obtain ⟨hlow,hsmall⟩ := ih (fun x hx => hc x (mem_cons_of_mem v hx))
      (by omega) hlt
    rw [length_cons,show k+5*(c.length+1) = k+5+5*c.length by omega]
    refine ⟨?_,hsmall⟩
    change low (horner _ c).toNat _ = _
    rw [hlow,hpush,append_assoc]
    rfl

theorem foldl_step_xor {c : Bytes} (hc : ∀ v ∈ c, v.toNat < 2^5) {a p : UInt32} {k : ℕ}
    (hk : k+5*c.length ≤ 30) (hp : p.toNat < 2^k) :
    c.foldl bech32Step (a ^^^ p) = (replicate c.length 0).foldl bech32Step a ^^^ horner p c := by
  induction c generalizing a p k with
  | nil => rfl
  | cons v c ih =>
    have hv := hc v mem_cons_self
    rw [length_cons] at hk
    have hsmall : p.toNat < 2^25 := hp.trans_le (Nat.pow_le_pow_right (by norm_num) (by omega))
    have hnext : (p <<< 5 ||| v.toUInt32).toNat < 2^(k+5) :=
      (horner_spec (fun x hx => mem_singleton.mp hx ▸ hv)
        (by rw [length_singleton]; omega) hp).2
    rw [foldl_cons,step_xor,step_small hsmall hv,
      ih (fun x hx => hc x (mem_cons_of_mem v hx)) (by omega) hnext]
    rfl

theorem packChecksum_eq {c : Bytes} (hlength : c.length = 6) : packChecksum c = horner 0 c := by
  obtain ⟨c0,c1,c2,c3,c4,c5,rfl⟩ : ∃ c0 c1 c2 c3 c4 c5, c = [c0,c1,c2,c3,c4,c5] := by
    match c, hlength with
    | [c0,c1,c2,c3,c4,c5], _ => exact ⟨c0,c1,c2,c3,c4,c5,rfl⟩
  have hten (x : UInt32) : (x <<< 5) <<< 5 = x <<< 10 :=
    (UInt32.shiftLeft_add (c := 5) (by decide) (by decide) (by decide)).symm
  have hfifteen (x : UInt32) : (x <<< 10) <<< 5 = x <<< 15 :=
    (UInt32.shiftLeft_add (c := 5) (by decide) (by decide) (by decide)).symm
  have htwenty (x : UInt32) : (x <<< 15) <<< 5 = x <<< 20 :=
    (UInt32.shiftLeft_add (c := 5) (by decide) (by decide) (by decide)).symm
  have htop (x : UInt32) : (x <<< 20) <<< 5 = x <<< 25 :=
    (UInt32.shiftLeft_add (c := 5) (by decide) (by decide) (by decide)).symm
  change (0 : UInt32) ||| c0.toUInt32 <<< 25 ||| c1.toUInt32 <<< 20 ||| c2.toUInt32 <<< 15 |||
      c3.toUInt32 <<< 10 ||| c4.toUInt32 <<< 5 ||| c5.toUInt32 <<< 0 =
    ((((((0 : UInt32) <<< 5 ||| c0.toUInt32) <<< 5 ||| c1.toUInt32) <<< 5 ||| c2.toUInt32) <<< 5 |||
      c3.toUInt32) <<< 5 ||| c4.toUInt32) <<< 5 ||| c5.toUInt32
  simp only [UInt32.shiftLeft_or,hten,hfifteen,htwenty,htop,UInt32.zero_shiftLeft,
    UInt32.zero_or,UInt32.shiftLeft_zero]

theorem polymod_checksum {xs c : Bytes} (hlength : c.length = 6) (hc : ∀ v ∈ c, v.toNat < 2^5) :
    bech32Polymod (xs++c) = bech32Polymod (xs ++ replicate 6 0) ^^^ packChecksum c := by
  have hfold := foldl_step_xor hc (a := xs.foldl bech32Step 1) (p := 0) (k := 0) (by omega)
    (by decide)
  rw [UInt32.xor_zero,hlength] at hfold
  simp only [bech32Polymod,foldl_append,hfold,packChecksum_eq hlength]

theorem checksum_verified_iff {hrp d5 c : Bytes} (hlength : c.length = 6)
    (hc : ∀ v ∈ c, v.toNat < 2^5) (hfits : hrp.length*2+1 + d5.length+6 ≤ 1024) :
    bech32ChecksumVal hrp d5 = packChecksum c ↔ bech32VerifyChecksum hrp (d5++c) := by
  rw [bech32ChecksumVal,if_neg (not_lt.mpr hfits),bech32VerifyChecksum,← append_assoc,
    polymod_checksum hlength hc]
  generalize bech32Polymod _ = x
  generalize packChecksum c = y
  constructor
  · rintro rfl
    rw [← UInt32.xor_assoc,UInt32.xor_self,UInt32.zero_xor]
  · intro h
    rw [← h,← UInt32.xor_assoc,UInt32.xor_self,UInt32.zero_xor]

end SuperScalar
