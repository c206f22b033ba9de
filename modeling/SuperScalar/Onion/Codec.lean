import SuperScalar.Onion.Tlv

namespace SuperScalar

open List UInt32 Nat

def beNat (bs : Bytes) : ℕ := bs.foldl (fun n x => n*256 + x.toNat) 0

theorem beNat_from (bs : Bytes) (n : ℕ) :
    bs.foldl (fun n x => n*256 + x.toNat) n = n*256^bs.length + beNat bs := by
  induction bs generalizing n with
  | nil => simp [beNat]
  | cons b _ ih =>
    rw [beNat,foldl_cons,foldl_cons,ih,ih (0*256 + b.toNat),length_cons,pow_succ']
    ring

theorem beNat_cons (b : UInt8) (bs : Bytes) :
    beNat (b :: bs) = b.toNat*256^bs.length + beNat bs := by
  rw [beNat,foldl_cons,beNat_from]
  ring

theorem toNat_shl_or {v : UInt64} (b : UInt8) (h : v.toNat*256+256 ≤ 2^64) :
    (v <<< 8 ||| b.toUInt64).toNat = v.toNat*256 + b.toNat := by
  have hshift : v.toNat <<< 8 % 2 ^ 64 = v.toNat <<< 8 := by
    rw [shiftLeft_eq]
    exact mod_eq_of_lt (by omega)
  rw [UInt64.toNat_or,UInt64.toNat_shiftLeft,UInt8.toNat_toUInt64,
    show (8 : UInt64).toNat % 64 = 8 from rfl,hshift,
    ← shiftLeft_add_eq_or_of_lt b.toNat_lt,shiftLeft_eq]

theorem toNat_foldl_be (bs : Bytes) (v : UInt64) (h : (v.toNat+1)*256^bs.length ≤ 2^64) :
    (bs.foldl (fun (v : UInt64) x => v <<< 8 ||| x.toUInt64) v).toNat =
      v.toNat * 256 ^ bs.length + beNat bs := by
  induction bs generalizing v with
  | nil => simp [beNat]
  | cons b bs ih =>
    have hpow : 0 < 256^bs.length := Nat.pow_pos (by decide)
    have hb := b.toNat_lt
    rw [List.length_cons,Nat.pow_succ'] at h
    have hfirst : v.toNat*256+256 ≤ 2^64 := by nlinarith
    have hstep := toNat_shl_or b hfirst
    rw [foldl_cons,ih _ (by rw [hstep]; nlinarith),hstep,beNat_cons,length_cons,pow_succ']
    ring

theorem getBe_toNat {n : ℕ} {bs : Bytes} (hn : n ≤ 8) (hlen : bs.length = n) (rest : Bytes) :
    (getBe n (bs++rest)).toNat = beNat bs := by
  unfold getBe
  rw [List.take_append_of_le_length (Nat.le_of_eq hlen.symm),← hlen,List.take_length,
    toNat_foldl_be _ _ ?_,show (0 : UInt64).toNat = 0 from rfl,Nat.zero_mul,Nat.zero_add]
  calc (0+1) * 256 ^ bs.length ≤ 256^8 := by
        rw [Nat.zero_add,Nat.one_mul,hlen]
        exact Nat.pow_le_pow_right (by decide) hn
    _ = 2^64 := by decide

theorem getU64_eq {bs : Bytes} (hlen : bs.length = 8) (rest : Bytes) :
    getU64 (bs++rest) = getBe 8 (bs++rest) := by
  obtain ⟨a,b,c,d,e,f,g,h,rfl⟩ : ∃ a b c d e f g h, bs = [a,b,c,d,e,f,g,h] := by
    match bs, hlen with
    | [a,b,c,d,e,f,g,h], _ => exact ⟨a,b,c,d,e,f,g,h,rfl⟩
  rfl

theorem digit_next (n k : ℕ) : n/2^(k+8)*256 + n/2^k % 2 ^ 8 = n/2^k := by
  rw [Nat.pow_add,← Nat.div_div_eq_div_mul]
  exact Nat.div_add_mod' _ _

theorem digit_first {n k : ℕ} (h : n < 2^(k+8)) : 0*256 + n/2^k % 2 ^ 8 = n/2^k := by
  have hnext := digit_next n k
  rwa [div_eq_of_lt h] at hnext

theorem beNat_putU64 (v : UInt64) : beNat (putU64 v) = v.toNat := by
  change beNat [(v >>> 56).toUInt8,(v >>> 48).toUInt8,(v >>> 40).toUInt8,(v >>> 32).toUInt8,
    (v >>> 24).toUInt8,(v >>> 16).toUInt8,(v >>> 8).toUInt8,(v >>> 0).toUInt8] = v.toNat
  simp only [beNat,foldl_cons,foldl_nil,UInt64.toNat_toUInt8,UInt64.toNat_shiftRight,
    shiftRight_eq_div_pow]
  change ((((((((0*256 + v.toNat/2^56 % 2 ^ 8)*256 + v.toNat/2^48 % 2 ^ 8)*256 +
    v.toNat / 2 ^ 40 % 2 ^ 8) * 256 + v.toNat/2^32 % 2 ^ 8) * 256 +
    v.toNat / 2 ^ 24 % 2 ^ 8) * 256 + v.toNat/2^16 % 2 ^ 8) * 256 +
    v.toNat / 2 ^ 8 % 2 ^ 8) * 256 + v.toNat/2^0 % 2 ^ 8) = v.toNat
  rw [digit_first v.toNat_lt,digit_next _ 48,digit_next _ 40,digit_next _ 32,digit_next _ 24,
    digit_next _ 16,digit_next _ 8,digit_next _ 0,Nat.pow_zero,Nat.div_one]

theorem beNat_putU32 (v : UInt32) : beNat (putU32 v) = v.toNat := by
  change beNat [(v >>> 24).toUInt8,(v >>> 16).toUInt8,(v >>> 8).toUInt8,v.toUInt8] = v.toNat
  simp only [beNat,List.foldl_cons,List.foldl_nil,UInt32.toNat_toUInt8,UInt32.toNat_shiftRight,
    Nat.shiftRight_eq_div_pow]
  change (((0*256 + v.toNat/2^24 % 2 ^ 8)*256 + v.toNat/2^16 % 2 ^ 8)*256 +
    v.toNat / 2 ^ 8 % 2 ^ 8) * 256 + v.toNat % 2 ^ 8 = v.toNat
  rw [digit_first v.toNat_lt,digit_next _ 16,digit_next _ 8]
  exact Nat.div_add_mod' _ _

theorem beNat_putU16 (v : UInt16) : beNat (putU16 v) = v.toNat := by
  change beNat [(v >>> 8).toUInt8,v.toUInt8] = v.toNat
  simp only [beNat,foldl_cons,foldl_nil,UInt16.toNat_toUInt8,UInt16.toNat_shiftRight,
    shiftRight_eq_div_pow]
  change (0*256 + v.toNat/2^8 % 2 ^ 8)*256 + v.toNat % 2 ^ 8 = v.toNat
  rw [digit_first v.toNat_lt]
  exact div_add_mod' _ _

theorem getU64_putU64 (v : UInt64) (rest : Bytes) : getU64 (putU64 v ++ rest) = v := by
  have hlen : (putU64 v).length = 8 := rfl
  apply UInt64.toNat.inj
  rw [getU64_eq hlen,getBe_toNat (le_refl 8) hlen,beNat_putU64]

theorem toNat_shl_byte (b : UInt8) {k : ℕ} (hk : k ≤ 24) :
    (b.toUInt32 <<< UInt32.ofNat k).toNat = b.toNat <<< k := by
  have hb := b.toNat_lt
  have hpow : 2^k ≤ 2^24 := Nat.pow_le_pow_right (by decide) hk
  rw [UInt32.toNat_shiftLeft,UInt8.toNat_toUInt32,UInt32.toNat_ofNat',
    mod_eq_of_lt (by omega : k < 2^32),mod_eq_of_lt (by omega : k < 32),mod_eq_of_lt]
  rw [shiftLeft_eq]
  nlinarith

theorem getU32_toNat (a b c d : UInt8) (rest : Bytes) :
    (getU32 (a :: b :: c :: d :: rest)).toNat = beNat [a,b,c,d] := by
  have hb := b.toNat_lt
  have hc := c.toNat_lt
  have hd := d.toNat_lt
  have hlow : c.toNat <<< 8 + d.toNat < 2^16 := by
    rw [Nat.shiftLeft_eq]
    omega
  have hmid : b.toNat <<< 16 + (c.toNat <<< 8 + d.toNat) < 2^24 := by
    rw [Nat.shiftLeft_eq b.toNat]
    omega
  change ((a.toUInt32 <<< 24 ||| b.toUInt32 <<< 16) ||| c.toUInt32 <<< 8 ||| d.toUInt32).toNat = _
  rw [UInt32.toNat_or,UInt32.toNat_or,UInt32.toNat_or,Nat.or_assoc,Nat.or_assoc,
    show (a.toUInt32 <<< 24).toNat = a.toNat <<< 24 from toNat_shl_byte a (by decide),
    show (b.toUInt32 <<< 16).toNat = b.toNat <<< 16 from toNat_shl_byte b (by decide),
    show (c.toUInt32 <<< 8).toNat = c.toNat <<< 8 from toNat_shl_byte c (by decide),
    UInt8.toNat_toUInt32,← Nat.shiftLeft_add_eq_or_of_lt hd,
    ← Nat.shiftLeft_add_eq_or_of_lt hlow,← Nat.shiftLeft_add_eq_or_of_lt hmid]
  simp only [beNat,List.foldl_cons,List.foldl_nil,Nat.shiftLeft_eq]
  ring

theorem getU32_putU32 (v : UInt32) (rest : Bytes) : getU32 (putU32 v ++ rest) = v := by
  apply toNat.inj
  exact (getU32_toNat _ _ _ _ rest).trans (beNat_putU32 v)

theorem getU16_putU16 (v : UInt16) (rest : Bytes) : getU16 (putU16 v ++ rest) = v := by
  have hlt := v.toNat_lt
  have hlow : v.toUInt8.toUInt16.toNat < 2^8 := by
    rw [UInt8.toNat_toUInt16]
    exact v.toUInt8.toNat_lt
  change (v >>> 8).toUInt8.toUInt16 <<< 8 ||| v.toUInt8.toUInt16 = v
  apply UInt16.toNat.inj
  rw [UInt16.toNat_or,UInt16.toNat_shiftLeft,UInt8.toNat_toUInt16,UInt16.toNat_toUInt8,
    UInt16.toNat_shiftRight,show (8 : UInt16).toNat % 16 = 8 from rfl,shiftRight_eq_div_pow,
    shiftLeft_eq,mod_eq_of_lt (by omega : v.toNat/2^8 < 2^8),
    mod_eq_of_lt (by omega : v.toNat/2^8*2^8 < 2^16),← shiftLeft_eq,
    ← shiftLeft_add_eq_or_of_lt hlow,shiftLeft_eq,UInt8.toNat_toUInt16,UInt16.toNat_toUInt8]
  exact div_add_mod' _ _

end SuperScalar
