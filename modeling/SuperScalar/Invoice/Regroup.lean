import SuperScalar.Foundation.Bits

namespace SuperScalar

open Bits List UInt32 Nat

-- The groups of five bits on top of an accumulator that holds `bits` bits.
def split5 (acc : UInt32) : ℕ → Bytes
  | bits+5 => ((acc >>> ofNat bits) &&& 0x1f).toUInt8 :: split5 acc bits
  | _ => []

def bytesTo5bitLoop : Bytes → UInt32 → ℕ → Bytes
  | [], acc, bits => if bits > 0 then [((acc <<< ofNat (5-bits)) &&& 0x1f).toUInt8] else []
  | b :: rest, acc, bits =>
    let acc := acc <<< 8 ||| b.toUInt32
    split5 acc (bits+8) ++ bytesTo5bitLoop rest acc ((bits+8) % 5)

def bytesTo5bit (input : Bytes) (outCap : ℕ) : Bytes :=
  let out := bytesTo5bitLoop input 0 0
  if out.length > outCap then [] else out

def fivebitToBytesLoop : Bytes → UInt32 → ℕ → Option Bytes
  | [], acc, bits =>
    if bits ≥ 5 then none
    else if bits > 0 ∧ acc &&& ((1 <<< ofNat bits)-1) ≠ 0 then none
    else some []
  | g :: rest, acc, bits =>
    let acc := acc <<< 5 ||| g.toUInt32
    if bits+5 ≥ 8 then
      (fivebitToBytesLoop rest acc (bits+5-8)).map
        (((acc >>> ofNat (bits+5-8)) &&& 0xff).toUInt8 :: ·)
    else fivebitToBytesLoop rest acc (bits+5)

def fivebitToBytes (input : Bytes) (outCap : ℕ) : Bytes :=
  match fivebitToBytesLoop input 0 0 with
  | none => []
  | some out => if out.length > outCap then [] else out

section

variable {acc v : UInt32} {w k : ℕ}

theorem shift_amount (hw : w < 32) : (ofNat w).toNat % 32 = w := by
  rw [toNat_ofNat']
  omega

theorem low_push (hv : v.toNat < 2^w) (hw : w < 32) (hk : k + w ≤ 32) :
    low (acc <<< UInt32.ofNat w ||| v).toNat (k+w) = low acc.toNat k ++ low v.toNat w := by
  rw [UInt32.toNat_or,UInt32.toNat_shiftLeft,shift_amount hw]
  exact low_shl_or hv hk

theorem low_masked (x : UInt32) {mask : UInt32} (hmask : mask.toNat = 2^w-1) (hw : w ≤ 8) :
    low (x &&& mask).toUInt8.toNat w = low x.toNat w ∧ (x &&& mask).toUInt8.toNat < 2^w := by
  have hpow : 2^w ≤ 2^8 := Nat.pow_le_pow_right (by norm_num) hw
  have hand : (x &&& mask).toNat = x.toNat % 2 ^ w := by
    rw [UInt32.toNat_and,hmask,Nat.and_two_pow_sub_one_eq_mod]
  have hmod : x.toNat % 2 ^ w < 2^w := mod_lt _ (by positivity)
  have hbyte : (x &&& mask).toUInt8.toNat = x.toNat % 2 ^ w := by
    rw [toNat_toUInt8,hand]
    exact mod_eq_of_lt (by omega)
  rw [hbyte]
  refine ⟨low_congr fun i hi => ?_,hmod⟩
  rw [testBit_mod_two_pow,decide_eq_true hi,Bool.true_and]

theorem low_shr (acc : UInt32) {j : ℕ} (hk : k < 32) :
    low (acc >>> UInt32.ofNat k).toNat j = low (acc.toNat >>> k) j := by
  rw [UInt32.toNat_shiftRight,shift_amount hk]

theorem low_pop (acc mask : UInt32) (hmask : mask.toNat = 2^w-1) (hw : w ≤ 8)
    (hk : k < 32) : low acc.toNat (k+w) =
      low ((acc >>> ofNat k) &&& mask).toUInt8.toNat w ++ low acc.toNat k := by
  rw [add_comm,low_append,(low_masked _ hmask hw).1,low_shr acc hk]

theorem low_pad (acc : UInt32) (hk : k ≤ 5) :
    low ((acc <<< ofNat (5-k)) &&& 0x1f).toUInt8.toNat 5 =
      low acc.toNat k ++ replicate (5-k) false := by
  have hpush : low (acc <<< ofNat (5-k) ||| 0).toNat (k + (5-k)) =
      low acc.toNat k ++ low (0 : UInt32).toNat (5-k) :=
    low_push (by positivity) (by omega) (by omega)
  rw [UInt32.or_zero,Nat.add_sub_cancel' hk] at hpush
  rw [(low_masked _ rfl (by norm_num)).1,hpush,← low_zero]
  rfl

theorem masked_zero_iff (acc : UInt32) (hk : k < 32) :
    acc &&& ((1 <<< UInt32.ofNat k)-1) = 0 ↔ low acc.toNat k = List.replicate k false := by
  have hmask : ((1 <<< ofNat k)-1 : UInt32).toNat = 2^k-1 := by
    have hone : (1 <<< ofNat k : UInt32).toNat = 2^k := by
      rw [UInt32.toNat_shiftLeft,shift_amount hk]
      change 1 <<< k % 2 ^ 32 = 2^k
      rw [Nat.one_shiftLeft,Nat.mod_eq_of_lt (Nat.pow_lt_pow_right (by norm_num) hk)]
    rw [UInt32.toNat_sub_of_le,hone]
    · rfl
    · rw [le_iff_toNat_le,hone]
      exact Nat.one_le_two_pow
  rw [← UInt32.toNat_inj,UInt32.toNat_and,hmask,Nat.and_two_pow_sub_one_eq_mod,← low_zero]
  constructor
  · intro hzero
    apply low_congr
    intro i hi
    have hbit := congrArg (fun n => n.testBit i) hzero
    simpa [testBit_mod_two_pow,hi] using hbit
  · intro hlow
    apply low_inj (mod_lt _ (by positivity)) (by positivity)
    refine Eq.trans (low_congr fun i hi => ?_) hlow
    rw [testBit_mod_two_pow,decide_eq_true hi,Bool.true_and]

end

section

variable {acc : UInt32} {bits : ℕ}

theorem split5_spec (acc : UInt32) (hbits : bits ≤ 32) :
    flat 5 (split5 acc bits) ++ low acc.toNat (bits % 5) = low acc.toNat bits ∧
      ∀ g ∈ split5 acc bits, g.toNat < 2^5 := by
  fun_induction split5 acc bits with
  | case1 bits ih =>
    obtain ⟨hflat,hsmall⟩ := ih (by omega)
    constructor
    · change low _ 5 ++ flat 5 (split5 acc bits) ++ low acc.toNat ((bits+5) % 5) =
        low acc.toNat (bits+5)
      rw [append_assoc,add_mod_right,hflat,← low_pop acc 0x1f rfl (by norm_num) (by omega)]
    · intro g hg
      rcases mem_cons.mp hg with rfl | hg
      · exact (low_masked _ rfl (by norm_num)).2
      · exact hsmall g hg
  | case2 bits hshort =>
    have hlt : bits < 5 := by
      by_contra hge
      exact hshort (bits-5) (by omega)
    rw [mod_eq_of_lt hlt]
    exact ⟨rfl,nofun⟩

def padding (n : ℕ) : List Bool := replicate ((5-n % 5) % 5) false

theorem bytesTo5bitLoop_spec (input : Bytes) (acc : UInt32) (hbits : bits < 5) :
    flat 5 (bytesTo5bitLoop input acc bits) =
        low acc.toNat bits ++ flat 8 input ++ padding (bits+8*input.length) ∧
      ∀ g ∈ bytesTo5bitLoop input acc bits, g.toNat < 2^5 := by
  induction input generalizing acc bits with
  | nil =>
    rw [bytesTo5bitLoop]
    split_ifs with hpos
    · constructor
      · rw [flat_cons,low_pad acc hbits.le,padding,List.length_nil,Nat.mul_zero,Nat.add_zero,
          mod_eq_of_lt hbits,mod_eq_of_lt (show 5-bits < 5 by omega)]
        simp
      · intro g hg
        obtain rfl := mem_singleton.mp hg
        exact (low_masked _ rfl (by norm_num)).2
    · obtain rfl : bits = 0 := by omega
      exact ⟨rfl,nofun⟩
  | cons b rest ih =>
    rw [bytesTo5bitLoop]
    obtain ⟨hsplit,hsmall⟩ := split5_spec (acc <<< 8 ||| b.toUInt32) (show bits + 8 ≤ 32 by omega)
    obtain ⟨hrest,hsmall'⟩ := ih (acc <<< 8 ||| b.toUInt32)
      (mod_lt (bits+8) (by norm_num))
    have hpush : low (acc <<< 8 ||| b.toUInt32).toNat (bits+8) =
        low acc.toNat bits ++ low b.toNat 8 :=
      low_push (w := 8) (by exact b.toNat_lt) (by norm_num) (by omega)
    constructor
    · have hpad : padding ((bits+8) % 5 + 8*rest.length) =
          padding (bits+8*(b :: rest).length) := by
        unfold padding
        rw [length_cons]
        congr 2
        omega
      rw [flat_append,hrest,hpad,flat_cons,← append_assoc,← append_assoc,hsplit,
        hpush,append_assoc (low acc.toNat bits)]
    · intro g hg
      rcases mem_append.mp hg with hg | hg
      · exact hsmall g hg
      · exact hsmall' g hg

theorem fivebitToBytesLoop_spec {input out : Bytes} {r : ℕ} (hinput : ∀ g ∈ input, g.toNat < 2^5)
    (hbits : bits < 8) (hr : r < 5)
    (h : low acc.toNat bits ++ flat 5 input = flat 8 out ++ replicate r false) :
    fivebitToBytesLoop input acc bits = some out := by
  induction input generalizing acc bits out with
  | nil =>
    rw [flat_nil,append_nil] at h
    have hlength := congrArg length h
    rw [length_low,length_append,length_flat,length_replicate] at hlength
    cases out with
    | nil =>
      rw [flat_nil,nil_append] at h
      rw [List.length_nil,Nat.mul_zero,Nat.zero_add] at hlength
      subst hlength
      rw [fivebitToBytesLoop,if_neg (by omega),if_neg fun hbad =>
        hbad.2 ((masked_zero_iff acc (by omega)).mpr h)]
    | cons =>
      rw [length_cons,mul_succ] at hlength
      omega
  | cons g rest ih =>
    have hpush : low (acc <<< 5 ||| g.toUInt32).toNat (bits+5) =
        low acc.toNat bits ++ low g.toNat 5 :=
      low_push (w := 5) (by exact hinput g mem_cons_self) (by norm_num) (by omega)
    have hrest : ∀ g ∈ rest, g.toNat < 2^5 := fun x hx => hinput x (mem_cons_of_mem g hx)
    rw [flat_cons,← append_assoc,← hpush] at h
    rw [fivebitToBytesLoop]
    split_ifs with hfull
    · have hpop := low_pop (acc <<< 5 ||| g.toUInt32) 0xff (w := 8) (k := bits+5-8) rfl
        (by norm_num) (by omega)
      rw [Nat.sub_add_cancel hfull] at hpop
      cases out with
      | nil =>
        have hlength := congrArg length h
        rw [length_append,length_low,flat_nil,nil_append,length_replicate] at hlength
        omega
      | cons =>
        simp only [hpop,flat_cons,append_assoc] at h
        obtain ⟨hbyte,htail⟩ := append_inj h (by simp only [length_low])
        have hb := low_inj (UInt8.toNat_lt _) (UInt8.toNat_lt _) hbyte
        rw [ih hrest (by omega) htail,Option.map_some,UInt8.toNat_inj.mp hb]
    · exact ih hrest (by omega) h

theorem bytesTo5bitLoop_length (input : Bytes) :
    (bytesTo5bitLoop input 0 0).length = (8*input.length+4)/5 := by
  have hlength := congrArg length (bytesTo5bitLoop_spec input 0
    (show 0 < 5 by norm_num)).1
  simp only [length_flat,length_append,length_low,padding,length_replicate] at hlength
  omega

theorem fivebitToBytes_bytesTo5bit {input : Bytes} {cap cap' : ℕ}
    (hcap : 8*input.length ≤ 5*cap) (hcap' : input.length ≤ cap') :
    fivebitToBytes (bytesTo5bit input cap) cap' = input := by
  obtain ⟨hflat,hsmall⟩ := bytesTo5bitLoop_spec input 0 (show 0 < 5 by norm_num)
  have hlength := bytesTo5bitLoop_length input
  have hback : fivebitToBytesLoop (bytesTo5bitLoop input 0 0) 0 0 = some input :=
    fivebitToBytesLoop_spec hsmall (by norm_num) (mod_lt _ (by norm_num)) hflat
  rw [bytesTo5bit,if_neg (by omega),fivebitToBytes,hback]
  exact if_neg (by omega)

theorem bytesTo5bit_small (input : Bytes) (cap : ℕ) :
    ∀ g ∈ bytesTo5bit input cap, g.toNat < 2^5 := by
  unfold bytesTo5bit
  dsimp only
  split_ifs
  · exact nofun
  · exact (bytesTo5bitLoop_spec input 0 (by norm_num)).2

theorem length_bytesTo5bit (input : Bytes) (cap : ℕ) : (bytesTo5bit input cap).length =
    if 8*input.length ≤ 5*cap then (8*input.length+4)/5 else 0 := by
  have hlength := bytesTo5bitLoop_length input
  unfold bytesTo5bit
  dsimp only
  split_ifs with hlong hfits hfits
  · omega
  · rfl
  · exact hlength
  · omega

end

end SuperScalar
