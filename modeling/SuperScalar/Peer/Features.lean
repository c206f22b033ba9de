import SuperScalar.Foundation.Bits
import SuperScalar.Onion.Codec

namespace SuperScalar

open List UInt64 Nat

section

variable {α : Type} {b : ℕ}

theorem foldl_testBit {f : UInt64 → α → UInt64} {p : α → Bool}
    (h : ∀ r x, (f r x).toNat.testBit b = (r.toNat.testBit b || p x)) (xs : List α) (r : UInt64) :
    (xs.foldl f r).toNat.testBit b = (r.toNat.testBit b || xs.any p) := by
  induction xs generalizing r with
  | nil => simp
  | cons x xs ih => simp [ih,h,Bool.or_assoc]

theorem or_bit_testBit (r : UInt64) {k : ℕ} (hk : k < 64) :
    (r ||| 1 <<< UInt64.ofNat k).toNat.testBit b = (r.toNat.testBit b || decide (k = b)) := by
  have hpow : (1 <<< ofNat k : UInt64).toNat = 2^k := by
    have hlt : 2^k < 2^64 := Nat.pow_lt_pow_right (by decide) hk
    simpa [UInt64.toNat_shiftLeft,Nat.mod_eq_of_lt hk,Nat.shiftLeft_eq] using hlt
  rw [UInt64.toNat_or,hpow,Nat.testBit_or,Nat.testBit_two_pow]

theorem byte_bit (x : UInt8) {k : ℕ} (hk : k < 8) :
    (x >>> UInt8.ofNat k) &&& 1 ≠ 0 ↔ x.toNat.testBit k = true := by
  rw [← UInt8.toNat_inj.ne,UInt8.toNat_and,UInt8.toNat_shiftRight]
  simp [testBit,mod_eq_of_lt (hk.trans (by decide : 8 < 256)),mod_eq_of_lt hk]

theorem word_bit (x : UInt64) {k : ℕ} (hk : k < 64) :
    (x >>> UInt64.ofNat k) &&& 1 ≠ 0 ↔ x.toNat.testBit k = true := by
  rw [← UInt64.toNat_inj.ne,UInt64.toNat_and,UInt64.toNat_shiftRight]
  simp [testBit,mod_eq_of_lt hk]

end

def decodeBit (buf : Bytes) (i : ℕ) (result : UInt64) (bit : ℕ) : UInt64 :=
  if (buf.getD i 0 >>> UInt8.ofNat bit) &&& 1 ≠ 0 then
    let absBit := (buf.length-1-i)*8 + bit
    if absBit < 64 then result ||| 1 <<< ofNat absBit else result
  else result

def decodeFeatures (buf : Bytes) : UInt64 :=
  let kept := buf.take 8
  (range kept.length).foldl (fun result i => (range 8).foldl (decodeBit kept i) result) 0

structure Bolt1Init where
  globalFeatures : UInt64
  localFeatures : UInt64
deriving DecidableEq

def bolt1MsgInit : UInt16 := 16

def bolt1ParseInit (msg : Bytes) : Option Bolt1Init :=
  if msg.length < 6 then none
  else if getU16 msg ≠ bolt1MsgInit then none
  else
    let gflen := (getU16 (msg.drop 2)).toNat
    if msg.length < 4 + gflen+2 then none
    else
      let lflen := (getU16 (msg.drop (4+gflen))).toNat
      if msg.length < 4 + gflen+2 + lflen then none
      else
        some ⟨decodeFeatures ((msg.drop 4).take gflen),
          decodeFeatures ((msg.drop (4 + gflen+2)).take lflen)⟩

def bolt1CheckMandatoryFeatures (peerFeatures knownBits : UInt64) : Bool :=
  (range 32).all (fun k => (peerFeatures >>> ofNat (2*k)) &&& 1 = 0 ||
    (knownBits >>> ofNat (2*k)) &&& 1 ≠ 0)

def wireBit (v : Bytes) (b : ℕ) : Bool := (v.reverse.getD (b/8) 0).toNat.testBit (b % 8)

def initMessage (globals locals rest : Bytes) : Bytes :=
  putU16 bolt1MsgInit ++ (putU16 (UInt16.ofNat globals.length) ++ (globals ++
    (putU16 (UInt16.ofNat locals.length) ++ (locals++rest))))

section

variable {v : Bytes} {b : ℕ} {known : UInt64}

theorem wireBit_eq (h : b/8 < v.length) :
    wireBit v b = (v.getD (v.length-1-b/8) 0).toNat.testBit (b % 8) := by
  simp [wireBit,getD_eq_getElem?_getD,getElem?_reverse h]

theorem wireBit_high (h : v.length ≤ b/8) : wireBit v b = false := by
  simp [wireBit,getD_eq_getElem?_getD,h]

theorem decodeBit_testBit (buf : Bytes) (hb : b < 64) (i : ℕ) (r : UInt64) (bit : ℕ) :
    (decodeBit buf i r bit).toNat.testBit b = (r.toNat.testBit b ||
      (decide ((buf.getD i 0 >>> UInt8.ofNat bit) &&& 1 ≠ 0) &&
        decide ((buf.length-1-i)*8 + bit = b))) := by
  simp only [decodeBit]
  split_ifs with hset hsmall
  · rw [or_bit_testBit r hsmall,decide_eq_true hset,Bool.true_and]
  · simp [show (buf.length-1-i)*8 + bit ≠ b by omega]
  · rw [decide_eq_false hset,Bool.false_and,Bool.or_false]

theorem decodeFeatures_testBit (v : Bytes) (hb : b < 64) :
    (decodeFeatures v).toNat.testBit b = wireBit (v.take 8) b := by
  rw [decodeFeatures,foldl_testBit fun r i => foldl_testBit (decodeBit_testBit _ hb i) _ r]
  generalize v.take 8 = kept
  by_cases hlt : b/8 < kept.length
  · rw [wireBit_eq hlt,Bool.eq_iff_iff]
    simp only [any_eq_true,mem_range,Bool.and_eq_true,decide_eq_true_eq,UInt64.toNat_zero,
      zero_testBit,Bool.false_or]
    constructor
    · rintro ⟨i,hi,bit,hbit,hset,habs⟩
      obtain ⟨rfl,rfl⟩ : i = kept.length - 1 - b / 8 ∧ bit = b % 8 := by omega
      exact (byte_bit _ hbit).mp hset
    · intro hset
      exact ⟨_,by omega,b % 8,by omega,(byte_bit _ (by omega)).mpr hset,by omega⟩
  · rw [wireBit_high (not_lt.mp hlt)]
    simp only [UInt64.toNat_zero,Nat.zero_testBit,Bool.false_or,any_eq_false,mem_range,
      any_eq_true,not_exists,not_and,Bool.and_eq_true,decide_eq_true_eq]
    intro i hi bit hbit hset
    omega

theorem wireBit_last (v : Bytes) (hb : b < 64) : wireBit (v.drop (v.length-8)) b = wireBit v b := by
  simp only [wireBit,reverse_drop,getD_eq_getElem?_getD,getElem?_take]
  split_ifs with h
  · rfl
  · simp [show v.length ≤ b/8 by omega]

theorem eq_of_wireBit {w w' : Bytes} (hlen : w.length = w'.length) (h8 : w.length ≤ 8)
    (h : ∀ b < 64, wireBit w b = wireBit w' b) : w = w' := by
  refine reverse_injective (ext_getElem (by simpa using hlen) fun j hj hj' => ?_)
  simp only [length_reverse] at hj hj'
  refine UInt8.toNat_inj.mp (Bits.low_inj (UInt8.toNat_lt _) (UInt8.toNat_lt _)
    (Bits.low_congr fun k hk => ?_))
  have hbit := h (8*j + k) (by omega)
  simpa [wireBit,show (8*j + k)/8 = j by omega,show (8*j + k) % 8 = k by omega,
    getD_eq_getElem?_getD,hj,hj'] using hbit

theorem check_iff (x : UInt64) : bolt1CheckMandatoryFeatures x known = true ↔
    ∀ b < 64, Even b → x.toNat.testBit b = true → known.toNat.testBit b = true := by
  simp only [bolt1CheckMandatoryFeatures,all_eq_true,mem_range,Bool.or_eq_true,decide_eq_true_eq]
  constructor
  · rintro h b hb ⟨k,rfl⟩ hx
    rw [← two_mul] at hb hx ⊢
    exact (word_bit known hb).mp ((h k (by omega)).resolve_left ((word_bit x hb).mpr hx))
  · intro h k hk
    by_cases hx : (x >>> ofNat (2*k)) &&& 1 = 0
    · exact .inl hx
    · exact .inr ((word_bit known (by omega)).mpr
        (h _ (by omega) (even_two_mul k) ((word_bit x (by omega)).mp hx)))

def ReadsFeatures (known : UInt64) (v : Bytes) (x : UInt64) : Prop :=
  (∀ b < 64, x.toNat.testBit b = wireBit v b) ∧
    ((∃ b, Even b ∧ wireBit v b = true ∧ ¬ (b < 64 ∧ known.toNat.testBit b = true)) →
      bolt1CheckMandatoryFeatures x known = false)

def FitsFeatures (known : UInt64) (v : Bytes) : Prop :=
  v.take 8 = v.drop (v.length-8) ∧ ((∃ b ≥ 64, Even b ∧ wireBit v b = true) →
    ∃ b < 64, Even b ∧ wireBit v b = true ∧ known.toNat.testBit b = false)

theorem readsFeatures_iff : ReadsFeatures known v (decodeFeatures v) ↔ FitsFeatures known v := by
  have hfirst : (∀ b < 64, (decodeFeatures v).toNat.testBit b = wireBit v b) ↔
      v.take 8 = v.drop (v.length-8) := by
    constructor
    · intro h
      refine eq_of_wireBit (by simp; omega) (by simp) fun b hb => ?_
      rw [← decodeFeatures_testBit v hb,h b hb,wireBit_last v hb]
    · intro h b hb
      rw [decodeFeatures_testBit v hb,h,wireBit_last v hb]
  rw [ReadsFeatures,FitsFeatures,← hfirst]
  refine and_congr_right fun h => ?_
  have hcheck : bolt1CheckMandatoryFeatures (decodeFeatures v) known = false ↔
      ∃ b < 64, Even b ∧ wireBit v b = true ∧ known.toNat.testBit b = false := by
    rw [← Bool.not_eq_true,check_iff]
    push Not
    refine exists_congr fun b => and_congr_right fun hb => ?_
    simp [h b hb]
  rw [hcheck]
  constructor
  · rintro hread ⟨b,hge,heven,hset⟩
    exact hread ⟨b,heven,hset,fun hb => absurd hb.1 (not_lt.mpr hge)⟩
  · rintro hfits ⟨b,heven,hset,hunknown⟩
    by_cases hb : b < 64
    · exact ⟨b,hb,heven,hset,by simpa [hb] using hunknown⟩
    · exact hfits ⟨b,not_lt.mp hb,heven,hset⟩

end

section

variable {globals locals : Bytes} {known : UInt64}

theorem parseInit_message (rest : Bytes) (hglobals : globals.length < 2^16)
    (hlocals : locals.length < 2^16) : bolt1ParseInit (initMessage globals locals rest) =
      some ⟨decodeFeatures globals,decodeFeatures locals⟩ := by
  have hmod {n : ℕ} (h : n < 2^16) : (UInt16.ofNat n).toNat = n := UInt16.toNat_ofNat_of_lt' h
  have hlength : (initMessage globals locals rest).length =
      4 + globals.length+2 + locals.length + rest.length := by
    simp [initMessage,putU16]
    omega
  have hfour : (initMessage globals locals rest).drop 4 = globals ++
      (putU16 (UInt16.ofNat locals.length) ++ (locals++rest)) := rfl
  have hmid : (initMessage globals locals rest).drop (4+globals.length) =
      putU16 (UInt16.ofNat locals.length) ++ (locals++rest) := by
    rw [← drop_drop,hfour,drop_left]
  have hlast : (initMessage globals locals rest).drop (4 + globals.length+2) = locals ++ rest := by
    rw [← drop_drop,hmid]
    rfl
  have htype : getU16 (initMessage globals locals rest) = bolt1MsgInit := getU16_putU16 _ _
  have hglen : getU16 ((initMessage globals locals rest).drop 2) = UInt16.ofNat globals.length :=
    getU16_putU16 _ _
  simp only [bolt1ParseInit,htype,hglen,hmod hglobals,hmid,getU16_putU16,hmod hlocals,hlast,
    hfour,take_left,hlength]
  simp [show ¬ 4 + globals.length+2 + locals.length + rest.length < 6 by omega,
    show ¬ 4 + globals.length+2 + locals.length + rest.length < 4 + globals.length+2 by omega]

theorem init_features_iff (known : UInt64) (globals locals rest : Bytes)
    (hglobals : globals.length < 2^16) (hlocals : locals.length < 2^16) :
    ∃ init, bolt1ParseInit (initMessage globals locals rest) = some init ∧
      (ReadsFeatures known globals init.globalFeatures ↔ FitsFeatures known globals) ∧
      (ReadsFeatures known locals init.localFeatures ↔ FitsFeatures known locals) :=
  ⟨_,parseInit_message rest hglobals hlocals,readsFeatures_iff,readsFeatures_iff⟩

theorem init_features_short : ∃ init, bolt1ParseInit (initMessage [] [2,0] []) = some init ∧
    ReadsFeatures 0 [2,0] init.localFeatures := by
  obtain ⟨init,hparse,-,hlocal⟩ := init_features_iff 0 [] [2,0] [] (by decide) (by decide)
  refine ⟨init,hparse,hlocal.mpr ⟨rfl,?_⟩⟩
  rintro ⟨b,hb,-,hset⟩
  simp [wireBit_high (v := [2,0]) (b := b) (by simp; omega)] at hset

theorem ninth_byte_lost :
    ∃ init, bolt1ParseInit (initMessage [] [0,0,0,0,0,0,0,0,1] []) = some init ∧
      init.localFeatures = 0 ∧ wireBit [0,0,0,0,0,0,0,0,1] 0 = true ∧
      bolt1CheckMandatoryFeatures init.localFeatures 0 = true :=
  ⟨⟨0,0⟩,by decide +kernel,rfl,by decide,by decide⟩

end

end SuperScalar
