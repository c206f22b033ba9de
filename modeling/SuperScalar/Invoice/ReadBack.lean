import Mathlib.Data.List.TakeWhile
import SuperScalar.Invoice.Fields
import SuperScalar.Onion.Payload

namespace SuperScalar

open Bits List Nat

theorem groupsValue_spec (gs : Bytes) (hgs : ∀ g ∈ gs, g.toNat < 2^5)
    (hlen : 5*gs.length ≤ 64) :
    (groupsValue gs).toNat < 2^(5*gs.length) ∧
      low (groupsValue gs).toNat (5*gs.length) = flat 5 gs := by
  have hfold {v : UInt64} {k : ℕ} (hk : k+5*gs.length ≤ 64) (hv : v.toNat < 2^k) :
      (gs.foldl (fun (v : UInt64) g => v <<< 5 ||| g.toUInt64) v).toNat < 2^(k+5*gs.length) ∧
        low (gs.foldl (fun (v : UInt64) g => v <<< 5 ||| g.toUInt64) v).toNat (k+5*gs.length) =
          low v.toNat k ++ flat 5 gs := by
    clear hlen
    induction gs generalizing v k with
    | nil => exact ⟨hv,(append_nil _).symm⟩
    | cons g gs ih =>
      have hg := hgs g mem_cons_self
      have hor : (v <<< 5 ||| g.toUInt64).toNat = (v.toNat <<< 5 % 2 ^ 64) ||| g.toNat :=
        UInt64.toNat_or _ _
      rw [length_cons] at hk
      obtain ⟨hlt,hlow⟩ := ih (fun x hx => hgs x (mem_cons_of_mem g hx)) (k := k + 5)
        (by omega) (by rw [hor]; exact shl_or_lt hv hg)
      rw [length_cons,show k+5*(gs.length+1) = k+5+5*gs.length by omega]
      refine ⟨hlt,?_⟩
      rw [foldl_cons,hlow,hor,low_shl_or hg (by omega),append_assoc]
      rfl
  have hspec := hfold (v := 0) (k := 0) (by omega) (by decide)
  rw [zero_add] at hspec
  exact hspec

theorem groupsValue_low {gs : Bytes} {n k : ℕ} (hk : k = 5*gs.length) (hlen : k ≤ 64)
    (hbits : flat 5 gs = low n k) : (groupsValue (gs.map low5)).toNat = n % 2 ^ k := by
  obtain ⟨hlt,hlow⟩ := groupsValue_spec (gs.map low5)
    (fun g hg => by obtain ⟨x,-,rfl⟩ := mem_map.mp hg; exact low5_lt x)
    (by rw [length_map]; omega)
  rw [length_map,← hk] at hlt hlow
  rw [flat_map_low5,hbits] at hlow
  refine low_inj hlt (mod_lt _ (by positivity)) (hlow.trans (low_congr fun i hi => ?_))
  rw [testBit_mod_two_pow,decide_eq_true hi,Bool.true_and]

theorem low_byte (x : UInt32) : low x.toUInt8.toNat 5 = low x.toNat 5 := by
  apply low_congr
  intro i hi
  rw [UInt32.toNat_toUInt8,testBit_mod_two_pow,decide_eq_true (by omega),Bool.true_and]

theorem low_masked5 (x : UInt32) : low (x &&& 0x1f).toUInt8.toNat 5 = low x.toNat 5 :=
  (low_masked x rfl (by norm_num)).1

theorem flat_one (x : UInt32) : flat 5 [x.toUInt8] = low x.toNat 5 := by
  rw [flat_cons,flat_nil,append_nil,low_byte]

theorem flat_two (x : UInt32) : flat 5 [(x >>> 5).toUInt8,(x &&& 0x1f).toUInt8] =
    low x.toNat 10 := by
  rw [flat_cons,flat_cons,flat_nil,append_nil,low_byte,low_masked5,low_append _ 5 5]
  rfl

theorem flat_three (x : UInt32) :
    flat 5 [(x >>> 10).toUInt8,((x >>> 5) &&& 0x1f).toUInt8,(x &&& 0x1f).toUInt8] =
      low x.toNat 15 := by
  rw [flat_cons,flat_cons,flat_cons,flat_nil,append_nil,low_byte,low_masked5,low_masked5,
    low_append _ 5 10,low_append _ 5 5]
  rfl

theorem flat_four (x : UInt32) :
    flat 5 [(x >>> 15).toUInt8,((x >>> 10) &&& 0x1f).toUInt8,((x >>> 5) &&& 0x1f).toUInt8,
      (x &&& 0x1f).toUInt8] = low x.toNat 20 := by
  rw [flat_cons,flat_cons,flat_cons,flat_cons,flat_nil,append_nil,low_byte,low_masked5,
    low_masked5,low_masked5,low_append _ 5 15,low_append _ 5 10,low_append _ 5 5]
  rfl

theorem expiry_read (expiry : UInt32) :
    (groupsValue ((expiryGroups expiry).map low5)).toNat = expiry.toNat % 2 ^ 20 := by
  have hlt (k : UInt32) : expiry < k ↔ expiry.toNat < k.toNat := UInt32.lt_iff_toNat_lt
  unfold expiryGroups
  split_ifs with h1 h2 h3
  · rw [groupsValue_low (k := 5) rfl (by norm_num) (flat_one expiry)]
    have hsmall : expiry.toNat < 2^5 := (hlt 32).mp h1
    rw [mod_eq_of_lt hsmall,mod_eq_of_lt (by omega)]
  · rw [groupsValue_low (k := 10) rfl (by norm_num) (flat_two expiry)]
    have hsmall : expiry.toNat < 2^10 := (hlt 1024).mp h2
    rw [mod_eq_of_lt hsmall,mod_eq_of_lt (by omega)]
  · rw [groupsValue_low (k := 15) rfl (by norm_num) (flat_three expiry)]
    have hsmall : expiry.toNat < 2^15 := (hlt 32768).mp h3
    rw [mod_eq_of_lt hsmall,mod_eq_of_lt (by omega)]
  · exact groupsValue_low rfl (by norm_num) (flat_four expiry)

theorem expiry_same_iff (expiry : UInt32) :
    (groupsValue ((expiryGroups expiry).map low5)).toUInt32 = expiry ↔ expiry.toNat < 2^20 := by
  have hread := expiry_read expiry
  have hmod := mod_lt expiry.toNat (show 0 < 2^20 by norm_num)
  rw [← UInt32.toNat_inj,UInt64.toNat_toUInt32,hread,mod_eq_of_lt (by omega)]
  exact ⟨fun h => h ▸ hmod,mod_eq_of_lt⟩

-- How many bits of the final expiry are written.
def cltvBits (clv : Int32) : ℕ := if clv < 32 then 5 else if clv < 1024 then 10 else 15

theorem cltv_read (clv : Int32) :
    (groupsValue ((cltvGroups clv).map low5)).toNat = clv.toUInt32.toNat % 2 ^ cltvBits clv := by
  unfold cltvGroups cltvBits
  split_ifs
  · exact groupsValue_low rfl (by norm_num) (flat_one _)
  · exact groupsValue_low rfl (by norm_num) (flat_two _)
  · exact groupsValue_low rfl (by norm_num) (flat_three _)

theorem cltvBits_le (clv : Int32) : cltvBits clv ≤ 15 := by
  unfold cltvBits
  split_ifs <;> norm_num

theorem lt_cltvBits {clv : Int32} (h : clv.toInt < 2^15) : clv.toInt < 2 ^ cltvBits clv := by
  have hlt (k : Int32) : clv < k ↔ clv.toInt < k.toInt := Int32.lt_iff_toInt_lt
  unfold cltvBits
  split_ifs with h1 h2
  · exact (hlt 32).mp h1
  · exact (hlt 1024).mp h2
  · exact h

theorem toUInt32_toNat_of_nonneg {clv : Int32} (h : 0 ≤ clv.toInt) :
    (clv.toUInt32.toNat : ℤ) = clv.toInt := by
  have heq : clv.toInt = Int.bmod clv.toUInt32.toNat (2^32) := by
    exact BitVec.toInt_eq_toNat_bmod clv.toBitVec
  have hlt := clv.toUInt32.toNat_lt
  rw [Int.bmod] at heq
  split_ifs at heq <;> omega

theorem cltv_same_iff (clv : Int32) :
    Int32.ofNat (groupsValue ((cltvGroups clv).map low5)).toNat = clv ↔
      0 ≤ clv.toInt ∧ clv.toInt < 2^15 := by
  have hread := cltv_read clv
  have hpow : 2 ^ cltvBits clv ≤ 2^15 := Nat.pow_le_pow_right (by norm_num) (cltvBits_le clv)
  have hmod := mod_lt clv.toUInt32.toNat (show 0 < 2 ^ cltvBits clv by positivity)
  have hint : (Int32.ofNat (clv.toUInt32.toNat % 2 ^ cltvBits clv)).toInt =
      (clv.toUInt32.toNat % 2 ^ cltvBits clv : ℕ) := Int32.toInt_ofNat_of_lt (by omega)
  rw [hread,← Int32.toInt_inj,hint]
  constructor
  · intro h
    omega
  · rintro ⟨hnonneg,hsmall⟩
    have hbits := lt_cltvBits hsmall
    have hnat := toUInt32_toNat_of_nonneg hnonneg
    rw [mod_eq_of_lt (by zify; omega),hnat]

theorem length_hopBytes (hop : HopHint) : hop.bytes.length = 51 := by
  unfold HopHint.bytes
  simp only [length_append,hop.pubkey.length_val]
  rfl

theorem readHop_bytes (hop : HopHint) (rest : Bytes) : readHop (hop.bytes++rest) = hop := by
  have hkey := hop.pubkey.length_val
  have hdrop (xs ys : Bytes) {n : ℕ} (h : xs.length = n) : (xs++ys).drop n = ys :=
    drop_left' h
  have hassoc : hop.bytes ++ rest = hop.pubkey.val ++ (putU64 hop.shortChannelId ++
      (putU32 hop.feeBaseMsat ++ (putU32 hop.feePpm ++ (putU16 hop.cltvExpiryDelta ++ rest)))) := by
    simp only [HopHint.bytes,append_assoc]
  have h33 := hdrop hop.pubkey.val (putU64 hop.shortChannelId ++ (putU32 hop.feeBaseMsat ++
    (putU32 hop.feePpm ++ (putU16 hop.cltvExpiryDelta ++ rest)))) hkey
  have h41 : (hop.bytes++rest).drop 41 = putU32 hop.feeBaseMsat ++
      (putU32 hop.feePpm ++ (putU16 hop.cltvExpiryDelta ++ rest)) := by
    rw [hassoc,show 41 = 33+8 from rfl,← drop_drop,h33]
    exact hdrop _ _ rfl
  have h45 : (hop.bytes++rest).drop 45 =
      putU32 hop.feePpm ++ (putU16 hop.cltvExpiryDelta ++ rest) := by
    rw [show 45 = 41+4 from rfl,← drop_drop,h41]
    exact hdrop _ _ rfl
  have h49 : (hop.bytes++rest).drop 49 = putU16 hop.cltvExpiryDelta ++ rest := by
    rw [show 49 = 45+4 from rfl,← drop_drop,h45]
    exact hdrop _ _ rfl
  unfold readHop
  rw [h41,h45,h49,hassoc,h33,copyBytes_append,getU64_putU64,getU32_putU32,getU32_putU32,
    getU16_putU16]

theorem readHops_bytes {hops : List HopHint} {n : ℕ} (hlen : hops.length ≤ n) :
    readHops n (hops.flatMap HopHint.bytes) = hops := by
  induction hops generalizing n with
  | nil =>
    cases n with
    | zero => rfl
    | succ => rfl
  | cons hop _ ih =>
    cases n with
    | zero => exact absurd hlen (not_succ_le_zero _)
    | succ =>
      have hbytes := length_hopBytes hop
      rw [flatMap_cons,readHops,if_pos (by rw [length_append]; omega),readHop_bytes,
        drop_left' hbytes,ih (le_of_succ_le_succ hlen)]

theorem length_hintBytes (hops : List HopHint) :
    (hops.flatMap HopHint.bytes).length = 51*hops.length := by
  induction hops with
  | nil => rfl
  | cons _ _ ih =>
    rw [flatMap_cons,length_append,length_hopBytes,ih,length_cons]
    omega

def hintRead (hint : RouteHint) : RouteHint :=
  if hint.val.length ≤ 6 then hint else ⟨[],by decide⟩

theorem readHint_groups (hint : RouteHint) :
    readHint (fivebitToBytes ((bytesTo5bit (hint.val.flatMap HopHint.bytes) 512).map low5) 512) =
      hintRead hint := by
  have hbytes := length_hintBytes hint.val
  rw [map_low5_of_small (bytesTo5bit_small _ _),hintRead]
  split_ifs with hfits
  · rw [fivebitToBytes_bytesTo5bit (by omega) (by omega)]
    exact Subtype.ext (readHops_bytes hint.property)
  · have hnil : bytesTo5bit (hint.val.flatMap HopHint.bytes) 512 = [] := by
      rw [← length_eq_zero_iff,length_bytesTo5bit,if_neg (by omega)]
    rw [hnil]
    rfl

def hintsRead (hints : List RouteHint) : List RouteHint :=
  (hints.filter (fun hint => hint.val ≠ [])).map hintRead

theorem hintsRead_same_iff (hints : List RouteHint) :
    hintsRead hints = hints ↔ ∀ hint ∈ hints, hint.val ≠ [] ∧ hint.val.length ≤ 6 := by
  constructor
  · intro h
    have hall : hints.filter (fun hint => hint.val ≠ []) = hints := by
      apply filter_sublist.eq_of_length
      conv_rhs => rw [← h,hintsRead,length_map]
    rw [hintsRead,hall] at h
    intro hint hmem
    have hne : hint.val ≠ [] := by
      rw [← hall] at hmem
      exact of_decide_eq_true (mem_filter.mp hmem).2
    refine ⟨hne,?_⟩
    rw [← map_id hints,map_map,map_inj_left] at h
    have hsame : hintRead hint = hint := h hint hmem
    by_contra hlong
    rw [hintRead,if_neg hlong] at hsame
    exact hne (congrArg Subtype.val hsame).symm
  · intro h
    have hall := filter_eq_self.mpr fun hint hmem => decide_eq_true (h hint hmem).1
    rw [hintsRead,hall]
    conv_rhs => rw [← map_id hints]
    exact map_congr_left fun hint hmem => if_pos (h hint hmem).2

section

variable {out : Bolt11Invoice}

theorem applyFields_append (fields more : List (UInt8 × Bytes)) (out : Bolt11Invoice) :
    applyFields (fields++more) out = applyFields more (applyFields fields out) :=
  foldl_append

theorem applyFields_optional (present : Bool) (tag : UInt8) (groups : Bytes) (out : Bolt11Invoice) :
    applyFields (optionalField present tag groups) out =
      if present then applyField out tag (groups.map low5) else out := by
  cases present <;> rfl

theorem blob_field {n cap len : ℕ} (b : Blob n) (hcap : 8*n ≤ 5*cap) (hlen : (8*n+4)/5 = len)
    (set : Blob n → Bolt11Invoice) :
    (if ((bytesTo5bit b.val cap).map low5).length = len then
      fixedField n ((bytesTo5bit b.val cap).map low5) set out else out) = set b := by
  have hb := b.length_val
  have hback : fivebitToBytes ((bytesTo5bit b.val cap).map low5) n = b.val := by
    rw [map_low5_of_small (bytesTo5bit_small _ _)]
    exact fivebitToBytes_bytesTo5bit (by omega) (by omega)
  rw [if_pos (by rw [length_map,length_bytesTo5bit,if_pos (by omega),hb,hlen]),fixedField,
    dif_pos (by rw [hback]; exact hb)]
  exact congrArg set (Subtype.ext hback)

theorem applyField_metadata (m : Metadata) (hne : m.val ≠ []) :
    applyField out 27 ((bytesTo5bit m.val 128).map low5) =
      { out with metadata := m, hasMetadata := true } := by
  have hm := m.property
  have hback : fivebitToBytes ((bytesTo5bit m.val 128).map low5) 64 = m.val := by
    rw [map_low5_of_small (bytesTo5bit_small _ _)]
    exact fivebitToBytes_bytesTo5bit (by omega) hm
  change (if fivebitToBytes ((bytesTo5bit m.val 128).map low5) 64 ≠ [] then _ else _) = _
  rw [hback,if_pos hne,show asMetadata m.val = m from Subtype.ext (take_of_length_le hm)]

theorem applyField_description (d : Description) (hne : d.val ≠ []) (hfits : d.val.length ≤ 320) :
    applyField out 13 ((bytesTo5bit d.val 512).map low5) = { out with description := d } := by
  obtain ⟨hlen,hzero⟩ := d.property
  have hback : fivebitToBytes ((bytesTo5bit d.val 512).map low5) (bolt11MaxDescription-1) =
      d.val := by
    rw [map_low5_of_small (bytesTo5bit_small _ _)]
    exact fivebitToBytes_bytesTo5bit (by omega) (le_sub_one_of_lt hlen)
  have hsame : asDescription d.val = d := by
    apply Subtype.ext
    change (d.val.take (bolt11MaxDescription-1)).takeWhile (· ≠ 0) = d.val
    rw [take_of_length_le (le_sub_one_of_lt hlen),takeWhile_eq_self_iff]
    intro c hc
    exact decide_eq_true fun h => hzero (h ▸ hc)
  change (if fivebitToBytes ((bytesTo5bit d.val 512).map low5) (bolt11MaxDescription-1) ≠ [] then
    _ else _) = _
  rw [hback,if_pos hne,hsame]

theorem applyField_hint (groups : Bytes) : applyField out 3 groups =
    { out with hints := addHint out.hints (readHint (fivebitToBytes groups 512)) } := rfl

theorem addHint_val {hints : RouteHints} (hint : RouteHint)
    (h : hints.val.length < bolt11MaxRouteHints) :
    (addHint hints hint).val = hints.val ++ [hint] := by
  rw [addHint,dif_pos h]

theorem applyFields_hints (hints : List RouteHint) {out : Bolt11Invoice}
    (hroom : out.hints.val.length + hints.length ≤ bolt11MaxRouteHints) :
    ∃ read : RouteHints, read.val = out.hints.val ++ hintsRead hints ∧
      applyFields (hintFields hints) out = { out with hints := read } := by
  induction hints generalizing out with
  | nil => exact ⟨out.hints,(append_nil _).symm,rfl⟩
  | cons hint hints ih =>
    rw [length_cons] at hroom
    have hcons : hintFields (hint :: hints) =
        optionalField (hint.val.flatMap HopHint.bytes ≠ []) 3
          (bytesTo5bit (hint.val.flatMap HopHint.bytes) 512) ++ hintFields hints := rfl
    rw [hcons,applyFields_append,applyFields_optional]
    have hbytes := length_hintBytes hint.val
    by_cases hnil : hint.val = []
    · obtain ⟨read,hread,happly⟩ := ih (show out.hints.val.length + hints.length ≤ _ by omega)
      rw [if_neg (by rw [hnil]; decide)]
      refine ⟨read,hread.trans ?_,happly⟩
      rw [hintsRead,hintsRead,filter_cons_of_neg (by simpa using hnil)]
    · have hne : hint.val.flatMap HopHint.bytes ≠ [] := by
        have hpos := length_pos_iff_ne_nil.mpr hnil
        exact length_pos_iff_ne_nil.mp (by omega)
      have hadd := addHint_val (hintRead hint)
        (show out.hints.val.length < bolt11MaxRouteHints by omega)
      rw [if_pos (decide_eq_true hne),applyField_hint,readHint_groups]
      obtain ⟨read,hread,happly⟩ := ih (show (Bolt11Invoice.hints { out with
        hints := addHint out.hints (hintRead hint) }).val.length + hints.length ≤ _ by
          rw [hadd,length_append,length_singleton]
          omega)
      refine ⟨read,hread.trans ?_,happly⟩
      rw [hadd,append_assoc,hintsRead,hintsRead,filter_cons_of_pos (by simpa using hnil)]
      rfl

theorem applyFields_secret (present : Bool) (b : Blob 32) :
    applyFields (optionalField present 16 (bytesTo5bit b.val 52)) out =
      { out with
        paymentSecret := if present then b else out.paymentSecret
        hasPaymentSecret := present || out.hasPaymentSecret } := by
  rw [applyFields_optional,show applyField out 16 _ = _ from blob_field b (by norm_num) rfl _]
  cases present <;> rfl

theorem applyFields_descriptionHash (present : Bool) (b : Blob 32) :
    applyFields (optionalField present 5 (bytesTo5bit b.val 52)) out =
      { out with
        descriptionHash := if present then b else out.descriptionHash
        hasDescriptionHash := present || out.hasDescriptionHash } := by
  rw [applyFields_optional,show applyField out 5 _ = _ from blob_field b (by norm_num) rfl _]
  cases present <;> rfl

theorem applyFields_metadata (present : Bool) (m : Metadata) :
    applyFields (optionalField (present && m.val ≠ [] && bytesTo5bit m.val 128 ≠ []) 27
        (bytesTo5bit m.val 128)) out =
      { out with
        metadata := if present = true ∧ m.val ≠ [] then m else out.metadata
        hasMetadata := if present = true ∧ m.val ≠ [] then true else out.hasMetadata } := by
  have hm := m.property
  rw [applyFields_optional]
  by_cases hpresent : present = true ∧ m.val ≠ []
  · have hpos := length_pos_iff_ne_nil.mpr hpresent.2
    have hgroups : bytesTo5bit m.val 128 ≠ [] := by
      rw [← length_pos_iff_ne_nil,length_bytesTo5bit,if_pos (by omega)]
      omega
    simp only [if_pos hpresent,applyField_metadata m hpresent.2]
    rw [hpresent.1,decide_eq_true hpresent.2,decide_eq_true hgroups]
    rfl
  · rw [if_neg hpresent,if_neg hpresent,if_neg]
    simp only [Bool.and_eq_true,decide_eq_true_eq]
    exact fun h => hpresent h.1

theorem applyFields_description (hashed : Bool) (d : Description) :
    applyFields (optionalField (d.val ≠ [] && !hashed && bytesTo5bit d.val 512 ≠ []) 13
        (bytesTo5bit d.val 512)) out =
      { out with
        description := if d.val ≠ [] ∧ hashed = false ∧ d.val.length ≤ 320 then d
          else out.description } := by
  have hlength := length_bytesTo5bit d.val 512
  have hgroups (hne : d.val ≠ []) : bytesTo5bit d.val 512 ≠ [] ↔ d.val.length ≤ 320 := by
    have hpos := length_pos_iff_ne_nil.mpr hne
    rw [← length_pos_iff_ne_nil,hlength]
    split_ifs <;> omega
  rw [applyFields_optional]
  by_cases hwritten : d.val ≠ [] ∧ hashed = false ∧ d.val.length ≤ 320
  · obtain ⟨hne,hhashed,hfits⟩ := hwritten
    have hpresent : (decide (d.val ≠ []) && !hashed && decide (bytesTo5bit d.val 512 ≠ [])) =
        true := by
      rw [decide_eq_true hne,hhashed,decide_eq_true ((hgroups hne).mpr hfits)]
      rfl
    rw [if_pos hpresent,if_pos ⟨hne,hhashed,hfits⟩,applyField_description d hne hfits]
  · rw [if_neg hwritten,if_neg]
    simp only [Bool.and_eq_true,decide_eq_true_eq,Bool.not_eq_true']
    exact fun h => hwritten ⟨h.1.1,h.1.2,(hgroups h.1.1).mp h.2⟩

theorem applyFields_unless {α : Type} [DecidableEq α] (a usual : α) (tag : UInt8) (groups : Bytes) :
    applyFields (optionalField (a ≠ usual) tag groups) out =
      if a ≠ usual then applyField out tag (groups.map low5) else out := by
  rw [applyFields_optional]
  simp only [decide_eq_true_eq]

theorem applyFields_expiry (expiry : UInt32) :
    applyFields (optionalField (expiry ≠ 3600) 4 (expiryGroups expiry)) out =
      { out with
        expiry := if expiry ≠ 3600 then (groupsValue ((expiryGroups expiry).map low5)).toUInt32
          else out.expiry } := by
  rw [applyFields_unless]
  split_ifs <;> rfl

theorem applyFields_cltv (clv : Int32) :
    applyFields (optionalField (clv ≠ 18) 6 (cltvGroups clv)) out =
      { out with
        minFinalCltvExpiry :=
          if clv ≠ 18 then Int32.ofNat (groupsValue ((cltvGroups clv).map low5)).toNat
          else out.minFinalCltvExpiry } := by
  rw [applyFields_unless]
  split_ifs <;> rfl

theorem applyFields_payee (present : Bool) (b : Blob 33) :
    applyFields (optionalField present 19 (bytesTo5bit b.val 54)) out =
      { out with payeePubkey := if present then b else out.payeePubkey } := by
  rw [applyFields_optional,show applyField out 19 _ = _ from blob_field b (by norm_num) rfl _]
  cases present <;> rfl

theorem applyFields_paymentHash (b : Blob 32) :
    applyFields [(1,bytesTo5bit b.val 52)] out = { out with paymentHash := b } :=
  blob_field b (by norm_num) rfl _

def plainRead (inv out : Bolt11Invoice) : Bolt11Invoice :=
  { out with
    paymentHash := inv.paymentHash
    paymentSecret := if inv.hasPaymentSecret then inv.paymentSecret else out.paymentSecret
    hasPaymentSecret := inv.hasPaymentSecret || out.hasPaymentSecret
    metadata := if inv.hasMetadata = true ∧ inv.metadata.val ≠ [] then inv.metadata else out.metadata
    hasMetadata := if inv.hasMetadata = true ∧ inv.metadata.val ≠ [] then true else out.hasMetadata
    description := if inv.description.val ≠ [] ∧ inv.hasDescriptionHash = false ∧
      inv.description.val.length ≤ 320 then inv.description else out.description
    descriptionHash := if inv.hasDescriptionHash then inv.descriptionHash else out.descriptionHash
    hasDescriptionHash := inv.hasDescriptionHash || out.hasDescriptionHash
    expiry := if inv.expiry ≠ 3600 then (groupsValue ((expiryGroups inv.expiry).map low5)).toUInt32
      else out.expiry
    minFinalCltvExpiry := if inv.minFinalCltvExpiry ≠ 18 then
        Int32.ofNat (groupsValue ((cltvGroups inv.minFinalCltvExpiry).map low5)).toNat
      else out.minFinalCltvExpiry
    payeePubkey := if decide (inv.payeePubkey.val.head? ≠ some 0) then inv.payeePubkey
      else out.payeePubkey }

theorem applyFields_fieldsOf (inv out : Bolt11Invoice) :
    applyFields (fieldsOf inv) out =
      applyFields (hintFields inv.hints.val) (plainRead inv out) := by
  unfold fieldsOf
  simp only [applyFields_append]
  rw [applyFields_paymentHash,
    applyFields_secret,applyFields_metadata,applyFields_description,applyFields_descriptionHash,
    applyFields_expiry,applyFields_cltv,applyFields_payee]
  rfl

def IsRead (inv out read : Bolt11Invoice) : Prop :=
  ∃ hints : RouteHints, hints.val = out.hints.val ++ hintsRead inv.hints.val ∧
    read = { plainRead inv out with hints := hints }

theorem isRead_fieldsOf (inv out : Bolt11Invoice) (hempty : out.hints.val = []) :
    IsRead inv out (applyFields (fieldsOf inv) out) := by
  have hnone : (plainRead inv out).hints.val = [] := hempty
  obtain ⟨read,hread,happly⟩ := applyFields_hints inv.hints.val
    (show (plainRead inv out).hints.val.length + inv.hints.val.length ≤ _ by
      rw [hnone,length_nil,zero_add]
      exact inv.hints.property)
  exact ⟨read,hread,(applyFields_fieldsOf inv out).trans happly⟩

end

end SuperScalar
