import SuperScalar.Onion.Codec
import SuperScalar.Onion.Packet
import SuperScalar.Onion.Records

namespace SuperScalar

open List UInt64 Nat

theorem getBe_eq {n : ℕ} {bs : Bytes} {v : UInt64} (hn : n ≤ 8) (hlen : bs.length = n)
    (hbe : beNat bs = v.toNat) (rest : Bytes) : getBe n (bs++rest) = v := by
  apply toNat.inj
  rw [getBe_toNat hn hlen,hbe]

theorem decodeBigsize_put (v : UInt64) (rest : Bytes) :
    decodeBigsize (putBigsize v ++ rest) = some (v,(putBigsize v).length) := by
  unfold putBigsize
  split_ifs with hbyte hword hdouble
  · have hlt : v.toNat < 0xfd := lt_iff_toNat_lt.mp hbyte
    have hfirst : v.toUInt8 < 0xfd := by
      rw [UInt8.lt_iff_toNat_lt,toNat_toUInt8,mod_eq_of_lt (by omega)]
      exact hlt
    have hback : v.toUInt8.toUInt64 = v := by
      apply toNat.inj
      rw [UInt8.toNat_toUInt64,toNat_toUInt8,mod_eq_of_lt (by omega)]
    simp only [cons_append,nil_append,decodeBigsize,if_pos hfirst,hback,length_singleton]
  · have hle : v.toNat ≤ 0xffff := le_iff_toNat_le.mp hword
    have hval : getBe 2 (putU16 v.toUInt16 ++ rest) = v := by
      refine getBe_eq (by decide : 2 ≤ 8) rfl ?_ rest
      rw [beNat_putU16,toNat_toUInt16,mod_eq_of_lt (by omega)]
    have hlen : ¬ (putU16 v.toUInt16 ++ rest).length < 2 := by
      rw [length_append]
      exact not_lt.mpr (le_add_right 2 _)
    simp only [cons_append,decodeBigsize,hval,if_neg hlen]
    rfl
  · have hle : v.toNat ≤ 0xffffffff := le_iff_toNat_le.mp hdouble
    have hval : getBe 4 (putU32 v.toUInt32 ++ rest) = v := by
      refine getBe_eq (by decide : 4 ≤ 8) rfl ?_ rest
      rw [beNat_putU32,toNat_toUInt32,mod_eq_of_lt (by omega)]
    have hlen : ¬ (putU32 v.toUInt32 ++ rest).length < 4 := by
      rw [length_append]
      exact not_lt.mpr (le_add_right 4 _)
    simp only [cons_append,decodeBigsize,hval,if_neg hlen]
    rfl
  · have hval := getBe_eq (le_refl 8) rfl (beNat_putU64 v) rest
    have hlen : ¬ (putU64 v ++ rest).length < 8 := by
      rw [length_append]
      exact not_lt.mpr (le_add_right 8 _)
    simp only [cons_append,decodeBigsize,hval,if_neg hlen]
    rfl

section

variable {pre post value : Bytes} {type : UInt64}

theorem decodeAt_put (v : UInt64) (pre post : Bytes) :
    decodeAt (pre ++ (putBigsize v ++ post)) pre.length = some (v,(putBigsize v).length) := by
  unfold decodeAt
  rw [drop_left,decodeBigsize_put]

theorem header_record :
    Header (pre ++ (tlvRecord type value ++ post)) pre.length type (ofNat value.length)
      (pre.length + (tlvRecord type value).length-value.length) := by
  have hfirst := decodeAt_put type pre (putBigsize (ofNat value.length) ++ (value++post))
  have hsecond := decodeAt_put (ofNat value.length) (pre ++ putBigsize type) (value++post)
  rw [append_assoc,length_append] at hsecond
  unfold tlvRecord
  simp only [append_assoc]
  refine ⟨_,_,hfirst,hsecond,?_⟩
  simp only [length_append]
  omega

theorem slice_record :
    slice (pre ++ (tlvRecord type value ++ post))
      (pre.length + (tlvRecord type value).length-value.length) value.length = some value := by
  have hstart : pre.length + (tlvRecord type value).length-value.length =
      (pre ++ (putBigsize type ++ putBigsize (ofNat value.length))).length := by
    simp only [tlvRecord,length_append]
    omega
  have hsplit : pre ++ (tlvRecord type value ++ post) =
      (pre ++ (putBigsize type ++ putBigsize (ofNat value.length))) ++ (value++post) := by
    simp only [tlvRecord,append_assoc]
  rw [hstart,hsplit]
  unfold slice
  rw [drop_left,take_left,if_pos]
  simp only [length_append]
  omega

def storeRecord (out : OnionHopPayload) (r : UInt64 × Bytes) : OnionHopPayload :=
  (storeHopRecord r.1 (ofNat r.2.length) (fun _ => some r.2) out).getD out

theorem copy_exact {length n : UInt64} {copy : ℕ → Option Bytes} {val : Bytes}
    {f : Bytes → OnionHopPayload} {out : OnionHopPayload}
    (hcopy : copy length.toNat = some val) :
    (if length = n then (copy n.toNat).map f else some out) =
      some ((if length = n then (some val).map f else some out).getD out) := by
  split_ifs with h
  · rw [← h,hcopy]
    rfl
  · rfl

theorem storeHopRecord_copy {length : UInt64} {copy : ℕ → Option Bytes} {val : Bytes}
    (hcopy : copy length.toNat = some val) (out : OnionHopPayload) :
    storeHopRecord type length copy out =
      some ((storeHopRecord type length (fun _ => some val) out).getD out) := by
  unfold storeHopRecord
  by_cases hamt : type = 2
  · simp only [if_pos hamt]
    exact copy_exact hcopy
  by_cases hcltv : type = 4
  · simp only [if_neg hamt,if_pos hcltv]
    exact copy_exact hcopy
  by_cases hdata : type = 8
  · simp only [if_neg hamt,if_neg hcltv,if_pos hdata]
    exact copy_exact hcopy
  by_cases hscid : type = 6
  · simp only [if_neg hamt,if_neg hcltv,if_neg hdata,if_pos hscid]
    exact copy_exact hcopy
  simp only [if_neg hamt,if_neg hcltv,if_neg hdata,if_neg hscid,hcopy]
  split_ifs <;> rfl

theorem hopBody_record (out : OnionHopPayload)
    (hlen : (pre ++ (tlvRecord type value ++ post)).length < 2^63) :
    hopBody (pre ++ (tlvRecord type value ++ post)) ⟨ofNat pre.length,out⟩ =
      .again ⟨ofNat (pre ++ tlvRecord type value).length,storeRecord out (type,value)⟩ := by
  have hpre : (ofNat pre.length).toNat = pre.length := by
    rw [toNat_ofNat',mod_eq_of_lt]
    rw [length_append] at hlen
    omega
  have hrecord : value.length ≤ (tlvRecord type value).length := by
    simp only [tlvRecord,length_append]
    omega
  have hval : (ofNat value.length).toNat = value.length := by
    rw [toNat_ofNat',mod_eq_of_lt]
    simp only [length_append] at hlen
    omega
  have hend : pre.length + (tlvRecord type value).length-value.length + value.length =
      (pre ++ tlvRecord type value).length := by
    rw [length_append]
    omega
  have hfit : (pre ++ tlvRecord type value).length ≤
      (pre ++ (tlvRecord type value ++ post)).length := by
    simp only [length_append]
    omega
  have hmod : (pre ++ tlvRecord type value).length % 2 ^ 64 =
      (pre ++ tlvRecord type value).length := mod_eq_of_lt (by omega)
  have hheader : Header (pre ++ (tlvRecord type value ++ post))
      (TlvScan.off ⟨ofNat pre.length,out⟩).toNat type (ofNat value.length)
      (pre.length + (tlvRecord type value).length-value.length) := by
    rw [show (TlvScan.off ⟨ofNat pre.length,out⟩).toNat = pre.length from hpre]
    exact header_record
  have hslice : slice (pre ++ (tlvRecord type value ++ post))
      (pre.length + (tlvRecord type value).length-value.length)
      (ofNat value.length).toNat = some value := by
    rw [hval]
    exact slice_record
  have hturn : (pre.length + (tlvRecord type value).length-value.length +
      (ofNat value.length).toNat) % 2 ^ 64 ≤
      (pre ++ (tlvRecord type value ++ post)).length := by
    rw [hval,hend,hmod]
    exact hfit
  have hbody : tlvBody decodeAt storeHopRecord (pre ++ (tlvRecord type value ++ post))
      ⟨ofNat pre.length,out⟩ = _ := tlvBody_header hlen hheader hturn
  rw [storeHopRecord_copy hslice,hval,hend,hmod] at hbody
  exact hbody

def encodeRecords (rs : List (UInt64 × Bytes)) : Bytes := rs.flatMap (fun r => tlvRecord r.1 r.2)

theorem hopBody_end (pre : Bytes) (out : OnionHopPayload) :
    hopBody pre ⟨ofNat pre.length,out⟩ = .leave (some out) := by
  unfold hopBody tlvBody
  simp

theorem run_records (rs : List (UInt64 × Bytes)) (pre : Bytes) (out : OnionHopPayload)
    (hlen : (pre ++ encodeRecords rs).length < 2^63) :
    Loop.run (hopBody (pre ++ encodeRecords rs)) (rs.length+1) ⟨ofNat pre.length,out⟩ =
      some (some (rs.foldl storeRecord out)) := by
  induction rs generalizing pre out with
  | nil =>
    rw [show encodeRecords [] = [] from rfl,append_nil,Loop.run,hopBody_end]
    rfl
  | cons r rs ih =>
    obtain ⟨type,value⟩ := r
    have hsplit : encodeRecords ((type,value) :: rs) = tlvRecord type value ++ encodeRecords rs :=
      rfl
    rw [hsplit] at hlen ⊢
    have hrest := ih (pre ++ tlvRecord type value) (storeRecord out (type,value))
    rw [append_assoc] at hrest
    rw [Loop.run,hopBody_record out hlen]
    exact hrest hlen

theorem onionParseTlvPayload_records {rs : List (UInt64 × Bytes)} {turns : ℕ}
    (hlen : (encodeRecords rs).length < 2^63) (hturns : rs.length < turns) :
    onionParseTlvPayload turns (encodeRecords rs) =
      some (some (rs.foldl storeRecord .empty,(rs.foldl storeRecord .empty).complete)) := by
  have hrun := Loop.run_mono (run_records rs [] .empty hlen) hturns
  unfold onionParseTlvPayload
  rw [nil_append] at hrun
  rw [show (0 : UInt64) = ofNat ([] : Bytes).length from rfl,hrun]
  rfl

end

section

variable (hop : OnionHop) (out : OnionHopPayload)

theorem storeRecord_amt (v : UInt64) :
    storeRecord out (2,putU64 v) = { out with amtToForward := some v } := by
  have hval := getU64_putU64 v []
  rw [append_nil] at hval
  change { out with amtToForward := some (getU64 (putU64 v)) } = _
  rw [hval]

theorem storeRecord_cltv (v : UInt32) :
    storeRecord out (4,putU32 v) = { out with outgoingCltvValue := some v } := by
  have hval := getU32_putU32 v []
  rw [append_nil] at hval
  change { out with outgoingCltvValue := some (getU32 (putU32 v)) } = _
  rw [hval]

theorem storeRecord_scid (v : UInt64) :
    storeRecord out (6,putU64 v) = { out with shortChannelId := some v } := by
  have hval := getU64_putU64 v []
  rw [append_nil] at hval
  change { out with shortChannelId := some (getU64 (putU64 v)) } = _
  rw [hval]

theorem copyBytes_append {n : ℕ} (b : Blob n) (rest : Bytes) : copyBytes n (b.val++rest) = b := by
  apply Subtype.ext
  change ((b.val++rest) ++ replicate n 0).take n = b.val
  rw [append_assoc,take_append_of_le_length (le_of_eq b.length_val.symm),
    take_of_length_le (le_of_eq b.length_val)]

theorem storeRecord_data (secret : Blob 32) (total : UInt64) :
    storeRecord out (8,secret.val ++ putU64 total) =
      { out with paymentData := some (secret,total) } := by
  have hlen : (secret.val ++ putU64 total).length = 40 := by
    rw [length_append,secret.length_val]
    rfl
  have hdrop : (secret.val ++ putU64 total).drop 32 = putU64 total := drop_left' secret.length_val
  have hval := getU64_putU64 total []
  rw [append_nil] at hval
  unfold storeRecord
  rw [hlen]
  change { out with paymentData := some (copyBytes 32 (secret.val ++ putU64 total),
    getU64 ((secret.val ++ putU64 total).drop 32)) } = _
  rw [copyBytes_append,hdrop,hval]

def OnionHop.told : OnionHopPayload :=
  { amtToForward := some hop.amountMsat
    outgoingCltvValue := some hop.cltvExpiry
    paymentData := if hop.isFinal then some (hop.paymentSecret,hop.totalMsat) else none
    shortChannelId := if hop.isFinal then none else some hop.shortChannelId
    trampolinePayload := none }

theorem records_told : hop.records.foldl storeRecord .empty = hop.told := by
  unfold OnionHop.records OnionHop.told
  cases hop.isFinal with
  | false =>
    simp only [Bool.false_eq_true,if_false,cons_append,nil_append,foldl_cons,
      foldl_nil,storeRecord_amt,storeRecord_cltv,storeRecord_scid]
    rfl
  | true =>
    simp only [if_true,cons_append,nil_append,foldl_cons,foldl_append,
      storeRecord_amt,storeRecord_cltv,storeRecord_data]
    cases hop.keysendPreimage <;> cases hop.amp <;> rfl

theorem records_length : hop.records.length ≤ 5 := by
  unfold OnionHop.records
  cases hop.isFinal <;> cases hop.keysendPreimage <;> cases hop.amp <;> simp

theorem length_payload : (buildHopPayload hop).length ≤ 167 := by
  unfold buildHopPayload OnionHop.records
  cases hop.isFinal <;> cases hop.keysendPreimage <;> cases hop.amp <;>
    simp [tlvRecord,putBigsize,putU64,putU32,keysendType,AmpShard.bytes]

theorem parse_payload {turns : ℕ} (hturns : 5 < turns) :
    onionParseTlvPayload turns (buildHopPayload hop) = some (some (hop.told,true)) := by
  have hlen : (encodeRecords hop.records).length < 2^63 :=
    lt_of_le_of_lt (length_payload hop) (by decide)
  have hparse := onionParseTlvPayload_records hlen (lt_of_le_of_lt (records_length hop) hturns)
  rw [records_told] at hparse
  exact hparse

end

end SuperScalar
