import SuperScalar.Crypto.Secp

namespace SuperScalar

open Bitcoin List UInt64 UInt8 Nat Wire

def txBufWriteU16Le (val : UInt16) : Bytes :=
  [(val &&& 0xff).toUInt8,((val >>> 8) &&& 0xff).toUInt8]

def txBufWriteU32Le (val : UInt32) : Bytes :=
  [(val &&& 0xff).toUInt8,((val >>> 8) &&& 0xff).toUInt8,
    ((val >>> 16) &&& 0xff).toUInt8,((val >>> 24) &&& 0xff).toUInt8]

def txBufWriteU64Le (val : UInt64) : Bytes :=
  (List.range 8).map (fun i => ((val >>> UInt64.ofNat (i*8)) &&& 0xff).toUInt8)

def txBufWriteVarint (val : ℕ) : Bytes :=
  if val < 0xfd then [ofNat val]
  else if val ≤ 0xffff then 0xfd :: txBufWriteU16Le (UInt16.ofNat val)
  else if val ≤ 0xffffffff then 0xfe :: txBufWriteU32Le (UInt32.ofNat val)
  else 0xff :: txBufWriteU64Le (ofNat val)

theorem byte_low (n : ℕ) : UInt8.ofNat (n &&& 255) = UInt8.ofNat n := by
  apply UInt8.toNat_inj.mp
  rw [UInt8.toNat_ofNat',UInt8.toNat_ofNat',show (255 : ℕ) = 2^8-1 from rfl,
    and_two_pow_sub_one_eq_mod,mod_mod]

theorem shifted_byte {b n : ℕ} (h : b = n &&& 255) : UInt8.ofNat b = UInt8.ofNat n := by
  rw [h,byte_low]

theorem u16_byte (v s : UInt16) (hs : s.toNat < 16) :
    ((v >>> s) &&& 0xff).toUInt8 = UInt8.ofNat (v.toNat/2^s.toNat) :=
  shifted_byte (by simp [shiftRight_eq_div_pow,mod_eq_of_lt hs])

theorem u32_byte (v s : UInt32) (hs : s.toNat < 32) :
    ((v >>> s) &&& 0xff).toUInt8 = UInt8.ofNat (v.toNat/2^s.toNat) :=
  shifted_byte (by simp [shiftRight_eq_div_pow,mod_eq_of_lt hs])

theorem u64_byte (v s : UInt64) (hs : s.toNat < 64) :
    ((v >>> s) &&& 0xff).toUInt8 = UInt8.ofNat (v.toNat/2^s.toNat) :=
  shifted_byte (by simp [shiftRight_eq_div_pow,mod_eq_of_lt hs])

theorem txBufWriteU16Le_eq (val : UInt16) : txBufWriteU16Le val = leBytes 2 val.toNat := by
  have h0 := u16_byte val 0 (by decide)
  have h1 := u16_byte val 8 (by decide)
  simp only [UInt16.shiftRight_zero] at h0
  simp [txBufWriteU16Le,leBytes,h0,h1]

theorem txBufWriteU32Le_eq (val : UInt32) : txBufWriteU32Le val = u32.put val := by
  have h0 := u32_byte val 0 (by decide)
  have h1 := u32_byte val 8 (by decide)
  have h2 := u32_byte val 16 (by decide)
  have h3 := u32_byte val 24 (by decide)
  simp only [UInt32.shiftRight_zero] at h0
  simp [txBufWriteU32Le,u32,leBytes,h0,h1,h2,h3,Nat.div_div_eq_div_mul]

theorem txBufWriteU64Le_eq (val : UInt64) : txBufWriteU64Le val = u64.put val := by
  change _ = leBytes 8 val.toNat
  rw [txBufWriteU64Le,leBytes_eq_map]
  apply map_congr_left
  intro i hi
  have hi8 : i < 8 := mem_range.mp hi
  have hs : (UInt64.ofNat (i*8)).toNat = i*8 := by
    rw [UInt64.toNat_ofNat']
    omega
  rw [u64_byte _ _ (by omega),hs,mul_comm,pow_mul]
  norm_num

theorem txBufWriteVarint_eq (val : ℕ) (h : val < 256^8) :
    txBufWriteVarint val = compactSize.put val := by
  change _ = putSize val
  have h2 : val < 0x10000 ↔ val ≤ 0xffff := by omega
  have h4 : val < 0x100000000 ↔ val ≤ 0xffffffff := by omega
  unfold txBufWriteVarint putSize
  simp only [h2,h4]
  split_ifs with c1 c2 c3
  · rfl
  · rw [txBufWriteU16Le_eq,UInt16.toNat_ofNat',mod_eq_of_lt (by omega)]
  · rw [txBufWriteU32Le_eq]
    change 0xfe :: leBytes 4 (UInt32.ofNat val).toNat = _
    rw [UInt32.toNat_ofNat',mod_eq_of_lt (by omega)]
  · rw [txBufWriteU64Le_eq]
    change 0xff :: leBytes 8 (UInt64.ofNat val).toNat = _
    rw [UInt64.toNat_ofNat',Nat.mod_eq_of_lt (by omega)]

structure TxInput where
  prevTxid : Blob 32
  prevVout : UInt32
  nsequence : UInt32
deriving DecidableEq

def TxInput.toTxIn (i : TxInput) : TxIn := ⟨⟨i.prevTxid,i.prevVout⟩,[],i.nsequence⟩

def txBufWriteInput (i : TxInput) : Bytes :=
  i.prevTxid.val ++ txBufWriteU32Le i.prevVout ++ txBufWriteVarint 0 ++
    txBufWriteU32Le i.nsequence

def txBufWriteOutput (o : TxOut) : Bytes :=
  txBufWriteU64Le o.amount ++ txBufWriteVarint o.script.length ++ o.script

def txBufWriteTx (nVersion : UInt32) (inputs : List TxInput) (outputs : List TxOut)
    (nlocktime : UInt32) : Bytes :=
  txBufWriteU32Le nVersion ++ txBufWriteVarint inputs.length ++ inputs.flatMap txBufWriteInput ++
    txBufWriteVarint outputs.length ++ outputs.flatMap txBufWriteOutput ++ txBufWriteU32Le nlocktime

theorem txBufWriteInput_eq (i : TxInput) : txBufWriteInput i = TxIn.wire.put i.toTxIn := by
  simp [txBufWriteInput,txBufWriteU32Le_eq,txBufWriteVarint_eq 0 (by norm_num),TxIn.wire,
    OutPoint.wire,Wire.iso,Wire.pair,Wire.bytes,Wire.raw,TxInput.toTxIn]

theorem txBufWriteOutput_eq (o : TxOut) (h : o.script.length < 256^8) :
    txBufWriteOutput o = TxOut.wire.put o := by
  simp [txBufWriteOutput,txBufWriteU64Le_eq,txBufWriteVarint_eq _ h,TxOut.wire,Wire.iso,
    Wire.pair,Wire.bytes]

theorem txBufWriteTx_eq (nVersion nlocktime : UInt32) (inputs : List TxInput)
    (outputs : List TxOut) (hi : inputs.length < 256^8) (ho : outputs.length < 256^8)
    (hs : ∀ o ∈ outputs, o.script.length < 256^8) :
    txBufWriteTx nVersion inputs outputs nlocktime =
      Tx.serialize ⟨nVersion,inputs.map TxInput.toTxIn,outputs,nlocktime⟩ := by
  have hins : inputs.flatMap txBufWriteInput = TxIn.wire.putMany (inputs.map TxInput.toTxIn) := by
    rw [Wire.putMany,flatMap_map]
    exact flatMap_congr (fun i _ => txBufWriteInput_eq i)
  have houts : outputs.flatMap txBufWriteOutput = TxOut.wire.putMany outputs :=
    flatMap_congr (fun o hmem => txBufWriteOutput_eq o (hs o hmem))
  simp [txBufWriteTx,Tx.serialize,Tx.wire,Wire.iso,Wire.pair,Wire.counted,hins,houts,
    txBufWriteU32Le_eq,txBufWriteVarint_eq _ hi,txBufWriteVarint_eq _ ho]

def reverseBytes (b : Blob 32) : Blob 32 := ⟨b.val.reverse,by simp⟩

section

variable (secp : Secp)

def sha256Double (data : Bytes) : Blob 32 := secp.sha256 (secp.sha256 data).val

def buildUnsignedTxV (fundingTxid : Blob 32) (fundingVout nsequence : UInt32)
    (outputs : List TxOut) (nVersion : UInt32) : Bytes × Blob 32 :=
  let out := txBufWriteTx nVersion [⟨fundingTxid,fundingVout,nsequence⟩] outputs 0
  (out,reverseBytes (sha256Double secp out))

def buildUnsignedTxWithLocktime (fundingTxid : Blob 32) (fundingVout nsequence nlocktime : UInt32)
    (outputs : List TxOut) : Bytes × Blob 32 :=
  let out := txBufWriteTx 2 [⟨fundingTxid,fundingVout,nsequence⟩] outputs nlocktime
  (out,reverseBytes (sha256Double secp out))

def buildUnsignedTx (fundingTxid : Blob 32) (fundingVout nsequence : UInt32)
    (outputs : List TxOut) : Bytes × Blob 32 :=
  buildUnsignedTxWithLocktime secp fundingTxid fundingVout nsequence 0 outputs

end

def finalizeSignedTx (unsignedTx : Bytes) (sig64 : Blob 64) : Bytes :=
  unsignedTx.take 4 ++ [0x00,0x01] ++ (unsignedTx.drop 4).take (unsignedTx.length-8) ++
    txBufWriteVarint 1 ++ txBufWriteVarint 64 ++ sig64.val ++
    unsignedTx.drop (unsignedTx.length-4)

theorem finalizeSignedTx_parts {version body locktime : Bytes} (sig64 : Blob 64)
    (hversion : version.length = 4) (hlocktime : locktime.length = 4) :
    finalizeSignedTx (version++body++locktime) sig64 = version ++ [0x00,0x01] ++ body ++
      txBufWriteVarint 1 ++ txBufWriteVarint 64 ++ sig64.val ++ locktime := by
  have htake : (version++body++locktime).take 4 = version := by
    rw [append_assoc,← hversion,take_left']
    rfl
  have hbody : ((version++body++locktime).drop 4).take
      ((version++body++locktime).length-8) = body := by
    rw [append_assoc,← hversion,drop_left,length_append,length_append,
      hversion,hlocktime,show 4 + (body.length+4)-8 = body.length by omega,take_left]
  have hdrop : (version++body++locktime).drop ((version++body++locktime).length-4) =
      locktime := by
    rw [List.length_append,hlocktime,Nat.add_sub_cancel,List.drop_left]
  rw [finalizeSignedTx,htake,hbody,hdrop]

theorem finalizeSignedTx_serialize (t : Tx) (sig64 : Blob 64) :
    finalizeSignedTx t.serialize sig64 = SegwitTx.serialize ⟨t,[[sig64.val]]⟩ := by
  have hparts : t.serialize = u32.put t.version ++ ((counted TxIn.wire).put t.inputs ++
      (Wire.counted TxOut.wire).put t.outputs) ++ Wire.u32.put t.locktime := by
    simp [Tx.serialize,Tx.wire,Wire.iso,Wire.pair]
  have hword (v : UInt32) : (u32.put v).length = 4 := leBytes_length 4 v.toNat
  rw [hparts,finalizeSignedTx_parts sig64 (hword _) (hword _),SegwitTx.serialize,
    txBufWriteVarint_eq 1 (by norm_num),txBufWriteVarint_eq 64 (by norm_num)]
  simp [putMany,counted,bytes]

end SuperScalar
