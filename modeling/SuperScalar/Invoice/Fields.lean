import SuperScalar.Invoice.Bolt11

namespace SuperScalar

open Bits List

-- The five bits of a byte that are written.
def low5 (g : UInt8) : UInt8 := g &&& 0x1f

theorem low5_toNat (g : UInt8) : (low5 g).toNat = g.toNat % 2 ^ 5 := by
  rw [low5,UInt8.toNat_and]
  exact Nat.and_two_pow_sub_one_eq_mod g.toNat 5

theorem low5_lt (g : UInt8) : (low5 g).toNat < 2^5 := by
  rw [low5_toNat]
  exact Nat.mod_lt _ (by norm_num)

theorem low_low5 (g : UInt8) : low (low5 g).toNat 5 = low g.toNat 5 := by
  rw [low5_toNat]
  apply low_congr
  intro i hi
  rw [Nat.testBit_mod_two_pow,decide_eq_true hi,Bool.true_and]

theorem flat_map_low5 (gs : Bytes) : flat 5 (gs.map low5) = flat 5 gs := by
  induction gs with
  | nil => rfl
  | cons _ _ ih => simp only [map_cons,flat_cons,low_low5,ih]

theorem low5_of_small {g : UInt8} (hg : g.toNat < 2^5) : low5 g = g := by
  apply UInt8.toNat_inj.mp
  rw [low5_toNat,Nat.mod_eq_of_lt hg]

theorem map_low5_of_small {gs : Bytes} (hgs : ∀ g ∈ gs, g.toNat < 2^5) : gs.map low5 = gs := by
  conv_rhs => rw [← map_id gs]
  exact map_congr_left fun g hg => low5_of_small (hgs g hg)

def fieldBits (field : UInt8 × Bytes) : List Bool :=
  low field.1.toNat 5 ++ low field.2.length 10 ++ flat 5 field.2

def invoiceBits (inv : Bolt11Invoice) : List Bool :=
  low inv.timestamp.toNat 35 ++ (fieldsOf inv).flatMap fieldBits

theorem writeField_eq (w : BitWriter) (field : UInt8 × Bytes) :
    writeField w field = (fieldBits field).foldl writeBit w := by
  have hlength : low (UInt64.ofNat field.2.length).toNat 10 = low field.2.length 10 := by
    apply low_congr
    intro i hi
    rw [UInt64.toNat_ofNat',Nat.testBit_mod_two_pow,decide_eq_true (by omega),Bool.true_and]
  simp only [writeField,fieldBits,foldl_append,flat,foldl_flatMap,writeBits,hlength]
  rfl

theorem encodeData_eq (inv : Bolt11Invoice) :
    encodeData inv = (invoiceBits inv).foldl writeBit ⟨replicate 4096 0,0⟩ := by
  rw [encodeData,invoiceBits,foldl_append,foldl_flatMap]
  congr 1
  funext w field
  exact writeField_eq w field

theorem length_fieldBits (field : UInt8 × Bytes) :
    (fieldBits field).length = 5*(3+field.2.length) := by
  simp only [fieldBits,length_append,length_low,length_flat]
  omega

theorem length_fields (fields : List (UInt8 × Bytes)) :
    ∃ n, (fields.flatMap fieldBits).length = 5*n ∧ 3*fields.length ≤ n := by
  induction fields with
  | nil => exact ⟨0,rfl,le_rfl⟩
  | cons field _ ih =>
    obtain ⟨n,hn,hle⟩ := ih
    refine ⟨3 + field.2.length + n,?_,?_⟩
    · rw [flatMap_cons,length_append,length_fieldBits,hn]
      omega
    · rw [length_cons]
      omega

theorem blank_holds : (⟨replicate 4096 0,0⟩ : BitWriter).Holds 4096 [] := by
  refine ⟨length_replicate,?_,rfl,rfl⟩
  intro g hg
  rw [eq_of_mem_replicate hg]
  decide

theorem encodeData_groups (inv : Bolt11Invoice) {data : Bytes}
    (hdata : data = (encodeData inv).d5.take (((encodeData inv).off+4)/5))
    (hroom : data.length+104+6 ≤ 4096) :
    flat 5 data = invoiceBits inv ∧ (∀ g ∈ data, g.toNat < 2^5) ∧
      7 + 3*(fieldsOf inv).length ≤ data.length := by
  obtain ⟨n,hn,hfields⟩ := length_fields (fieldsOf inv)
  have hlength : (invoiceBits inv).length = 5*(7+n) := by
    rw [invoiceBits,length_append,length_low,hn]
    omega
  rw [encodeData_eq] at hdata
  by_cases hfull : 5*4096 ≤ (invoiceBits inv).length
  · -- A full buffer leaves no room.
    have hoff := foldl_writeBit_full blank_holds (invoiceBits inv) (Nat.zero_le _)
      (by rwa [length_nil,Nat.zero_add])
    have hd5 : ((invoiceBits inv).foldl writeBit ⟨replicate 4096 0,0⟩).d5.length = 4096 := by
      have hkeep (bits : List Bool) (w : BitWriter) :
          (bits.foldl writeBit w).d5.length = w.d5.length := by
        induction bits generalizing w with
        | nil => rfl
        | cons _ _ ih =>
          rw [foldl_cons,ih,writeBit]
          split_ifs
          · rfl
          · exact length_modify _ _ _
      rw [hkeep,length_replicate]
    rw [hdata,length_take,hoff,hd5] at hroom
    omega
  · have hholds := foldl_writeBit blank_holds (invoiceBits inv)
      (by rw [length_nil]; omega)
    rw [nil_append] at hholds
    have hoff := hholds.off
    have htake : (((invoiceBits inv).foldl writeBit ⟨replicate 4096 0,0⟩).off+4)/5 =
        7 + n := by
      rw [hoff,hlength]
      omega
    rw [htake] at hdata
    refine ⟨?_,?_,?_⟩
    · rw [hdata,flat_take,← hlength,← hoff,hholds.bits]
    · rw [hdata]
      exact fun g hg => hholds.small g (mem_of_mem_take hg)
    · rw [hdata,length_take,hholds.length]
      omega

section

variable {d5 : Bytes} {off : ℕ}

theorem readGroups_stream {gs : Bytes} {rest : List Bool}
    (hbits : (flat 5 d5).drop off = flat 5 gs ++ rest) :
    readGroups d5 gs.length off = (gs.map low5,off + 5*gs.length) := by
  induction gs generalizing off with
  | nil => rfl
  | cons g gs ih =>
    rw [flat_cons,append_assoc] at hbits
    have hbits' : (flat 5 d5).drop off = low (low5 g).toUInt64.toNat 5 ++ (flat 5 gs ++ rest) := by
      rw [hbits]
      exact congrArg (· ++ _) (low_low5 g).symm
    have hread := readBits_eq hbits' (by norm_num) (by exact low5_lt g)
    have hdrop : (flat 5 d5).drop (off+5) = flat 5 gs ++ rest := by
      rw [← drop_drop,hbits,drop_left' (length_low _ _)]
    rw [length_cons,readGroups,hread]
    rw [ih hdrop,map_cons,UInt8.toUInt8_toUInt64]
    exact Prod.ext rfl (by dsimp only; omega)

def applyFields (fields : List (UInt8 × Bytes)) (out : Bolt11Invoice) : Bolt11Invoice :=
  fields.foldl (fun out field => applyField out field.1 (field.2.map low5)) out

theorem parseFields_stream {fields : List (UInt8 × Bytes)} {turns : ℕ} {out : Bolt11Invoice}
    (hbits : (flat 5 d5).drop off = fields.flatMap fieldBits)
    (htags : ∀ field ∈ fields, field.1.toNat < 2^5 ∧ field.2.length ≤ 512)
    (hturns : fields.length ≤ turns) (hoff : off ≤ 5*d5.length) :
    parseFields d5 turns off out = applyFields fields out := by
  have hlength := congrArg length hbits
  rw [length_drop,length_flat] at hlength
  induction fields generalizing off turns out with
  | nil =>
    cases turns with
    | zero => rfl
    | succ =>
      rw [flatMap_nil,length_nil] at hlength
      rw [parseFields,if_pos (by omega)]
      rfl
  | cons field fields ih =>
    obtain ⟨tag,gs⟩ := field
    obtain ⟨htag,hgs⟩ := htags (tag,gs) mem_cons_self
    cases turns with
    | zero => exact absurd hturns (Nat.not_succ_le_zero _)
    | succ =>
      rw [flatMap_cons,length_append,length_fieldBits] at hlength
      dsimp only at hlength htag hgs
      simp only [flatMap_cons,fieldBits,append_assoc] at hbits
      have hgslen : (UInt64.ofNat gs.length).toNat = gs.length := by
        rw [UInt64.toNat_ofNat']
        omega
      have hread := readBits_eq (v := tag.toUInt64) hbits (by norm_num) (by exact htag)
      have hafter : (flat 5 d5).drop (off+5) = low (UInt64.ofNat gs.length).toNat 10 ++
          (flat 5 gs ++ fields.flatMap fieldBits) := by
        rw [← drop_drop,hbits,drop_left' (length_low _ _),hgslen]
      have hread' := readBits_eq hafter (by norm_num) (by rw [hgslen]; omega)
      have hgroups : (flat 5 d5).drop (off+5+10) =
          flat 5 gs ++ fields.flatMap fieldBits := by
        rw [← drop_drop,hafter,drop_left' (length_low _ _)]
      have hnext : (flat 5 d5).drop (off+5+10+5*gs.length) = fields.flatMap fieldBits := by
        rw [← drop_drop,hgroups,drop_left' (length_flat _ _)]
      rw [parseFields,if_neg (by omega),hread]
      dsimp only
      rw [hread']
      rw [hgslen,if_neg (by omega),if_neg (by omega),readGroups_stream hgroups]
      rw [UInt8.toUInt8_toUInt64]
      refine ih hnext (fun field hfield => htags field (mem_cons_of_mem _ hfield))
        (Nat.le_of_succ_le_succ hturns) (by omega) ?_
      rw [← hnext,length_drop,length_flat]

theorem readInvoice_stream {fields : List (UInt8 × Bytes)} {ts : UInt32} {network : Network}
    {amount : UInt64} (hbits : flat 5 d5 = low ts.toNat 35 ++ fields.flatMap fieldBits)
    (htags : ∀ field ∈ fields, field.1.toNat < 2^5 ∧ field.2.length ≤ 512)
    (hlength : fields.length ≤ d5.length) :
    readInvoice network amount d5 = applyFields fields (.blank network amount ts) := by
  have hts : ts.toUInt64.toNat < 2^35 := lt_trans ts.toNat_lt (by norm_num)
  have hread : readBits d5 35 0 0 = (ts.toUInt64,0+35) := readBits_eq hbits (by norm_num) hts
  have hdrop : (flat 5 d5).drop 35 = fields.flatMap fieldBits := by
    rw [hbits,drop_left' (length_low _ _)]
  have htotal := congrArg length hbits
  rw [length_flat,length_append,length_low] at htotal
  rw [readInvoice,hread]
  rw [parseFields_stream hdrop htags hlength (by omega),UInt32.toUInt32_toUInt64]

end

end SuperScalar
