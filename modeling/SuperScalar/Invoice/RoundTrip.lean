import SuperScalar.Invoice.ReadBack

namespace SuperScalar

open Bits Decimal List Option UInt32 Nat

def Bolt11Invoice.metadataBytes (inv : Bolt11Invoice) : Bytes :=
  if inv.hasMetadata then inv.metadata.val else []

structure SameInvoice (inv out : Bolt11Invoice) : Prop where
  network : out.network = inv.network
  amount : out.amountMsat = inv.amountMsat
  timestamp : out.timestamp = inv.timestamp
  hash : out.paymentHash = inv.paymentHash
  hasSecret : out.hasPaymentSecret = inv.hasPaymentSecret
  secret : inv.hasPaymentSecret = true → out.paymentSecret = inv.paymentSecret
  hasDescriptionHash : out.hasDescriptionHash = inv.hasDescriptionHash
  description : if inv.hasDescriptionHash then out.descriptionHash = inv.descriptionHash
    else out.description = inv.description
  expiry : out.expiry = inv.expiry
  cltv : out.minFinalCltvExpiry = inv.minFinalCltvExpiry
  features : out.features = inv.features
  metadata : out.metadataBytes = inv.metadataBytes
  hints : out.hints = inv.hints

structure Reproducible (inv : Bolt11Invoice) : Prop where
  network : inv.network ≠ .tb4
  amount : inv.amountMsat = 0 ∨ inv.hasAmount = true ∧ inv.amountMsat.toNat % 100 = 0
  features : inv.features = 0
  expiry : inv.expiry.toNat < 2^20
  cltv : 0 ≤ inv.minFinalCltvExpiry.toInt ∧ inv.minFinalCltvExpiry.toInt < 2^15
  description : inv.hasDescriptionHash = true ∨ inv.description.val.length ≤ 320
  hints : ∀ hint ∈ inv.hints.val, hint.val ≠ [] ∧ hint.val.length ≤ 6

def RecoversOwn (r : Recovery) (nodePrivkey : Blob 32) : Prop :=
  ∀ msg sig, r.signRecoverable msg nodePrivkey = some sig →
    ((r.parseCompact (r.serializeCompact sig).1 ((r.serializeCompact sig).2 &&& 1)).bind
      (r.recover · msg)).isSome = true

theorem charOf_group {g : UInt8} (hg : g.toNat < 2^5) :
    charOf g ≠ 49 ∧ charsetRev (toLower (charOf g)) = some g := by
  have hall : ∀ n < 32, charOf (UInt8.ofNat n) ≠ 49 ∧
      charsetRev (toLower (charOf (UInt8.ofNat n))) = some (UInt8.ofNat n) := by decide
  have hg' := hall g.toNat hg
  rwa [UInt8.ofNat_toNat] at hg'

theorem mapM_charOf {d5 : Bytes} (hd5 : ∀ g ∈ d5, g.toNat < 2^5) :
    (d5.map charOf).mapM (fun c => charsetRev (toLower c)) = some d5 := by
  rw [mapM_option_iff,forall₂_map_left_iff]
  exact forall₂_same.mpr fun g hg => (charOf_group (hd5 g hg)).2

theorem splitInvoice_text {hrp d5 : Bytes} (hd5 : ∀ g ∈ d5, g.toNat < 2^5)
    (hlower : ∀ c ∈ hrp, toLower c = c) (hmin : 4 ≤ hrp.length) (hmax : hrp.length < 128)
    (hlong : 110 ≤ d5.length) (hshort : d5.length ≤ 4096) :
    splitInvoice (hrp ++ [49] ++ d5.map charOf) = some (hrp,d5) := by
  have hreverse : (hrp ++ [49] ++ d5.map charOf).reverse =
      (d5.map charOf).reverse ++ 49 :: hrp.reverse := by
    simp only [reverse_append]
    rfl
  have hchars : ∀ c ∈ (d5.map charOf).reverse, decide (c ≠ 49) = true := by
    intro c hc
    obtain ⟨g,hg,rfl⟩ := mem_map.mp (mem_reverse.mp hc)
    exact decide_eq_true (charOf_group (hd5 g hg)).1
  have htake : ((hrp ++ [49] ++ d5.map charOf).reverse.takeWhile (· ≠ 49)).reverse =
      d5.map charOf := by
    rw [hreverse,takeWhile_append_of_pos hchars,takeWhile_cons_of_neg (by decide),
      append_nil,reverse_reverse]
  have hdrop : (hrp ++ [49] ++ d5.map charOf).reverse.dropWhile (· ≠ 49) = 49 :: hrp.reverse := by
    rw [hreverse,dropWhile_append_of_pos hchars,dropWhile_cons_of_neg (by decide)]
  have hback : (49 :: hrp.reverse : Bytes).tail.reverse.map toLower = hrp := by
    rw [tail_cons,reverse_reverse]
    conv_rhs => rw [← map_id hrp]
    exact map_congr_left hlower
  unfold splitInvoice
  dsimp only
  rw [htake,hdrop,hback,if_neg,mapM_charOf hd5,map_some]
  rw [length_map]
  simp only [reduceCtorEq,false_or]
  omega

section

variable {net : Network} {hasAmount : Bool} {amountMsat : UInt64}

theorem buildHrp_cases (net : Network) (hasAmount : Bool) (amountMsat : UInt64) :
    (hasAmount = true ∧ 0 < amountMsat ∧ buildHrp net hasAmount amountMsat =
        hrpOf net (print (chosenUnit amountMsat).1) (some (chosenUnit amountMsat).2)) ∨
      ¬(hasAmount = true ∧ 0 < amountMsat) ∧
        buildHrp net hasAmount amountMsat = lnPrefix ++ net.name := by
  by_cases h : hasAmount = true ∧ 0 < amountMsat
  · obtain ⟨rfl,hpos⟩ := h
    exact .inl ⟨rfl,hpos,buildHrp_eq hpos⟩
  · refine .inr ⟨h,?_⟩
    rw [buildHrp,if_neg h,append_nil]

theorem chosenUnit_lt (amountMsat : UInt64) : (chosenUnit amountMsat).1 < 2^64 := by
  unfold chosenUnit
  split_ifs <;> exact UInt64.toNat_lt _

theorem length_print_le {n : ℕ} (hn : n < 2^64) : (print n).length ≤ 20 := by
  by_cases hzero : n = 0
  · rw [hzero]
    decide
  · have hpow := pow_print_le hzero
    by_contra hlong
    have hmono : 10^21 ≤ 10^(print n).length := Nat.pow_le_pow_right (by norm_num) (by omega)
    omega

theorem name_bounds (net : Network) : 2 ≤ net.name.length ∧ net.name.length ≤ 4 := by
  cases net <;> decide

theorem length_buildHrp : 4 ≤ (buildHrp net hasAmount amountMsat).length ∧
    (buildHrp net hasAmount amountMsat).length < 128 := by
  have hname := name_bounds net
  have hprefix : lnPrefix.length = 2 := rfl
  rcases buildHrp_cases net hasAmount amountMsat with ⟨-,-,heq⟩ | ⟨-,heq⟩
  · have hdigits := length_print_le (chosenUnit_lt amountMsat)
    have hsuffix : (suffixOf (some (chosenUnit amountMsat).2)).length = 1 := rfl
    simp only [heq,hrpOf,length_append]
    omega
  · rw [heq,length_append]
    omega

theorem toLower_digit {c : UInt8} (hc : isDigit c = true) : toLower c = c := by
  simp only [isDigit,Bool.and_eq_true,decide_eq_true_eq] at hc
  rw [toLower,if_neg]
  rintro ⟨hle,-⟩
  exact absurd (UInt8.le_trans hle hc.2) (by decide)

theorem toLower_buildHrp : ∀ c ∈ buildHrp net hasAmount amountMsat, toLower c = c := by
  have hall : (lnPrefix++net.name).all (fun c => toLower c = c) = true := by cases net <;> decide
  have hstart : ∀ c ∈ lnPrefix ++ net.name, toLower c = c := fun c hc =>
    of_decide_eq_true (all_eq_true.mp hall c hc)
  intro c hc
  rcases buildHrp_cases net hasAmount amountMsat with ⟨-,-,heq⟩ | ⟨-,heq⟩
  · rw [heq] at hc
    rcases mem_append.mp hc with hc | hc
    · exact hstart c hc
    rcases mem_append.mp hc with hc | hc
    · exact toLower_digit (print_isDigit _ c hc)
    · obtain rfl := mem_singleton.mp hc
      cases (chosenUnit amountMsat).2 <;> decide
  · rw [heq] at hc
    exact hstart c hc

theorem parseNetwork_name (net : Network) : parseNetwork (lnPrefix++net.name) =
    some (net.read,if net = .tb4 then 400000000000 else 0) := by
  cases net <;> decide +kernel

theorem parseNetwork_buildHrp (net : Network) (hasAmount : Bool) (amountMsat : UInt64) :
    ∃ amount, parseNetwork (buildHrp net hasAmount amountMsat) = some (net.read,amount) ∧
      (net ≠ .tb4 → (amount = amountMsat ↔
        amountMsat = 0 ∨ hasAmount = true ∧ amountMsat.toNat % 100 = 0)) := by
  rcases buildHrp_cases net hasAmount amountMsat with ⟨rfl,hpos,heq⟩ | ⟨hnone,heq⟩
  · have hds := print_isDigit (chosenUnit amountMsat).1
    have hne := print_ne_nil (chosenUnit amountMsat).1
    have hnat : 0 < amountMsat.toNat := UInt64.lt_iff_toNat_lt.mp hpos
    have hzero : amountMsat ≠ 0 := fun h => absurd (h ▸ hnat) (by decide)
    obtain ⟨⟨network,amount⟩,hparsed,hamount⟩ := map_eq_some_iff.mp
      (parsed_amount net (some (chosenUnit amountMsat).2) hds hne)
    have hread := parseNetwork_hrp net hds hne
      (suffixOf_not_digit (some (chosenUnit amountMsat).2))
    obtain ⟨_,-,hpair⟩ := map_eq_some_iff.mp (hread.symm.trans hparsed)
    obtain rfl := (Prod.mk.inj hpair).1
    refine ⟨amount,by rw [heq,hparsed],fun hnet => ?_⟩
    rw [value_digits_append,if_neg hnet,value_print] at hamount
    rw [← UInt64.toNat_inj,show amount.toNat = _ from hamount,
      computed_printed_iff (chosenUnit_printed hpos) hnat amountMsat.toNat_lt]
    exact ⟨fun h => .inr ⟨rfl,h⟩,fun h => (h.resolve_left hzero).2⟩
  · refine ⟨_,by rw [heq,parseNetwork_name],fun hnet => ?_⟩
    rw [if_neg hnet,eq_comm]
    refine ⟨.inl,fun h => h.elim id fun h => ?_⟩
    by_contra hzero
    refine hnone ⟨h.1,UInt64.lt_iff_toNat_lt.mpr (pos_of_ne_zero fun hnat => hzero ?_)⟩
    exact UInt64.toNat_inj.mp hnat

end

theorem bech32Step_lt (c : UInt32) {v : UInt8} : (bech32Step c v).toNat < 2^30 := by
  have htoggle (p : Prop) [Decidable p] {g : UInt32} (hg : g.toNat < 2^30) :
      (if p then g else 0).toNat < 2^30 := by
    split_ifs
    · exact hg
    · decide
  have hshift : ((c &&& 0x1ffffff) <<< 5).toNat < 2^30 := by
    rw [show ((c &&& 0x1ffffff) <<< 5).toNat = (c &&& 0x1ffffff).toNat <<< 5 % 2 ^ 32 from
      UInt32.toNat_shiftLeft _ 5,UInt32.toNat_and]
    change (c.toNat &&& (2^25-1)) <<< 5 % 2 ^ 32 < 2^30
    rw [and_two_pow_sub_one_eq_mod,shiftLeft_eq]
    have hmod := mod_lt c.toNat (show 0 < 2^25 by norm_num)
    omega
  have hv : v.toUInt32.toNat < 2^30 := lt_trans v.toNat_lt (by norm_num)
  unfold bech32Step bech32Feedback
  simp only [UInt32.toNat_xor]
  refine xor_lt_two_pow (xor_lt_two_pow hshift hv) ?_
  refine xor_lt_two_pow (xor_lt_two_pow (xor_lt_two_pow (xor_lt_two_pow ?_ ?_) ?_)
    ?_) ?_
  all_goals exact htoggle _ (by decide)

theorem bech32ChecksumVal_lt (hrp d5 : Bytes) : (bech32ChecksumVal hrp d5).toNat < 2^30 := by
  unfold bech32ChecksumVal
  split_ifs
  · decide
  · rw [UInt32.toNat_xor,bech32Polymod,List.replicate_succ',← List.append_assoc,foldl_append]
    exact xor_lt_two_pow (bech32Step_lt _) (by decide)

theorem checksumGroups_small (chk : UInt32) : ∀ g ∈ checksumGroups chk, g.toNat < 2^5 := by
  intro g hg
  obtain ⟨j,-,rfl⟩ := mem_map.mp hg
  exact (low_masked _ rfl (by norm_num)).2

theorem flat_checksumGroups (chk : UInt32) : flat 5 (checksumGroups chk) = low chk.toNat 30 := by
  have hgroup (k : ℕ) (hk : k < 32) :
      low ((chk >>> ofNat k) &&& 0x1f).toUInt8.toNat 5 = low (chk.toNat >>> k) 5 := by
    rw [(low_masked _ rfl (by norm_num)).1,low_shr chk hk]
  change low _ 5 ++ (low _ 5 ++ (low _ 5 ++ (low _ 5 ++ (low _ 5 ++ (low _ 5 ++ []))))) = _
  rw [hgroup 25 (by norm_num),hgroup 20 (by norm_num),hgroup 15 (by norm_num),
    hgroup 10 (by norm_num),hgroup 5 (by norm_num),hgroup 0 (by norm_num),append_nil,
    low_append _ 5 25,low_append _ 5 20,low_append _ 5 15,low_append _ 5 10,low_append _ 5 5]
  rfl

theorem packChecksum_groups {chk : UInt32} (hchk : chk.toNat < 2^30) :
    packChecksum (checksumGroups chk) = chk := by
  have hlength : (checksumGroups chk).length = 6 := rfl
  obtain ⟨hlow,hlt⟩ := horner_spec (checksumGroups_small chk) (p := 0) (k := 0)
    (by rw [hlength]; norm_num) (by decide)
  rw [hlength,zero_add,flat_checksumGroups] at hlow
  rw [packChecksum_eq hlength]
  exact UInt32.toNat_inj.mp (low_inj hlt hchk hlow)

section

variable {r : Recovery} {inv out : Bolt11Invoice} {nodePrivkey : Blob 32} {outCap : ℕ} {s : Bytes}

structure EncodedAs (r : Recovery) (inv : Bolt11Invoice) (nodePrivkey : Blob 32) (s : Bytes)
    (data : Bytes) (sig : r.RecSig) : Prop where
  signed : r.signRecoverable (signedHash r (buildHrp inv.network inv.hasAmount inv.amountMsat) data)
    nodePrivkey = some sig
  bits : flat 5 data = invoiceBits inv
  small : ∀ g ∈ data, g.toNat < 2^5
  long : 7+3*(fieldsOf inv).length ≤ data.length
  short : data.length+110 ≤ 4096
  text : s = buildHrp inv.network inv.hasAmount inv.amountMsat ++ [49] ++
    (data ++ bytesTo5bit ((r.serializeCompact sig).1.val ++ [(r.serializeCompact sig).2]) 104 ++
      checksumGroups (bech32ChecksumVal (buildHrp inv.network inv.hasAmount inv.amountMsat)
        (data ++ bytesTo5bit ((r.serializeCompact sig).1.val ++ [(r.serializeCompact sig).2])
          104))).map charOf

theorem bolt11Encode_parts (h : bolt11Encode r inv nodePrivkey outCap = some s) :
    ∃ data sig, EncodedAs r inv nodePrivkey s data sig := by
  unfold bolt11Encode at h
  dsimp only at h
  split at h
  · cases h
  next sig hsig =>
    split at h
    · cases h
    next hroom =>
      split at h
      · cases h
      · obtain ⟨hbits,hsmall,hlong⟩ := encodeData_groups inv rfl (by omega)
        exact ⟨_,sig,hsig,hbits,hsmall,hlong,by omega,(some.inj h).symm⟩

section

variable (compact : Blob 64) (recoveryId : UInt8)

theorem length_compact : (compact.val ++ [recoveryId]).length = 65 := by
  rw [length_append,compact.length_val]
  rfl

theorem length_signature : (bytesTo5bit (compact.val ++ [recoveryId]) 104).length = 104 := by
  rw [length_bytesTo5bit,length_compact]
  rfl

theorem recoverPayee_own (hrp data : Bytes) :
    recoverPayee r hrp data (bytesTo5bit (compact.val ++ [recoveryId]) 104) =
      (r.parseCompact compact (recoveryId &&& 1)).bind
        (r.recover · (signedHash r hrp data)) := by
  have hcompact := compact.length_val
  have hlength := length_compact compact recoveryId
  have hback : fivebitToBytes (bytesTo5bit (compact.val ++ [recoveryId]) 104) 66 =
      compact.val ++ [recoveryId] := fivebitToBytes_bytesTo5bit (by omega) (by omega)
  have hid : (compact.val ++ [recoveryId]).getD 64 0 = recoveryId := by
    rw [getD_eq_getElem?_getD,getElem?_append_right (by omega),hcompact]
    rfl
  unfold recoverPayee
  dsimp only
  rw [hback,hlength,if_neg (by norm_num),copyBytes_append,hid]
  rfl

end

theorem fieldsOf_bounds (inv : Bolt11Invoice) :
    ∀ field ∈ fieldsOf inv, field.1.toNat < 2^5 ∧ field.2.length ≤ 512 := by
  have hoptional (present : Bool) (tag : UInt8) (groups : Bytes) (htag : tag.toNat < 2^5)
      (hgroups : groups.length ≤ 512) :
      ∀ field ∈ optionalField present tag groups, field.1.toNat < 2^5 ∧ field.2.length ≤ 512 := by
    intro field hfield
    unfold optionalField at hfield
    split_ifs at hfield
    · obtain rfl := mem_singleton.mp hfield
      exact ⟨htag,hgroups⟩
    · cases hfield
  have hbytes (input : Bytes) {cap : ℕ} (hcap : cap ≤ 512) :
      (bytesTo5bit input cap).length ≤ 512 := by
    rw [length_bytesTo5bit]
    split_ifs <;> omega
  have hexpiry : (expiryGroups inv.expiry).length ≤ 512 := by
    unfold expiryGroups
    split_ifs <;> simp
  have hcltv : (cltvGroups inv.minFinalCltvExpiry).length ≤ 512 := by
    unfold cltvGroups
    split_ifs <;> simp
  unfold fieldsOf hintFields
  intro field hfield
  simp only [mem_append,mem_singleton,mem_flatMap] at hfield
  rcases hfield with (((((((rfl | h) | h) | h) | h) | h) | h) | h) | ⟨hint,-,h⟩
  · exact ⟨show (1 : UInt8).toNat < 2^5 by decide,hbytes _ (by norm_num)⟩
  · exact hoptional _ _ _ (by decide) (hbytes _ (by norm_num)) field h
  · exact hoptional _ _ _ (by decide) (hbytes _ (by norm_num)) field h
  · exact hoptional _ _ _ (by decide) (hbytes _ (by norm_num)) field h
  · exact hoptional _ _ _ (by decide) (hbytes _ (by norm_num)) field h
  · exact hoptional _ _ _ (by decide) hexpiry field h
  · exact hoptional _ _ _ (by decide) hcltv field h
  · exact hoptional _ _ _ (by decide) (hbytes _ (by norm_num)) field h
  · exact hoptional _ _ _ (by decide) (hbytes _ (by norm_num)) field h

theorem split_groups (data sig5 chk : Bytes) (hsig : sig5.length = 104) (hchk : chk.length = 6) :
    checkedData (data++sig5++chk) = data ++ sig5 ∧
      signedData (data++sig5++chk) = data ∧ signatureGroups (data++sig5++chk) = sig5 ∧
      (data++sig5++chk).drop ((data++sig5++chk).length-6) = chk := by
  have hlength : (data++sig5++chk).length = (data++sig5).length + chk.length :=
    length_append
  have hall : (data++sig5++chk).length-6 = (data++sig5).length := by omega
  have hbody : (data++sig5).length-104 = data.length := by
    rw [length_append]
    omega
  have hchecked : checkedData (data++sig5++chk) = data ++ sig5 := by
    rw [checkedData,hall,take_left]
  refine ⟨hchecked,?_,?_,?_⟩
  · rw [signedData,hchecked,hbody,take_left]
  · rw [signatureGroups,hchecked,hbody,drop_left]
  · rw [hall,drop_left]

theorem bolt11Decode_encoded (h : bolt11Encode r inv nodePrivkey outCap = some s)
    (hrec : RecoversOwn r nodePrivkey) :
    ∃ amount key read, parseNetwork (buildHrp inv.network inv.hasAmount inv.amountMsat) =
        some (inv.network.read,amount) ∧
      IsRead inv (.blank inv.network.read amount inv.timestamp) read ∧
      bolt11Decode r s = some (if read.payeePubkey.val.head? = some 0 then
        { read with payeePubkey := key } else read) := by
  obtain ⟨data,sig,henc⟩ := bolt11Encode_parts h
  obtain ⟨amount,hparsed,-⟩ := parseNetwork_buildHrp inv.network inv.hasAmount inv.amountMsat
  obtain ⟨key,hkey⟩ := isSome_iff_exists.mp (hrec _ _ henc.signed)
  rw [← recoverPayee_own] at hkey
  have hsig := length_signature (r.serializeCompact sig).1 (r.serializeCompact sig).2
  have htext := henc.text
  generalize hhrp : buildHrp inv.network inv.hasAmount inv.amountMsat = hrp at *
  have hsmallSig := bytesTo5bit_small
    ((r.serializeCompact sig).1.val ++ [(r.serializeCompact sig).2]) 104
  generalize bytesTo5bit ((r.serializeCompact sig).1.val ++ [(r.serializeCompact sig).2]) 104 = sig5
    at *
  have hchk : (checksumGroups (bech32ChecksumVal hrp (data++sig5))).length = 6 := rfl
  have hlong := henc.long
  have hshort := henc.short
  obtain ⟨hchecked,hsigned,hsignature,hdrop⟩ := split_groups data sig5 _ hsig hchk
  have hsplit : splitInvoice s = some (hrp,data ++ sig5 ++
      checksumGroups (bech32ChecksumVal hrp (data++sig5))) := by
    rw [htext]
    refine splitInvoice_text ?_ ?_ ?_ ?_ ?_ ?_
    · intro g hg
      rcases mem_append.mp hg with hg | hg
      · rcases mem_append.mp hg with hg | hg
        · exact henc.small g hg
        · exact hsmallSig g hg
      · exact checksumGroups_small _ g hg
    · exact hhrp ▸ toLower_buildHrp
    · exact hhrp ▸ length_buildHrp.1
    · exact hhrp ▸ length_buildHrp.2
    · simp only [length_append]
      omega
    · simp only [length_append]
      omega
  have hread : readInvoice inv.network.read amount data =
      applyFields (fieldsOf inv) (.blank inv.network.read amount inv.timestamp) :=
    readInvoice_stream henc.bits (fieldsOf_bounds inv) (by omega)
  refine ⟨amount,r.ecPubkeySerialize key,_,hparsed,isRead_fieldsOf inv _ rfl,?_⟩
  unfold bolt11Decode
  rw [hsplit]
  dsimp only
  rw [hchecked,hdrop,packChecksum_groups (bech32ChecksumVal_lt _ _),if_neg (not_not.mpr rfl),
    hparsed]
  dsimp only
  rw [if_neg (by rw [length_append]; omega),hsigned,hsignature,hkey,hread]
  rfl

theorem network_read_iff (net : Network) : net.read = net ↔ net ≠ .tb4 := by
  cases net <;> decide

theorem isRead_same_iff {amount : UInt64} {read : Bolt11Invoice}
    (hread : IsRead inv (.blank inv.network.read amount inv.timestamp) read)
    (hamount : inv.network ≠ .tb4 → (amount = inv.amountMsat ↔
      inv.amountMsat = 0 ∨ inv.hasAmount = true ∧ inv.amountMsat.toNat % 100 = 0)) :
    SameInvoice inv read ↔ Reproducible inv := by
  obtain ⟨hints,hread,heq⟩ := hread
  have hexpiry : read.expiry = inv.expiry ↔ inv.expiry.toNat < 2^20 := by
    rw [heq]
    dsimp only [plainRead]
    split_ifs with h
    · exact expiry_same_iff inv.expiry
    · rw [not_not.mp h]
      exact iff_of_true rfl (by decide)
  have hcltv : read.minFinalCltvExpiry = inv.minFinalCltvExpiry ↔
      0 ≤ inv.minFinalCltvExpiry.toInt ∧ inv.minFinalCltvExpiry.toInt < 2^15 := by
    rw [heq]
    dsimp only [plainRead]
    split_ifs with h
    · exact cltv_same_iff inv.minFinalCltvExpiry
    · rw [not_not.mp h]
      exact iff_of_true rfl (by decide)
  have hhints : read.hints = inv.hints ↔
      ∀ hint ∈ inv.hints.val, hint.val ≠ [] ∧ hint.val.length ≤ 6 := by
    rw [← hintsRead_same_iff,← Subtype.val_inj,heq]
    exact hread ▸ Iff.rfl
  have hdescription (hplain : inv.hasDescriptionHash = false) :
      read.description = inv.description ↔ inv.description.val.length ≤ 320 := by
    rw [heq]
    dsimp only [plainRead]
    split_ifs with h
    · exact iff_of_true rfl h.2.2
    · constructor
      · intro hblank
        rw [← hblank]
        exact zero_le _
      · intro hfits
        have hnil : inv.description.val = [] := by
          by_contra hne
          exact h ⟨hne,hplain,hfits⟩
        exact Subtype.ext hnil.symm
  have hmetadata : read.metadataBytes = inv.metadataBytes := by
    rw [heq]
    dsimp only [plainRead,Bolt11Invoice.metadataBytes]
    by_cases h : inv.hasMetadata = true ∧ inv.metadata.val ≠ []
    · simp only [if_pos h,if_pos h.1]
      rfl
    · simp only [if_neg h]
      by_cases hhas : inv.hasMetadata = true
      · rw [if_pos hhas,not_not.mp (not_and.mp h hhas)]
        rfl
      · rw [if_neg hhas]
        rfl
  constructor
  · intro hsame
    have hplain := hsame
    rw [heq] at hplain
    have hnet := (network_read_iff _).mp hplain.network
    exact {
      network := hnet
      amount := (hamount hnet).mp hplain.amount
      features := hplain.features.symm
      expiry := hexpiry.mp hsame.expiry
      cltv := hcltv.mp hsame.cltv
      description := by
        cases hhashed : inv.hasDescriptionHash with
        | true => exact .inl rfl
        | false =>
          have hsame := hsame.description
          rw [hhashed] at hsame
          exact .inr ((hdescription hhashed).mp hsame)
      hints := hhints.mp hsame.hints }
  · intro h
    exact {
      network := heq ▸ (network_read_iff _).mpr h.network
      amount := heq ▸ (hamount h.network).mpr h.amount
      timestamp := heq ▸ rfl
      hash := heq ▸ rfl
      hasSecret := heq ▸ Bool.or_false _
      secret := fun hhas => heq ▸ if_pos hhas
      hasDescriptionHash := heq ▸ Bool.or_false _
      description := by
        split_ifs with hhashed
        · exact heq ▸ if_pos hhashed
        · exact (hdescription (Bool.eq_false_iff.mpr hhashed)).mpr
            (h.description.resolve_left hhashed)
      expiry := hexpiry.mpr h.expiry
      cltv := hcltv.mpr h.cltv
      features := heq ▸ h.features.symm
      metadata := hmetadata
      hints := hhints.mpr h.hints }

theorem sameInvoice_payee (key : Blob 33) :
    SameInvoice inv (if out.payeePubkey.val.head? = some 0 then { out with payeePubkey := key }
      else out) ↔ SameInvoice inv out := by
  split_ifs
  · exact ⟨fun h => { h with },fun h => { h with }⟩
  · exact Iff.rfl

theorem bolt11_roundTrip_iff (r : Recovery) (inv : Bolt11Invoice) (nodePrivkey : Blob 32)
    (outCap : ℕ) (s : Bytes) (h : bolt11Encode r inv nodePrivkey outCap = some s)
    (hrec : RecoversOwn r nodePrivkey) :
    (∃ out, bolt11Decode r s = some out ∧ SameInvoice inv out) ↔ Reproducible inv := by
  obtain ⟨amount,key,read,hparsed,hread,hdecode⟩ := bolt11Decode_encoded h hrec
  obtain ⟨amount',hparsed',hamount⟩ :=
    parseNetwork_buildHrp inv.network inv.hasAmount inv.amountMsat
  obtain rfl := (Prod.mk.inj (mem_unique hparsed hparsed')).2
  rw [← isRead_same_iff hread hamount,← sameInvoice_payee key]
  constructor
  · rintro ⟨out,hout,hsame⟩
    obtain rfl := mem_unique hdecode hout
    exact hsame
  · exact fun hsame => ⟨_,hdecode,hsame⟩

end

theorem recoversOwn_sample (nodePrivkey : Blob 32) : RecoversOwn Recovery.sample nodePrivkey :=
  fun _ _ _ => rfl

def cafeInvoice : Bolt11Invoice :=
  { Bolt11Invoice.blank .bc 2500000 1700000000 with hasPaymentSecret := true, hasAmount := true }

theorem cafeInvoice_roundTrips :
    ∃ s out, bolt11Encode Recovery.sample cafeInvoice (Blob.zero 32) 1024 = some s ∧
      bolt11Decode Recovery.sample s = some out ∧ SameInvoice cafeInvoice out := by
  have hsome : (bolt11Encode Recovery.sample cafeInvoice (Blob.zero 32) 1024).isSome = true := by
    decide +kernel
  obtain ⟨s,hs⟩ := isSome_iff_exists.mp hsome
  obtain ⟨out,hout,hsame⟩ := (bolt11_roundTrip_iff Recovery.sample cafeInvoice (Blob.zero 32) 1024
    s hs (recoversOwn_sample _)).mpr {
      network := by decide
      amount := .inr (by decide)
      features := rfl
      expiry := by decide
      cltv := by decide
      description := .inr (by decide)
      hints := nofun }
  exact ⟨s,out,hs,hout,hsame⟩

def monthInvoice : Bolt11Invoice :=
  { cafeInvoice with features := 0x4100, expiry := 2592000 }

theorem monthInvoice_changed :
    ∃ s out, bolt11Encode Recovery.sample monthInvoice (Blob.zero 32) 1024 = some s ∧
      bolt11Decode Recovery.sample s = some out ∧ out.features = 0 ∧ out.expiry = 494848 ∧
      ¬SameInvoice monthInvoice out := by
  have hsome : (bolt11Encode Recovery.sample monthInvoice (Blob.zero 32) 1024).isSome = true := by
    decide +kernel
  obtain ⟨s,hs⟩ := isSome_iff_exists.mp hsome
  obtain ⟨amount,key,read,-,hread,hdecode⟩ := bolt11Decode_encoded hs (recoversOwn_sample _)
  have hgroups : (groupsValue ((expiryGroups 2592000).map low5)).toUInt32 = 494848 := by decide
  obtain ⟨hints,-,heq⟩ := hread
  have hexpiry : read.expiry = 494848 := by
    rw [heq]
    dsimp only [plainRead]
    rw [if_pos (show monthInvoice.expiry ≠ 3600 by decide)]
    exact hgroups
  have hzero : read.features = 0 := by
    rw [heq]
    rfl
  refine ⟨s,_,hs,hdecode,?_,?_,fun hsame => ?_⟩
  · split_ifs <;> exact hzero
  · split_ifs <;> exact hexpiry
  · have hfeatures := ((sameInvoice_payee key).mp hsame).features
    exact absurd (hzero.symm.trans hfeatures) (show (0 : UInt16) ≠ 0x4100 by decide)

end SuperScalar
