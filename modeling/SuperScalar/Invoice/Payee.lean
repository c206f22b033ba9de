import SuperScalar.Invoice.Bolt11

namespace SuperScalar

open Decimal List Option

section

variable (r : Recovery)

def Authentic (s : Bytes) (out : Bolt11Invoice) : Prop :=
  ∃ hrp d5 key, splitInvoice s = some (hrp,d5) ∧ bech32VerifyChecksum hrp d5 ∧
    recoverPayee r hrp (signedData d5) (signatureGroups d5) = some key ∧
    r.ecPubkeySerialize key = out.payeePubkey

def checksumFits (hrp d5 : Bytes) : Prop :=
  hrp.length * 2 + 1 + (checkedData d5).length+6 ≤ 1024

def AuthenticWhen (s : Bytes) : Prop :=
  ∀ hrp d5 network amount key, splitInvoice s = some (hrp,d5) →
    parseNetwork hrp = some (network,amount) →
    recoverPayee r hrp (signedData d5) (signatureGroups d5) = some key →
    (checksumFits hrp d5 ∨ bech32VerifyChecksum hrp d5) ∧
      ((readInvoice network amount (signedData d5)).payeePubkey.val.head? = some 0 ∨
        (readInvoice network amount (signedData d5)).payeePubkey = r.ecPubkeySerialize key)

def SharesSignature (s s' : Bytes) : Prop :=
  ∃ hrp d5 hrp' d5', splitInvoice s = some (hrp,d5) ∧ splitInvoice s' = some (hrp',d5') ∧
    signatureGroups d5 = signatureGroups d5'

structure SameInvoiceTerms (out out' : Bolt11Invoice) : Prop where
  amount : out.amountMsat = out'.amountMsat
  hash : out.paymentHash = out'.paymentHash
  payee : out.payeePubkey = out'.payeePubkey

def SameSigned (s s' : Bytes) : Prop :=
  ∀ hrp d5 hrp' d5', splitInvoice s = some (hrp,d5) → splitInvoice s' = some (hrp',d5') →
    hrp = hrp' ∧ signedData d5 = signedData d5'

def SignatureBinds (s s' : Bytes) : Prop :=
  ∀ hrp d5 hrp' d5' key key', splitInvoice s = some (hrp,d5) → splitInvoice s' = some (hrp',d5') →
    signatureGroups d5 = signatureGroups d5' →
    recoverPayee r hrp (signedData d5) (signatureGroups d5) = some key →
    recoverPayee r hrp' (signedData d5') (signatureGroups d5') = some key' →
    r.ecPubkeySerialize key = r.ecPubkeySerialize key' →
    hrp ++ signedData d5 = hrp' ++ signedData d5'

end

section

variable {r : Recovery} {s s' hrp d5 : Bytes} {out out' : Bolt11Invoice}

structure Accepted (r : Recovery) (s : Bytes) (out : Bolt11Invoice) (hrp d5 : Bytes)
    (network : Network) (amount : UInt64) (key : Pubkey) : Prop where
  split : splitInvoice s = some (hrp,d5)
  checksum : bech32ChecksumVal hrp (checkedData d5) = packChecksum (d5.drop (d5.length-6))
  parsed : parseNetwork hrp = some (network,amount)
  recovered : recoverPayee r hrp (signedData d5) (signatureGroups d5) = some key
  out : out = if (readInvoice network amount (signedData d5)).payeePubkey.val.head? = some 0 then
      { readInvoice network amount (signedData d5) with payeePubkey := r.ecPubkeySerialize key }
    else readInvoice network amount (signedData d5)

theorem bolt11Decode_accepted (h : bolt11Decode r s = some out) :
    ∃ hrp d5 network amount key, Accepted r s out hrp d5 network amount key := by
  unfold bolt11Decode at h
  split at h
  · cases h
  next hrp d5 hsplit =>
  split at h
  · cases h
  next hchecksum =>
  split at h
  · cases h
  next network amount hnetwork =>
  split at h
  · cases h
  · obtain ⟨key,hkey,hout⟩ := map_eq_some_iff.mp h
    exact ⟨hrp,d5,network,amount,key,hsplit,not_not.mp hchecksum,hnetwork,hkey,hout.symm⟩

variable {c : UInt8} {amount : UInt64} {network : Network} {key : Pubkey}

theorem charsetRev_small {g : UInt8} (h : charsetRev c = some g) : g.toNat < 2^5 := by
  obtain ⟨i,hi,rfl⟩ := map_eq_some_iff.mp h
  have hlt : i < 32 := by
    rw [idxOf?,findIdx?_eq_some_iff_findIdx_eq] at hi
    exact hi.1
  rw [UInt8.toNat_ofNat']
  omega

theorem splitInvoice_small (h : splitInvoice s = some (hrp,d5)) :
    (∀ g ∈ d5, g.toNat < 2^5) ∧ 110 ≤ d5.length := by
  unfold splitInvoice at h
  dsimp only at h
  split at h
  · cases h
  next hbounds =>
    obtain ⟨groups,hgroups,heq⟩ := map_eq_some_iff.mp h
    obtain rfl : groups = d5 := (Prod.mk.inj heq).2
    have hall := (mapM_option_iff _ _ _).mp hgroups
    refine ⟨fun g hg => ?_,?_⟩
    · obtain ⟨i,hi⟩ := mem_iff_getElem?.mp hg
      obtain ⟨c,-,hc⟩ := (Forall₂.flip
        hall).getElem?_left hi
      exact charsetRev_small hc
    · rw [← hall.length_eq]
      omega

theorem split_parts (hlen : 110 ≤ d5.length) :
    checkedData d5 ++ d5.drop (d5.length-6) = d5 ∧ (d5.drop (d5.length-6)).length = 6 := by
  refine ⟨take_append_drop _ d5,?_⟩
  rw [length_drop]
  omega

section

variable (h : Accepted r s out hrp d5 network amount key)

include h

theorem Accepted.verified_iff :
    bech32VerifyChecksum hrp d5 ↔ checksumFits hrp d5 ∨ bech32VerifyChecksum hrp d5 := by
  refine ⟨.inr,fun hor => hor.elim (fun hfits => ?_) id⟩
  obtain ⟨hsmall,hlen⟩ := splitInvoice_small h.split
  obtain ⟨hparts,hsix⟩ := split_parts hlen
  have hverified := (checksum_verified_iff hsix
    (fun g hg => hsmall g (mem_of_mem_drop hg)) hfits).mp h.checksum
  rwa [hparts] at hverified

theorem Accepted.payee_iff :
    r.ecPubkeySerialize key = out.payeePubkey ↔
      (readInvoice network amount (signedData d5)).payeePubkey.val.head? = some 0 ∨
        (readInvoice network amount (signedData d5)).payeePubkey = r.ecPubkeySerialize key := by
  rw [h.out]
  split_ifs with hzero
  · exact iff_of_true rfl (.inl hzero)
  · rw [eq_comm]
    exact ⟨.inr,fun hor => hor.resolve_left hzero⟩

theorem Accepted.authentic_iff : Authentic r s out ↔ AuthenticWhen r s := by
  constructor
  · rintro ⟨hrp',d5',key',hsplit,hverified,hkey,hpayee⟩
    obtain ⟨rfl,rfl⟩ := Prod.mk.inj (mem_unique h.split hsplit)
    obtain rfl := mem_unique h.recovered hkey
    intro hrp' d5' network' amount' key' hsplit' hparsed' hkey'
    obtain ⟨rfl,rfl⟩ := Prod.mk.inj (mem_unique h.split hsplit')
    obtain ⟨rfl,rfl⟩ := Prod.mk.inj (mem_unique h.parsed hparsed')
    obtain rfl := mem_unique h.recovered hkey'
    exact ⟨h.verified_iff.mp hverified,h.payee_iff.mp hpayee⟩
  · intro hwhen
    obtain ⟨hchecksum,hpayee⟩ := hwhen hrp d5 network amount key h.split h.parsed h.recovered
    exact ⟨hrp,d5,key,h.split,h.verified_iff.mpr hchecksum,h.recovered,h.payee_iff.mpr hpayee⟩

end

theorem scaleAmount_chars {n : UInt64} {suffix : Bytes} (h : scaleAmount n suffix = some amount) :
    ∀ c ∈ suffix, 32 ≤ c.toNat := by
  match suffix, h with
  | [], _ => exact nofun
  | [c], h =>
    intro c' hc'
    obtain rfl := mem_singleton.mp hc'
    unfold scaleAmount at h
    dsimp only at h
    split_ifs at h with hm hu hn hp
    · rw [hm]; decide
    · rw [hu]; decide
    · rw [hn]; decide
    · rw [hp]; decide

theorem digit_char (h : isDigit c = true) : 32 ≤ c.toNat := by
  simp only [isDigit,Bool.and_eq_true,decide_eq_true_eq,UInt8.le_iff_toNat_le] at h
  exact le_trans (by decide) h.1

theorem parseNetwork_chars {result : Network × UInt64} (h : parseNetwork hrp = some result) :
    ∀ c ∈ hrp, 32 ≤ c.toNat := by
  unfold parseNetwork at h
  split at h
  · cases h
  next hstart =>
  split at h
  · cases h
  next net hfind =>
    obtain ⟨t,rfl⟩ : lnPrefix <+: hrp := by
      rw [← isPrefixOf_iff_prefix]
      exact Bool.eq_true_of_not_eq_false (not_or.mp hstart).2
    obtain ⟨amt,rfl⟩ : net.name <+: t := by
      have hmatch : matchesNet (lnPrefix++t) net = true := find?_some hfind
      exact isPrefixOf_iff_prefix.mp (Bool.and_eq_true_iff.mp hmatch).1
    have hdrop : (lnPrefix ++ (net.name++amt)).drop (2+net.name.length) = amt := by
      rw [← append_assoc]
      exact drop_left' (by rw [length_append]; rfl)
    have hamt : ∀ c ∈ amt, 32 ≤ c.toNat := by
      dsimp only at h
      rw [hdrop] at h
      split at h
      next hnil =>
        rw [hnil]
        exact nofun
      next =>
        obtain ⟨amount,hamount,-⟩ := map_eq_some_iff.mp h
        intro c hc
        rw [← takeWhile_append_dropWhile (l := amt)] at hc
        rcases mem_append.mp hc with hdigit | hrest
        · exact digit_char (all_eq_true.mp all_takeWhile _ hdigit)
        · exact scaleAmount_chars hamount c hrest
    have hstart : (lnPrefix++net.name).all (fun c => 32 ≤ c.toNat) = true := by
      cases net <;> decide
    intro c hc
    rw [← append_assoc] at hc
    rcases mem_append.mp hc with hc | hc
    · exact of_decide_eq_true (all_eq_true.mp hstart c hc)
    · exact hamt c hc

theorem append_split {xs ys xs' ys' : Bytes} (hx : ∀ c ∈ xs, 32 ≤ c.toNat)
    (hx' : ∀ c ∈ xs', 32 ≤ c.toNat) (hy : ∀ g ∈ ys, g.toNat < 32) (hy' : ∀ g ∈ ys', g.toNat < 32)
    (h : xs ++ ys = xs' ++ ys') : xs = xs' ∧ ys = ys' := by
  have htake (xs ys : Bytes) (hx : ∀ c ∈ xs, 32 ≤ c.toNat) (hy : ∀ g ∈ ys, g.toNat < 32) :
      (xs++ys).takeWhile (fun c => 32 ≤ c.toNat) = xs := by
    rw [takeWhile_append_of_pos fun c hc => decide_eq_true (hx c hc)]
    cases ys with
    | nil => exact append_nil xs
    | cons g =>
      rw [takeWhile_cons_of_neg,append_nil]
      simpa using hy g mem_cons_self
  have hxs : xs = xs' := by rw [← htake xs ys hx hy,h,htake xs' ys' hx' hy']
  exact ⟨hxs,append_cancel_left (hxs ▸ h)⟩

theorem signedData_small (h : splitInvoice s = some (hrp,d5)) :
    ∀ g ∈ signedData d5, g.toNat < 32 := fun g hg =>
  (splitInvoice_small h).1 g (mem_of_mem_take (mem_of_mem_take hg))

theorem sameInvoiceTerms_of_signed {network' : Network} {amount' : UInt64} {key' : Pubkey}
    {hrp' d5' : Bytes} (h : Accepted r s out hrp d5 network amount key)
    (h' : Accepted r s' out' hrp' d5' network' amount' key') (hhrp : hrp = hrp')
    (hdata : signedData d5 = signedData d5') (hsig : signatureGroups d5 = signatureGroups d5') :
    SameInvoiceTerms out out' := by
  subst hhrp
  obtain ⟨rfl,rfl⟩ := Prod.mk.inj (mem_unique h.parsed h'.parsed)
  have hkey := h.recovered
  rw [hdata,hsig] at hkey
  obtain rfl := mem_unique hkey h'.recovered
  have hout := h.out
  rw [hdata] at hout
  obtain rfl := hout.trans h'.out.symm
  exact ⟨rfl,rfl,rfl⟩

end

def invoiceText (hrp data : Bytes) : Bytes :=
  hrp ++ [49] ++ (data ++ checksumGroups (bech32ChecksumVal hrp data)).map charOf

def zeroSignature : Bytes := replicate 104 0

def mainnet : Bytes := [108,110,98,99]

def plainInvoice : Bytes := invoiceText mainnet (replicate 7 0 ++ zeroSignature)

theorem signatureBinds_self (r : Recovery) (s : Bytes) : SignatureBinds r s s := by
  intro hrp d5 hrp' d5' key key' hs hs' _ _ _ _
  obtain ⟨rfl,rfl⟩ := Prod.mk.inj (mem_unique hs hs')
  rfl

def emptyBody : Bytes := replicate 7 0

def forgedInvoice : Bytes :=
  invoiceText mainnet (replicate 7 0 ++ [19,1,21] ++ bytesTo5bit (replicate 33 2) 54 ++
    zeroSignature)

def longInvoice : Bytes :=
  mainnet ++ [49] ++ (replicate 7 0 ++ [0,31,8] ++ replicate 1000 0 ++ zeroSignature ++
    replicate 6 0).map charOf

def dearInvoice : Bytes := invoiceText (mainnet ++ [53]) (replicate 7 0 ++ zeroSignature)

def unauthentic (s : Bytes) (out : Bolt11Invoice) : Bool :=
  (splitInvoice s).all (fun p => bech32Polymod (hrpExpand p.1 ++ p.2) ≠ 1 ||
    (recoverPayee Recovery.sample p.1 (signedData p.2) (signatureGroups p.2)).all (fun key =>
      Recovery.sample.ecPubkeySerialize key ≠ out.payeePubkey))

theorem not_authentic {s : Bytes} {out : Bolt11Invoice} (h : unauthentic s out = true) :
    ¬Authentic Recovery.sample s out := by
  rintro ⟨hrp,d5,key,hsplit,hverified,hkey,hpayee⟩
  simp only [unauthentic,hsplit,all_some,hkey] at h
  rcases (Bool.or_eq_true _ _).mp h with hbad | hbad
  · have hne : bech32Polymod (hrpExpand hrp ++ d5) ≠ 1 := of_decide_eq_true hbad
    exact hne hverified
  · exact absurd hpayee (of_decide_eq_true hbad)

end SuperScalar
