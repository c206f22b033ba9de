import SuperScalar.Onion.Tlv

namespace SuperScalar

open Option UInt64 Nat

-- The type and length of the record at offset `o`, and where its value starts.
def Header (payload : Bytes) (o : ℕ) (type length : UInt64) (start : ℕ) : Prop :=
  ∃ n k, decodeAt payload o = some (type,n) ∧ decodeAt payload (o+n) = some (length,k) ∧
    start = o + n + k

def Contained (payload : Bytes) (type : UInt64) (value : Bytes) : Prop :=
  ∃ o length start, Header payload o type length start ∧
    slice payload start length.toNat = some value

-- The offsets at which a scan looks for a record; sums are taken modulo 2^64.
inductive Stands (payload : Bytes) : ℕ → Prop
  | start : Stands payload 0
  | next (o : ℕ) (type length : UInt64) (start : ℕ) (h : Stands payload o)
      (hheader : Header payload o type length start)
      (hfits : (start+length.toNat) % 2 ^ 64 ≤ payload.length) :
      Stands payload ((start+length.toNat) % 2 ^ 64)

-- A length with which the offset, added modulo 2^64, does not get past the record's own start.
def TakesBack (payload : Bytes) (o : ℕ) : Prop :=
  ∃ type length start, Header payload o type length start ∧ 2^64 ≤ start + length.toNat ∧
    start + length.toNat ≤ 2^64 + o

structure ScanSound {σ : Type} (body : TlvScan σ → Loop.Turn (TlvScan σ) (Option σ)) (first : σ)
    (Reported : σ → Prop) : Prop where
  advances : ∀ s s', Loop.Reaches body ⟨0,first⟩ s → body s = .again s' → s.off < s'.off
  returns : ∃ fuel out, Loop.run body fuel ⟨0,first⟩ = some (some out)
  reported : ∀ fuel out, Loop.run body fuel ⟨0,first⟩ = some (some out) → Reported out

structure HopReported (payload : Bytes) (out : OnionHopPayload) : Prop where
  amt : ∀ v, out.amtToForward = some v →
    ∃ val, Contained payload 2 val ∧ val.length = 8 ∧ v = getU64 val
  cltv : ∀ v, out.outgoingCltvValue = some v →
    ∃ val, Contained payload 4 val ∧ val.length = 4 ∧ v = getU32 val
  paymentData : ∀ v, out.paymentData = some v → ∃ val, Contained payload 8 val ∧
    val.length = 40 ∧ v = (copyBytes 32 val,getU64 (val.drop 32))
  scid : ∀ v, out.shortChannelId = some v →
    ∃ val, Contained payload 6 val ∧ val.length = 8 ∧ v = getU64 val
  trampoline : ∀ v, out.trampolinePayload = some v → Contained payload 0x0c v

structure RelayReported (payload : Bytes) (out : OnionMsgRecords) : Prop where
  nextNode : ∀ v, out.nextNodeId = some v →
    ∃ val, Contained payload onionMsgRelayTlvNextNode val ∧ val.length = 33 ∧ v = copyBytes 33 val
  innerPkt : ∀ v, out.innerPkt = some v → Contained payload onionMsgRelayTlvInnerPkt v
  appData : ∀ v, out.appData = some v → Contained payload v.1 v.2

section

variable {payload buf : Bytes} {v : UInt64} {n o : ℕ}

theorem decodeBigsize_bounds (h : decodeBigsize buf = some (v,n)) : 0 < n ∧ n ≤ buf.length := by
  cases buf with
  | nil => cases h
  | cons =>
    unfold decodeBigsize at h
    dsimp only at h
    rw [List.length_cons]
    split_ifs at h with _ _ h2 _ h4 h8 <;>
      obtain ⟨-,rfl⟩ := Prod.mk.inj (some.inj h) <;> omega

theorem decodeAt_bounds (h : decodeAt payload o = some (v,n)) : 0 < n ∧ o + n ≤ payload.length := by
  obtain ⟨hpos,hle⟩ := decodeBigsize_bounds h
  rw [List.length_drop] at hle
  omega

theorem readBigsize_eq (payload : Bytes) (o : ℕ) : readBigsize payload o = decodeAt payload o := by
  unfold readBigsize decodeAt
  split_ifs with hpast
  · rw [List.drop_eq_nil_of_le hpast]
    rfl
  · rfl

theorem Header.bounds {type length : UInt64} {start : ℕ} (h : Header payload o type length start) :
    o < start ∧ start ≤ payload.length := by
  obtain ⟨n,k,hn,hk,rfl⟩ := h
  have hfirst := decodeAt_bounds hn
  have hsecond := decodeAt_bounds hk
  omega

end

section

variable {σ : Type} {payload : Bytes} {store : UInt64 → UInt64 → (ℕ → Option Bytes) → σ → Option σ}
  {s s' : TlvScan σ} {type length : UInt64} {start : ℕ}

variable (hlen : payload.length < 2^63)

include hlen

theorem add_ofNat {off : UInt64} {n : ℕ}
    (h : off.toNat + n ≤ payload.length) : (off + UInt64.ofNat n).toNat = off.toNat + n := by
  rw [UInt64.toNat_add,UInt64.toNat_ofNat',Nat.add_mod_mod,Nat.mod_eq_of_lt (by omega)]

theorem tlvBody_header
    (hheader : Header payload s.off.toNat type length start)
    (hfits : (start+length.toNat) % 2 ^ 64 ≤ payload.length) :
    tlvBody decodeAt store payload s =
      match store type length (slice payload start) s.out with
      | none => .leave none
      | some out => .again ⟨ofNat ((start+length.toNat) % 2 ^ 64),out⟩ := by
  obtain ⟨n,k,hn,hk,rfl⟩ := hheader
  have hfirst := decodeAt_bounds hn
  have hsecond := decodeAt_bounds hk
  have hoff := add_ofNat hlen hfirst.2
  have hoff' : (s.off + ofNat n + ofNat k).toNat = s.off.toNat + n + k := by
    rw [← hoff] at hsecond ⊢
    exact add_ofNat hlen hsecond.2
  have hlt : s.off < ofNat payload.length := by
    rw [lt_iff_toNat_lt,toNat_ofNat',mod_eq_of_lt (by omega)]
    omega
  have hsum : (s.off + ofNat n + ofNat k + length).toNat =
      (s.off.toNat+n+k+length.toNat) % 2 ^ 64 := by
    rw [UInt64.toNat_add,hoff']
  have hgo : ¬ s.off + ofNat n + ofNat k + length > ofNat payload.length := by
    rw [gt_iff_lt,lt_iff_toNat_lt,hsum,toNat_ofNat',mod_eq_of_lt (by omega),not_lt]
    exact hfits
  unfold tlvBody
  rw [if_pos hlt,hn]
  dsimp only
  rw [hoff,hk]
  dsimp only
  rw [if_neg hgo,hoff']
  cases store type length (slice payload (s.off.toNat+n+k)) s.out with
  | none => rfl
  | some =>
    rw [← hsum,UInt64.ofNat_toNat]

theorem tlvBody_leave
    (h : ∀ type length start, Header payload s.off.toNat type length start →
      ¬ (start+length.toNat) % 2 ^ 64 ≤ payload.length) :
    tlvBody decodeAt store payload s = .leave (some s.out) := by
  unfold tlvBody
  dsimp only
  split_ifs with hlt
  · cases hn : decodeAt payload s.off.toNat with
    | none => rfl
    | some first =>
      obtain ⟨type,n⟩ := first
      have hfirst := decodeAt_bounds hn
      have hoff := add_ofNat hlen hfirst.2
      dsimp only
      rw [hoff]
      cases hk : decodeAt payload (s.off.toNat+n) with
      | none => rfl
      | some second =>
        obtain ⟨length,k⟩ := second
        have hsecond := decodeAt_bounds hk
        have hoff' : (s.off + ofNat n + ofNat k).toNat = s.off.toNat + n + k := by
          rw [← hoff] at hsecond ⊢
          exact add_ofNat hlen hsecond.2
        refine if_pos ?_
        rw [gt_iff_lt,UInt64.lt_iff_toNat_lt,UInt64.toNat_add,hoff',UInt64.toNat_ofNat',
          mod_eq_of_lt (by omega : payload.length < 2^64)]
        exact not_le.mp (h type length _ ⟨n,k,hn,hk,rfl⟩)
  · rfl

end

section

variable {σ : Type} {payload : Bytes} {store : UInt64 → UInt64 → (ℕ → Option Bytes) → σ → Option σ}
  {Reported : σ → Prop} {first : σ}

def Stores (payload : Bytes) (store : UInt64 → UInt64 → (ℕ → Option Bytes) → σ → Option σ)
    (Reported : σ → Prop) : Prop :=
  ∀ o type length start out, Header payload o type length start →
    (start + length.toNat ≤ payload.length ∨ 2^63 ≤ length.toNat) → Reported out →
    ∃ out', store type length (slice payload start) out = some out' ∧ Reported out'

structure ScanInv (payload : Bytes) (Reported : σ → Prop) (s : TlvScan σ) : Prop where
  stands : Stands payload s.off.toNat
  inside : s.off.toNat ≤ payload.length
  reported : Reported s.out

theorem ScanInv.record (hlen : payload.length < 2^63) (hstore : Stores payload store Reported)
    {s : TlvScan σ} (h : ScanInv payload Reported s) {type length : UInt64} {start : ℕ}
    (hheader : Header payload s.off.toNat type length start)
    (hfits : (start+length.toNat) % 2 ^ 64 ≤ payload.length) :
    ∃ s', tlvBody decodeAt store payload s = .again s' ∧
      s'.off.toNat = (start+length.toNat) % 2 ^ 64 ∧ ScanInv payload Reported s' := by
  have hbounds := hheader.bounds
  have hsize := length.toNat_lt
  have hcopy : start + length.toNat ≤ payload.length ∨ 2^63 ≤ length.toNat := by
    rcases lt_or_ge (start + length.toNat) (2 ^ 64) with hlt | hge
    · rw [mod_eq_of_lt hlt] at hfits
      exact .inl hfits
    · omega
  obtain ⟨out,hout,hreported⟩ := hstore _ type length start s.out hheader hcopy h.reported
  have hbody : tlvBody decodeAt store payload s = _ := tlvBody_header hlen hheader hfits
  rw [hout] at hbody
  have hoff : (ofNat ((start+length.toNat) % 2 ^ 64)).toNat =
      (start+length.toNat) % 2 ^ 64 := by
    rw [toNat_ofNat',mod_mod]
  refine ⟨_,hbody,hoff,?_,?_,hreported⟩
  · rw [hoff]
    exact .next _ type length start h.stands hheader hfits
  · rw [hoff]
    exact hfits

theorem ScanInv.turn (hlen : payload.length < 2^63) (hstore : Stores payload store Reported)
    {s : TlvScan σ} (h : ScanInv payload Reported s) :
    tlvBody decodeAt store payload s = .leave (some s.out) ∨
      ∃ type length start s', Header payload s.off.toNat type length start ∧
        (start+length.toNat) % 2 ^ 64 ≤ payload.length ∧
        tlvBody decodeAt store payload s = .again s' ∧
        s'.off.toNat = (start+length.toNat) % 2 ^ 64 ∧ ScanInv payload Reported s' := by
  by_cases hrecord : ∃ type length start, Header payload s.off.toNat type length start ∧
      (start+length.toNat) % 2 ^ 64 ≤ payload.length
  · obtain ⟨type,length,start,hheader,hfits⟩ := hrecord
    obtain ⟨s',hbody,hoff,hs'⟩ := h.record hlen hstore hheader hfits
    exact .inr ⟨type,length,start,s',hheader,hfits,hbody,hoff,hs'⟩
  · refine .inl (tlvBody_leave hlen fun type length start hheader hfits => ?_)
    exact hrecord ⟨type,length,start,hheader,hfits⟩

theorem ScanInv.start (hfirst : Reported first) : ScanInv payload Reported ⟨0,first⟩ :=
  ⟨.start,zero_le _,hfirst⟩

variable (hlen : payload.length < 2^63)

include hlen

variable (hstore : Stores payload store Reported)

include hstore

variable (hfirst : Reported first)

include hfirst

theorem scanInv_reached {s : TlvScan σ}
    (h : Loop.Reaches (tlvBody decodeAt store payload) ⟨0,first⟩ s) :
    ScanInv payload Reported s := by
  refine h.invariant (fun s s' hs hbody => ?_) (ScanInv.start hfirst)
  rcases hs.turn hlen hstore with hleave | ⟨_,_,_,t,-,-,hagain,-,ht⟩
  · rw [hleave] at hbody
    cases hbody
  · rw [hagain] at hbody
    cases hbody
    exact ht

theorem stands_reached {o : ℕ} (h : Stands payload o) : ∃ s,
      Loop.Reaches (tlvBody decodeAt store payload) ⟨0,first⟩ s ∧ s.off.toNat = o := by
  induction h with
  | start => exact ⟨_,.refl,rfl⟩
  | next _ _ _ _ _ hheader hfits ih =>
    obtain ⟨s,hreach,rfl⟩ := ih
    have hinv := scanInv_reached hlen hstore hfirst hreach
    obtain ⟨s',hbody,hoff,-⟩ := hinv.record hlen hstore hheader hfits
    exact ⟨s',hreach.tail hbody,hoff⟩

theorem scan_sound_iff :
    ScanSound (tlvBody decodeAt store payload) first Reported ↔
      ∀ o, Stands payload o → ¬ TakesBack payload o := by
  constructor
  · rintro hsound o hstands ⟨type,length,start,hheader,hover,hback⟩
    obtain ⟨s,hreach,rfl⟩ := stands_reached hlen hstore hfirst hstands
    have hinv := scanInv_reached hlen hstore hfirst hreach
    have hsize := length.toNat_lt
    have hbounds := hheader.bounds
    have hwrap : (start+length.toNat) % 2 ^ 64 = start + length.toNat-2^64 := by
      rw [mod_eq_sub_mod hover,mod_eq_of_lt (by omega)]
    obtain ⟨s',hbody,hoff,-⟩ := hinv.record hlen hstore hheader (by omega)
    have hadvance := lt_iff_toNat_lt.mp (hsound.advances s s' hreach hbody)
    omega
  · intro hforward
    have hturn (s s' : TlvScan σ) (hs : ScanInv payload Reported s)
        (hbody : tlvBody decodeAt store payload s = .again s') :
        ScanInv payload Reported s' ∧ s.off.toNat < s'.off.toNat := by
      rcases hs.turn hlen hstore with hleave | ⟨type,length,start,t,hheader,hfits,hagain,hoff,ht⟩
      · rw [hleave] at hbody
        cases hbody
      · rw [hagain] at hbody
        cases hbody
        have hbounds := hheader.bounds
        have hsize := length.toNat_lt
        refine ⟨ht,?_⟩
        -- A sum below 2^64 is behind the header; above it, only a length that takes back is not.
        rcases lt_or_ge (start + length.toNat) (2 ^ 64) with hlt | hge
        · rw [hoff,mod_eq_of_lt hlt]
          omega
        · rw [hoff,mod_eq_sub_mod hge,mod_eq_of_lt (by omega)]
          by_contra hnot
          exact hforward _ hs.stands ⟨type,length,start,hheader,hge,by omega⟩
    have hrun : ∃ r, Loop.run (tlvBody decodeAt store payload) (payload.length+1) ⟨0,first⟩ =
        some r ∧ ∃ out, r = some out ∧ Reported out := by
      refine Loop.run_of_measure (I := ScanInv payload Reported)
        (fun s => payload.length-s.off.toNat) (fun s s' hs hbody => ?_) (fun s r hs hbody => ?_)
        (ScanInv.start hfirst) (lt_succ_of_le (sub_le _ _))
      · obtain ⟨hs',hlt⟩ := hturn s s' hs hbody
        have hinside := hs'.inside
        exact ⟨hs',by omega⟩
      · rcases hs.turn hlen hstore with hleave | ⟨_,_,_,t,-,-,hagain,-⟩
        · rw [hleave] at hbody
          cases hbody
          exact ⟨s.out,rfl,hs.reported⟩
        · rw [hagain] at hbody
          cases hbody
    obtain ⟨r,hrun,out,rfl,hreported⟩ := hrun
    refine ⟨fun s s' hreach hbody => ?_,⟨_,out,hrun⟩,fun fuel out' hrun' => ?_⟩
    · exact lt_iff_toNat_lt.mpr (hturn s s' (scanInv_reached hlen hstore hfirst hreach) hbody).2
    · have heq := Loop.run_unique hrun hrun'
      cases heq
      exact hreported

end

section

variable {payload : Bytes} {o start : ℕ} {type length : UInt64}

theorem copied (hheader : Header payload o type length start)
    (hcopy : start + length.toNat ≤ payload.length ∨ 2^63 ≤ length.toNat)
    (hsmall : length.toNat < 2^63) :
    ∃ val, slice payload start length.toNat = some val ∧ val.length = length.toNat ∧
      Contained payload type val := by
  have hle : start + length.toNat ≤ payload.length := hcopy.resolve_right (not_le.mpr hsmall)
  have hslice : slice payload start length.toNat = some ((payload.drop start).take length.toNat) :=
    if_pos hle
  refine ⟨_,hslice,?_,o,length,start,hheader,hslice⟩
  rw [List.length_take,List.length_drop]
  omega

theorem stored_fixed {σ : Type} {Reported : σ → Prop} {n : ℕ} {store : Bytes → σ}
    (hheader : Header payload o type length start)
    (hcopy : start + length.toNat ≤ payload.length ∨ 2^63 ≤ length.toNat)
    (hlength : length.toNat = n) (hn : n < 2^63)
    (hstore : ∀ val, Contained payload type val → val.length = n → Reported (store val)) :
    ∃ out', (slice payload start n).map store = some out' ∧ Reported out' := by
  obtain ⟨val,hval,hsize,hcontained⟩ := copied hheader hcopy (hlength ▸ hn)
  rw [hlength] at hval hsize
  rw [hval]
  exact ⟨store val,rfl,hstore val hcontained hsize⟩

theorem storeHopRecord_stores (payload : Bytes) :
    Stores payload storeHopRecord (HopReported payload) := by
  intro o type length start out hheader hcopy hout
  unfold storeHopRecord
  split_ifs with h2 h8 h4 h4' h8' h40 h6 h8'' h12 hmax
  · subst h2 h8
    refine stored_fixed hheader hcopy rfl (by decide) fun val hcontained hsize => ?_
    exact { hout with amt := fun v hv => ⟨val,hcontained,hsize,(some.inj hv).symm⟩ }
  · exact ⟨out,rfl,hout⟩
  · subst h4 h4'
    refine stored_fixed hheader hcopy rfl (by decide) fun val hcontained hsize => ?_
    exact { hout with cltv := fun v hv => ⟨val,hcontained,hsize,(some.inj hv).symm⟩ }
  · exact ⟨out,rfl,hout⟩
  · subst h8' h40
    refine stored_fixed hheader hcopy rfl (by decide) fun val hcontained hsize => ?_
    exact { hout with
      paymentData := fun v hv => ⟨val,hcontained,hsize,(some.inj hv).symm⟩ }
  · exact ⟨out,rfl,hout⟩
  · subst h6 h8''
    refine stored_fixed hheader hcopy rfl (by decide) fun val hcontained hsize => ?_
    exact { hout with scid := fun v hv => ⟨val,hcontained,hsize,(some.inj hv).symm⟩ }
  · exact ⟨out,rfl,hout⟩
  · subst h12
    have hbound := le_iff_toNat_le.mp hmax
    rw [show trampolineMax.toNat = 256 from rfl] at hbound
    refine stored_fixed hheader hcopy rfl (by omega) fun val hcontained _ => ?_
    exact { hout with trampoline := fun v hv => some.inj hv ▸ hcontained }
  · exact ⟨out,rfl,hout⟩
  · exact ⟨out,rfl,hout⟩

theorem storeRelayRecord_stores (payload : Bytes) :
    Stores payload storeRelayRecord (RelayReported payload) := by
  intro o type length start out hheader hcopy hout
  unfold storeRelayRecord
  split_ifs with hnode h33 hinner hpkt happ
  · subst hnode h33
    refine stored_fixed hheader hcopy rfl (by decide) fun val hcontained hsize => ?_
    exact { hout with nextNode := fun v hv => ⟨val,hcontained,hsize,(some.inj hv).symm⟩ }
  · exact ⟨out,rfl,hout⟩
  · subst hinner
    have hbound := le_iff_toNat_le.mp hpkt
    rw [show onionMsgRelayPktMax.toNat = 2048 from rfl] at hbound
    refine stored_fixed hheader hcopy rfl (by omega) fun val hcontained _ => ?_
    exact { hout with innerPkt := fun v hv => some.inj hv ▸ hcontained }
  · exact ⟨out,rfl,hout⟩
  · have hbound := le_iff_toNat_le.mp (of_decide_eq_true (Bool.and_eq_true_iff.mp happ).2)
    rw [show onionMsgRelayAppMax.toNat = 1024 from rfl] at hbound
    refine stored_fixed hheader hcopy rfl (by omega) fun val hcontained _ => ?_
    exact { hout with appData := fun v hv => some.inj hv ▸ hcontained }
  · exact ⟨out,rfl,hout⟩

end

theorem relayBody_eq : relayBody = tlvBody decodeAt storeRelayRecord := by
  unfold relayBody
  rw [show readBigsize = decodeAt from funext fun payload => funext fun o => readBigsize_eq payload o]

def endlessRecord : Bytes := [0x01,0xff,0xff,0xff,0xff,0xff,0xff,0xff,0xff,0xf6]

def plainRecords : Bytes := [0x02,0x08,0,0,0,0,0,0,0x03,0xe8,0x04,0x04,0,0,1,0]

end SuperScalar
