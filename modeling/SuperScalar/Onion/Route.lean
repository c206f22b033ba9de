import Mathlib.Data.List.GetD
import SuperScalar.Onion.Peeling

namespace SuperScalar

open List Option Nat

section

variable (sphinx : Sphinx)

structure SphinxLaws (sphinx : Sphinx) : Prop where
  parse_serialize : ∀ k p, sphinx.ecPubkeyCreate k = some p →
    sphinx.ecPubkeyParse (sphinx.ecPubkeySerialize p) = some p
  ecdh_comm : ∀ a b pa pb, sphinx.ecPubkeyCreate a = some pa → sphinx.ecPubkeyCreate b = some pb →
    sphinx.ecdh pb a = sphinx.ecdh pa b
  tweak : ∀ k t k' p, sphinx.ecPubkeyCreate k = some p → sphinx.ecSeckeyTweakMul k t = some k' →
    ∃ p', sphinx.ecPubkeyCreate k' = some p' ∧ sphinx.ecPubkeyTweakMul p t = some p'

def Sphinx.withCiphers (hmac : Bytes → Bytes → Blob 32) (stream : Blob 32 → (n : ℕ) → Blob n) :
    Sphinx :=
  { sphinx with hmacSha256 := hmac, chacha20Stream := stream }

abbrev Route := List (OnionHop × Blob 32)

def KeyPair (r : OnionHop × Blob 32) : Prop :=
  ∃ pub, sphinx.ecPubkeyCreate r.2 = some pub ∧ r.1.pubkey = sphinx.ecPubkeySerialize pub

structure Peeled.Tells (peeled : Peeled) (hop : OnionHop) (last : Prop) : Prop where
  amt : peeled.payload.amtToForward = some hop.amountMsat
  cltv : peeled.payload.outgoingCltvValue = some hop.cltvExpiry
  scid : ¬ last → peeled.payload.shortChannelId = some hop.shortChannelId
  data : last → peeled.payload.paymentData = some (hop.paymentSecret,hop.totalMsat)
  final : peeled.isFinal = true ↔ last

def PeelsTo : Route → Bytes → Prop
  | [], _ => True
  | (hop,priv) :: rest, onion =>
    ∃ turns peeled, onionPeel sphinx turns priv onion = some (some peeled) ∧
      peeled.Tells hop (rest = []) ∧ PeelsTo rest peeled.next

structure OnionCorrect (route : Route) (sessionKey : Blob 32) : Prop where
  peels : ∀ onion, onionBuild sphinx (route.map Prod.fst) sessionKey = some onion →
    PeelsTo sphinx route onion
  refuses : hopDataSize < (route.map (fun r => r.1.size)).sum →
    onionBuild sphinx (route.map Prod.fst) sessionKey = none

def KeysExist : Route → Blob 32 → Prop
  | [], _ => True
  | [r], ePriv => ∃ keys, hopKeys sphinx r.1 ePriv = some keys
  | r :: next :: rest, ePriv =>
    ∃ keys ePriv', hopKeys sphinx r.1 ePriv = some keys ∧
      sphinx.ecSeckeyTweakMul ePriv (blindingFactor sphinx keys) = some ePriv' ∧
      KeysExist (next :: rest) ePriv'

def LastBlinds : Route → Blob 32 → Prop
  | [], _ => True
  | [r], ePriv => ∀ keys pub, hopKeys sphinx r.1 ePriv = some keys →
    sphinx.ecPubkeyCreate ePriv = some pub →
    ∃ pub', sphinx.ecPubkeyTweakMul pub (blindingFactor sphinx keys) = some pub'
  | r :: next :: rest, ePriv => ∀ keys ePriv', hopKeys sphinx r.1 ePriv = some keys →
    sphinx.ecSeckeyTweakMul ePriv (blindingFactor sphinx keys) = some ePriv' →
    LastBlinds (next :: rest) ePriv'

def FinalAtLast : Route → Prop
  | [] => True
  | r :: rest => (r.1.isFinal = true ↔ rest = []) ∧ FinalAtLast rest

end

section

variable {sphinx : Sphinx} {hop : OnionHop} {keys : HopKeys} {inner : Bytes} {hmac : Blob 32}
  {shift : ℕ}

def rhoStream (sphinx : Sphinx) (keys : HopKeys) : Bytes :=
  (sphinx.chacha20Stream (bolt4GenerateKey sphinx rhoTag keys.ss) hopDataSize).val

def plainLayer (hop : OnionHop) (inner : Bytes) (hmac : Blob 32) : Bytes :=
  hop.framed ++ (hmac.val ++ inner.take (hopDataSize-hop.size))

theorem length_plainLayer (hinner : inner.length = hopDataSize) :
    (plainLayer hop inner hmac).length = hopDataSize := by
  have hle := size_le hop
  have hsize : hop.size = hop.framed.length + hmacSize := rfl
  unfold plainLayer
  simp only [length_append,hmac.length_val,length_take,hinner]
  unfold hmacSize at hsize
  unfold hopDataSize at *
  omega

theorem length_rhoStream : (rhoStream sphinx keys).length = hopDataSize := Blob.length_val _

theorem length_plain (hinner : inner.length = hopDataSize) :
    (plainLayer hop inner hmac).length = (rhoStream sphinx keys).length := by
  rw [length_plainLayer hinner,length_rhoStream]

theorem length_front (hinner : inner.length = hopDataSize) :
    ((xorBytes (plainLayer hop inner hmac) (rhoStream sphinx keys)).take
      (hopDataSize-shift)).length = hopDataSize-shift := by
  rw [length_take,length_xorBytes (length_plain hinner),length_plainLayer hinner]
  omega

theorem layerData_eq (hshift : shift < hopDataSize) (hinner : inner.length = hopDataSize) :
    layerData sphinx ⟨keys,hop.framed,shift⟩ inner hmac =
      (xorBytes (plainLayer hop inner hmac) (rhoStream sphinx keys)).take (hopDataSize-shift) ++
        replicate shift 0 := by
  have hplain : hop.framed ++ hmac.val ++ inner.take (hopDataSize-(hop.framed.length+hmacSize)) =
      plainLayer hop inner hmac := append_assoc _ _ _
  unfold layerData
  dsimp only
  rw [hplain]
  split_ifs with h
  · rfl
  · have hzero : shift = 0 := by omega
    subst hzero
    rw [Nat.sub_zero,List.replicate_zero,List.append_nil,List.take_of_length_le]
    · rfl
    · rw [length_xorBytes (length_plain hinner),length_plainLayer hinner]

theorem length_layerData (hshift : shift < hopDataSize) (hinner : inner.length = hopDataSize) :
    (layerData sphinx ⟨keys,hop.framed,shift⟩ inner hmac).length = hopDataSize := by
  rw [layerData_eq hshift hinner,length_append,length_take,length_xorBytes (length_plain hinner),
    length_plainLayer hinner,length_replicate]
  omega

def layerTail (sphinx : Sphinx) (hop : OnionHop) (keys : HopKeys) (shift : ℕ) (inner : Bytes) : Bytes :=
  inner.take (hopDataSize-shift-hop.size) ++ (rhoStream sphinx keys).drop (hopDataSize-shift)

theorem onionXorStream_layer (hfits : shift + hop.size ≤ hopDataSize)
    (hinner : inner.length = hopDataSize) :
    onionXorStream sphinx (layerData sphinx ⟨keys,hop.framed,shift⟩ inner hmac)
        (bolt4GenerateKey sphinx rhoTag keys.ss) =
      hop.framed ++ (hmac.val ++ layerTail sphinx hop keys shift inner) := by
  have hpos := size_pos hop
  have hshift : shift < hopDataSize := by omega
  have hlen : (plainLayer hop inner hmac).length = (rhoStream sphinx keys).length :=
    length_plain hinner
  have hzeroed := xorBytes_zeroed hlen (n := shift) (by rw [length_rhoStream]; omega)
  rw [length_rhoStream] at hzeroed
  have hsize : hop.size = (hop.framed++hmac.val).length := by
    rw [length_append,hmac.length_val]
    rfl
  have htake : (plainLayer hop inner hmac).take (hopDataSize-shift) =
      hop.framed ++ (hmac.val ++ inner.take (hopDataSize-shift-hop.size)) := by
    have hmin : min (hopDataSize-shift-hop.size) (hopDataSize-hop.size) =
        hopDataSize - shift - hop.size := min_eq_left (by omega)
    unfold plainLayer
    rw [← append_assoc,take_append,← hsize,
      take_of_length_le (by rw [← hsize]; omega),take_take,hmin,append_assoc]
  have hstream : onionXorStream sphinx (layerData sphinx ⟨keys,hop.framed,shift⟩ inner hmac)
      (bolt4GenerateKey sphinx rhoTag keys.ss) =
      xorBytes (layerData sphinx ⟨keys,hop.framed,shift⟩ inner hmac) (rhoStream sphinx keys) := by
    unfold onionXorStream
    rw [length_layerData hshift hinner]
    rfl
  rw [hstream,layerData_eq hshift hinner,hzeroed,htake]
  simp only [layerTail,append_assoc]

theorem keysExist_iff (route : Route) (ePriv : Blob 32) :
    KeysExist sphinx route ePriv ↔ ∃ ks, onionKeys sphinx (route.map Prod.fst) ePriv = some ks := by
  induction route generalizing ePriv with
  | nil => exact ⟨fun _ => ⟨[],rfl⟩,fun _ => trivial⟩
  | cons r route ih =>
    cases route with
    | nil =>
      constructor
      · rintro ⟨k,hk⟩
        refine ⟨[k],?_⟩
        change (hopKeys sphinx r.1 ePriv).map _ = _
        rw [hk]
        rfl
      · rintro ⟨ks,h⟩
        obtain ⟨k,hk,-⟩ := map_eq_some_iff.mp h
        exact ⟨k,hk⟩
    | cons =>
      constructor
      · rintro ⟨k,ePriv',hk,hnext,hrest⟩
        obtain ⟨later,hlater⟩ := (ih ePriv').mp hrest
        refine ⟨k :: later,?_⟩
        rw [map_cons,map_cons,onionKeys,hk,bind_eq_bind,bind_some,hnext,
          bind_eq_bind,bind_some,← map_cons,hlater]
        rfl
      · rintro ⟨ks,h⟩
        obtain ⟨k,hk,h⟩ := bind_eq_some_iff.mp h
        obtain ⟨ePriv',hnext,h⟩ := bind_eq_some_iff.mp h
        obtain ⟨later,hlater,-⟩ := bind_eq_some_iff.mp h
        exact ⟨k,ePriv',hk,hnext,(ih ePriv').mpr ⟨later,hlater⟩⟩

theorem length_wrapLayers (hops : List OnionHop) (ks : List HopKeys) (shift : ℕ) :
    (wrapLayers sphinx (onionLayers shift hops ks)).1.length = hopDataSize := by
  induction hops generalizing ks shift with
  | nil => simp [onionLayers,wrapLayers]
  | cons hop hops ih =>
    cases ks with
    | nil => simp [onionLayers,wrapLayers]
    | cons k ks =>
      have hinner := ih ks (shift+hop.size)
      change (layerData sphinx ⟨k,hop.framed,shift⟩ _ _).length = _
      rcases lt_or_ge shift hopDataSize with hlt | hge
      · exact length_layerData hlt hinner
      · unfold layerData
        dsimp only
        rw [if_neg (by omega)]
        have hplain := @length_plainLayer hop _
          (wrapLayers sphinx (onionLayers (shift+hop.size) hops ks)).2 hinner
        rw [append_assoc]
        exact (length_xorBytes (hplain.trans (Blob.length_val _).symm)).trans hplain

end

section

variable {sphinx : Sphinx} {hop : OnionHop} {priv ePriv : Blob 32} {keys : HopKeys}

theorem SphinxLaws.agrees (laws : SphinxLaws sphinx) (hpair : KeyPair sphinx (hop,priv))
    (h : hopKeys sphinx hop ePriv = some keys) :
    ∃ pub, sphinx.ecPubkeyCreate ePriv = some pub ∧ keys.ePub = sphinx.ecPubkeySerialize pub ∧
      sphinx.ecPubkeyParse keys.ePub = some pub ∧ sphinx.ecdh pub priv = some keys.ss := by
  obtain ⟨node,hnode,hpub⟩ := hpair
  obtain ⟨pub,hcreate,h⟩ := bind_eq_some_iff.mp h
  obtain ⟨node',hparse,h⟩ := bind_eq_some_iff.mp h
  obtain ⟨ss,hss,h⟩ := bind_eq_some_iff.mp h
  cases h
  rw [hpub,laws.parse_serialize priv node hnode] at hparse
  cases hparse
  refine ⟨pub,hcreate,rfl,laws.parse_serialize ePriv pub hcreate,?_⟩
  rw [← laws.ecdh_comm ePriv priv pub node hcreate hnode]
  exact hss

theorem told_tells (peeled : Peeled) (hpayload : peeled.payload = hop.told)
    (hfinal : peeled.isFinal = hop.isFinal) {last : Prop} :
    peeled.Tells hop last ↔ (hop.isFinal = true ↔ last) := by
  constructor
  · intro h
    rw [← hfinal]
    exact h.final
  · intro h
    refine ⟨?_,?_,fun hlast => ?_,fun hlast => ?_,?_⟩
    · rw [hpayload]
      rfl
    · rw [hpayload]
      rfl
    · rw [hpayload]
      exact if_neg (fun hfin => hlast (h.mp hfin))
    · rw [hpayload]
      exact if_pos (h.mpr hlast)
    · rw [hfinal]
      exact h

variable {inner : Bytes} {hops : List OnionHop} {key : Blob 32} {k : HopKeys}

theorem peelsTo_layer (rest : Route) {shift : ℕ} (hmac : Blob 32) {pub : Pubkey}
    (hparse : sphinx.ecPubkeyParse keys.ePub = some pub) (hss : sphinx.ecdh pub priv = some keys.ss)
    (hfits : shift + hop.size ≤ hopDataSize) (hinner : inner.length = hopDataSize) :
    PeelsTo sphinx ((hop,priv) :: rest)
        (packet keys.ePub (layerData sphinx ⟨keys,hop.framed,shift⟩ inner hmac)
          (layerHmac sphinx keys (layerData sphinx ⟨keys,hop.framed,shift⟩ inner hmac))) ↔
      (hop.isFinal = true ↔ rest = []) ∧
        ∃ next, sphinx.ecPubkeyTweakMul pub (blindingFactor sphinx keys) = some next ∧
          PeelsTo sphinx rest (packet (sphinx.ecPubkeySerialize next)
            (layerTail sphinx hop keys shift inner ++ replicate hop.size 0) hmac) := by
  have hpos := size_pos hop
  have hdata := @length_layerData sphinx hop keys inner hmac shift (by omega) hinner
  have hpeel {turns : ℕ} (hturns : 5 < turns) := onionPeel_layer sphinx hparse hss hdata
    (onionXorStream_layer hfits hinner) hturns
  constructor
  · rintro ⟨turns,peeled,hpeeled,htells,hrest⟩
    have hmore := onionPeel_mono sphinx hpeeled (le_add_right turns 6)
    rw [hpeel (by omega)] at hmore
    obtain ⟨next,hnext,rfl⟩ := map_eq_some_iff.mp (some.inj hmore)
    exact ⟨(told_tells _ rfl rfl).mp htells,next,hnext,hrest⟩
  · rintro ⟨hfinal,next,hnext,hrest⟩
    refine ⟨6,peeledLayer sphinx hop _ hmac next,?_,(told_tells _ rfl rfl).mpr hfinal,hrest⟩
    rw [hpeel (by decide),hnext]
    rfl

theorem onionBuild_eq (hne : hops ≠ []) (hmax : hops.length ≤ onionMaxHops) {ks : List HopKeys}
    (hkeys : onionKeys sphinx hops key = some (k :: ks)) :
    onionBuild sphinx hops key =
      some (packet k.ePub (wrapLayers sphinx (onionLayers 0 hops (k :: ks))).1
        (wrapLayers sphinx (onionLayers 0 hops (k :: ks))).2) := by
  unfold onionBuild
  rw [if_neg (by rintro (h | h); exacts [hne h,by omega]),hkeys]
  rfl

theorem onionBuild_none (hkeys : onionKeys sphinx hops key = none) :
    onionBuild sphinx hops key = none := by
  unfold onionBuild
  split_ifs
  · rfl
  · rw [hkeys]
    rfl

theorem layerTail_first {k' : HopKeys} {hop' : OnionHop} {hmac : Blob 32}
    (hinner : inner.length = hopDataSize) :
    layerTail sphinx hop k 0 (layerData sphinx ⟨k',hop'.framed,hop.size⟩ inner hmac) ++
        replicate hop.size 0 =
      layerData sphinx ⟨k',hop'.framed,hop.size⟩ inner hmac := by
  have hle := size_le hop
  have hshift : hop.size < hopDataSize := by
    unfold hopDataSize
    omega
  have hnone : (rhoStream sphinx k).drop hopDataSize = [] :=
    drop_of_length_le (le_of_eq length_rhoStream)
  unfold layerTail
  rw [Nat.sub_zero,hnone,List.append_nil,layerData_eq hshift hinner,List.take_left' (length_front hinner)]

end

section

variable {sphinx : Sphinx} {r r' : OnionHop × Blob 32} {key key' : Blob 32} {k k' : HopKeys}

theorem final_cons_iff {b : Bool} {rest : Route} : (b = true ↔ r :: rest = []) ↔ b = false := by
  cases b <;> simp

theorem length_zeros : (replicate hopDataSize (0 : UInt8)).length = hopDataSize :=
  length_replicate

theorem onionCorrect_none {route : Route} (h : ¬ KeysExist sphinx route key) :
    OnionCorrect sphinx route key := by
  have hkeys : onionKeys sphinx (route.map Prod.fst) key = none := by
    cases hks : onionKeys sphinx (route.map Prod.fst) key with
    | none => rfl
    | some ks => exact absurd ((keysExist_iff route key).mpr ⟨ks,hks⟩) h
  have hnone := onionBuild_none hkeys
  refine ⟨fun onion honion => ?_,fun _ => hnone⟩
  rw [hnone] at honion
  cases honion

theorem onionCorrect_one (laws : SphinxLaws sphinx) (hpair : KeyPair sphinx r)
    (hk : hopKeys sphinx r.1 key = some k) :
    OnionCorrect sphinx [r] key ↔ FinalAtLast [r] ∧ LastBlinds sphinx [r] key := by
  obtain ⟨hop,priv⟩ := r
  obtain ⟨pub,hcreate,-,hparse,hss⟩ := laws.agrees hpair hk
  have hle := size_le hop
  have hkeys : onionKeys sphinx [hop] key = some [k] := by
    change (hopKeys sphinx hop key).map _ = _
    rw [hk]
    rfl
  have hbuild := onionBuild_eq (cons_ne_nil _ _) (by simp [onionMaxHops]) hkeys
  have hpeels := peelsTo_layer [] (Blob.zero 32) hparse hss
    (by unfold hopDataSize; omega : 0 + hop.size ≤ hopDataSize) length_zeros
  constructor
  · intro h
    obtain ⟨hfinal,next,hnext,-⟩ := hpeels.mp (h.peels _ hbuild)
    refine ⟨⟨hfinal,trivial⟩,fun keys pub' hkeys' hpub' => ?_⟩
    rw [hk] at hkeys'
    rw [hcreate] at hpub'
    cases hkeys'
    cases hpub'
    exact ⟨next,hnext⟩
  · rintro ⟨⟨hfinal,-⟩,hlast⟩
    obtain ⟨next,hnext⟩ := hlast k pub hk hcreate
    refine ⟨fun onion honion => ?_,fun hover => ?_⟩
    · rw [show ([(hop,priv)] : Route).map Prod.fst = [hop] from rfl,hbuild] at honion
      cases honion
      exact hpeels.mpr ⟨hfinal,next,hnext,trivial⟩
    · simp only [map_cons,map_nil,sum_cons,sum_nil,hopDataSize] at hover
      omega

theorem peelsTo_first (rest : Route) (laws : SphinxLaws sphinx) (hpair : KeyPair sphinx r)
    (hpair' : KeyPair sphinx r') (hk : hopKeys sphinx r.1 key = some k)
    (hnext : sphinx.ecSeckeyTweakMul key (blindingFactor sphinx k) = some key')
    (hk' : hopKeys sphinx r'.1 key' = some k') {inner : Bytes} (hmac : Blob 32)
    (hinner : inner.length = hopDataSize) :
    PeelsTo sphinx (r :: r' :: rest)
        (packet k.ePub
          (layerData sphinx ⟨k,r.1.framed,0⟩
            (layerData sphinx ⟨k',r'.1.framed,r.1.size⟩ inner hmac)
            (layerHmac sphinx k' (layerData sphinx ⟨k',r'.1.framed,r.1.size⟩ inner hmac)))
          (layerHmac sphinx k (layerData sphinx ⟨k,r.1.framed,0⟩
            (layerData sphinx ⟨k',r'.1.framed,r.1.size⟩ inner hmac)
            (layerHmac sphinx k' (layerData sphinx ⟨k',r'.1.framed,r.1.size⟩ inner hmac))))) ↔
      r.1.isFinal = false ∧
        PeelsTo sphinx (r' :: rest)
          (packet k'.ePub (layerData sphinx ⟨k',r'.1.framed,r.1.size⟩ inner hmac)
            (layerHmac sphinx k' (layerData sphinx ⟨k',r'.1.framed,r.1.size⟩ inner hmac))) := by
  obtain ⟨hop,priv⟩ := r
  obtain ⟨hop',priv'⟩ := r'
  obtain ⟨pub,hcreate,-,hparse,hss⟩ := laws.agrees hpair hk
  obtain ⟨pub',hcreate',hserialize,-,-⟩ := laws.agrees hpair' hk'
  obtain ⟨pub'',hcreate'',htweak⟩ := laws.tweak key _ key' pub hcreate hnext
  rw [hcreate'] at hcreate''
  cases hcreate''
  have hle := size_le hop
  have hfits : 0 + hop.size ≤ hopDataSize := by
    unfold hopDataSize
    omega
  have hdata := @length_layerData sphinx hop' k' inner hmac hop.size
    (by unfold hopDataSize; omega) hinner
  rw [peelsTo_layer _ _ hparse hss hfits hdata]
  rw [layerTail_first hinner,htweak]
  constructor
  · rintro ⟨hfinal,next,hnext',hrest⟩
    cases hnext'
    rw [← hserialize] at hrest
    exact ⟨final_cons_iff.mp hfinal,hrest⟩
  · rintro ⟨hfinal,hrest⟩
    refine ⟨final_cons_iff.mpr hfinal,pub',rfl,?_⟩
    rw [← hserialize]
    exact hrest

theorem onionCorrect_two (laws : SphinxLaws sphinx) (hpair : KeyPair sphinx r)
    (hpair' : KeyPair sphinx r') (hk : hopKeys sphinx r.1 key = some k)
    (hnext : sphinx.ecSeckeyTweakMul key (blindingFactor sphinx k) = some key')
    (hk' : hopKeys sphinx r'.1 key' = some k') :
    OnionCorrect sphinx [r,r'] key ↔ FinalAtLast [r,r'] ∧ LastBlinds sphinx [r,r'] key := by
  have hle := size_le r.1
  have hle' := size_le r'.1
  have hkeys : onionKeys sphinx [r.1,r'.1] key = some [k,k'] := by
    simp only [onionKeys,hk,bind_eq_bind,bind_some,hnext,hk']
    rfl
  have hbuild := onionBuild_eq (cons_ne_nil _ _) (by simp [onionMaxHops]) hkeys
  have hfirst := peelsTo_first [] laws hpair hpair' hk hnext hk' (Blob.zero 32) length_zeros
  obtain ⟨pub',hcreate',-,hparse',hss'⟩ := laws.agrees hpair' hk'
  have hsecond := peelsTo_layer [] (Blob.zero 32) hparse' hss'
    (by unfold hopDataSize; omega : r.1.size + r'.1.size ≤ hopDataSize) length_zeros
  have hshift : onionLayers 0 [r.1,r'.1] [k,k'] =
      [⟨k,r.1.framed,0⟩,⟨k',r'.1.framed,r.1.size⟩] := by
    simp only [onionLayers,zero_add]
  rw [hshift] at hbuild
  simp only [wrapLayers] at hbuild
  constructor
  · intro h
    obtain ⟨hfinal,hrest⟩ := hfirst.mp (h.peels _ hbuild)
    obtain ⟨hfinal',next,htweak,-⟩ := hsecond.mp hrest
    refine ⟨⟨final_cons_iff.mpr hfinal,hfinal',trivial⟩,
      fun keys ePriv hkeys' hpriv keys' pub hkeys'' hpub => ?_⟩
    rw [hk] at hkeys'
    cases hkeys'
    rw [hnext] at hpriv
    cases hpriv
    rw [hk'] at hkeys''
    rw [hcreate'] at hpub
    cases hkeys''
    cases hpub
    exact ⟨next,htweak⟩
  · rintro ⟨⟨hfinal,hfinal',-⟩,hlast⟩
    obtain ⟨next,htweak⟩ := hlast k key' hk hnext k' pub' hk' hcreate'
    refine ⟨fun onion honion => ?_,fun hover => ?_⟩
    · rw [show ([r,r'] : Route).map Prod.fst = [r.1,r'.1] from rfl,hbuild] at honion
      cases honion
      exact hfirst.mpr ⟨final_cons_iff.mp hfinal,hsecond.mpr ⟨hfinal',next,htweak,trivial⟩⟩
    · simp only [map_cons,map_nil,sum_cons,sum_nil,hopDataSize] at hover
      omega

end

section

variable {sphinx : Sphinx} {r r' r'' : OnionHop × Blob 32} {rest : Route} {key : Blob 32}

variable {hop : OnionHop} {hops : List OnionHop} {ks : List HopKeys}

theorem length_tail {keys : HopKeys} {shift : ℕ} {inner : Bytes}
    (hfits : shift + hop.size ≤ hopDataSize) (hinner : inner.length = hopDataSize) :
    (layerTail sphinx hop keys shift inner ++ replicate hop.size 0).length = hopDataSize := by
  unfold layerTail
  simp only [length_append,length_take,length_drop,length_replicate,hinner,length_rhoStream]
  omega

theorem onionKeys_cons {next : OnionHop} (h : onionKeys sphinx (hop :: next :: hops) key = some ks) :
    ∃ k key' later, hopKeys sphinx hop key = some k ∧
      sphinx.ecSeckeyTweakMul key (blindingFactor sphinx k) = some key' ∧
      onionKeys sphinx (next :: hops) key' = some later ∧ ks = k :: later := by
  obtain ⟨k,hk,h⟩ := bind_eq_some_iff.mp h
  obtain ⟨key',hnext,h⟩ := bind_eq_some_iff.mp h
  obtain ⟨later,hlater,h⟩ := bind_eq_some_iff.mp h
  exact ⟨k,key',later,hk,hnext,hlater,(some.inj h).symm⟩

theorem onionKeys_first (h : onionKeys sphinx (hop :: hops) key = some ks) :
    ∃ k later, ks = k :: later := by
  cases hops with
  | nil =>
    obtain ⟨k,-,rfl⟩ := map_eq_some_iff.mp h
    exact ⟨k,[],rfl⟩
  | cons =>
    obtain ⟨k,-,later,-,-,-,rfl⟩ := onionKeys_cons h
    exact ⟨k,later,rfl⟩

theorem third_hmac (laws : SphinxLaws sphinx) (hpair : KeyPair sphinx r) (hpair' : KeyPair sphinx r')
    (hmax : (r :: r' :: r'' :: rest).length ≤ onionMaxHops)
    (hkeys : KeysExist sphinx (r :: r' :: r'' :: rest) key)
    (hcorrect : OnionCorrect sphinx (r :: r' :: r'' :: rest) key) :
    ∃ k' k'' inner nextHmac, inner.length = hopDataSize ∧ ∃ ePub ss,
      layerHmac sphinx ⟨ePub,ss⟩ (layerTail sphinx r'.1 k' r.1.size
          (layerData sphinx ⟨k'',r''.1.framed,r.1.size + r'.1.size⟩ inner nextHmac) ++
        replicate r'.1.size 0) =
      layerHmac sphinx k''
        (layerData sphinx ⟨k'',r''.1.framed,r.1.size + r'.1.size⟩ inner nextHmac) := by
  have hle := size_le r.1
  have hle' := size_le r'.1
  have hsize : hopDataSize = 1300 := rfl
  obtain ⟨ks,hks⟩ := (keysExist_iff _ key).mp hkeys
  obtain ⟨k,key',later,hk,hnext,hlater,rfl⟩ := onionKeys_cons hks
  obtain ⟨k',key'',last,hk',-,hlast,rfl⟩ := onionKeys_cons hlater
  obtain ⟨k'',ks',rfl⟩ := onionKeys_first hlast
  have hbuild := onionBuild_eq (cons_ne_nil _ _) (by simpa using hmax) hks
  simp only [map_cons,onionLayers,wrapLayers,zero_add] at hbuild
  have hinner : (wrapLayers sphinx (onionLayers (r.1.size+r'.1.size+r''.1.size)
      (rest.map Prod.fst) ks')).1.length = hopDataSize := length_wrapLayers _ _ _
  revert hbuild hinner
  generalize wrapLayers sphinx (onionLayers (r.1.size+r'.1.size+r''.1.size)
    (rest.map Prod.fst) ks') = wrapped
  intro hbuild hinner
  have hdata : (layerData sphinx ⟨k'',r''.1.framed,r.1.size + r'.1.size⟩ wrapped.1
      wrapped.2).length = hopDataSize := length_layerData (by omega) hinner
  obtain ⟨-,hsecond⟩ :=
    (peelsTo_first _ laws hpair hpair' hk hnext hk' _ hdata).mp (hcorrect.peels _ hbuild)
  obtain ⟨pub',-,-,hparse',hss'⟩ := laws.agrees hpair' hk'
  obtain ⟨-,next,-,turns,peeled,hpeeled,-,-⟩ :=
    (peelsTo_layer _ _ hparse' hss' (by omega : r.1.size + r'.1.size ≤ hopDataSize) hdata).mp hsecond
  obtain ⟨ss,hmac⟩ := onionPeel_hmac sphinx (length_tail (by omega) hdata) hpeeled
  exact ⟨k',k'',wrapped.1,wrapped.2,hinner,_,ss,hmac⟩

end

section

variable {sphinx : Sphinx} {hmac : Bytes → Bytes → Blob 32} {stream : Blob 32 → (n : ℕ) → Blob n}

theorem SphinxLaws.withCiphers (laws : SphinxLaws sphinx) (hmac : Bytes → Bytes → Blob 32)
    (stream : Blob 32 → (n : ℕ) → Blob n) : SphinxLaws (sphinx.withCiphers hmac stream) :=
  ⟨laws.parse_serialize,laws.ecdh_comm,laws.tweak⟩

theorem keysExist_withCiphers (route : Route) (key : Blob 32) :
    KeysExist (sphinx.withCiphers hmac stream) route key ↔ KeysExist sphinx route key := by
  induction route generalizing key with
  | nil => exact Iff.rfl
  | cons _ route ih =>
    cases route with
    | nil => exact Iff.rfl
    | cons =>
      exact exists_congr fun k => exists_congr fun key' =>
        and_congr_right fun _ => and_congr_right fun _ => ih key'

def byteHmac (i : ℕ) (_ data : Bytes) : Blob 32 :=
  ⟨replicate 32 (data.getD i 0),length_replicate⟩

def onesStream (_ : Blob 32) (n : ℕ) : Blob n := ⟨replicate n 1,length_replicate⟩

variable {keys : HopKeys} {i shift : ℕ} {hop : OnionHop} {inner : Bytes}

theorem layerHmac_byte {data : Bytes} (hi : i < data.length) :
    (layerHmac (sphinx.withCiphers (byteHmac i) stream) keys data).val =
      replicate 32 (data.getD i 0) := by
  change replicate 32 ((data++keys.ePub.val).getD i 0) = _
  rw [getD_append _ _ _ _ hi]

theorem layerTail_byte (hpos : 0 < shift) (hfits : shift + hop.size ≤ hopDataSize)
    (hinner : inner.length = hopDataSize) :
    (layerTail (sphinx.withCiphers hmac onesStream) hop keys shift inner ++
      replicate hop.size 0).getD (hopDataSize-hop.size-1) 0 = 1 := by
  have hfront : (inner.take (hopDataSize-shift-hop.size)).length =
      hopDataSize - shift - hop.size := by
    rw [length_take,hinner]
    omega
  have hstream : (rhoStream (sphinx.withCiphers hmac onesStream) keys).drop (hopDataSize-shift) =
      replicate shift 1 := by
    change (replicate hopDataSize 1).drop (hopDataSize-shift) = _
    rw [List.drop_replicate,Nat.sub_sub_self (by omega)]
  unfold layerTail
  rw [hstream,append_assoc,getD_append_right _ _ _ _ (by omega),hfront,
    getD_append _ _ _ _ (by rw [length_replicate]; omega)]
  exact getD_replicate _ (by omega)

theorem layerData_byte {nextHmac : Blob 32} (hshift : shift < hopDataSize)
    (hinner : inner.length = hopDataSize) (hi : hopDataSize-shift ≤ i) (hlt : i < hopDataSize) :
    (layerData sphinx ⟨keys,hop.framed,shift⟩ inner nextHmac).getD i 0 = 0 := by
  rw [layerData_eq hshift hinner,getD_append_right _ _ _ _ (by rw [length_front hinner]; omega),
    length_front hinner]
  exact getD_replicate _ (by omega)

theorem onionCorrect_three {r r' r'' : OnionHop × Blob 32} {rest : Route} {key : Blob 32}
    (laws : SphinxLaws sphinx) (hpair : KeyPair sphinx r) (hpair' : KeyPair sphinx r')
    (hmax : (r :: r' :: r'' :: rest).length ≤ onionMaxHops)
    (hkeys : KeysExist sphinx (r :: r' :: r'' :: rest) key) :
    ¬ OnionCorrect (sphinx.withCiphers (byteHmac (hopDataSize-r'.1.size-1)) onesStream)
      (r :: r' :: r'' :: rest) key := by
  intro hcorrect
  have hle := size_le r.1
  have hle' := size_le r'.1
  have hpos := size_pos r.1
  have hsize : hopDataSize = 1300 := rfl
  obtain ⟨k',k'',inner,nextHmac,hinner,ePub,ss,hmac⟩ :=
    third_hmac (laws.withCiphers (byteHmac (hopDataSize-r'.1.size-1)) onesStream) hpair hpair'
      hmax ((keysExist_withCiphers _ key).mpr hkeys) hcorrect
  have hdata : (layerData (sphinx.withCiphers (byteHmac (hopDataSize-r'.1.size-1)) onesStream)
      ⟨k'',r''.1.framed,r.1.size + r'.1.size⟩ inner nextHmac).length = hopDataSize :=
    length_layerData (by omega) hinner
  have hbytes := congrArg Subtype.val hmac
  rw [layerHmac_byte (by rw [length_tail (by omega) hdata]; omega),
    layerHmac_byte (by rw [hdata]; omega),layerTail_byte (by omega) (by omega) hdata,
    layerData_byte (by omega) hinner (by omega) (by omega)] at hbytes
  exact absurd hbytes (by decide)

theorem onion_peels_iff (laws : SphinxLaws sphinx) (route : Route) (key : Blob 32)
    (hne : route ≠ []) (hmax : route.length ≤ onionMaxHops)
    (hpairs : ∀ r ∈ route, KeyPair sphinx r) :
    (∀ hmac stream, OnionCorrect (sphinx.withCiphers hmac stream) route key) ↔
      ¬ KeysExist sphinx route key ∨
        (route.length ≤ 2 ∧ FinalAtLast route ∧ LastBlinds sphinx route key) := by
  by_cases hkeys : KeysExist sphinx route key
  · rw [or_iff_right (not_not_intro hkeys)]
    match route, hne, hmax, hpairs, hkeys with
    | [r], _, _, hpairs, ⟨k,hk⟩ =>
      have hpair := hpairs r mem_cons_self
      constructor
      · intro h
        have hself := h sphinx.hmacSha256 sphinx.chacha20Stream
        exact ⟨le_succ 1,(onionCorrect_one laws hpair hk).mp hself⟩
      · rintro ⟨-,hfinal,hlast⟩ hmac stream
        exact (onionCorrect_one (laws.withCiphers hmac stream) hpair hk).mpr ⟨hfinal,hlast⟩
    | [r,r'], _, _, hpairs, ⟨k,key',hk,hnext,k',hk'⟩ =>
      have hpair := hpairs r mem_cons_self
      have hpair' := hpairs r' (mem_cons_of_mem _ mem_cons_self)
      constructor
      · intro h
        have hself := h sphinx.hmacSha256 sphinx.chacha20Stream
        exact ⟨le_refl 2,(onionCorrect_two laws hpair hpair' hk hnext hk').mp hself⟩
      · rintro ⟨-,hfinal,hlast⟩ hmac stream
        exact (onionCorrect_two (laws.withCiphers hmac stream) hpair hpair' hk hnext hk').mpr
          ⟨hfinal,hlast⟩
    | r :: r' :: r'' :: rest, _, hmax, hpairs, hkeys =>
      have hpair := hpairs r mem_cons_self
      have hpair' := hpairs r' (mem_cons_of_mem _ mem_cons_self)
      constructor
      · intro h
        exact absurd (h _ _) (onionCorrect_three laws hpair hpair' hmax hkeys)
      · rintro ⟨hshort,-⟩
        simp only [length_cons] at hshort
        omega
  · refine iff_of_true (fun hmac stream => onionCorrect_none ?_) (.inl hkeys)
    rwa [keysExist_withCiphers]

end

def Sphinx.sample : Sphinx where
  sha256 _ := Blob.fill 32 3
  hmacSha256 key data := Blob.fill 32 ((key++data).foldl (fun a b => a*31 + b) 7)
  chacha20Stream key n := Blob.fill n (key.val.headD 0 + 1)
  ecPubkeyCreate k := some (copyBytes 64 k.val)
  ecPubkeySerialize p := copyBytes 33 p.val
  ecPubkeyParse b := some (copyBytes 64 b.val)
  ecdh p k := some (copyBytes 32 (xorBytes p.val k.val))
  ecSeckeyTweakMul k t := some (copyBytes 32 (xorBytes k.val t.val))
  ecPubkeyTweakMul p t := some (copyBytes 64 (copyBytes 32 (xorBytes p.val t.val)).val)

theorem copyBytes_widen {m n : ℕ} (b : Blob m) (h : m ≤ n) :
    (copyBytes n b.val).val = b.val ++ replicate (n-m) 0 := by
  change (b.val ++ replicate n 0).take n = _
  rw [take_append,b.length_val,take_of_length_le (b.length_val.trans_le h),
    take_replicate,min_eq_left (sub_le n m)]

theorem xorBytes_widen (a b : Blob 32) : xorBytes (copyBytes 64 a.val).val b.val = xorBytes a.val b.val := by
  have happend := xorBytes_append (replicate 32 0) [] (a.length_val.trans b.length_val.symm)
  rw [append_nil,show xorBytes (replicate 32 0) [] = [] from rfl,append_nil] at happend
  rw [copyBytes_widen a (by decide)]
  exact happend

theorem Sphinx.sample_laws : SphinxLaws Sphinx.sample where
  parse_serialize := by
    rintro k p hp
    cases hp
    have hnarrow : (copyBytes 33 (copyBytes 64 k.val).val).val = k.val ++ replicate 1 0 := by
      change ((copyBytes 64 k.val).val ++ _).take 33 = _
      rw [copyBytes_widen k (by decide),append_assoc,take_append,k.length_val,
        take_of_length_le (k.length_val.trans_le (by decide))]
      rfl
    refine congrArg some (Subtype.ext ?_)
    change (copyBytes 64 (copyBytes 33 (copyBytes 64 k.val).val).val).val = (copyBytes 64 k.val).val
    rw [copyBytes_widen _ (by decide),hnarrow,copyBytes_widen k (by decide),append_assoc]
    rfl
  ecdh_comm := by
    rintro a b pa pb ha hb
    cases ha
    cases hb
    change some (copyBytes 32 (xorBytes (copyBytes 64 b.val).val a.val)) =
      some (copyBytes 32 (xorBytes (copyBytes 64 a.val).val b.val))
    simp only [xorBytes_widen]
    congr 2
    exact zipWith_comm_of_comm UInt8.xor_comm
  tweak := by
    rintro k t k' p hp hk'
    cases hp
    cases hk'
    refine ⟨_,rfl,?_⟩
    change some (copyBytes 64 (copyBytes 32 (xorBytes (copyBytes 64 k.val).val t.val)).val) = _
    rw [xorBytes_widen]

def samplePriv (x : UInt8) : Blob 32 := Blob.fill 32 x

def sampleHop (x : UInt8) (isFinal : Bool) : OnionHop × Blob 32 :=
  ({ pubkey := copyBytes 33 (samplePriv x).val
     amountMsat := 1000
     cltvExpiry := 144
     shortChannelId := if isFinal then 0 else 7
     paymentSecret := samplePriv 9
     totalMsat := 1000
     isFinal := isFinal
     keysendPreimage := none
     amp := none },samplePriv x)

theorem sampleHop_pair (x : UInt8) (isFinal : Bool) : KeyPair Sphinx.sample (sampleHop x isFinal) := by
  refine ⟨copyBytes 64 (samplePriv x).val,rfl,Subtype.ext ?_⟩
  rfl

def twoHops : Route := [sampleHop 1 false,sampleHop 2 true]

theorem onion_peels_two_hops :
    OnionCorrect Sphinx.sample twoHops (samplePriv 5) ∧
      (onionBuild Sphinx.sample (twoHops.map Prod.fst) (samplePriv 5)).isSome = true := by
  refine ⟨(onion_peels_iff Sphinx.sample_laws twoHops (samplePriv 5) (cons_ne_nil _ _)
    (by decide) ?_).mpr (.inr ⟨le_refl 2,?_,?_⟩) Sphinx.sample.hmacSha256
    Sphinx.sample.chacha20Stream,by decide +kernel⟩
  · intro r hr
    simp only [twoHops,mem_cons,not_mem_nil,or_false] at hr
    rcases hr with rfl | rfl
    · exact sampleHop_pair 1 false
    · exact sampleHop_pair 2 true
  · exact ⟨by decide,by decide,trivial⟩
  · intro keys ePriv _ _ keys' pub _ _
    exact ⟨_,rfl⟩

def threeHops : Route := [sampleHop 1 false,sampleHop 2 false,sampleHop 3 true]

theorem threeHops_run :
    ∃ onion first second,
      onionBuild Sphinx.sample (threeHops.map Prod.fst) (samplePriv 5) = some onion ∧
      onionPeel Sphinx.sample 6 (samplePriv 1) onion = some (some first) ∧
      onionPeel Sphinx.sample 6 (samplePriv 2) first.next = some (some second) ∧
      onionPeel Sphinx.sample 6 (samplePriv 3) second.next = some none := by
  obtain ⟨onion,honion,first,hfirst,second,hsecond,hthird⟩ : ∃ onion,
      onionBuild Sphinx.sample (threeHops.map Prod.fst) (samplePriv 5) = some onion ∧
      ∃ first, (onionPeel Sphinx.sample 6 (samplePriv 1) onion).join = some first ∧
      ∃ second, (onionPeel Sphinx.sample 6 (samplePriv 2) first.next).join = some second ∧
        onionPeel Sphinx.sample 6 (samplePriv 3) second.next = some none := by
    decide +kernel
  exact ⟨onion,first,second,honion,join_eq_some_iff.mp hfirst,join_eq_some_iff.mp hsecond,hthird⟩

theorem peel_unique {priv : Blob 32} {onion : Bytes} {turns k : ℕ} {a b : Option Peeled}
    (ha : onionPeel Sphinx.sample turns priv onion = some a)
    (hb : onionPeel Sphinx.sample k priv onion = some b) : a = b := by
  have hmore := onionPeel_mono Sphinx.sample ha (le_max_left turns k)
  rw [onionPeel_mono Sphinx.sample hb (le_max_right turns k)] at hmore
  exact (some.inj hmore).symm

theorem onion_third_hop_rejects : ¬ OnionCorrect Sphinx.sample threeHops (samplePriv 5) := by
  intro hcorrect
  obtain ⟨onion,first,second,honion,hfirst,hsecond,hthird⟩ := threeHops_run
  obtain ⟨_,a,ha,-,_,b,hb,-,_,c,hc,-,-⟩ := hcorrect.peels onion honion
  obtain rfl := some.inj (peel_unique ha hfirst)
  obtain rfl := some.inj (peel_unique hb hsecond)
  exact nomatch peel_unique hc hthird

end SuperScalar
