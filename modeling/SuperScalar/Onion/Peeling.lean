import SuperScalar.Onion.Payload

namespace SuperScalar

open List UInt8

theorem length_xorBytes {a b : Bytes} (h : a.length = b.length) : (xorBytes a b).length = a.length := by
  unfold xorBytes
  rw [length_zipWith,h,Nat.min_self]

theorem xorBytes_xorBytes {a b : Bytes} (h : a.length = b.length) :
    xorBytes (xorBytes a b) b = a := by
  unfold xorBytes
  induction a generalizing b with
  | nil => rfl
  | cons _ _ ih =>
    cases b with
    | nil => cases h
    | cons =>
      simp only [zipWith_cons_cons]
      rw [UInt8.xor_assoc,UInt8.xor_self,UInt8.xor_zero,ih (Nat.succ.inj h)]

theorem xorBytes_take (a b : Bytes) (n : ℕ) : (xorBytes a b).take n = xorBytes (a.take n) (b.take n) :=
  take_zipWith

theorem xorBytes_append {a b : Bytes} (c d : Bytes) (h : a.length = b.length) :
    xorBytes (a++c) (b++d) = xorBytes a b ++ xorBytes c d :=
  zipWith_append h

theorem xorBytes_zero (b : Bytes) : xorBytes (replicate b.length 0) b = b := by
  induction b with
  | nil => rfl
  | cons x b ih =>
    change (0 ^^^ x) :: xorBytes (replicate b.length 0) b = x :: b
    rw [UInt8.zero_xor,ih]

theorem xorBytes_zeroed {plain stream : Bytes} {n : ℕ} (hlen : plain.length = stream.length)
    (hn : n ≤ stream.length) :
    xorBytes ((xorBytes plain stream).take (stream.length-n) ++ replicate n 0) stream =
      plain.take (stream.length-n) ++ stream.drop (stream.length-n) := by
  have hfront : (plain.take (stream.length-n)).length = (stream.take (stream.length-n)).length := by
    simp only [length_take,hlen]
  have hback : (stream.drop (stream.length-n)).length = n := by
    rw [length_drop]
    omega
  have hzero := xorBytes_zero (stream.drop (stream.length-n))
  rw [hback] at hzero
  rw [xorBytes_take]
  calc xorBytes (xorBytes (plain.take (stream.length-n)) (stream.take (stream.length-n)) ++
        replicate n 0) stream
      = xorBytes (xorBytes (plain.take (stream.length-n)) (stream.take (stream.length-n)) ++
          replicate n 0)
          (stream.take (stream.length-n) ++ stream.drop (stream.length-n)) := by
        rw [take_append_drop]
    _ = xorBytes (xorBytes (plain.take (stream.length-n)) (stream.take (stream.length-n)))
          (stream.take (stream.length-n)) ++
        xorBytes (replicate n 0) (stream.drop (stream.length-n)) := by
        refine xorBytes_append _ _ ?_
        rw [length_xorBytes hfront,hfront]
    _ = plain.take (stream.length-n) ++ stream.drop (stream.length-n) := by
        rw [xorBytes_xorBytes hfront,hzero]

section

variable (sphinx : Sphinx) {hop : OnionHop} {keys : HopKeys} {data tail : Bytes} {nextHmac : Blob 32}

theorem packet_key (ePub : Blob 33) (data : Bytes) (hmac : Blob 32) :
    copyBytes 33 ((packet ePub data hmac).drop 1) = ePub := by
  unfold packet
  rw [append_assoc]
  exact copyBytes_append ePub _

theorem packet_data (ePub : Blob 33) (hmac : Blob 32) (hdata : data.length = hopDataSize) :
    ((packet ePub data hmac).drop 34).take hopDataSize = data := by
  have hdrop : (packet ePub data hmac).drop 34 = data ++ hmac.val := by
    change ((0x00 :: ePub.val ++ data) ++ hmac.val).drop 34 = _
    rw [append_assoc]
    exact drop_left' (by simp)
  rw [hdrop]
  exact take_left' hdata

theorem packet_hmac (ePub : Blob 33) (hmac : Blob 32) (hdata : data.length = hopDataSize) :
    copyBytes 32 ((packet ePub data hmac).drop (34+hopDataSize)) = hmac := by
  have hdrop : (packet ePub data hmac).drop (34+hopDataSize) = hmac.val := by
    refine drop_left' ?_
    rw [length_append,hdata]
    simp
  have hcopy := copyBytes_append hmac []
  rw [append_nil] at hcopy
  rw [hdrop,hcopy]

theorem framed_eq (hop : OnionHop) :
    hop.framed = ofNat (buildHopPayload hop).length :: buildHopPayload hop := by
  have hlen := length_payload hop
  exact if_pos (by omega)

theorem size_eq (hop : OnionHop) : hop.size = 1 + (buildHopPayload hop).length + hmacSize := by
  unfold OnionHop.size
  rw [framed_eq,length_cons,Nat.add_comm 1]

theorem size_le (hop : OnionHop) : hop.size ≤ 200 := by
  have hlen := length_payload hop
  rw [size_eq]
  unfold hmacSize
  omega

theorem size_pos (hop : OnionHop) : hmacSize < hop.size := by
  rw [size_eq]
  omega

theorem payloadHeader_framed (hop : OnionHop) (rest : Bytes) :
    payloadHeader (hop.framed++rest) = some ((buildHopPayload hop).length,1) := by
  have hlen := length_payload hop
  have hnat : (ofNat (buildHopPayload hop).length).toNat = (buildHopPayload hop).length := by
    rw [toNat_ofNat',Nat.mod_eq_of_lt (by omega)]
  have hfirst : ofNat (buildHopPayload hop).length < 0xfd := by
    rw [lt_iff_toNat_lt,hnat]
    exact Nat.lt_of_le_of_lt hlen (by decide)
  rw [framed_eq]
  simp only [cons_append,payloadHeader,if_pos hfirst,hnat]

theorem told_final (hop : OnionHop) : hop.told.paymentData.isSome = hop.isFinal := by
  unfold OnionHop.told
  cases hop.isFinal <;> rfl

def peeledLayer (hop : OnionHop) (tail : Bytes) (nextHmac : Blob 32) (pub : Pubkey) : Peeled :=
  { next := packet (sphinx.ecPubkeySerialize pub) (tail ++ replicate hop.size 0) nextHmac
    payload := hop.told
    isFinal := hop.isFinal }

theorem onionPeel_layer {priv : Blob 32} {pub : Pubkey} {turns : ℕ}
    (hparse : sphinx.ecPubkeyParse keys.ePub = some pub) (hss : sphinx.ecdh pub priv = some keys.ss)
    (hdata : data.length = hopDataSize)
    (hplain : onionXorStream sphinx data (bolt4GenerateKey sphinx rhoTag keys.ss) =
      hop.framed ++ (nextHmac.val++tail)) (hturns : 5 < turns) :
    onionPeel sphinx turns priv (packet keys.ePub data (layerHmac sphinx keys data)) =
      some ((sphinx.ecPubkeyTweakMul pub (blindingFactor sphinx keys)).map
        (peeledLayer sphinx hop tail nextHmac)) := by
  have hlen := length_payload hop
  have hsecret : onionEcdhSharedSecret sphinx priv keys.ePub = some keys.ss := by
    unfold onionEcdhSharedSecret
    rw [hparse,Option.bind_some,hss]
  have hframed : hop.framed.length = 1 + (buildHopPayload hop).length := by
    rw [framed_eq,length_cons,Nat.add_comm]
  have hpayload : ((hop.framed ++ (nextHmac.val++tail)).drop 1).take (buildHopPayload hop).length =
      buildHopPayload hop := by
    rw [framed_eq]
    exact take_left
  have hmac : copyBytes 32 ((hop.framed ++ (nextHmac.val++tail)).drop
      (1 + (buildHopPayload hop).length)) = nextHmac := by
    rw [drop_left' hframed,copyBytes_append]
  have htail : (hop.framed ++ (nextHmac.val++tail)).drop
      (1 + (buildHopPayload hop).length + hmacSize) = tail := by
    rw [← append_assoc]
    refine drop_left' ?_
    rw [length_append,hframed,nextHmac.length_val]
    rfl
  have hfits : ¬ 1 + (buildHopPayload hop).length + hmacSize > hopDataSize := by
    unfold hmacSize hopDataSize
    omega
  unfold onionPeel
  simp only [packet_key,packet_data _ _ hdata,packet_hmac _ _ hdata]
  rw [if_neg (by simp [packet]),hsecret]
  simp only [ne_eq,not_true_eq_false,if_false,hplain,payloadHeader_framed,if_neg hfits,
    hpayload,parse_payload hop hturns,hparse,Option.bind_some]
  cases sphinx.ecPubkeyTweakMul pub (blindingFactor sphinx keys) with
  | none => rfl
  | some =>
    simp only [htail,hmac,told_final,Option.map_some,peeledLayer,size_eq]

theorem onionPeel_mono {priv : Blob 32} {onion : Bytes} {turns k : ℕ} {r : Option Peeled}
    (h : onionPeel sphinx turns priv onion = some r) (hk : turns ≤ k) :
    onionPeel sphinx k priv onion = some r := by
  have hparse {payload : Bytes} {x : Option (OnionHopPayload × Bool)}
      (hx : onionParseTlvPayload turns payload = some x) :
      onionParseTlvPayload k payload = some x := by
    unfold onionParseTlvPayload at hx ⊢
    obtain ⟨out,hout,hmap⟩ := Option.map_eq_some_iff.mp hx
    rw [Loop.run_mono hout hk,Option.map_some,hmap]
  unfold onionPeel at h ⊢
  dsimp only at h ⊢
  split_ifs at h ⊢ with hversion
  · exact h
  · cases hss : onionEcdhSharedSecret sphinx priv (copyBytes 33 (onion.drop 1)) with
    | none =>
      rw [hss] at h
      exact h
    | some =>
      rw [hss] at h
      dsimp only at h ⊢
      split_ifs at h ⊢ with hmac
      · exact h
      · split at h
        · exact h
        · split_ifs at h ⊢ with hsize
          · exact h
          · split at h
            · cases h
            · cases h
            · rename_i hx
              rw [hparse hx]
              exact h
            · rename_i hx
              rw [hparse hx]
              exact h

theorem onionPeel_hmac {priv : Blob 32} {ePub : Blob 33} {hmac : Blob 32} {turns : ℕ} {peeled : Peeled}
    (hdata : data.length = hopDataSize)
    (h : onionPeel sphinx turns priv (packet ePub data hmac) = some (some peeled)) :
    ∃ ss, layerHmac sphinx ⟨ePub,ss⟩ data = hmac := by
  unfold onionPeel at h
  simp only [packet_key,packet_data _ _ hdata,packet_hmac _ _ hdata] at h
  rw [if_neg (by simp [packet])] at h
  cases hss : onionEcdhSharedSecret sphinx priv ePub with
  | none =>
    rw [hss] at h
    cases h
  | some ss =>
    rw [hss] at h
    dsimp only at h
    by_cases hmac : layerHmac sphinx ⟨ePub,ss⟩ data = hmac
    · exact ⟨ss,hmac⟩
    · rw [if_pos hmac] at h
      cases h

end

end SuperScalar
