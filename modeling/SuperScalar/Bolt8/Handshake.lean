import SuperScalar.Onion.Payload

namespace SuperScalar

open List Option

section

-- The functions of libsecp256k1, OpenSSL and sha256.c that the transport calls. A ciphertext is as
-- long as its plaintext; `none` is a return value of 0.
structure Noise where
  sha256 : Bytes → Blob 32
  hmacSha256 : Bytes → Bytes → Blob 32
  ecPubkeyCreate : Blob 32 → Option Pubkey
  ecPubkeySerialize : Pubkey → Blob 33
  ecPubkeyParse : Blob 33 → Option Pubkey
  ecdh : Pubkey → Blob 32 → Option (Blob 32)
  aeadEncrypt : Blob 32 → Blob 12 → Bytes → (pt : Bytes) → Blob pt.length × Blob 16
  aeadDecrypt : Blob 32 → Blob 12 → Bytes → Bytes → Blob 16 → Option Bytes

structure NoiseLaws (noise : Noise) : Prop where
  parse_serialize : ∀ k p, noise.ecPubkeyCreate k = some p →
    noise.ecPubkeyParse (noise.ecPubkeySerialize p) = some p
  ecdh_comm : ∀ a b pa pb, noise.ecPubkeyCreate a = some pa → noise.ecPubkeyCreate b = some pb →
    noise.ecdh pb a = noise.ecdh pa b
  decrypt_encrypt : ∀ key nonce aad pt, noise.aeadDecrypt key nonce aad
    (noise.aeadEncrypt key nonce aad pt).1.val (noise.aeadEncrypt key nonce aad pt).2 = some pt

variable (noise : Noise)

def bolt8Hkdf2 (ck : Blob 32) (ikm : Bytes) : Blob 32 × Blob 32 :=
  let prk := noise.hmacSha256 ck.val ikm
  let t := noise.hmacSha256 prk.val [1]
  (t,noise.hmacSha256 prk.val (t.val ++ [2]))

def mixHash (h : Blob 32) (data : Bytes) : Blob 32 := noise.sha256 (h.val++data)

def bolt8Nonce (n : UInt64) : Blob 12 := ⟨[0,0,0,0] ++ Wire.leBytes 8 n.toNat,by simp⟩

def b8Encrypt (key : Blob 32) (n : UInt64) (aad pt : Bytes) : Blob (pt.length+16) :=
  ⟨(noise.aeadEncrypt key (bolt8Nonce n) aad pt).1.val ++
    (noise.aeadEncrypt key (bolt8Nonce n) aad pt).2.val,by
      rw [length_append,Blob.length_val,Blob.length_val]⟩

def b8Decrypt (key : Blob 32) (n : UInt64) (aad inBuf : Bytes) (ctLen : ℕ) : Option Bytes :=
  noise.aeadDecrypt key (bolt8Nonce n) aad (inBuf.take ctLen) (copyBytes 16 (inBuf.drop ctLen))

def dhAndMix (ck : Blob 32) (pub : Pubkey) (priv : Blob 32) : Option (Blob 32 × Blob 32) :=
  (noise.ecdh pub priv).map (fun shared => bolt8Hkdf2 noise ck shared.val)

end

section

structure Bolt8Hs where
  h : Blob 32
  ck : Blob 32
  tempK : Blob 32
  rePub : Blob 33
  ePriv : Blob 32

structure Bolt8State where
  sk : Blob 32
  rk : Blob 32
  ck : Blob 32
  sn : UInt64
  rn : UInt64
deriving DecidableEq

def protocolName : Bytes :=
  [78,111,105,115,101,95,88,75,95,115,101,99,112,50,53,54,107,49,95,67,104,
    97,67,104,97,80,111,108,121,95,83,72,65,50,53,54]

def prologue : Bytes :=
  [108,105,103,104,116,110,105,110,103]

variable (noise : Noise)

def bolt8HsInit (rsPub33 : Blob 33) : Bolt8Hs where
  h := mixHash noise (mixHash noise (noise.sha256 protocolName) prologue) rsPub33.val
  ck := noise.sha256 protocolName
  tempK := Blob.zero 32
  rePub := Blob.zero 33
  ePriv := Blob.zero 32

def keyAct (pub33 : Blob 33) (c : Blob (0+16)) : Blob 50 :=
  ⟨0 :: (pub33.val++c.val),by
    rw [length_cons,length_append,Blob.length_val,Blob.length_val]⟩

def createAct (hs : Bolt8Hs) (ePriv : Blob 32) (theirPub33 : Blob 33) :
    Option (Bolt8Hs × Blob 50) := do
  let ePub ← noise.ecPubkeyCreate ePriv
  let ePub33 := noise.ecPubkeySerialize ePub
  let h := mixHash noise hs.h ePub33.val
  let theirPub ← noise.ecPubkeyParse theirPub33
  let (ck,tempK) ← dhAndMix noise hs.ck theirPub ePriv
  let c := b8Encrypt noise tempK 0 h.val []
  some ({ hs with h := mixHash noise h c.val, ck := ck, tempK := tempK, ePriv := ePriv },
    keyAct ePub33 c)

def processAct (hs : Bolt8Hs) (act : Blob 50) (priv : Blob 32) : Option Bolt8Hs :=
  if act.val.head? ≠ some 0 then none
  else do
    let rePub33 := copyBytes 33 (act.val.drop 1)
    let c := act.val.drop 34
    let rePub ← noise.ecPubkeyParse rePub33
    let h := mixHash noise hs.h rePub33.val
    let (ck,tempK) ← dhAndMix noise hs.ck rePub priv
    let _ ← b8Decrypt noise tempK 0 h.val c 0
    some { hs with h := mixHash noise h c, ck := ck, tempK := tempK, rePub := rePub33 }

def bolt8Act1Create (hs : Bolt8Hs) (ePriv : Blob 32) (rsPub33 : Blob 33) :
    Option (Bolt8Hs × Blob 50) := createAct noise hs ePriv rsPub33

def bolt8Act1Process (hs : Bolt8Hs) (act : Blob 50) (rsPriv : Blob 32) : Option Bolt8Hs :=
  processAct noise hs act rsPriv

def bolt8Act2Create (hs : Bolt8Hs) (ePriv : Blob 32) : Option (Bolt8Hs × Blob 50) :=
  createAct noise hs ePriv hs.rePub

def bolt8Act2Process (hs : Bolt8Hs) (act : Blob 50) : Option Bolt8Hs :=
  processAct noise hs act hs.ePriv

def staticAct (pub33 : Blob 33) (c : Blob (pub33.val.length+16)) (t : Blob (0+16)) : Blob 66 :=
  ⟨0 :: (c.val++t.val),by
    rw [length_cons,length_append,Blob.length_val,Blob.length_val,Blob.length_val]⟩

def bolt8Act3Create (hs : Bolt8Hs) (sPriv : Blob 32) : Option (Blob 66 × Bolt8State) := do
  let sPub ← noise.ecPubkeyCreate sPriv
  let sPub33 := noise.ecPubkeySerialize sPub
  let c := b8Encrypt noise hs.tempK 1 hs.h.val sPub33.val
  let h := mixHash noise hs.h c.val
  let rePub ← noise.ecPubkeyParse hs.rePub
  let (ck,tempK) ← dhAndMix noise hs.ck rePub sPriv
  let t := b8Encrypt noise tempK 0 h.val []
  let keys := bolt8Hkdf2 noise ck []
  some (staticAct sPub33 c t,⟨keys.1,keys.2,ck,0,0⟩)

def bolt8Act3Process (hs : Bolt8Hs) (act : Blob 66) : Option Bolt8State :=
  if act.val.head? ≠ some 0 then none
  else do
    let c := (act.val.drop 1).take 49
    let t := act.val.drop 50
    let isPub33 ← b8Decrypt noise hs.tempK 1 hs.h.val c 33
    let h := mixHash noise hs.h c
    let isPub ← noise.ecPubkeyParse (copyBytes 33 isPub33)
    let (ck,tempK) ← dhAndMix noise hs.ck isPub hs.ePriv
    let _ ← b8Decrypt noise tempK 0 h.val t 0
    let keys := bolt8Hkdf2 noise ck []
    some ⟨keys.2,keys.1,ck,0,0⟩

structure HandshakeKeys where
  initiator : Blob 32
  initiatorEphemeral : Blob 32
  responder : Blob 32
  responderEphemeral : Blob 32

def bolt8Handshake (keys : HandshakeKeys) : Option (Bolt8State × Bolt8State) := do
  let rsPub ← noise.ecPubkeyCreate keys.responder
  let rsPub33 := noise.ecPubkeySerialize rsPub
  let (initiator,act1) ← bolt8Act1Create noise (bolt8HsInit noise rsPub33) keys.initiatorEphemeral
    rsPub33
  let responder ← bolt8Act1Process noise (bolt8HsInit noise rsPub33) act1 keys.responder
  let (responder,act2) ← bolt8Act2Create noise responder keys.responderEphemeral
  let initiator ← bolt8Act2Process noise initiator act2
  let (act3,initiator) ← bolt8Act3Create noise initiator keys.initiator
  let responder ← bolt8Act3Process noise responder act3
  some (initiator,responder)

end

section

variable {noise : Noise} (laws : NoiseLaws noise)

structure Agree (hsI hsR : Bolt8Hs) : Prop where
  h : hsI.h = hsR.h
  ck : hsI.ck = hsR.ck
  tempK : hsI.tempK = hsR.tempK

include laws

theorem b8Decrypt_b8Encrypt (key : Blob 32) (n : UInt64) (aad : Bytes) {pt : Bytes} {ctLen : ℕ}
    (hlen : pt.length = ctLen) :
    b8Decrypt noise key n aad (b8Encrypt noise key n aad pt).val ctLen = some pt := by
  subst hlen
  have hct := (noise.aeadEncrypt key (bolt8Nonce n) aad pt).1.length_val
  have htag := copyBytes_append (noise.aeadEncrypt key (bolt8Nonce n) aad pt).2 []
  rw [append_nil] at htag
  rw [b8Decrypt,b8Encrypt,take_left' hct,drop_left' hct,htag]
  exact laws.decrypt_encrypt key (bolt8Nonce n) aad pt

omit laws in
theorem keyAct_parts (pub33 : Blob 33) (c : Blob (0+16)) :
    (keyAct pub33 c).val.head? = some 0 ∧ copyBytes 33 ((keyAct pub33 c).val.drop 1) = pub33 ∧
      (keyAct pub33 c).val.drop 34 = c.val :=
  ⟨rfl,copyBytes_append pub33 c.val,drop_left' pub33.length_val⟩

theorem dhAndMix_comm {ck : Blob 32} {a b : Blob 32} {pa pb : Pubkey}
    (ha : noise.ecPubkeyCreate a = some pa) (hb : noise.ecPubkeyCreate b = some pb) :
    dhAndMix noise ck pb a = dhAndMix noise ck pa b := by
  simp only [dhAndMix,laws.ecdh_comm a b pa pb ha hb]

theorem processAct_createAct {hs hs' peer : Bolt8Hs} {ePriv priv : Blob 32} {pub : Pubkey}
    {act : Blob 50} (hpriv : noise.ecPubkeyCreate priv = some pub) (hagree : Agree hs peer)
    (h : createAct noise hs ePriv (noise.ecPubkeySerialize pub) = some (hs',act)) :
    ∃ peer' ePub, processAct noise peer act priv = some peer' ∧ Agree hs' peer' ∧
      noise.ecPubkeyCreate ePriv = some ePub ∧ hs'.ePriv = ePriv ∧ hs'.rePub = hs.rePub ∧
      peer'.rePub = noise.ecPubkeySerialize ePub ∧ peer'.ePriv = peer.ePriv := by
  simp only [createAct,bind_eq_bind,bind_eq_some_iff,some.injEq,Prod.mk.injEq] at h
  obtain ⟨ePub,hePub,theirPub,htheirs,⟨ck,tempK⟩,hdh,rfl,rfl⟩ := h
  obtain rfl := mem_unique (laws.parse_serialize priv pub hpriv) htheirs
  rw [dhAndMix_comm laws hePub hpriv,hagree.ck] at hdh
  rw [hagree.h]
  generalize hc : b8Encrypt noise tempK 0
    (mixHash noise peer.h (noise.ecPubkeySerialize ePub).val).val [] = c
  obtain ⟨hhead,hpub,htag⟩ := keyAct_parts (noise.ecPubkeySerialize ePub) c
  have hopened := b8Decrypt_b8Encrypt laws tempK 0
    (mixHash noise peer.h (noise.ecPubkeySerialize ePub).val).val length_nil
  rw [hc] at hopened
  have hprocess : processAct noise peer (keyAct (noise.ecPubkeySerialize ePub) c) priv = some
      { peer with
        h := mixHash noise (mixHash noise peer.h (noise.ecPubkeySerialize ePub).val) c.val
        ck := ck
        tempK := tempK
        rePub := noise.ecPubkeySerialize ePub } := by
    unfold processAct
    rw [if_neg (not_not.mpr hhead),hpub,htag]
    dsimp only
    simp only [laws.parse_serialize ePriv ePub hePub,bind_eq_bind,bind_some,hdh]
    rw [hopened]
    rfl
  exact ⟨_,ePub,hprocess,⟨rfl,rfl,rfl⟩,hePub,rfl,rfl,rfl,rfl⟩

theorem act3_agrees {hs peer : Bolt8Hs} {sPriv ePriv : Blob 32} {ePub : Pubkey} {act : Blob 66}
    {st : Bolt8State} (hpriv : noise.ecPubkeyCreate ePriv = some ePub)
    (hePriv : peer.ePriv = ePriv) (hrePub : hs.rePub = noise.ecPubkeySerialize ePub)
    (hagree : Agree hs peer) (h : bolt8Act3Create noise hs sPriv = some (act,st)) :
    bolt8Act3Process noise peer act = some { st with sk := st.rk, rk := st.sk } ∧
      st.sn = 0 ∧ st.rn = 0 := by
  simp only [bolt8Act3Create,bind_eq_bind,bind_eq_some_iff,some.injEq,Prod.mk.injEq] at h
  obtain ⟨sPub,hsPub,rePub,hre,⟨ck,tempK⟩,hdh,rfl,rfl⟩ := h
  rw [hrePub] at hre
  obtain rfl := mem_unique (laws.parse_serialize ePriv ePub hpriv) hre
  rw [dhAndMix_comm laws hsPub hpriv,hagree.ck] at hdh
  rw [hagree.h,hagree.tempK]
  refine ⟨?_,rfl,rfl⟩
  have hpub := (noise.ecPubkeySerialize sPub).length_val
  have hkey := b8Decrypt_b8Encrypt laws peer.tempK 1 peer.h.val hpub
  generalize b8Encrypt noise peer.tempK 1 peer.h.val (noise.ecPubkeySerialize sPub).val = c at *
  have hopened := b8Decrypt_b8Encrypt laws tempK 0 (mixHash noise peer.h c.val).val length_nil
  generalize b8Encrypt noise tempK 0 (mixHash noise peer.h c.val).val [] = t at *
  have hlength : c.val.length = 49 := by rw [c.length_val,hpub]
  have hc : ((staticAct (noise.ecPubkeySerialize sPub) c t).val.drop 1).take 49 = c.val :=
    take_left' hlength
  have ht : (staticAct (noise.ecPubkeySerialize sPub) c t).val.drop 50 = t.val :=
    drop_left' hlength
  have hhead : (staticAct (noise.ecPubkeySerialize sPub) c t).val.head? = some 0 := rfl
  have hcopy := copyBytes_append (noise.ecPubkeySerialize sPub) []
  rw [append_nil] at hcopy
  unfold bolt8Act3Process
  rw [if_neg (not_not.mpr hhead),hc,ht]
  dsimp only
  simp only [hkey,bind_eq_bind,bind_some,hcopy,laws.parse_serialize sPriv sPub hsPub,hePriv,hdh]
  rw [hopened]
  rfl

theorem bolt8Handshake_synced {keys : HandshakeKeys} {initiator responder : Bolt8State}
    (h : bolt8Handshake noise keys = some (initiator,responder)) :
    responder = { initiator with sk := initiator.rk, rk := initiator.sk } ∧
      initiator.sn = 0 ∧ initiator.rn = 0 := by
  simp only [bolt8Handshake,bind_eq_bind,bind_eq_some_iff,some.injEq,Prod.mk.injEq,Prod.exists] at h
  obtain ⟨rsPub,hrs,hsI,act1,hact1,hsR,hread1,hsR',act2,hact2,hsI',hread2,act3,st,
    hact3,st',hread3,rfl,rfl⟩ := h
  obtain ⟨peer1,eI,hprocess1,hagree1,heI,hePriv,-,hrePub,-⟩ :=
    processAct_createAct laws hrs ⟨rfl,rfl,rfl⟩ hact1
  obtain rfl := mem_unique hprocess1 hread1
  have hagree1' : Agree peer1 hsI := ⟨hagree1.h.symm,hagree1.ck.symm,hagree1.tempK.symm⟩
  rw [bolt8Act2Create,hrePub] at hact2
  obtain ⟨peer2,eR,hprocess2,hagree2,heR,hePriv2,-,hrePub2,-⟩ :=
    processAct_createAct laws heI hagree1' hact2
  rw [bolt8Act2Process,hePriv] at hread2
  obtain rfl := mem_unique hprocess2 hread2
  obtain ⟨hprocess3,hsn,hrn⟩ := act3_agrees laws heR hePriv2 hrePub2
    ⟨hagree2.h.symm,hagree2.ck.symm,hagree2.tempK.symm⟩ hact3
  exact ⟨mem_unique hread3 hprocess3,hsn,hrn⟩

end

end SuperScalar
