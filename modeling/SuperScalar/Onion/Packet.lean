import SuperScalar.Onion.Tlv

namespace SuperScalar

-- The functions of libsecp256k1, SHA-256, HMAC-SHA256 and ChaCha20 that onions are made with.
-- `none` is a return value of 0.
structure Sphinx where
  sha256 : Bytes → Blob 32
  hmacSha256 : Bytes → Bytes → Blob 32
  chacha20Stream : Blob 32 → (n : ℕ) → Blob n
  ecPubkeyCreate : Blob 32 → Option Pubkey
  ecPubkeySerialize : Pubkey → Blob 33
  ecPubkeyParse : Blob 33 → Option Pubkey
  ecdh : Pubkey → Blob 32 → Option (Blob 32)
  ecSeckeyTweakMul : Blob 32 → Blob 32 → Option (Blob 32)
  ecPubkeyTweakMul : Pubkey → Blob 32 → Option Pubkey

def hopDataSize : ℕ := 1300

def hmacSize : ℕ := 32

def onionMaxHops : ℕ := 20

structure AmpShard where
  setId : Blob 32
  childIndex : UInt8
  rootShare : Blob 32
deriving DecidableEq

structure OnionHop where
  pubkey : Blob 33
  amountMsat : UInt64
  cltvExpiry : UInt32
  shortChannelId : UInt64
  paymentSecret : Blob 32
  totalMsat : UInt64
  isFinal : Bool
  keysendPreimage : Option (Blob 32)
  amp : Option AmpShard
deriving DecidableEq

def putBigsize (v : UInt64) : Bytes :=
  if v < 0xfd then [v.toUInt8]
  else if v ≤ 0xffff then 0xfd :: putU16 v.toUInt16
  else if v ≤ 0xffffffff then 0xfe :: putU32 v.toUInt32
  else 0xff :: putU64 v

def tlvRecord (type : UInt64) (value : Bytes) : Bytes :=
  putBigsize type ++ putBigsize (UInt64.ofNat value.length) ++ value

def keysendType : UInt64 := 5482373484

def AmpShard.bytes (a : AmpShard) : Bytes := a.setId.val ++ [a.childIndex] ++ a.rootShare.val

def OnionHop.records (hop : OnionHop) : List (UInt64 × Bytes) :=
  [(2,putU64 hop.amountMsat),(4,putU32 hop.cltvExpiry)] ++
    if hop.isFinal then
      [(8,hop.paymentSecret.val ++ putU64 hop.totalMsat)] ++
        (hop.keysendPreimage.map (fun p => (keysendType,p.val))).toList ++
        (hop.amp.map (fun a => (14,a.bytes))).toList
    else [(6,putU64 hop.shortChannelId)]

def buildHopPayload (hop : OnionHop) : Bytes := hop.records.flatMap (fun r => tlvRecord r.1 r.2)

def framePayload (payload : Bytes) : Bytes :=
  if payload.length < 0xfd then UInt8.ofNat payload.length :: payload
  else 0xfd :: putU16 (UInt16.ofNat payload.length) ++ payload

def OnionHop.framed (hop : OnionHop) : Bytes := framePayload (buildHopPayload hop)

def OnionHop.size (hop : OnionHop) : ℕ := hop.framed.length + hmacSize

section

variable (sphinx : Sphinx)

def bolt4GenerateKey (tag : Bytes) (ss : Blob 32) : Blob 32 := sphinx.hmacSha256 tag ss.val

def rhoTag : Bytes := [0x72,0x68,0x6f]

def muTag : Bytes := [0x6d,0x75]

structure HopKeys where
  ePub : Blob 33
  ss : Blob 32
deriving DecidableEq

def blindingFactor (k : HopKeys) : Blob 32 := sphinx.sha256 (k.ePub.val++k.ss.val)

def hopKeys (hop : OnionHop) (ePriv : Blob 32) : Option HopKeys := do
  let epub ← sphinx.ecPubkeyCreate ePriv
  let hopPub ← sphinx.ecPubkeyParse hop.pubkey
  let ss ← sphinx.ecdh hopPub ePriv
  some ⟨sphinx.ecPubkeySerialize epub,ss⟩

def onionKeys : List OnionHop → Blob 32 → Option (List HopKeys)
  | [], _ => some []
  | [hop], ePriv => (hopKeys sphinx hop ePriv).map (fun keys => [keys])
  | hop :: next :: rest, ePriv => do
    let keys ← hopKeys sphinx hop ePriv
    let nextPriv ← sphinx.ecSeckeyTweakMul ePriv (blindingFactor sphinx keys)
    let later ← onionKeys (next :: rest) nextPriv
    some (keys :: later)

def xorBytes (a b : Bytes) : Bytes := List.zipWith (· ^^^ ·) a b

structure Layer where
  keys : HopKeys
  framed : Bytes
  outerShift : ℕ

def onionLayers : ℕ → List OnionHop → List HopKeys → List Layer
  | shift, hop :: hops, k :: ks =>
    ⟨k,hop.framed,shift⟩ :: onionLayers (shift+hop.size) hops ks
  | _, _, _ => []

def layerData (layer : Layer) (hopsData : Bytes) (nextHmac : Blob 32) : Bytes :=
  let flen := layer.framed.length + hmacSize
  let plain := layer.framed ++ nextHmac.val ++ hopsData.take (hopDataSize-flen)
  let stream := sphinx.chacha20Stream (bolt4GenerateKey sphinx rhoTag layer.keys.ss) hopDataSize
  let encrypted := xorBytes plain stream.val
  if 0 < layer.outerShift ∧ layer.outerShift < hopDataSize then
    encrypted.take (hopDataSize-layer.outerShift) ++ List.replicate layer.outerShift 0
  else encrypted

def layerHmac (keys : HopKeys) (hopsData : Bytes) : Blob 32 :=
  sphinx.hmacSha256 (bolt4GenerateKey sphinx muTag keys.ss).val (hopsData++keys.ePub.val)

def wrapLayers : List Layer → Bytes × Blob 32
  | [] => (List.replicate hopDataSize 0,Blob.zero 32)
  | layer :: rest =>
    let inner := wrapLayers rest
    let data := layerData sphinx layer inner.1 inner.2
    (data,layerHmac sphinx layer.keys data)

def packet (ePub : Blob 33) (hopsData : Bytes) (hmac : Blob 32) : Bytes :=
  0x00 :: ePub.val ++ hopsData ++ hmac.val

def onionBuild (hops : List OnionHop) (sessionKey : Blob 32) : Option Bytes :=
  if hops = [] ∨ hops.length > onionMaxHops then none
  else do
    let keys ← onionKeys sphinx hops sessionKey
    let first ← keys.head?
    let wrapped := wrapLayers sphinx (onionLayers 0 hops keys)
    some (packet first.ePub wrapped.1 wrapped.2)

end

section

variable (sphinx : Sphinx)

def onionEcdhSharedSecret (nodePriv : Blob 32) (ephemeralPub : Blob 33) : Option (Blob 32) :=
  (sphinx.ecPubkeyParse ephemeralPub).bind (fun pub => sphinx.ecdh pub nodePriv)

def onionXorStream (hopsData : Bytes) (rho : Blob 32) : Bytes :=
  xorBytes hopsData (sphinx.chacha20Stream rho hopsData.length).val

def payloadHeader (plain : Bytes) : Option (ℕ × ℕ) :=
  match plain with
  | [] => none
  | first :: rest =>
    if first < 0xfd then some (first.toNat,1)
    else if first = 0xfd then some ((getBe 2 rest).toNat,3)
    else none

structure Peeled where
  next : Bytes
  payload : OnionHopPayload
  isFinal : Bool
deriving DecidableEq

-- `none` if the payload's records are still being read after `turns` turns or are read out of
-- bounds, `some none` a return value of 0.
def onionPeel (turns : ℕ) (nodePriv : Blob 32) (onion : Bytes) : Option (Option Peeled) :=
  let ephPub := copyBytes 33 (onion.drop 1)
  let hopsData := (onion.drop 34).take hopDataSize
  let pktHmac := copyBytes 32 (onion.drop (34+hopDataSize))
  if onion.head? ≠ some 0x00 then some none
  else
    match onionEcdhSharedSecret sphinx nodePriv ephPub with
    | none => some none
    | some ss =>
      if layerHmac sphinx ⟨ephPub,ss⟩ hopsData ≠ pktHmac then some none
      else
        let plain := onionXorStream sphinx hopsData (bolt4GenerateKey sphinx rhoTag ss)
        match payloadHeader plain with
        | none => some none
        | some (plen,hdr) =>
          if hdr + plen + hmacSize > hopDataSize then some none
          else
            match onionParseTlvPayload turns ((plain.drop hdr).take plen) with
            | none => none
            | some none => none
            | some (some (_,false)) => some none
            | some (some (payload,true)) =>
              let hopTotal := hdr + plen + hmacSize
              let nextHopsData := plain.drop hopTotal ++ List.replicate hopTotal 0
              match (sphinx.ecPubkeyParse ephPub).bind (fun pub =>
                sphinx.ecPubkeyTweakMul pub (blindingFactor sphinx ⟨ephPub,ss⟩)) with
              | none => some none
              | some nextPub =>
                some (some
                  { next := packet (sphinx.ecPubkeySerialize nextPub) nextHopsData
                      (copyBytes 32 (plain.drop (hdr+plen)))
                    payload := payload
                    isFinal := payload.paymentData.isSome })

end

section

variable (sphinx : Sphinx)

end

end SuperScalar
