import SuperScalar.Tx.Tapscript

namespace SuperScalar

abbrev Keypair := Blob 96

abbrev Secnonce := Blob 132

abbrev Pubnonce := Blob 132

abbrev Aggnonce := Blob 132

abbrev MusigSession := Blob 133

abbrev PartialSig := Blob 36

-- The further functions of libsecp256k1 that channels call. `none` is a return value of 0.
structure Musig extends Secp where
  ecPubkeyParse : Blob 33 → Option Pubkey
  ecPubkeyTweakAdd : Pubkey → Blob 32 → Option Pubkey
  keypairCreate : Blob 32 → Option Keypair
  musigPubnonceParse : Blob 66 → Option Pubnonce
  musigNonceAgg : List Pubnonce → Option Aggnonce
  musigNonceProcess : Aggnonce → Blob 32 → KeyaggCache → Option MusigSession
  musigPartialSign : Secnonce → Keypair → KeyaggCache → MusigSession → Option PartialSig
  musigPartialSigVerify : PartialSig → Pubnonce → Pubkey → KeyaggCache → MusigSession → Bool
  musigPartialSigSerialize : PartialSig → Option (Blob 32)
  musigPartialSigParse : Blob 32 → Option PartialSig
  musigPartialSigAgg : MusigSession → List PartialSig → Option (Blob 64)

def Musig.sampleParse (m n : ℕ) (b : Blob m) : Option (Blob n) :=
  if b = Blob.zero m then none
  else some ⟨(b.val ++ List.replicate n 0).take n,by simp⟩

def Musig.sample : Musig where
  toSecp := Secp.sample
  ecPubkeyParse := sampleParse 33 64
  ecPubkeyTweakAdd pk tweak := some (Secp.sampleHash 64 (tweak.val++pk.val))
  keypairCreate seckey := some (Secp.sampleHash 96 seckey.val)
  musigPubnonceParse := sampleParse 66 132
  musigNonceAgg nonces := some (Secp.sampleHash 132 (nonces.flatMap Subtype.val))
  musigNonceProcess agg msg _ := some (Secp.sampleHash 133 (agg.val++msg.val))
  musigPartialSign nonce key _ _ := some (Secp.sampleHash 36 (nonce.val++key.val))
  musigPartialSigVerify _ _ _ _ _ := true
  musigPartialSigSerialize sig := some ⟨sig.val.take 32,by simp⟩
  musigPartialSigParse := sampleParse 32 36
  musigPartialSigAgg session _ := some (Secp.sampleHash 64 session.val)

structure MusigNoncePool where
  nonces : List (Secnonce × Pubnonce)
  count : ℕ
  nextUnused : ℕ
deriving DecidableEq

def musigNoncePoolMax : ℕ := 256

def MusigNoncePool.empty : MusigNoncePool := ⟨[],0,0⟩

-- The pairs are what the generator of libsecp256k1 returned for each slot.
def musigNoncePoolGenerate (pairs : List (Secnonce × Pubnonce)) : MusigNoncePool :=
  ⟨pairs.take musigNoncePoolMax,min pairs.length musigNoncePoolMax,0⟩

def musigNoncePoolNext (pool : MusigNoncePool) : Option (Secnonce × Pubnonce × MusigNoncePool) :=
  if pool.nextUnused ≥ pool.count then none
  else
    let pair := pool.nonces.getD pool.nextUnused (Blob.zero 132,Blob.zero 132)
    some (pair.1,pair.2,{ pool with nextUnused := pool.nextUnused+1 })

section

variable (m : Musig)

def computeTaptweak (internalKey : XonlyPubkey) (merkleRoot : Option (Blob 32)) :
    Option (Blob 32) := do
  let internalKeySer ← m.xonlyPubkeySerialize internalKey
  match merkleRoot with
  | some root => some (sha256Tagged m.toSecp .tapTweak (internalKeySer.val++root.val))
  | none => some (sha256Tagged m.toSecp .tapTweak internalKeySer.val)

def musigSessionFinalizeNonces (keyagg : Keyagg) (pubnonces : List Pubnonce) (msg : Blob 32)
    (merkleRoot : Option (Blob 32)) : Option (MusigSession × KeyaggCache) := do
  let aggnonce ← m.musigNonceAgg pubnonces
  let tweak ← computeTaptweak m keyagg.aggPubkey merkleRoot
  let (_,tweakedCache) ← m.musigPubkeyXonlyTweakAdd keyagg.cache tweak
  let session ← m.musigNonceProcess aggnonce msg tweakedCache
  some (session,tweakedCache)

def tapSighashTag : Bytes := [0x54,0x61,0x70,0x53,0x69,0x67,0x68,0x61,0x73,0x68]

def computeTaprootSighash (unsignedTx : Bytes) (inputIndex : UInt32) (prevScriptpubkey : Bytes)
    (prevAmount : UInt64) (nsequence : UInt32) : Blob 32 :=
  let nversion := unsignedTx.take 4
  let nlocktime := unsignedTx.drop (unsignedTx.length-4)
  let shaPrevouts := m.sha256 ((unsignedTx.drop 5).take 36)
  let shaAmounts := m.sha256 (txBufWriteU64Le prevAmount)
  let shaScriptpubkeys := m.sha256 (UInt8.ofNat prevScriptpubkey.length :: prevScriptpubkey)
  let shaSequences := m.sha256 (txBufWriteU32Le nsequence)
  let shaOutputs := m.sha256 ((unsignedTx.drop 47).take (unsignedTx.length-4-47))
  let msg := [0x00,0x00] ++ nversion ++ nlocktime ++ shaPrevouts.val ++ shaAmounts.val ++
    shaScriptpubkeys.val ++ shaSequences.val ++ shaOutputs.val ++ [0x00] ++
    txBufWriteU32Le inputIndex
  m.sha256 ((m.sha256 tapSighashTag).val ++ (m.sha256 tapSighashTag).val ++ msg)

end

end SuperScalar
