import SuperScalar.Foundation.Options
import SuperScalar.Foundation.Transaction

namespace SuperScalar

abbrev Pubkey := Blob 64

abbrev XonlyPubkey := Blob 64

abbrev KeyaggCache := Blob 197

structure Keyagg where
  aggPubkey : XonlyPubkey
  cache : KeyaggCache
deriving DecidableEq

-- The functions of libsecp256k1 and SHA-256 that the code calls. `none` is a return value of 0.
-- `tweak_agrees`: a MuSig2 cache tweaks to the point that its aggregate x-only key tweaks to.
structure Secp where
  sha256 : Bytes → Blob 32
  xonlyPubkeySerialize : XonlyPubkey → Option (Blob 32)
  xonlyPubkeyFromPubkey : Pubkey → Option (XonlyPubkey × Bool)
  xonlyPubkeyTweakAdd : XonlyPubkey → Blob 32 → Option Pubkey
  musigPubkeyAgg : List Pubkey → Option Keyagg
  musigPubkeyXonlyTweakAdd : KeyaggCache → Blob 32 → Option (Pubkey × KeyaggCache)
  ecPubkeySerialize : Pubkey → Blob 33
  ecPubkeyCreate : Blob 32 → Option Pubkey
  ecPubkeyTweakMul : Pubkey → Blob 32 → Option Pubkey
  ecPubkeyCombine : List Pubkey → Option Pubkey
  tweak_agrees : ∀ {keys ka tweak pk cache}, musigPubkeyAgg keys = some ka →
    musigPubkeyXonlyTweakAdd ka.cache tweak = some (pk,cache) →
    xonlyPubkeyTweakAdd ka.aggPubkey tweak = some pk

def Secp.sampleHash (n : ℕ) (bs : Bytes) : Blob n :=
  ⟨Wire.leBytes n (Wire.leNat (bs ++ [1]) % (2^255-19)),by simp⟩

def Secp.sample : Secp where
  sha256 := sampleHash 32
  xonlyPubkeySerialize key := some ⟨key.val.take 32,by simp⟩
  xonlyPubkeyFromPubkey pk := some (pk,false)
  xonlyPubkeyTweakAdd _ tweak := some (sampleHash 64 tweak.val)
  musigPubkeyAgg keys := some ⟨sampleHash 64 (keys.flatMap Subtype.val),Blob.zero 197⟩
  musigPubkeyXonlyTweakAdd cache tweak := some (sampleHash 64 tweak.val,cache)
  ecPubkeySerialize pk := sampleHash 33 pk.val
  ecPubkeyCreate seckey := some (sampleHash 64 seckey.val)
  ecPubkeyTweakMul pk tweak := some (sampleHash 64 (pk.val++tweak.val))
  ecPubkeyCombine keys := some (sampleHash 64 (keys.flatMap Subtype.val))
  tweak_agrees _ h := by
    simp only [Option.some.injEq,Prod.mk.injEq] at h
    rw [h.1]

inductive Tag where
  | tapLeaf
  | tapBranch
  | tapTweak
deriving DecidableEq

def Tag.bytes : Tag → Bytes
  | .tapLeaf => [0x54,0x61,0x70,0x4c,0x65,0x61,0x66]
  | .tapBranch => [0x54,0x61,0x70,0x42,0x72,0x61,0x6e,0x63,0x68]
  | .tapTweak => [0x54,0x61,0x70,0x54,0x77,0x65,0x61,0x6b]

variable (secp : Secp)

def sha256Tagged (tag : Tag) (data : Bytes) : Blob 32 :=
  secp.sha256 ((secp.sha256 tag.bytes).val ++ (secp.sha256 tag.bytes).val ++ data)

def musigAggregateKeys (pubkeys : List Pubkey) : Option Keyagg := secp.musigPubkeyAgg pubkeys

end SuperScalar
