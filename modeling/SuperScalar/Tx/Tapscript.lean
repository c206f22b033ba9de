import SuperScalar.Tx.Builder

namespace SuperScalar

structure TapscriptLeaf where
  script : Bytes
  leafHash : Blob 32
deriving DecidableEq

def scriptnumBytes : ℕ → UInt32 → Bytes
  | 0, _ => []
  | fuel+1, v => if v = 0 then [] else (v &&& 0xff).toUInt8 :: scriptnumBytes fuel (v >>> 8)

def encodeScriptnum (val : UInt32) : Bytes :=
  if val = 0 then [0x00]
  else if val ≤ 16 then [0x50 + val.toUInt8]
  else
    let tmp := scriptnumBytes 4 val
    let tmp := if tmp.getLastD 0 &&& 0x80 ≠ 0 then tmp ++ [0x00] else tmp
    UInt8.ofNat tmp.length :: tmp

def memcmpLe : Bytes → Bytes → Bool
  | a :: as, b :: bs => a < b || (a == b && memcmpLe as bs)
  | [], _ => true
  | _ :: _, [] => false

section

variable (secp : Secp)

def buildP2trScriptPubkey (key : XonlyPubkey) : Blob 34 :=
  ⟨0x51 :: 0x20 :: ((secp.xonlyPubkeySerialize key).getD (Blob.zero 32)).val,by simp⟩

def tapscriptComputeLeafHash (script : Bytes) : Blob 32 :=
  sha256Tagged secp .tapLeaf (0xc0 :: UInt8.ofNat script.length :: script)

def tapscriptLeaf (script : Bytes) : TapscriptLeaf := ⟨script,tapscriptComputeLeafHash secp script⟩

def tapscriptBuildCltvTimeout (locktime : UInt32) (lspPubkey : XonlyPubkey) :
    Option TapscriptLeaf := do
  let key ← secp.xonlyPubkeySerialize lspPubkey
  some (tapscriptLeaf secp (encodeScriptnum locktime ++ [0xb1,0x75,0x20] ++ key.val ++ [0xac]))

def tapscriptBuildCsvDelay (delay : UInt32) (pubkey : XonlyPubkey) : Option TapscriptLeaf := do
  let key ← secp.xonlyPubkeySerialize pubkey
  some (tapscriptLeaf secp (encodeScriptnum delay ++ [0xb2,0x75,0x20] ++ key.val ++ [0xac]))

def tapscriptBuildRevocationChecksig (revocationPubkey : XonlyPubkey) : Option TapscriptLeaf := do
  let key ← secp.xonlyPubkeySerialize revocationPubkey
  some (tapscriptLeaf secp ([0x20] ++ key.val ++ [0xac]))

def tapscriptBuildHtlcOfferedSuccess (paymentHash : Blob 32) (remoteHtlcpubkey : XonlyPubkey) :
    Option TapscriptLeaf := do
  let key ← secp.xonlyPubkeySerialize remoteHtlcpubkey
  some (tapscriptLeaf secp ([0x82,0x01,0x20,0x88,0xa8,0x20] ++ paymentHash.val ++
    [0x88,0x20] ++ key.val ++ [0xac]))

def tapscriptBuildHtlcOfferedTimeout (cltvExpiry toSelfDelay : UInt32)
    (localHtlcpubkey : XonlyPubkey) : Option TapscriptLeaf := do
  let key ← secp.xonlyPubkeySerialize localHtlcpubkey
  some (tapscriptLeaf secp (encodeScriptnum cltvExpiry ++ [0xb1,0x75] ++
    encodeScriptnum toSelfDelay ++ [0xb2,0x75,0x20] ++ key.val ++ [0xac]))

def tapscriptBuildHtlcReceivedSuccess (paymentHash : Blob 32) (toSelfDelay : UInt32)
    (localHtlcpubkey : XonlyPubkey) : Option TapscriptLeaf := do
  let key ← secp.xonlyPubkeySerialize localHtlcpubkey
  some (tapscriptLeaf secp ([0x82,0x01,0x20,0x88,0xa8,0x20] ++ paymentHash.val ++ [0x88] ++
    encodeScriptnum toSelfDelay ++ [0xb2,0x75,0x20] ++ key.val ++ [0xac]))

def tapscriptBuildHtlcReceivedTimeout (cltvExpiry : UInt32) (remoteHtlcpubkey : XonlyPubkey) :
    Option TapscriptLeaf :=
  tapscriptBuildCltvTimeout secp cltvExpiry remoteHtlcpubkey

def tapscriptBuildCtv (th : Blob 32) : TapscriptLeaf :=
  tapscriptLeaf secp ([0x20] ++ th.val ++ [0xb3])

def tapBranch (a b : Blob 32) : Blob 32 :=
  sha256Tagged secp .tapBranch
    (if memcmpLe a.val b.val then a.val ++ b.val else b.val ++ a.val)

def merkleRoot : ℕ → List TapscriptLeaf → Option (Blob 32)
  | 0, _ => none
  | _+1, [] => none
  | _+1, [a] => some a.leafHash
  | _+1, [a,b] => some (tapBranch secp a.leafHash b.leafHash)
  | fuel+1, leaves => do
    let mid := leaves.length/2
    let left ← merkleRoot fuel (leaves.take mid)
    let right ← merkleRoot fuel (leaves.drop mid)
    some (tapBranch secp left right)

def tapscriptMerkleRoot (leaves : List TapscriptLeaf) : Option (Blob 32) :=
  merkleRoot secp (leaves.length+1) leaves

def tapscriptTweakPubkey (internalKey : XonlyPubkey) (root : Blob 32) :
    Option (XonlyPubkey × Bool) := do
  let internalSer ← secp.xonlyPubkeySerialize internalKey
  let tweak := sha256Tagged secp .tapTweak (internalSer.val++root.val)
  let tweakedFull ← secp.xonlyPubkeyTweakAdd internalKey tweak
  secp.xonlyPubkeyFromPubkey tweakedFull

def controlByte (outputParity : Bool) : UInt8 := 0xc0 ||| (if outputParity then 1 else 0)

def tapscriptBuildControlBlock (outputParity : Bool) (internalKey : XonlyPubkey) :
    Option Bytes := do
  let key ← secp.xonlyPubkeySerialize internalKey
  some (controlByte outputParity :: key.val)

def tapscriptBuildControlBlock2leaf (outputParity : Bool) (internalKey : XonlyPubkey)
    (siblingLeaf : TapscriptLeaf) : Option Bytes := do
  let key ← secp.xonlyPubkeySerialize internalKey
  some (controlByte outputParity :: (key.val++siblingLeaf.leafHash.val))

def ctvTemplateHash (version locktime inputCount : UInt32) (sequencesHash : Blob 32)
    (outputCount : UInt32) (outputsHash : Blob 32) (inputIndex : UInt32) : Blob 32 :=
  secp.sha256 (txBufWriteU32Le version ++ txBufWriteU32Le locktime ++ txBufWriteU32Le inputCount ++
    sequencesHash.val ++ txBufWriteU32Le outputCount ++ outputsHash.val ++
    txBufWriteU32Le inputIndex)

def fundingTweakMessage (internalSer : Blob 32) : Option (Blob 32) → Option TapscriptLeaf →
    Option Bytes
  | none, none => some internalSer.val
  | some ctvTh, none => some (internalSer.val ++ (tapscriptBuildCtv secp ctvTh).leafHash.val)
  | none, some sweepLeaf => some (internalSer.val++sweepLeaf.leafHash.val)
  | some ctvTh, some sweepLeaf => do
    let root ← tapscriptMerkleRoot secp [tapscriptBuildCtv secp ctvTh,sweepLeaf]
    some (internalSer.val++root.val)

def buildFactoryFundingSpk (ka : Keyagg) (ctvTh : Option (Blob 32))
    (sweepLeaf : Option TapscriptLeaf) : Option (Blob 34) := do
  let internalSer ← secp.xonlyPubkeySerialize ka.aggPubkey
  let message ← fundingTweakMessage secp internalSer ctvTh sweepLeaf
  let tweak := sha256Tagged secp .tapTweak message
  let (tweakedPk,_) ← secp.musigPubkeyXonlyTweakAdd ka.cache tweak
  let (tweakedXonly,_) ← secp.xonlyPubkeyFromPubkey tweakedPk
  some (buildP2trScriptPubkey secp tweakedXonly)

end

end SuperScalar
