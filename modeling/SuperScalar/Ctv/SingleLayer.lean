import SuperScalar.Foundation.Cursor
import SuperScalar.Tx.Tapscript

namespace SuperScalar

open Bitcoin

def wU32Le (v : UInt32) : Bytes := txBufWriteU32Le v

def wU64Le (v : UInt64) : Bytes := txBufWriteU64Le v

def ctvFactoryMaxUsersSingleLayer : ℕ := 200

def ctvFactoryAnchorSats : UInt64 := 240

def ctvFactoryAnchorSpk : Bytes := [0x51,0x02,0x4e,0x73]

structure CtvUser where
  pubkey : Pubkey
  keyagg : Keyagg
  spk : Blob 34
deriving DecidableEq

structure CtvFactory where
  slotDepositSats : UInt64
  recoveryOffsetBlocks : UInt32
  activationOffsetBlocks : UInt32
  lspPubkey : Pubkey
  users : List CtvUser
  totalFundingSats : UInt64
  recoveryCltvAbsolute : UInt32
  activationCltvAbsolute : UInt32
  keyagg : Keyagg
  distTxTh : Blob 32
  fundingSpk : Blob 34
deriving DecidableEq

def CtvFactory.nUsers (f : CtvFactory) : ℕ := f.users.length

def serializeOutput (amountSats : UInt64) (spk : Bytes) (spkLen : UInt8) : Bytes :=
  wU64Le amountSats ++ [spkLen] ++ spk

def serializeUserOutput (f : CtvFactory) (u : CtvUser) : Bytes :=
  serializeOutput f.slotDepositSats u.spk.val 34

def serializeAnchor : Bytes := serializeOutput ctvFactoryAnchorSats ctvFactoryAnchorSpk 4

def serializeOutputsConcat (f : CtvFactory) (destCap : ℕ) : Option Bytes :=
  let need := f.nUsers*43+13
  if need > destCap then none
  else some ((f.users.map (serializeUserOutput f)).flatten ++ serializeAnchor)

def writeOutputCount (nOutputs : ℕ) : List Bytes :=
  if nOutputs ≤ 0xfc then [[UInt8.ofNat nOutputs]]
  else [[0xfd],[UInt8.ofNat (nOutputs &&& 0xff)],[UInt8.ofNat ((nOutputs >>> 8) &&& 0xff)]]

def absoluteCltv (fundingBlockHeight offset : UInt32) : UInt32 :=
  if offset = 0 then 0 else fundingBlockHeight + offset

section

variable (secp : Secp)

def buildUserLeafSpk2of2 (lspPk userPk : Pubkey) (activationCltv : UInt32) :
    Option (Keyagg × Blob 34) := do
  let keyagg ← musigAggregateKeys secp [lspPk,userPk]
  if activationCltv = 0 then some (keyagg,buildP2trScriptPubkey secp keyagg.aggPubkey)
  else
    let (lspXonly,_) ← secp.xonlyPubkeyFromPubkey lspPk
    let timeoutLeaf ← tapscriptBuildCltvTimeout secp activationCltv lspXonly
    let (tweaked,_) ← tapscriptTweakPubkey secp keyagg.aggPubkey timeoutLeaf.leafHash
    let key ← secp.xonlyPubkeySerialize tweaked
    some (keyagg,⟨0x51 :: 0x20 :: key.val,by simp⟩)

def computeDistTxTh (f : CtvFactory) : Option (Blob 32) := do
  let sequencesHash := secp.sha256 (wU32Le 0xFFFFFFFE)
  let outputs ← serializeOutputsConcat f (ctvFactoryMaxUsersSingleLayer*43+13)
  some (ctvTemplateHash secp 2 0 1 sequencesHash (UInt32.ofNat f.nUsers + 1)
    (secp.sha256 outputs) 0)

def buildOptionalSweepLeaf (lspPk : Pubkey) (recoveryOffsetBlocks recoveryCltvAbsolute : UInt32) :
    Option (Option TapscriptLeaf) :=
  if recoveryOffsetBlocks = 0 then some none
  else do
    let (lspXonly,_) ← secp.xonlyPubkeyFromPubkey lspPk
    let leaf ← tapscriptBuildCltvTimeout secp recoveryCltvAbsolute lspXonly
    some (some leaf)

def buildCtvUser (lspPk : Pubkey) (activationCltv : UInt32) (u : CtvUser) : Option CtvUser := do
  let (keyagg,spk) ← buildUserLeafSpk2of2 secp lspPk u.pubkey activationCltv
  some { u with keyagg := keyagg, spk := spk }

def ctvFactoryBuild (f : CtvFactory) (fundingBlockHeight : UInt32) : Option CtvFactory :=
  if f.nUsers = 0 ∨ f.nUsers > ctvFactoryMaxUsersSingleLayer ∨ f.slotDepositSats = 0 then none
  else do
    let totalFundingSats := UInt64.ofNat f.nUsers * f.slotDepositSats + ctvFactoryAnchorSats
    let recoveryCltvAbsolute := absoluteCltv fundingBlockHeight f.recoveryOffsetBlocks
    let activationCltvAbsolute := absoluteCltv fundingBlockHeight f.activationOffsetBlocks
    let keyagg ← musigAggregateKeys secp (f.lspPubkey :: f.users.map CtvUser.pubkey)
    let users ← f.users.mapM (buildCtvUser secp f.lspPubkey activationCltvAbsolute)
    let f := { f with
      totalFundingSats := totalFundingSats
      recoveryCltvAbsolute := recoveryCltvAbsolute
      activationCltvAbsolute := activationCltvAbsolute
      keyagg := keyagg
      users := users }
    let distTxTh ← computeDistTxTh secp f
    let sweepLeaf ← buildOptionalSweepLeaf secp f.lspPubkey f.recoveryOffsetBlocks
      f.recoveryCltvAbsolute
    let fundingSpk ← buildFactoryFundingSpk secp f.keyagg (some distTxTh) sweepLeaf
    some { f with distTxTh := distTxTh, fundingSpk := fundingSpk }

def ctvPathItems (keyagg : Keyagg) (ctvTh : Blob 32) (sweepLeaf : Option TapscriptLeaf) :
    Option (Bytes × Bytes) := do
  let ctvLeaf := tapscriptBuildCtv secp ctvTh
  let root ← match sweepLeaf with
    | some sweep => tapscriptMerkleRoot secp [ctvLeaf,sweep]
    | none => some ctvLeaf.leafHash
  let (_,parity) ← tapscriptTweakPubkey secp keyagg.aggPubkey root
  let cb ← match sweepLeaf with
    | some sweep => tapscriptBuildControlBlock2leaf secp parity keyagg.aggPubkey sweep
    | none => tapscriptBuildControlBlock secp parity keyagg.aggPubkey
  some (ctvLeaf.script,cb)

-- `none` is a write outside the buffer; a return value of 0 is `ok = false`.
def buildCtvPathWitness (keyagg : Keyagg) (ctvTh : Blob 32) (sweepLeaf : Option TapscriptLeaf)
    (witnessOut : Bytes) : Option Filled :=
  match ctvPathItems secp keyagg ctvTh sweepLeaf with
  | none => some ⟨false,witnessOut.length,witnessOut⟩
  | some (script,cb) => do
    let need := 1+1+34+1 + cb.length
    if witnessOut.length < need then some ⟨false,need,witnessOut⟩
    else
      let c ← Cursor.writeAll ⟨witnessOut,0⟩ [[0x02],[0x22],script,[UInt8.ofNat cb.length],cb]
      some ⟨true,c.pos,c.data⟩

def ctvFactoryBuildFundingWitness (f : CtvFactory) (witnessOut : Bytes) : Option Filled :=
  match buildOptionalSweepLeaf secp f.lspPubkey f.recoveryOffsetBlocks f.recoveryCltvAbsolute with
  | none => some ⟨false,witnessOut.length,witnessOut⟩
  | some sweepLeaf => buildCtvPathWitness secp f.keyagg f.distTxTh sweepLeaf witnessOut

end

def ctvFactoryBuildDistTx (f : CtvFactory) (fundingTxid : Blob 32) (fundingVout : UInt32)
    (txOut : Bytes) : Option Filled :=
  let nOutputs := f.nUsers+1
  let outCountVarintLen := if nOutputs ≤ 0xfc then 1 else 3
  let outputsBytes := f.nUsers*43+13
  let need := 4+1+36+1+4 + outCountVarintLen + outputsBytes+4
  if txOut.length < need then some ⟨false,need,txOut⟩
  else do
    let c ← Cursor.writeAll ⟨txOut,0⟩ (
      [wU32Le 2,[0x01],fundingTxid.val,wU32Le fundingVout,[0x00],wU32Le 0xFFFFFFFE] ++
      writeOutputCount nOutputs ++ f.users.map (serializeUserOutput f) ++ [serializeAnchor] ++
      [wU32Le 0])
    some ⟨true,c.pos,c.data⟩

def ctvFactoryBuildDistTxSegwit (secp : Secp) (f : CtvFactory) (fundingTxid : Blob 32)
    (fundingVout : UInt32) (txOut : Bytes) : Option Filled := do
  let witness ← ctvFactoryBuildFundingWitness secp f (Blob.zero 128).val
  if witness.ok = false then some ⟨false,txOut.length,txOut⟩
  else
    let witnessBytes := witness.data.take witness.len
    let nOutputs := f.nUsers+1
    let outCountVarintLen := if nOutputs ≤ 0xfc then 1 else 3
    let outputsBytes := f.nUsers*43+13
    let need := 4+2+1+36+1+4 + outCountVarintLen + outputsBytes + witness.len+4
    if txOut.length < need then some ⟨false,need,txOut⟩
    else
      let c ← Cursor.writeAll ⟨txOut,0⟩ (
        [wU32Le 2,[0x00],[0x01],[0x01],fundingTxid.val,wU32Le fundingVout,[0x00],
          wU32Le 0xFFFFFFFE] ++
        writeOutputCount nOutputs ++ f.users.map (serializeUserOutput f) ++ [serializeAnchor] ++
        [witnessBytes] ++ [wU32Le 0])
      some ⟨true,c.pos,c.data⟩

end SuperScalar
