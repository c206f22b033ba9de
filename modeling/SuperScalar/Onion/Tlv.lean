import SuperScalar.Foundation.Loop
import SuperScalar.Peer.HtlcCommit

namespace SuperScalar

def getBe (n : ℕ) (b : Bytes) : UInt64 := (b.take n).foldl (fun v x => v <<< 8 ||| x.toUInt64) 0

def decodeBigsize : Bytes → Option (UInt64 × ℕ)
  | [] => none
  | first :: rest =>
    if first < 0xfd then some (first.toUInt64,1)
    else if first = 0xfd then if rest.length < 2 then none else some (getBe 2 rest,3)
    else if first = 0xfe then if rest.length < 4 then none else some (getBe 4 rest,5)
    else if rest.length < 8 then none else some (getBe 8 rest,9)

def readBigsize (buf : Bytes) (pos : ℕ) : Option (UInt64 × ℕ) :=
  if pos ≥ buf.length then none else decodeBigsize (buf.drop pos)

section

variable {σ : Type}

structure TlvScan (σ : Type) where
  off : UInt64
  out : σ

-- `none` is a read outside the buffer.
def slice (buf : Bytes) (off n : ℕ) : Option Bytes :=
  if off + n ≤ buf.length then some ((buf.drop off).take n) else none

-- The record loop of both parsers: `decode` reads a number at an offset, `store` takes a record
-- with the bytes it may copy. Offsets and lengths are 64-bit, and so is their sum.
def tlvBody (decode : Bytes → ℕ → Option (UInt64 × ℕ))
    (store : UInt64 → UInt64 → (ℕ → Option Bytes) → σ → Option σ) (payload : Bytes)
    (s : TlvScan σ) : Loop.Turn (TlvScan σ) (Option σ) :=
  let payloadLen := UInt64.ofNat payload.length
  if s.off < payloadLen then
    match decode payload s.off.toNat with
    | none => .leave (some s.out)
    | some (type,consumed) =>
      let off := s.off + UInt64.ofNat consumed
      match decode payload off.toNat with
      | none => .leave (some s.out)
      | some (length,consumed) =>
        let off := off + UInt64.ofNat consumed
        if off + length > payloadLen then .leave (some s.out)
        else
          match store type length (slice payload off.toNat) s.out with
          | none => .leave none
          | some out => .again ⟨off + length,out⟩
  else .leave (some s.out)

end

-- Fields that the source marks with a flag are options; without the flag they are zero.
structure OnionHopPayload where
  amtToForward : Option UInt64
  outgoingCltvValue : Option UInt32
  paymentData : Option (Blob 32 × UInt64)
  shortChannelId : Option UInt64
  trampolinePayload : Option Bytes
deriving DecidableEq

def OnionHopPayload.empty : OnionHopPayload := ⟨none,none,none,none,none⟩

def trampolineMax : UInt64 := 256

def storeHopRecord (type length : UInt64) (copy : ℕ → Option Bytes) (out : OnionHopPayload) :
    Option OnionHopPayload :=
  if type = 2 then
    if length = 8 then (copy 8).map (fun val => { out with amtToForward := some (getU64 val) })
    else some out
  else if type = 4 then
    if length = 4 then (copy 4).map (fun val => { out with outgoingCltvValue := some (getU32 val) })
    else some out
  else if type = 8 then
    if length = 40 then
      (copy 40).map (fun val =>
        { out with paymentData := some (copyBytes 32 val,getU64 (val.drop 32)) })
    else some out
  else if type = 6 then
    if length = 8 then (copy 8).map (fun val => { out with shortChannelId := some (getU64 val) })
    else some out
  else if type = 0x0c then
    if length ≤ trampolineMax then
      (copy length.toNat).map (fun val => { out with trampolinePayload := some val })
    else some out
  else some out

def decodeAt (buf : Bytes) (off : ℕ) : Option (UInt64 × ℕ) := decodeBigsize (buf.drop off)

def hopBody : Bytes → TlvScan OnionHopPayload →
    Loop.Turn (TlvScan OnionHopPayload) (Option OnionHopPayload) :=
  tlvBody decodeAt storeHopRecord

def OnionHopPayload.complete (out : OnionHopPayload) : Bool :=
  out.amtToForward.isSome && out.outgoingCltvValue.isSome

-- What the loop leaves in the structure and what is returned, if it comes back within `fuel` turns.
def onionParseTlvPayload (fuel : ℕ) (payload : Bytes) : Option (Option (OnionHopPayload × Bool)) :=
  (Loop.run (hopBody payload) fuel ⟨0,.empty⟩).map (Option.map (fun out => (out,out.complete)))

def onionMsgRelayTlvNextNode : UInt64 := 4

def onionMsgRelayTlvInnerPkt : UInt64 := 6

def onionMsgRelayAppMax : UInt64 := 1024

def onionMsgRelayPktMax : UInt64 := 2048

structure OnionMsgRecords where
  nextNodeId : Option (Blob 33)
  innerPkt : Option Bytes
  appData : Option (UInt64 × Bytes)
deriving DecidableEq

def OnionMsgRecords.empty : OnionMsgRecords := ⟨none,none,none⟩

def storeRelayRecord (type length : UInt64) (copy : ℕ → Option Bytes) (out : OnionMsgRecords) :
    Option OnionMsgRecords :=
  if type = onionMsgRelayTlvNextNode then
    if length = 33 then (copy 33).map (fun val => { out with nextNodeId := some (copyBytes 33 val) })
    else some out
  else if type = onionMsgRelayTlvInnerPkt then
    if length ≤ onionMsgRelayPktMax then
      (copy length.toNat).map (fun val => { out with innerPkt := some val })
    else some out
  else if out.nextNodeId.isNone && length ≤ onionMsgRelayAppMax then
    (copy length.toNat).map (fun val => { out with appData := some (type,val) })
  else some out

def relayBody : Bytes → TlvScan OnionMsgRecords →
    Loop.Turn (TlvScan OnionMsgRecords) (Option OnionMsgRecords) :=
  tlvBody readBigsize storeRelayRecord

def onionMsgRelayRecords (fuel : ℕ) (plaintext : Bytes) : Option (Option OnionMsgRecords) :=
  Loop.run (relayBody plaintext) fuel ⟨0,.empty⟩

end SuperScalar
