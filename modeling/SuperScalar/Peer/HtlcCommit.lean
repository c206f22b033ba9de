import SuperScalar.Foundation.Script
import SuperScalar.Channel.Nonce

namespace SuperScalar

def putU16 (v : UInt16) : Bytes := [(v >>> 8).toUInt8,v.toUInt8]

def putU32 (v : UInt32) : Bytes :=
  [(v >>> 24).toUInt8,(v >>> 16).toUInt8,(v >>> 8).toUInt8,v.toUInt8]

def putU64 (v : UInt64) : Bytes :=
  (List.range 8).map (fun i => (v >>> UInt64.ofNat ((7-i)*8)).toUInt8)

def getU16 (b : Bytes) : UInt16 := (b.getD 0 0).toUInt16 <<< 8 ||| (b.getD 1 0).toUInt16

def getU32 (b : Bytes) : UInt32 :=
  (b.getD 0 0).toUInt32 <<< 24 ||| (b.getD 1 0).toUInt32 <<< 16 |||
    (b.getD 2 0).toUInt32 <<< 8 ||| (b.getD 3 0).toUInt32

def getU64 (b : Bytes) : UInt64 :=
  (List.range 8).foldl (fun v i => v <<< 8 ||| (b.getD i 0).toUInt64) 0

def copyBytes (n : ℕ) (b : Bytes) : Blob n := ⟨(b ++ List.replicate n 0).take n,by simp⟩

def bolt2UpdateAddHtlc : UInt16 := 128

def bolt2UpdateFulfillHtlc : UInt16 := 130

def bolt2UpdateFailHtlc : UInt16 := 131

def bolt2CommitmentSigned : UInt16 := 132

def bolt2RevokeAndAck : UInt16 := 133

def bolt2UpdateFee : UInt16 := 134

def bolt2UpdateFailMalformedHtlc : UInt16 := 135

def bolt2UpdateFeeFloor : UInt32 := 25

def bolt2UpdateFeeCeiling : UInt32 := 100000

def bolt2MaxMsgSize : ℕ := 1500

abbrev Onion := Blob 1366

def packCommitSig (partial32 : Blob 32) (nonceIdx : UInt32) : Bytes :=
  partial32.val ++ putU32 nonceIdx ++ List.replicate 28 0

def unpackCommitSig (sig64 : Bytes) : Blob 32 × UInt32 :=
  (copyBytes 32 sig64,getU32 (sig64.drop 32))

def updateAddHtlc (channelId : Blob 32) (htlcId amountMsat : UInt64) (paymentHash : Blob 32)
    (cltvExpiry : UInt32) (onion : Onion) : Bytes :=
  putU16 bolt2UpdateAddHtlc ++ channelId.val ++ putU64 htlcId ++ putU64 amountMsat ++
    paymentHash.val ++ putU32 cltvExpiry ++ onion.val

def commitmentSigned (channelId : Blob 32) (sig64 : Bytes) : Bytes :=
  putU16 bolt2CommitmentSigned ++ channelId.val ++ sig64 ++ putU16 0

def revokeAndAck (channelId perCommitmentSecret : Blob 32) (nextPerCommitmentPoint : Blob 33) :
    Bytes :=
  putU16 bolt2RevokeAndAck ++ channelId.val ++ perCommitmentSecret.val ++
    nextPerCommitmentPoint.val

def updateFulfillHtlc (channelId : Blob 32) (htlcId : UInt64) (preimage : Blob 32) : Bytes :=
  putU16 bolt2UpdateFulfillHtlc ++ channelId.val ++ putU64 htlcId ++ preimage.val

def updateFailHtlc (channelId : Blob 32) (htlcId : UInt64) (reason : Bytes) : Bytes :=
  putU16 bolt2UpdateFailHtlc ++ channelId.val ++ putU64 htlcId ++
    putU16 (UInt16.ofNat reason.length) ++ reason

structure Luck where
  growHtlcs : Bool
  draw : PcsDraw
  growRevocations : Bool

abbrev PeerCall := Script Bytes (Channel × Bool)

def PeerCall.andThen (s : PeerCall) (next : Channel → PeerCall) : PeerCall :=
  Script.bind s (fun r => if r.2 then next r.1 else .done (r.1,false))

def sendOnce (msg : Bytes) (ch : Channel) : PeerCall := .send msg (fun ok => .done (ch,ok))

section

variable (m : Musig) (luck : Luck) (channelId : Blob 32)

def sendCommitmentSignedForRemote (ch : Channel) : PeerCall :=
  match channelCreateCommitmentPartialSig m ch with
  | (ch,none) => .done (ch,false)
  | (ch,some (partial32,nonceIdx)) =>
    sendOnce (commitmentSigned channelId (packCommitSig partial32 nonceIdx)) ch

def sendRevokeAndAckInternal (ch : Channel) : PeerCall :=
  if ch.commitmentNumber = 0 then .done (ch,false)
  else
    match channelGetPerCommitmentSecret ch (ch.commitmentNumber-1) with
    | none => .done (ch,false)
    | some pcs =>
      match channelGetPerCommitmentPoint m ch (ch.commitmentNumber+1) with
      | none => .done (ch,false)
      | some nextPcp => sendOnce (revokeAndAck channelId pcs (m.ecPubkeySerialize nextPcp)) ch

def storeRevocation (peerPcs : Blob 32) (ch : Channel) : Channel :=
  if ch.commitmentNumber > 0 then
    channelReceiveRevocationFlat (ch.commitmentNumber-1) peerPcs luck.growRevocations ch
  else ch

def acceptRevocation (peerPcs : Blob 32) (nextPcpWire : Blob 33) (ch : Channel) : Channel × Bool :=
  match m.ecPubkeyParse nextPcpWire with
  | none => (storeRevocation luck peerPcs ch,false)
  | some nextPcp =>
    (channelSetRemotePcp (ch.commitmentNumber+1) nextPcp (storeRevocation luck peerPcs ch),true)

def recvRevokeAndAck (ch : Channel) : PeerCall :=
  .recv (fun got =>
    match got with
    | none => .done (ch,false)
    | some buf =>
      if buf.length < 99 then .done (ch,false)
      else if getU16 buf ≠ bolt2RevokeAndAck then .done (ch,false)
      else
        .done (acceptRevocation m luck (copyBytes 32 (buf.drop 34)) (copyBytes 33 (buf.drop 66)) ch))

def acceptCommitmentSig (sig64 : Bytes) (ch : Channel) : Channel × Bool :=
  let (peerPartial,peerNonceIdx) := unpackCommitSig sig64
  let r := channelVerifyAndAggregateCommitmentSig m peerPartial peerNonceIdx ch
  (r.1,r.2.isSome)

def recvCommitmentSigned (ch : Channel) : PeerCall :=
  .recv (fun got =>
    match got with
    | none => .done (ch,false)
    | some buf =>
      if buf.length < 100 then .done (ch,false)
      else if getU16 buf ≠ bolt2CommitmentSigned then .done (ch,false)
      else .done (acceptCommitmentSig m (buf.drop 34) ch))

def commitmentRound (ch : Channel) : PeerCall :=
  (sendCommitmentSignedForRemote m channelId ch).andThen (fun ch =>
    (recvRevokeAndAck m luck ch).andThen (fun ch =>
      (recvCommitmentSigned m ch).andThen (sendRevokeAndAckInternal m channelId)))

def overrideLastId (htlcId : UInt64) (ch : Channel) : Channel :=
  match ch.htlcs.getLast? with
  | none => ch
  | some last => ch.setHtlcs (ch.htlcs.dropLast ++ [{ last with id := htlcId }])

def htlcCommitAddAndSign (amountMsat : UInt64) (paymentHash : Blob 32) (cltvExpiry : UInt32)
    (onion : Onion) (ch : Channel) : PeerCall :=
  match channelAddHtlc .offered (amountMsat/1000) paymentHash cltvExpiry luck.growHtlcs luck.draw
    ch with
  | (ch,none) => .done (ch,false)
  | (ch,some htlcId) =>
    (sendOnce (updateAddHtlc channelId htlcId amountMsat paymentHash cltvExpiry onion) ch).andThen
      (commitmentRound m luck channelId)

def htlcCommitRecvAndSign (htlcId amountMsat : UInt64) (paymentHash : Blob 32)
    (cltvExpiry : UInt32) (ch : Channel) : PeerCall :=
  match channelAddHtlc .received (amountMsat/1000) paymentHash cltvExpiry luck.growHtlcs luck.draw
    ch with
  | (ch,none) => .done (ch,false)
  | (ch,some _) => commitmentRound m luck channelId (overrideLastId htlcId ch)

def htlcCommitFulfill (htlcId : UInt64) (preimage : Blob 32) (ch : Channel) : PeerCall :=
  match channelFulfillHtlc m.toSecp htlcId preimage luck.draw ch with
  | (ch,false) => .done (ch,false)
  | (ch,true) =>
    (sendOnce (updateFulfillHtlc channelId htlcId preimage) ch).andThen
      (commitmentRound m luck channelId)

def htlcCommitFail (htlcId : UInt64) (reason : Bytes) (ch : Channel) : PeerCall :=
  match channelFailHtlc htlcId luck.draw ch with
  | (ch,false) => .done (ch,false)
  | (ch,true) =>
    if 44 + reason.length > bolt2MaxMsgSize then .done (ch,false)
    else
      (sendOnce (updateFailHtlc channelId htlcId reason) ch).andThen
        (commitmentRound m luck channelId)

end

section

variable (m : Musig) (luck : Luck) (channelId : Blob 32)

-- The message type, or nothing where the source returns -1.
abbrev DispatchCall := Script Bytes (Channel × Option UInt16)

def resolved (type : UInt16) (r : Channel × Bool) : DispatchCall :=
  .done (r.1,if r.2 then some type else none)

def dispatchAdd (payload : Bytes) (ch : Channel) : DispatchCall :=
  if payload.length < 1450 then .done (ch,none)
  else
    match channelAddHtlc .received (getU64 (payload.drop 40) / 1000)
      (copyBytes 32 (payload.drop 48)) (getU32 (payload.drop 80)) luck.growHtlcs luck.draw ch with
    | (ch,none) => .done (ch,none)
    | (ch,some _) =>
      .done (overrideLastId (getU64 (payload.drop 32)) ch,some bolt2UpdateAddHtlc)

def dispatchFulfill (payload : Bytes) (ch : Channel) : DispatchCall :=
  if payload.length < 72 then .done (ch,none)
  else
    resolved bolt2UpdateFulfillHtlc (channelFulfillHtlc m.toSecp (getU64 (payload.drop 32))
      (copyBytes 32 (payload.drop 40)) luck.draw ch)

def dispatchFail (type : UInt16) (minLength : ℕ) (payload : Bytes) (ch : Channel) : DispatchCall :=
  if payload.length < minLength then .done (ch,none)
  else resolved type (channelFailHtlc (getU64 (payload.drop 32)) luck.draw ch)

def dispatchCommitmentSigned (payload : Bytes) (ch : Channel) : DispatchCall :=
  if payload.length < 98 then .done (ch,none)
  else
    match acceptCommitmentSig m (payload.drop 32) ch with
    | (ch,false) => .done (ch,none)
    | (ch,true) =>
      (sendRevokeAndAckInternal m channelId ch).bind (resolved bolt2CommitmentSigned)

def dispatchRevokeAndAck (payload : Bytes) (ch : Channel) : DispatchCall :=
  if payload.length < 97 then .done (ch,none)
  else
    resolved bolt2RevokeAndAck
      (acceptRevocation m luck (copyBytes 32 (payload.drop 32)) (copyBytes 33 (payload.drop 64)) ch)

def dispatchUpdateFee (payload : Bytes) (ch : Channel) : DispatchCall :=
  if payload.length < 36 then .done (ch,none)
  else
    let feerate := getU32 (payload.drop 32)
    if feerate < bolt2UpdateFeeFloor || feerate > bolt2UpdateFeeCeiling then .done (ch,none)
    else .done ({ ch with feeRateSatPerKvb := feerate.toUInt64*4 },some bolt2UpdateFee)

def htlcCommitDispatch (msg : Bytes) (ch : Channel) : DispatchCall :=
  if msg.length < 2 then .done (ch,none)
  else
    let type := getU16 msg
    let payload := msg.drop 2
    if type = bolt2UpdateAddHtlc then dispatchAdd luck payload ch
    else if type = bolt2UpdateFulfillHtlc then dispatchFulfill m luck payload ch
    else if type = bolt2UpdateFailHtlc then dispatchFail luck type 42 payload ch
    else if type = bolt2UpdateFailMalformedHtlc then dispatchFail luck type 74 payload ch
    else if type = bolt2CommitmentSigned then dispatchCommitmentSigned m channelId payload ch
    else if type = bolt2RevokeAndAck then dispatchRevokeAndAck m luck payload ch
    else if type = bolt2UpdateFee then dispatchUpdateFee payload ch
    else .done (ch,none)

end

end SuperScalar
