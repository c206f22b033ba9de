import SuperScalar.Foundation.Ledger
import SuperScalar.Channel.State

namespace SuperScalar

open Ledger (Side)

def HtlcDirection.offerer : HtlcDirection → Side
  | .offered => .mine
  | .received => .theirs

def HtlcDirection.recipient (d : HtlcDirection) : Side := d.offerer.other

namespace Channel

def balance (ch : Channel) : Side → UInt64
  | .mine => ch.localAmount
  | .theirs => ch.remoteAmount

def withBalance (ch : Channel) (side : Side) (amount : UInt64) : Channel :=
  match side with
  | .mine => { ch with localAmount := amount }
  | .theirs => { ch with remoteAmount := amount }

def credit (ch : Channel) (side : Side) (n : UInt64) : Channel :=
  ch.withBalance side (ch.balance side + n)

def debit (ch : Channel) (side : Side) (n : UInt64) : Channel :=
  ch.withBalance side (ch.balance side - n)

def setHtlcs (ch : Channel) (htlcs : List Htlc) : Channel := { ch with htlcs := htlcs }

def setPtlcs (ch : Channel) (ptlcs : List Ptlc) : Channel := { ch with ptlcs := ptlcs }

def funder (ch : Channel) : Side := if ch.funderIsLocal then .mine else .theirs

def perEntryFee (ch : Channel) : UInt64 := (ch.feeRateSatPerKvb*43+999)/1000

def nextCommitment (draw : PcsDraw) (ch : Channel) : Channel :=
  let ch := { ch with commitmentNumber := ch.commitmentNumber+1 }
  channelGenerateLocalPcs (ch.commitmentNumber+1) draw ch

end Channel

def Htlc.isActive (h : Htlc) : Bool := h.state = .active

def findActive (id : UInt64) (htlcs : List Htlc) : Option (ℕ × Htlc) :=
  (htlcs.findIdx? (fun h => h.id = id && h.isActive)).bind
    (fun i => (htlcs[i]?).map (fun h => (i,h)))

def channelCompactHtlcs (ch : Channel) : Channel := ch.setHtlcs (ch.htlcs.filter Htlc.isActive)

def channelGrowHtlcs (grow : Bool) (ch : Channel) : Option Channel :=
  if ch.htlcs.length ≥ ch.htlcsCap then
    let newCap := if ch.htlcsCap < defaultHtlcsCap then defaultHtlcsCap else ch.htlcsCap*2
    if grow then some { ch with htlcsCap := min newCap maxHtlcs } else none
  else some ch

def channelAddHtlc (direction : HtlcDirection) (amountSats : UInt64) (paymentHash : Blob 32)
    (cltvExpiry : UInt32) (grow : Bool) (draw : PcsDraw) (ch : Channel) : Channel × Option UInt64 :=
  if ch.fundingPendingReorg then (ch,none)
  else if ch.htlcs.length ≥ maxHtlcs then (ch,none)
  else
    match channelGrowHtlcs grow ch with
    | none => (ch,none)
    | some ch =>
      if amountSats < channelDustLimitSats then (ch,none)
      else if amountSats > ch.balance direction.offerer then (ch,none)
      else if ch.balance direction.offerer - amountSats < channelReserveSats then (ch,none)
      else
        let perHtlcFee := ch.perEntryFee
        let paid := ch.debit direction.offerer amountSats
        if paid.balance paid.funder < perHtlcFee then
          (paid.credit direction.offerer amountSats,none)
        else
          let h : Htlc :=
            { direction := direction
              state := .active
              amountSats := amountSats
              paymentHash := paymentHash
              paymentPreimage := Blob.zero 32
              cltvExpiry := cltvExpiry
              id := ch.nextHtlcId
              feeAtAdd := perHtlcFee }
          let added :=
            { paid.debit paid.funder perHtlcFee with
              htlcs := ch.htlcs ++ [h]
              nextHtlcId := ch.nextHtlcId+1 }
          (added.nextCommitment draw,some h.id)

def channelCloseHtlc (i : ℕ) (h closed : Htlc) (payee : Side) (draw : PcsDraw) (ch : Channel) :
    Channel :=
  let paid := ch.credit payee h.amountSats
  let refunded := paid.credit paid.funder h.feeAtAdd
  let marked := refunded.setHtlcs (refunded.htlcs.set i closed)
  channelCompactHtlcs (marked.nextCommitment draw)

def channelFulfillHtlc (secp : Secp) (htlcId : UInt64) (preimage : Blob 32) (draw : PcsDraw)
    (ch : Channel) : Channel × Bool :=
  match findActive htlcId ch.htlcs with
  | none => (ch,false)
  | some (i,h) =>
    if secp.sha256 preimage.val = h.paymentHash then
      (channelCloseHtlc i h { h with paymentPreimage := preimage, state := .fulfilled }
        h.direction.recipient draw ch,true)
    else (ch,false)

def channelFailHtlc (htlcId : UInt64) (draw : PcsDraw) (ch : Channel) : Channel × Bool :=
  match findActive htlcId ch.htlcs with
  | none => (ch,false)
  | some (i,h) =>
    (channelCloseHtlc i h { h with state := .failed } h.direction.offerer draw ch,true)

def Htlc.timedOut (h : Htlc) (currentHeight : UInt32) : Bool :=
  h.isActive && h.cltvExpiry > 0 && currentHeight ≥ h.cltvExpiry

def timeoutLoop (currentHeight : UInt32) (draws : ℕ → PcsDraw) :
    ℕ → ℕ → ℕ → Channel → Channel × ℕ
  | 0, _, failed, ch => (ch,failed)
  | fuel+1, i, failed, ch =>
    match ch.htlcs[i]? with
    | none => (ch,failed)
    | some h =>
      if h.timedOut currentHeight then
        timeoutLoop currentHeight draws fuel (i+1) (failed+1)
          (channelFailHtlc h.id (draws i) ch).1
      else timeoutLoop currentHeight draws fuel (i+1) failed ch

def channelCheckHtlcTimeouts (currentHeight : UInt32) (draws : ℕ → PcsDraw) (ch : Channel) :
    Channel × ℕ :=
  if currentHeight < ch.lastHtlcCheckHeight then (ch,0)
  else
    timeoutLoop currentHeight draws ch.htlcs.length 0 0
      { ch with lastHtlcCheckHeight := currentHeight }

def channelSetFeeRate (feeRateSatPerKvb : UInt64) (ch : Channel) : Channel :=
  { ch with feeRateSatPerKvb := feeRateSatPerKvb }

def channelUpdate (deltaSats : Int64) (draw : PcsDraw) (ch : Channel) : Channel × Bool :=
  if deltaSats > 0 ∧ deltaSats.toUInt64 > ch.localAmount then (ch,false)
  else if deltaSats < 0 ∧ (-deltaSats).toUInt64 > ch.remoteAmount then (ch,false)
  else
    let moved :=
      { ch with
        localAmount := (ch.localAmount.toInt64-deltaSats).toUInt64
        remoteAmount := (ch.remoteAmount.toInt64+deltaSats).toUInt64 }
    (moved.nextCommitment draw,true)

def ptlcInitCap : ℕ := 8

def Ptlc.isActive (p : Ptlc) : Bool := p.state = .active

def findActivePtlc (id : UInt64) (ptlcs : List Ptlc) : Option (ℕ × Ptlc) :=
  (ptlcs.findIdx? (fun p => p.id = id && p.isActive)).bind
    (fun i => (ptlcs[i]?).map (fun p => (i,p)))

def channelGrownPtlcsCap (ch : Channel) : ℕ :=
  if ch.ptlcs.length ≥ ch.ptlcsCap then
    if ch.ptlcsCap = 0 then ptlcInitCap else ch.ptlcsCap*2
  else ch.ptlcsCap

-- `enabled` is the global safety gate.
def channelAddPtlc (enabled : Bool) (dir : HtlcDirection) (amountSats : UInt64)
    (point : Option Pubkey) (cltvExpiry : UInt32) (grow : Bool) (ch : Channel) :
    Channel × Option UInt64 :=
  if !enabled && (amountSats > 0 || point.isSome) then (ch,none)
  else if amountSats > 0 && ch.balance dir.offerer < amountSats + channelReserveSats then (ch,none)
  else
    let perPtlcFee := ch.perEntryFee
    let paid := if amountSats > 0 then ch.debit dir.offerer amountSats else ch
    if amountSats > 0 && paid.balance paid.funder < perPtlcFee then
      (paid.credit dir.offerer amountSats,none)
    else
      let charged := if amountSats > 0 then paid.debit paid.funder perPtlcFee else paid
      if ch.ptlcs.length ≥ ch.ptlcsCap && !grow then
        if amountSats > 0 then
          let returned := charged.credit dir.offerer amountSats
          (returned.credit returned.funder perPtlcFee,none)
        else (charged,none)
      else
        let p : Ptlc :=
          { direction := dir
            state := .active
            amountSats := amountSats
            paymentPoint := point.getD (Blob.zero 64)
            id := ch.nextPtlcId
            cltvExpiry := cltvExpiry
            preSig := Blob.zero 64
            hasPreSig := false
            adaptedSig := Blob.zero 64
            hasAdaptedSig := false
            feeAtAdd := if amountSats > 0 then perPtlcFee else 0 }
        ({ charged with
          ptlcs := ch.ptlcs ++ [p]
          ptlcsCap := channelGrownPtlcsCap ch
          nextPtlcId := ch.nextPtlcId+1 },some p.id)

def channelClosePtlc (i : ℕ) (p closed : Ptlc) (payee : Side) (ch : Channel) : Channel :=
  let paid :=
    if p.amountSats > 0 then
      let credited := ch.credit payee p.amountSats
      credited.credit credited.funder p.feeAtAdd
    else ch
  paid.setPtlcs (paid.ptlcs.set i closed)

def channelSettlePtlc (ptlcId : UInt64) (adaptedSig : Option (Blob 64)) (ch : Channel) :
    Channel × Bool :=
  match findActivePtlc ptlcId ch.ptlcs with
  | none => (ch,false)
  | some (i,p) =>
    (channelClosePtlc i p
      { p with
        adaptedSig := adaptedSig.getD p.adaptedSig
        hasAdaptedSig := adaptedSig.isSome
        state := .settled }
      p.direction.recipient ch,true)

def channelFailPtlc (ptlcId : UInt64) (ch : Channel) : Channel × Bool :=
  match findActivePtlc ptlcId ch.ptlcs with
  | none => (ch,false)
  | some (i,p) => (channelClosePtlc i p { p with state := .failed } p.direction.offerer ch,true)

inductive ChannelOp where
  | addHtlc (direction : HtlcDirection) (amountSats : UInt64) (paymentHash : Blob 32)
      (cltvExpiry : UInt32) (grow : Bool) (draw : PcsDraw)
  | fulfillHtlc (htlcId : UInt64) (preimage : Blob 32) (draw : PcsDraw)
  | failHtlc (htlcId : UInt64) (draw : PcsDraw)
  | checkHtlcTimeouts (currentHeight : UInt32) (draws : ℕ → PcsDraw)
  | setFeeRate (feeRateSatPerKvb : UInt64)
  | update (deltaSats : Int64) (draw : PcsDraw)
  | addPtlc (enabled : Bool) (direction : HtlcDirection) (amountSats : UInt64)
      (point : Option Pubkey) (cltvExpiry : UInt32) (grow : Bool)
  | settlePtlc (ptlcId : UInt64) (adaptedSig : Option (Blob 64))
  | failPtlc (ptlcId : UInt64)

def ChannelOp.call (secp : Secp) (ch : Channel) : ChannelOp → Channel × ℕ
  | .addHtlc direction amountSats paymentHash cltvExpiry grow draw =>
    let r := channelAddHtlc direction amountSats paymentHash cltvExpiry grow draw ch
    (r.1,r.2.isSome.toNat)
  | .fulfillHtlc htlcId preimage draw =>
    let r := channelFulfillHtlc secp htlcId preimage draw ch
    (r.1,r.2.toNat)
  | .failHtlc htlcId draw =>
    let r := channelFailHtlc htlcId draw ch
    (r.1,r.2.toNat)
  | .checkHtlcTimeouts currentHeight draws => channelCheckHtlcTimeouts currentHeight draws ch
  | .setFeeRate feeRateSatPerKvb => (channelSetFeeRate feeRateSatPerKvb ch,1)
  | .update deltaSats draw =>
    let r := channelUpdate deltaSats draw ch
    (r.1,r.2.toNat)
  | .addPtlc enabled direction amountSats point cltvExpiry grow =>
    let r := channelAddPtlc enabled direction amountSats point cltvExpiry grow ch
    (r.1,r.2.isSome.toNat)
  | .settlePtlc ptlcId adaptedSig =>
    let r := channelSettlePtlc ptlcId adaptedSig ch
    (r.1,r.2.toNat)
  | .failPtlc ptlcId =>
    let r := channelFailPtlc ptlcId ch
    (r.1,r.2.toNat)

def channelStep (secp : Secp) (ch : Channel) (op : ChannelOp) : Channel := (op.call secp ch).1

end SuperScalar
