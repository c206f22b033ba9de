import SuperScalar.Peer.HtlcCommit

namespace SuperScalar

def htlcSweepFee (feeRateSatPerKvb : UInt64) : UInt64 := (feeRateSatPerKvb*180+999)/1000

def htlcSweepOutput (feeRateSatPerKvb htlcAmount : UInt64) : UInt64 :=
  if htlcAmount > htlcSweepFee feeRateSatPerKvb then htlcAmount - htlcSweepFee feeRateSatPerKvb
  else 0

def strandsHtlc (newKvb : UInt64) (active : Bool) (amountSats : UInt64) : Bool :=
  active && !decide (amountSats < channelDustLimitSats) &&
    decide (amountSats < htlcSweepFee newKvb + channelDustLimitSats)

def strandsAny (newKvb : UInt64) (ch : Channel) : Bool :=
  ch.htlcs.any (fun h => strandsHtlc newKvb h.isActive h.amountSats) ||
    ch.ptlcs.any (fun p => strandsHtlc newKvb p.isActive p.amountSats)

def htlcCommitRecvUpdateFee (msg : Bytes) (feerateFloor feerateCeiling : UInt32) (ch : Channel) :
    Channel × Bool :=
  if msg.length < 38 then (ch,false)
  else if getU16 msg ≠ bolt2UpdateFee then (ch,false)
  else
    let feerate := getU32 (msg.drop 34)
    if feerate < feerateFloor || feerate > feerateCeiling then (ch,false)
    else
      let newKvb := feerate.toUInt64*4
      if strandsAny newKvb ch then (ch,false)
      else ({ ch with feeRateSatPerKvb := newKvb },true)

section

variable {feerate : UInt32} {amount : UInt64} {active : Bool}

def Sweepable (ch : Channel) : Prop :=
  (∀ h ∈ ch.htlcs, h.isActive = true → channelDustLimitSats ≤ h.amountSats →
    channelDustLimitSats ≤ htlcSweepOutput ch.feeRateSatPerKvb h.amountSats) ∧
  ∀ p ∈ ch.ptlcs, p.isActive = true → channelDustLimitSats ≤ p.amountSats →
    channelDustLimitSats ≤ htlcSweepOutput ch.feeRateSatPerKvb p.amountSats

def FeeFits (msg : Bytes) (ch : Channel) : Prop :=
  38 ≤ msg.length → bolt2UpdateFeeFloor ≤ getU32 (msg.drop 34) →
    getU32 (msg.drop 34) ≤ bolt2UpdateFeeCeiling →
    strandsAny ((getU32 (msg.drop 34)).toUInt64*4) ch = false

theorem sweepFee_toNat (h : feerate ≤ bolt2UpdateFeeCeiling) :
    (htlcSweepFee (feerate.toUInt64*4)).toNat = (feerate.toNat*4*180+999)/1000 ∧
      feerate.toNat ≤ 100000 := by
  have hle : feerate.toNat ≤ 100000 := UInt32.le_iff_toNat_le.mp h
  have hwide : feerate.toUInt64.toNat = feerate.toNat := UInt32.toNat_toUInt64 feerate
  simp only [htlcSweepFee,UInt64.toNat_div,UInt64.toNat_add,UInt64.toNat_mul,hwide,
    UInt64.reduceToNat]
  omega

theorem sweepOutput_of_not_strands (h : feerate ≤ bolt2UpdateFeeCeiling)
    (hkept : strandsHtlc (feerate.toUInt64*4) active amount = false) (hactive : active = true)
    (hdust : channelDustLimitSats ≤ amount) :
    channelDustLimitSats ≤ htlcSweepOutput (feerate.toUInt64*4) amount := by
  obtain ⟨hfee,hle⟩ := sweepFee_toNat h
  have hsum : (htlcSweepFee (feerate.toUInt64*4) + channelDustLimitSats).toNat =
      (htlcSweepFee (feerate.toUInt64*4)).toNat + 546 := by
    rw [UInt64.toNat_add,hfee]
    exact Nat.mod_eq_of_lt (by simp [channelDustLimitSats]; omega)
  simp only [strandsHtlc,hactive,Bool.true_and,Bool.and_eq_false_iff,Bool.not_eq_false',
    decide_eq_true_eq,decide_eq_false_iff_not,UInt64.not_lt] at hkept
  have hroom := UInt64.le_iff_toNat_le.mp (hkept.resolve_left (UInt64.not_lt.mpr hdust))
  rw [hsum] at hroom
  have hmore : amount > htlcSweepFee (feerate.toUInt64*4) := by
    rw [gt_iff_lt,UInt64.lt_iff_toNat_lt]
    omega
  rw [htlcSweepOutput,if_pos hmore,UInt64.le_iff_toNat_le,
    UInt64.toNat_sub_of_le _ _ (UInt64.le_of_lt hmore)]
  exact Nat.le_sub_of_add_le' hroom

theorem dispatch_updateFee (m : Musig) (luck : Luck) (channelId : Blob 32) {msg : Bytes}
    (ch : Channel) (htype : getU16 msg = bolt2UpdateFee) :
    htlcCommitDispatch m luck channelId msg ch =
      if msg.length < 38 then .done (ch,none)
      else if getU32 (msg.drop 34) < bolt2UpdateFeeFloor ||
        getU32 (msg.drop 34) > bolt2UpdateFeeCeiling then .done (ch,none)
      else .done ({ ch with feeRateSatPerKvb := (getU32 (msg.drop 34)).toUInt64*4 },
        some bolt2UpdateFee) := by
  have hcase : htlcCommitDispatch m luck channelId msg ch =
      if msg.length < 2 then .done (ch,none) else dispatchUpdateFee (msg.drop 2) ch := by
    rw [htlcCommitDispatch,htype]
    rfl
  rw [hcase,dispatchUpdateFee,List.length_drop,List.drop_drop]
  by_cases hlen : msg.length < 38
  · rw [if_pos hlen,if_pos (show msg.length-2 < 36 by omega),ite_self]
  · rw [if_neg hlen,if_neg (by omega),if_neg (by omega)]

def updateFee (feeratePerKw : UInt32) : Bytes :=
  putU16 bolt2UpdateFee ++ List.replicate 32 0 ++ putU32 feeratePerKw

def smallHtlcChannel : Channel :=
  Channel.sample.setHtlcs [newHtlc .received 10000 (Blob.zero 32) 500 Channel.sample]

end

end SuperScalar
