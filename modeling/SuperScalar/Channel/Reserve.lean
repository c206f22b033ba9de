import SuperScalar.Channel.Mirror

namespace SuperScalar

open Channel

open Ledger (Side)

inductive AddCall where
  | htlc (paymentHash : Blob 32)
  | ptlc (enabled : Bool) (point : Option Pubkey)

structure Offer where
  direction : HtlcDirection
  amountSats : UInt64
  cltvExpiry : UInt32

def Offer.flip (o : Offer) : Offer := { o with direction := o.direction.flip }

def AddCall.run (draw : PcsDraw) (grow : Bool) (o : Offer) (ch : Channel) :
    AddCall → Channel × Option UInt64
  | .htlc paymentHash =>
    channelAddHtlc o.direction o.amountSats paymentHash o.cltvExpiry grow draw ch
  | .ptlc enabled point =>
    channelAddPtlc enabled o.direction o.amountSats point o.cltvExpiry grow ch

def AddCall.fee (o : Offer) (ch : Channel) : AddCall → UInt64
  | .htlc _ => ch.perEntryFee
  | .ptlc _ _ => if o.amountSats > 0 then ch.perEntryFee else 0

def AddCall.charge (o : Offer) (ch : Channel) (call : AddCall) : UInt64 :=
  if o.direction.offerer = ch.funder then call.fee o ch else 0

def AddCall.LeavesReserve (draw : PcsDraw) (grow : Bool) (o : Offer) (ch : Channel)
    (call : AddCall) : Prop :=
  let left := ((call.run draw grow o ch).1.balance o.direction.offerer).toNat
  left + o.amountSats.toNat + (call.charge o ch).toNat = (ch.balance o.direction.offerer).toNat ∧
    channelReserveSats.toNat ≤ left

def AddCall.Affords (o : Offer) (ch : Channel) (call : AddCall) : Prop :=
  channelReserveSats.toNat + o.amountSats.toNat + (call.charge o ch).toNat ≤
    (ch.balance o.direction.offerer).toNat

theorem taken_iff {r : ℕ} {balance amount charge : UInt64} :
    ((balance-amount-charge).toNat + amount.toNat + charge.toNat = balance.toNat ∧
      r ≤ (balance-amount-charge).toNat) ↔ r + amount.toNat + charge.toNat ≤ balance.toNat := by
  constructor
  · omega
  · intro h
    have hamount := UInt64.toNat_sub_of_le balance amount (UInt64.le_iff_toNat_le.mpr (by omega))
    have hcharge := UInt64.toNat_sub_of_le (balance-amount) charge
      (UInt64.le_iff_toNat_le.mpr (by omega))
    omega

theorem balance_charged (ch : Channel) (s t : Side) (m n : UInt64) :
    ((ch.debit s m).debit t n).balance s = ch.balance s - m - (if s = t then n else 0) := by
  cases s <;> cases t <;> simp [debit,withBalance,balance]

theorem balance_htlcAdded (ch : Channel) (cap : ℕ) (h : Htlc) (draw : PcsDraw) :
    (({ ch with htlcsCap := cap }.withHtlc h).nextCommitment draw).balance h.direction.offerer =
      ch.balance h.direction.offerer - h.amountSats -
        (if h.direction.offerer = ch.funder then h.feeAtAdd else 0) := by
  obtain ⟨pcs,count,heq⟩ := ({ ch with htlcsCap := cap }.withHtlc h).nextCommitment_eq draw
  rw [heq,← balance_charged]
  cases hdir : h.direction <;> cases hfunder : ch.funderIsLocal <;>
    simp [withHtlc,funder,debit,withBalance,balance,HtlcDirection.offerer,hdir,hfunder]

theorem balance_ptlcAdded (ch : Channel) (dir : HtlcDirection) (amountSats : UInt64) :
    (ch.chargePtlc dir amountSats).balance dir.offerer = ch.balance dir.offerer - amountSats -
      (if dir.offerer = ch.funder then (if amountSats > 0 then ch.perEntryFee else 0) else 0) := by
  unfold chargePtlc
  by_cases hpos : amountSats > 0
  · simp only [if_pos hpos,balance_charged]
  · obtain rfl := UInt64.le_zero_iff.mp (UInt64.not_lt.mp hpos)
    simp

def AddCall.Accepted (o : Offer) (ch : Channel) : AddCall → Prop
  | .htlc _ => AddAccepted ch o.direction o.amountSats
  | .ptlc enabled point => PtlcAccepted ch enabled o.direction o.amountSats point

theorem AddCall.left (call : AddCall) {draw : PcsDraw} {grow : Bool} {o : Offer} {ch : Channel}
    (h : (call.run draw grow o ch).2.isSome = true) :
    call.Accepted o ch ∧ (call.run draw grow o ch).1.balance o.direction.offerer =
      ch.balance o.direction.offerer - o.amountSats - call.charge o ch := by
  cases call with
  | htlc paymentHash =>
    by_cases hadd : AddAccepted ch o.direction o.amountSats ∧ HasSlot grow ch
    · obtain ⟨cap,heq⟩ : ∃ cap, (AddCall.htlc paymentHash).run draw grow o ch = _ :=
        channelAddHtlc_added hadd.1 hadd.2
      rw [heq]
      exact ⟨hadd.1,balance_htlcAdded ch cap _ draw⟩
    · obtain ⟨cap,heq⟩ : ∃ cap, (AddCall.htlc paymentHash).run draw grow o ch = _ :=
        channelAddHtlc_refused hadd
      simp [heq] at h
  | ptlc enabled point =>
    simp only [AddCall.run] at h ⊢
    rcases channelAddPtlc_cases enabled o.direction o.amountSats point o.cltvExpiry grow ch with
      heq | ⟨haccepted,heq⟩
    · simp [heq] at h
    · rw [heq]
      exact ⟨haccepted,balance_ptlcAdded ch o.direction o.amountSats⟩

theorem AddCall.Accepted.run {call : AddCall} {o : Offer} {ch : Channel} (h : call.Accepted o ch)
    (draw : PcsDraw) : (call.run draw true o ch).2.isSome = true := by
  cases call with
  | htlc paymentHash =>
    obtain ⟨cap,heq⟩ : ∃ cap, (AddCall.htlc paymentHash).run draw true o ch = _ :=
      channelAddHtlc_added h (.inr rfl)
    simp [heq]
  | ptlc enabled point =>
    have hgate : (!enabled && (decide (o.amountSats > 0) || point.isSome)) = false := by
      rcases h.gate with hopen | ⟨hzero,hnone⟩
      · simp [hopen]
      · simp [hzero,hnone]
    rw [AddCall.run,channelAddPtlc,hgate]
    by_cases hpos : o.amountSats > 0
    · simp [hpos,UInt64.not_lt.mpr (h.funds hpos),UInt64.not_lt.mpr (h.fee hpos)]
    · simp [hpos]

theorem Alike.accepts {a b : Channel} {call : AddCall} {o : Offer} (h : Alike a b)
    (hadd : call.Accepted o a) : call.Accepted o.flip b := by
  cases call with
  | htlc => exact h.accepted hadd
  | ptlc =>
    refine ⟨hadd.gate,fun hpos => ?_,fun hpos => ?_⟩
    · rw [Offer.flip,h.offererBalance]
      exact hadd.funds hpos
    · rw [Offer.flip,h.fee,h.funderBalance]
      exact hadd.fee hpos

theorem add_leaves_reserve_iff (call : AddCall) (o : Offer) (a : Channel) :
    (∀ draw grow, (call.run draw grow o a).2.isSome = true →
        (call.LeavesReserve draw grow o a ↔ call.Affords o a)) ∧
      ∀ b drawA drawB, Alike a b → ((call.run drawA true o a).2.isSome = true ↔
        (call.run drawB true o.flip b).2.isSome = true) := by
  refine ⟨fun draw grow h => ?_,fun b drawA drawB halike => ⟨fun h => ?_,fun h => ?_⟩⟩
  · unfold AddCall.LeavesReserve
    rw [(call.left h).2]
    exact taken_iff
  · exact (halike.accepts (call.left h).1).run drawB
  · have hback := halike.symm.accepts (call.left h).1
    simp only [Offer.flip,flip_flip] at hback
    exact hback.run drawA

def tightChannel : Channel :=
  { sample with
    funderIsLocal := true
    localAmount := 25000
    feeRateSatPerKvb := 1000 }

theorem fee_takes_reserve :
    ((AddCall.htlc (Blob.zero 32)).run ⟨true,none⟩ true ⟨.offered,20000,500⟩
        tightChannel).2.isSome = true ∧
      ¬ (AddCall.htlc (Blob.zero 32)).LeavesReserve ⟨true,none⟩ true ⟨.offered,20000,500⟩
        tightChannel := by
  unfold AddCall.LeavesReserve
  decide +kernel

end SuperScalar
