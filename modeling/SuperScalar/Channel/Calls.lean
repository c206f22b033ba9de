import SuperScalar.Foundation.Runs
import SuperScalar.Channel.Operations

namespace SuperScalar

open List Option UInt64 Nat Channel ChannelOp

open Ledger (Side)

section

variable {α : Type} {p : α → Bool} {xs : List α}

variable {i : ℕ} {x : α}

theorem findIdx_split (hi : xs.findIdx? p = some i) (hx : xs[i]? = some x) :
    ∃ before after, xs = before ++ x :: after ∧ before.length = i ∧ p x = true ∧
      ∀ y ∈ before, p y = false := by
  obtain ⟨hlt,hp,hbefore⟩ := findIdx?_eq_some_iff_getElem.mp hi
  rw [getElem?_eq_getElem hlt,some.injEq] at hx
  subst hx
  refine ⟨xs.take i,xs.drop (i+1),?_,?_,hp,?_⟩
  · rw [← drop_eq_getElem_cons hlt,take_append_drop]
  · rw [length_take,min_eq_left hlt.le]
  · intro y hy
    obtain ⟨j,hj,rfl⟩ := mem_take_iff_getElem.mp hy
    have hlt' : j < i := lt_of_lt_of_le hj (min_le_left _ _)
    simpa using hbefore j hlt'

theorem set_at_split {before after : List α} {y : α} (h : before.length = i) :
    (before ++ x :: after).set i y = before ++ y :: after := by
  subst h
  rw [List.set_append_right _ _ (Nat.le_refl _),Nat.sub_self,List.set_cons_zero]

end

variable {id : UInt64} {htlcs : List Htlc} {i : ℕ}

theorem findActive_some {h : Htlc} (hfind : findActive id htlcs = some (i,h)) :
    ∃ before after, htlcs = before ++ h :: after ∧ before.length = i ∧ h.id = id ∧
      h.isActive = true ∧ ∀ x ∈ before, ¬ (x.id = id ∧ x.isActive = true) := by
  obtain ⟨j,hj,hget⟩ := bind_eq_some_iff.mp hfind
  obtain ⟨x,hx,heq⟩ := map_eq_some_iff.mp hget
  obtain ⟨rfl,rfl⟩ := Prod.mk.inj heq
  obtain ⟨before,after,hsplit,hlen,hp,hbefore⟩ := findIdx_split hj hx
  simp only [Bool.and_eq_true,decide_eq_true_eq] at hp
  refine ⟨before,after,hsplit,hlen,hp.1,hp.2,fun y hy hboth => ?_⟩
  have hfalse := hbefore y hy
  simp [hboth.1,hboth.2] at hfalse

theorem findActive_none :
    findActive id htlcs = none ↔ ∀ h ∈ htlcs, ¬ (h.id = id ∧ h.isActive = true) := by
  unfold findActive
  constructor
  · intro hnone h hmem hboth
    cases hidx : htlcs.findIdx? (fun h => h.id = id && h.isActive) with
    | none =>
      have hfalse := findIdx?_eq_none_iff.mp hidx h hmem
      simp [hboth.1,hboth.2] at hfalse
    | some =>
      obtain ⟨hlt,-⟩ := findIdx?_eq_some_iff_getElem.mp hidx
      rw [hidx,bind_some,getElem?_eq_getElem hlt] at hnone
      cases hnone
  · intro hall
    have hidx : htlcs.findIdx? (fun h => h.id = id && h.isActive) = none := by
      rw [findIdx?_eq_none_iff]
      intro h hmem
      have hnot := hall h hmem
      simp only [Bool.and_eq_false_iff,decide_eq_false_iff_not]
      by_cases hid : h.id = id
      · exact .inr (Bool.eq_false_iff.mpr fun hact => hnot ⟨hid,hact⟩)
      · exact .inl hid
    rw [hidx]
    rfl

theorem findActivePtlc_some {ptlcs : List Ptlc} {p : Ptlc}
    (hfind : findActivePtlc id ptlcs = some (i,p)) :
    ∃ before after, ptlcs = before ++ p :: after ∧ before.length = i ∧ p.isActive = true := by
  obtain ⟨j,hj,hget⟩ := bind_eq_some_iff.mp hfind
  obtain ⟨x,hx,heq⟩ := map_eq_some_iff.mp hget
  obtain ⟨rfl,rfl⟩ := Prod.mk.inj heq
  obtain ⟨before,after,hsplit,hlen,hp,-⟩ := findIdx_split hj hx
  simp only [Bool.and_eq_true] at hp
  exact ⟨before,after,hsplit,hlen,hp.2⟩

namespace Channel

variable {ch : Channel} {side : Side} {n : UInt64}

@[simp] theorem balance_withBalance (ch : Channel) (side : Side) (n : UInt64) :
    (ch.withBalance side n).balance side = n := by
  cases side <;> rfl

@[simp] theorem withBalance_withBalance (ch : Channel) (side : Side) (m n : UInt64) :
    (ch.withBalance side m).withBalance side n = ch.withBalance side n := by
  cases side <;> rfl

@[simp] theorem withBalance_self (ch : Channel) (side : Side) :
    ch.withBalance side (ch.balance side) = ch := by
  cases side <;> rfl

theorem credit_debit (ch : Channel) (side : Side) (n : UInt64) :
    (ch.debit side n).credit side n = ch := by
  rw [credit,debit,balance_withBalance,withBalance_withBalance,UInt64.sub_add_cancel,
    withBalance_self]

@[simp] theorem funder_withBalance (ch : Channel) (side : Side) (n : UInt64) :
    (ch.withBalance side n).funder = ch.funder := by
  cases side <;> rfl

@[simp] theorem htlcs_withBalance (ch : Channel) (side : Side) (n : UInt64) :
    (ch.withBalance side n).htlcs = ch.htlcs := by
  cases side <;> rfl

@[simp] theorem ptlcs_withBalance (ch : Channel) (side : Side) (n : UInt64) :
    (ch.withBalance side n).ptlcs = ch.ptlcs := by
  cases side <;> rfl

@[simp] theorem htlcs_setHtlcs (ch : Channel) (htlcs : List Htlc) :
    (ch.setHtlcs htlcs).htlcs = htlcs := rfl

@[simp] theorem setHtlcs_setHtlcs (ch : Channel) (htlcs htlcs' : List Htlc) :
    (ch.setHtlcs htlcs).setHtlcs htlcs' = ch.setHtlcs htlcs' := rfl

@[simp] theorem htlcs_credit (ch : Channel) (side : Side) (n : UInt64) :
    (ch.credit side n).htlcs = ch.htlcs := htlcs_withBalance _ _ _

@[simp] theorem ptlcs_credit (ch : Channel) (side : Side) (n : UInt64) :
    (ch.credit side n).ptlcs = ch.ptlcs := ptlcs_withBalance _ _ _

@[simp] theorem funder_credit (ch : Channel) (side : Side) (n : UInt64) :
    (ch.credit side n).funder = ch.funder := funder_withBalance _ _ _

@[simp] theorem funder_debit (ch : Channel) (side : Side) (n : UInt64) :
    (ch.debit side n).funder = ch.funder := funder_withBalance _ _ _

def fixed (ch : Channel) : Channel :=
  { ch with
    commitmentNumber := 0
    localPcs := []
    nLocalPcs := 0
    localAmount := 0
    remoteAmount := 0
    htlcs := []
    htlcsCap := 0
    nextHtlcId := 0
    ptlcs := []
    ptlcsCap := 0
    nextPtlcId := 0
    feeRateSatPerKvb := 0
    lastHtlcCheckHeight := 0 }

@[simp] theorem fixed_withBalance (ch : Channel) (side : Side) (n : UInt64) :
    (ch.withBalance side n).fixed = ch.fixed := by
  cases side <;> rfl

@[simp] theorem fixed_credit (ch : Channel) (side : Side) (n : UInt64) :
    (ch.credit side n).fixed = ch.fixed := fixed_withBalance _ _ _

@[simp] theorem fixed_debit (ch : Channel) (side : Side) (n : UInt64) :
    (ch.debit side n).fixed = ch.fixed := fixed_withBalance _ _ _

theorem generate_eq (k : UInt64) (draw : PcsDraw) (ch : Channel) : ∃ pcs count,
    count ≤ max ch.nLocalPcs (k+1).toNat ∧
      channelGenerateLocalPcs k draw ch = { ch with localPcs := pcs, nLocalPcs := count } := by
  have hkeep : ch.nLocalPcs ≤ max ch.nLocalPcs (k+1).toNat := le_max_left _ _
  unfold channelGenerateLocalPcs channelEnsurePcsCap
  split_ifs
  · cases draw.random with
    | none => exact ⟨ch.localPcs,ch.nLocalPcs,hkeep,rfl⟩
    | some => exact ⟨_,_,le_refl _,rfl⟩
  · cases draw.random with
    | none => exact ⟨_,ch.nLocalPcs,hkeep,rfl⟩
    | some => exact ⟨_,_,le_refl _,rfl⟩
  · exact ⟨ch.localPcs,ch.nLocalPcs,hkeep,rfl⟩

theorem nextCommitment_eq (draw : PcsDraw) (ch : Channel) : ∃ pcs count,
    ch.nextCommitment draw =
      { ch with
        commitmentNumber := ch.commitmentNumber+1
        localPcs := pcs
        nLocalPcs := count } := by
  obtain ⟨pcs,count,-,heq⟩ := generate_eq (ch.commitmentNumber + 1 + 1) draw
    { ch with commitmentNumber := ch.commitmentNumber+1 }
  exact ⟨pcs,count,heq⟩

@[simp] theorem fixed_nextCommitment (ch : Channel) (draw : PcsDraw) :
    (ch.nextCommitment draw).fixed = ch.fixed := by
  obtain ⟨pcs,count,heq⟩ := ch.nextCommitment_eq draw
  rw [heq]
  rfl

end Channel

section

variable {direction : HtlcDirection} {amountSats : UInt64} {paymentHash : Blob 32}
  {cltvExpiry : UInt32} {grow : Bool} {draw : PcsDraw} {ch : Channel}

structure AddAccepted (ch : Channel) (direction : HtlcDirection) (amountSats : UInt64) : Prop where
  confirmed : ch.fundingPendingReorg = false
  room : ch.htlcs.length < maxHtlcs
  dust : channelDustLimitSats ≤ amountSats
  funds : amountSats ≤ ch.balance direction.offerer
  reserve : channelReserveSats ≤ ch.balance direction.offerer - amountSats
  fee : ch.perEntryFee ≤ (ch.debit direction.offerer amountSats).balance ch.funder

def HasSlot (grow : Bool) (ch : Channel) : Prop := ch.htlcs.length < ch.htlcsCap ∨ grow = true

def newHtlc (direction : HtlcDirection) (amountSats : UInt64) (paymentHash : Blob 32)
    (cltvExpiry : UInt32) (ch : Channel) : Htlc :=
  { direction := direction
    state := .active
    amountSats := amountSats
    paymentHash := paymentHash
    paymentPreimage := Blob.zero 32
    cltvExpiry := cltvExpiry
    id := ch.nextHtlcId
    feeAtAdd := ch.perEntryFee }

def Channel.withHtlc (ch : Channel) (h : Htlc) : Channel :=
  { (ch.debit h.direction.offerer h.amountSats).debit ch.funder h.feeAtAdd with
    htlcs := ch.htlcs ++ [h]
    nextHtlcId := ch.nextHtlcId+1 }

@[simp] theorem Channel.fixed_withHtlc (ch : Channel) (h : Htlc) :
    (ch.withHtlc h).fixed = ch.fixed :=
  (fixed_debit _ _ _).trans (fixed_debit _ _ _)

theorem growHtlcs_eq (h : HasSlot grow ch) : ∃ cap,
    channelGrowHtlcs grow ch = some { ch with htlcsCap := cap } := by
  unfold channelGrowHtlcs
  by_cases hfull : ch.htlcs.length ≥ ch.htlcsCap
  · have hgrow := h.resolve_left (not_lt.mpr hfull)
    rw [if_pos hfull]
    exact ⟨_,if_pos hgrow⟩
  · exact ⟨ch.htlcsCap,if_neg hfull⟩

theorem growHtlcs_none (h : ¬ HasSlot grow ch) : channelGrowHtlcs grow ch = none := by
  obtain ⟨hfull,hgrow⟩ := not_or.mp h
  unfold channelGrowHtlcs
  rw [if_pos (not_lt.mp hfull)]
  exact if_neg hgrow

theorem channelAddHtlc_added (h : AddAccepted ch direction amountSats) (hslot : HasSlot grow ch) :
    ∃ cap, channelAddHtlc direction amountSats paymentHash cltvExpiry grow draw ch =
      (({ ch with htlcsCap := cap }.withHtlc
        (newHtlc direction amountSats paymentHash cltvExpiry ch)).nextCommitment draw,
        some ch.nextHtlcId) := by
  obtain ⟨cap,hgrow⟩ := growHtlcs_eq hslot
  refine ⟨cap,?_⟩
  have hconfirmed : ¬ ch.fundingPendingReorg = true := by rw [h.confirmed]; decide
  have hfee : ¬ (({ ch with htlcsCap := cap } : Channel).debit direction.offerer
      amountSats).balance (({ ch with htlcsCap := cap } : Channel).debit direction.offerer
      amountSats).funder < ch.perEntryFee := by
    have hle := UInt64.not_lt.mpr h.fee
    cases direction <;> exact hle
  unfold channelAddHtlc
  rw [if_neg hconfirmed,if_neg (not_le.mpr h.room),hgrow]
  have hfunds : ¬ amountSats > ({ ch with htlcsCap := cap } : Channel).balance direction.offerer := by
    have hle := UInt64.not_lt.mpr h.funds
    cases direction <;> exact hle
  have hreserve : ¬ ({ ch with htlcsCap := cap } : Channel).balance direction.offerer -
      amountSats < channelReserveSats := by
    have hle := UInt64.not_lt.mpr h.reserve
    cases direction <;> exact hle
  dsimp only
  rw [if_neg (UInt64.not_lt.mpr h.dust),if_neg hfunds,if_neg hreserve]
  refine (if_neg hfee).trans ?_
  rw [funder_debit]
  rfl

theorem channelAddHtlc_refused (h : ¬ (AddAccepted ch direction amountSats ∧ HasSlot grow ch)) :
    ∃ cap, channelAddHtlc direction amountSats paymentHash cltvExpiry grow draw ch =
      ({ ch with htlcsCap := cap },none) := by
  unfold channelAddHtlc
  by_cases hconfirmed : ch.fundingPendingReorg = true
  · exact ⟨ch.htlcsCap,if_pos hconfirmed⟩
  rw [if_neg hconfirmed]
  by_cases hroom : ch.htlcs.length ≥ maxHtlcs
  · exact ⟨ch.htlcsCap,if_pos hroom⟩
  rw [if_neg hroom]
  by_cases hslot : HasSlot grow ch
  · obtain ⟨cap,hgrow⟩ := growHtlcs_eq hslot
    refine ⟨cap,?_⟩
    rw [hgrow]
    dsimp only
    split_ifs with hdust hfunds hreserve hfee
    · rfl
    · rfl
    · rfl
    · rw [credit_debit]
    · refine absurd ⟨⟨Bool.eq_false_iff.mpr hconfirmed,not_le.mp hroom,
        UInt64.not_lt.mp hdust,?_,?_,?_⟩,hslot⟩ h
      · cases direction <;> exact UInt64.not_lt.mp hfunds
      · cases direction <;> exact UInt64.not_lt.mp hreserve
      · cases direction <;> exact UInt64.not_lt.mp hfee
  · rw [growHtlcs_none hslot]
    exact ⟨ch.htlcsCap,rfl⟩

end

section

variable {ch : Channel} {before after : List Htlc} {h closed : Htlc} {i : ℕ} {payee : Side}
  {draw : PcsDraw}

def Channel.withoutHtlc (ch : Channel) (h : Htlc) (payee : Side) (rest : List Htlc) : Channel :=
  ((ch.credit payee h.amountSats).credit ch.funder h.feeAtAdd).setHtlcs
    (rest.filter Htlc.isActive)

@[simp] theorem Channel.fixed_withoutHtlc (ch : Channel) (h : Htlc) (payee : Side)
    (rest : List Htlc) : (ch.withoutHtlc h payee rest).fixed = ch.fixed :=
  (fixed_credit _ _ _).trans (fixed_credit _ _ _)

theorem compact_nextCommitment (ch : Channel) (draw : PcsDraw) :
    channelCompactHtlcs (ch.nextCommitment draw) =
      (ch.setHtlcs (ch.htlcs.filter Htlc.isActive)).nextCommitment draw := by
  unfold nextCommitment channelGenerateLocalPcs channelEnsurePcsCap channelCompactHtlcs
    setHtlcs
  dsimp only
  split_ifs <;> cases draw.random <;> rfl

theorem closeHtlc_eq (hsplit : ch.htlcs = before ++ h :: after) (hlen : before.length = i)
    (hclosed : closed.isActive = false) :
    channelCloseHtlc i h closed payee draw ch =
      (ch.withoutHtlc h payee (before++after)).nextCommitment draw := by
  have hset : (ch.htlcs.set i closed).filter Htlc.isActive =
      (before++after).filter Htlc.isActive := by
    rw [hsplit,set_at_split hlen,filter_append,filter_append,
      filter_cons_of_neg (by rw [hclosed]; decide)]
  unfold channelCloseHtlc withoutHtlc
  simp only [compact_nextCommitment,funder_credit,htlcs_credit,
    htlcs_setHtlcs,hset,setHtlcs_setHtlcs]

end

section

variable {secp : Secp} {ch : Channel} {id : UInt64} {preimage : Blob 32} {draw : PcsDraw}

structure HtlcAt (ch : Channel) (id : UInt64) (before : List Htlc) (h : Htlc) (after : List Htlc) :
    Prop where
  split : ch.htlcs = before ++ h :: after
  named : h.id = id
  active : h.isActive = true
  first : ∀ x ∈ before, ¬ (x.id = id ∧ x.isActive = true)

variable {before after : List Htlc} {h : Htlc}

theorem HtlcAt.found (hat : HtlcAt ch id before h after) :
    findActive id ch.htlcs = some (before.length,h) := by
  have hbefore : before.findIdx? (fun h => h.id = id && h.isActive) = none := by
    rw [findIdx?_eq_none_iff]
    intro x hx
    have hnot := hat.first x hx
    by_cases hid : x.id = id
    · have hinactive : x.isActive = false := Bool.eq_false_iff.mpr fun hact => hnot ⟨hid,hact⟩
      rw [hinactive,Bool.and_false]
    · rw [decide_eq_false hid,Bool.false_and]
  have hidx : ch.htlcs.findIdx? (fun h => h.id = id && h.isActive) = some before.length := by
    rw [hat.split,findIdx?_append,hbefore]
    simp [findIdx?_cons,hat.named,hat.active]
  unfold findActive
  rw [hidx,Option.bind_some,hat.split,List.getElem?_append_right (Nat.le_refl _),Nat.sub_self]
  rfl

theorem HtlcAt.unique {before' after' : List Htlc} {h' : Htlc} (hat : HtlcAt ch id before h after)
    (hat' : HtlcAt ch id before' h' after') : before = before' ∧ h = h' ∧ after = after' := by
  have hfound := hat.found
  rw [hat'.found,some.injEq,Prod.mk.injEq] at hfound
  obtain ⟨hbefore,hrest⟩ :=
    append_inj (hat.split.symm.trans hat'.split) hfound.1.symm
  obtain ⟨hh,hafter⟩ := cons.inj hrest
  exact ⟨hbefore,hh,hafter⟩

theorem channelFailHtlc_cases (id : UInt64) (draw : PcsDraw) (ch : Channel) :
    (findActive id ch.htlcs = none ∧ channelFailHtlc id draw ch = (ch,false)) ∨
      ∃ before h after, HtlcAt ch id before h after ∧ channelFailHtlc id draw ch =
        ((ch.withoutHtlc h h.direction.offerer (before++after)).nextCommitment draw,true) := by
  unfold channelFailHtlc
  cases hfind : findActive id ch.htlcs with
  | none => exact .inl ⟨rfl,rfl⟩
  | some found =>
    obtain ⟨i,h⟩ := found
    obtain ⟨before,after,hsplit,hlen,hid,hactive,hfirst⟩ := findActive_some hfind
    refine .inr ⟨before,h,after,⟨hsplit,hid,hactive,hfirst⟩,?_⟩
    exact congrArg (·,true) (closeHtlc_eq hsplit hlen rfl)

theorem channelFulfillHtlc_cases (secp : Secp) (id : UInt64) (preimage : Blob 32) (draw : PcsDraw)
    (ch : Channel) :
    (channelFulfillHtlc secp id preimage draw ch = (ch,false) ∧
      ∀ before h after, HtlcAt ch id before h after → secp.sha256 preimage.val ≠ h.paymentHash) ∨
      ∃ before h after, HtlcAt ch id before h after ∧ secp.sha256 preimage.val = h.paymentHash ∧
        channelFulfillHtlc secp id preimage draw ch =
          ((ch.withoutHtlc h h.direction.recipient (before++after)).nextCommitment draw,true) := by
  unfold channelFulfillHtlc
  cases hfind : findActive id ch.htlcs with
  | none =>
    refine .inl ⟨rfl,fun before h after hat => ?_⟩
    have hnone := findActive_none.mp hfind h (by rw [hat.split]; simp)
    exact absurd ⟨hat.named,hat.active⟩ hnone
  | some found =>
    obtain ⟨i,h⟩ := found
    obtain ⟨before,after,hsplit,hlen,hid,hactive,hfirst⟩ := findActive_some hfind
    have hat : HtlcAt ch id before h after := ⟨hsplit,hid,hactive,hfirst⟩
    by_cases hhash : secp.sha256 preimage.val = h.paymentHash
    · refine .inr ⟨before,h,after,hat,hhash,?_⟩
      refine (if_pos hhash).trans ?_
      exact congrArg (·,true) (closeHtlc_eq hsplit hlen rfl)
    · refine .inl ⟨if_neg hhash,fun before' h' after' hat' => ?_⟩
      rw [← (hat.unique hat').2.1]
      exact hhash

theorem HtlcAt.failed (hat : HtlcAt ch id before h after) :
    channelFailHtlc id draw ch =
      ((ch.withoutHtlc h h.direction.offerer (before++after)).nextCommitment draw,true) := by
  rcases channelFailHtlc_cases id draw ch with ⟨hnone,-⟩ | ⟨before',h',after',hat',heq⟩
  · rw [hat.found] at hnone
    cases hnone
  · obtain ⟨rfl,rfl,rfl⟩ := hat.unique hat'
    exact heq

theorem HtlcAt.fulfilled (hat : HtlcAt ch id before h after)
    (hhash : secp.sha256 preimage.val = h.paymentHash) :
    channelFulfillHtlc secp id preimage draw ch =
      ((ch.withoutHtlc h h.direction.recipient (before++after)).nextCommitment draw,true) := by
  rcases channelFulfillHtlc_cases secp id preimage draw ch with
    ⟨-,hnot⟩ | ⟨before',h',after',hat',-,heq⟩
  · exact absurd hhash (hnot before h after hat)
  · obtain ⟨rfl,rfl,rfl⟩ := hat.unique hat'
    exact heq

end

section

variable {ch : Channel} {dir : HtlcDirection} {amountSats : UInt64} {point : Option Pubkey}
  {cltvExpiry : UInt32} {enabled grow : Bool}

def newPtlc (dir : HtlcDirection) (amountSats : UInt64) (point : Option Pubkey)
    (cltvExpiry : UInt32) (ch : Channel) : Ptlc :=
  { direction := dir
    state := .active
    amountSats := amountSats
    paymentPoint := point.getD (Blob.zero 64)
    id := ch.nextPtlcId
    cltvExpiry := cltvExpiry
    preSig := Blob.zero 64
    hasPreSig := false
    adaptedSig := Blob.zero 64
    hasAdaptedSig := false
    feeAtAdd := if amountSats > 0 then ch.perEntryFee else 0 }

def Channel.chargePtlc (ch : Channel) (dir : HtlcDirection) (amountSats : UInt64) : Channel :=
  if amountSats > 0 then (ch.debit dir.offerer amountSats).debit ch.funder ch.perEntryFee else ch

structure PtlcAccepted (ch : Channel) (enabled : Bool) (dir : HtlcDirection) (amountSats : UInt64)
    (point : Option Pubkey) : Prop where
  gate : enabled = true ∨ (amountSats = 0 ∧ point = none)
  funds : amountSats > 0 → amountSats + channelReserveSats ≤ ch.balance dir.offerer
  fee : amountSats > 0 → ch.perEntryFee ≤ (ch.debit dir.offerer amountSats).balance ch.funder

theorem Channel.credit_both (ch : Channel) (s t : Side) (m n : UInt64) :
    (((ch.debit s m).debit t n).credit s m).credit t n = ch := by
  have hsame (b : UInt64) : b-m-n + m + n = b := by
    rw [UInt64.add_assoc,UInt64.add_comm m n,← UInt64.add_assoc,UInt64.sub_add_cancel,
      UInt64.sub_add_cancel]
  cases s <;> cases t <;>
    simp only [credit,debit,withBalance,balance,hsame,UInt64.sub_add_cancel]

theorem channelAddPtlc_cases (enabled : Bool) (dir : HtlcDirection) (amountSats : UInt64)
    (point : Option Pubkey) (cltvExpiry : UInt32) (grow : Bool) (ch : Channel) :
    channelAddPtlc enabled dir amountSats point cltvExpiry grow ch = (ch,none) ∨
      (PtlcAccepted ch enabled dir amountSats point ∧
        channelAddPtlc enabled dir amountSats point cltvExpiry grow ch =
          ({ ch.chargePtlc dir amountSats with
            ptlcs := ch.ptlcs ++ [newPtlc dir amountSats point cltvExpiry ch]
            ptlcsCap := channelGrownPtlcsCap ch
            nextPtlcId := ch.nextPtlcId+1 },some ch.nextPtlcId)) := by
  unfold channelAddPtlc
  by_cases hgate : (!enabled && (decide (amountSats > 0) || point.isSome)) = true
  · exact .inl (if_pos hgate)
  rw [if_neg hgate]
  have hopen : enabled = true ∨ (amountSats = 0 ∧ point = none) := by
    cases enabled with
    | true => exact .inl rfl
    | false =>
      simp only [Bool.not_false,Bool.true_and,Bool.or_eq_true,decide_eq_true_eq,not_or,
        Bool.not_eq_true,isSome_eq_false_iff,isNone_iff_eq_none] at hgate
      exact .inr ⟨UInt64.le_zero_iff.mp (UInt64.not_lt.mp hgate.1),hgate.2⟩
  by_cases hpos : amountSats > 0
  · simp only [hpos,decide_true,Bool.true_and,if_true,decide_eq_true_eq]
    by_cases hfunds : ch.balance dir.offerer < amountSats + channelReserveSats
    · exact .inl (if_pos hfunds)
    rw [if_neg hfunds]
    by_cases hfee : (ch.debit dir.offerer amountSats).balance
        (ch.debit dir.offerer amountSats).funder < ch.perEntryFee
    · rw [if_pos hfee,credit_debit]
      exact .inl rfl
    rw [if_neg hfee]
    by_cases hgrow : (decide (ch.ptlcs.length ≥ ch.ptlcsCap) && !grow) = true
    · rw [if_pos hgrow,funder_debit,funder_credit,funder_debit,funder_debit,credit_both]
      exact .inl rfl
    · rw [if_neg hgrow]
      refine .inr ⟨⟨hopen,fun _ => UInt64.not_lt.mp hfunds,fun _ => ?_⟩,?_⟩
      · rw [funder_debit] at hfee
        exact UInt64.not_lt.mp hfee
      · unfold chargePtlc newPtlc
        simp only [if_pos hpos,funder_debit]
  · simp only [hpos,decide_false,Bool.false_and,if_false,Bool.false_eq_true]
    by_cases hgrow : (decide (ch.ptlcs.length ≥ ch.ptlcsCap) && !grow) = true
    · exact .inl (if_pos hgrow)
    · rw [if_neg hgrow]
      refine .inr ⟨⟨hopen,fun h => absurd h hpos,fun h => absurd h hpos⟩,?_⟩
      unfold chargePtlc newPtlc
      simp only [if_neg hpos]

def Channel.withoutPtlc (ch : Channel) (p : Ptlc) (payee : Side) (rest : List Ptlc) : Channel :=
  (if p.amountSats > 0 then (ch.credit payee p.amountSats).credit ch.funder p.feeAtAdd
    else ch).setPtlcs rest

@[simp] theorem Channel.fixed_withoutPtlc (ch : Channel) (p : Ptlc) (payee : Side)
    (rest : List Ptlc) : (ch.withoutPtlc p payee rest).fixed = ch.fixed := by
  unfold withoutPtlc
  split_ifs
  · exact (fixed_credit _ _ _).trans (fixed_credit _ _ _)
  · rfl

theorem closePtlc_eq {before after : List Ptlc} {p closed : Ptlc} {i : ℕ} {payee : Side}
    (hsplit : ch.ptlcs = before ++ p :: after) (hlen : before.length = i) :
    channelClosePtlc i p closed payee ch = ch.withoutPtlc p payee (before ++ closed :: after) := by
  have hset : ch.ptlcs.set i closed = before ++ closed :: after := by
    rw [hsplit,set_at_split hlen]
  unfold channelClosePtlc withoutPtlc
  split_ifs with hpos <;> dsimp only
  · simp only [funder_credit,ptlcs_credit,hset]
  · rw [hset]

inductive PtlcClosed (ch : Channel) : Channel → Prop where
  | close (before after : List Ptlc) (p closed : Ptlc) (payee : Side)
      (split : ch.ptlcs = before ++ p :: after) (active : p.isActive = true)
      (inactive : closed.isActive = false) :
      PtlcClosed ch (ch.withoutPtlc p payee (before ++ closed :: after))

theorem findActivePtlc_closed {id : UInt64} {i : ℕ} {p closed : Ptlc} {payee : Side}
    (hfind : findActivePtlc id ch.ptlcs = some (i,p)) (hclosed : closed.isActive = false) :
    PtlcClosed ch (channelClosePtlc i p closed payee ch) := by
  obtain ⟨before,after,hsplit,hlen,hactive⟩ := findActivePtlc_some hfind
  rw [closePtlc_eq hsplit hlen]
  exact .close before after p _ _ hsplit hactive hclosed

theorem channelSettlePtlc_cases (id : UInt64) (sig : Option (Blob 64)) (ch : Channel) :
    channelSettlePtlc id sig ch = (ch,false) ∨
      ∃ ch', PtlcClosed ch ch' ∧ channelSettlePtlc id sig ch = (ch',true) := by
  unfold channelSettlePtlc
  cases hfind : findActivePtlc id ch.ptlcs with
  | none => exact .inl rfl
  | some => exact .inr ⟨_,findActivePtlc_closed hfind rfl,rfl⟩

theorem channelFailPtlc_cases (id : UInt64) (ch : Channel) :
    channelFailPtlc id ch = (ch,false) ∨
      ∃ ch', PtlcClosed ch ch' ∧ channelFailPtlc id ch = (ch',true) := by
  unfold channelFailPtlc
  cases hfind : findActivePtlc id ch.ptlcs with
  | none => exact .inl rfl
  | some => exact .inr ⟨_,findActivePtlc_closed hfind rfl,rfl⟩

end

def Channel.moved (ch : Channel) (deltaSats : Int64) : Channel :=
  { ch with
    localAmount := (ch.localAmount.toInt64-deltaSats).toUInt64
    remoteAmount := (ch.remoteAmount.toInt64+deltaSats).toUInt64 }

theorem channelUpdate_cases (deltaSats : Int64) (draw : PcsDraw) (ch : Channel) :
    channelUpdate deltaSats draw ch = (ch,false) ∨
      ((deltaSats > 0 → deltaSats.toUInt64 ≤ ch.localAmount) ∧
        (deltaSats < 0 → (-deltaSats).toUInt64 ≤ ch.remoteAmount) ∧
        channelUpdate deltaSats draw ch = ((ch.moved deltaSats).nextCommitment draw,true)) := by
  unfold channelUpdate
  by_cases hlocal : deltaSats > 0 ∧ deltaSats.toUInt64 > ch.localAmount
  · exact .inl (if_pos hlocal)
  rw [if_neg hlocal]
  by_cases hremote : deltaSats < 0 ∧ (-deltaSats).toUInt64 > ch.remoteAmount
  · exact .inl (if_pos hremote)
  rw [if_neg hremote]
  refine .inr ⟨fun hpos => ?_,fun hneg => ?_,rfl⟩
  · exact UInt64.not_lt.mp fun hlt => hlocal ⟨hpos,hlt⟩
  · exact UInt64.not_lt.mp fun hlt => hremote ⟨hneg,hlt⟩

-- What one call can do, once for all calls; `allowed` bounds the amounts of new PTLCs.
inductive ChannelMove (allowed : UInt64 → Prop) (ch : Channel) : Channel → Prop where
  | idle (cap : ℕ) (rate : UInt64) (height : UInt32) :
      ChannelMove allowed ch
        { ch with htlcsCap := cap, feeRateSatPerKvb := rate, lastHtlcCheckHeight := height }
  | addHtlc (direction : HtlcDirection) (amountSats : UInt64) (paymentHash : Blob 32)
      (cltvExpiry : UInt32) (draw : PcsDraw) (accepted : AddAccepted ch direction amountSats) :
      ChannelMove allowed ch
        ((ch.withHtlc (newHtlc direction amountSats paymentHash cltvExpiry ch)).nextCommitment draw)
  | closeHtlc (before after : List Htlc) (h : Htlc) (payee : Side) (draw : PcsDraw)
      (split : ch.htlcs = before ++ h :: after) (active : h.isActive = true) :
      ChannelMove allowed ch ((ch.withoutHtlc h payee (before++after)).nextCommitment draw)
  | update (deltaSats : Int64) (draw : PcsDraw)
      (pays : deltaSats > 0 → deltaSats.toUInt64 ≤ ch.localAmount)
      (isPaid : deltaSats < 0 → (-deltaSats).toUInt64 ≤ ch.remoteAmount) :
      ChannelMove allowed ch ((ch.moved deltaSats).nextCommitment draw)
  | addPtlc (enabled : Bool) (dir : HtlcDirection) (amountSats : UInt64) (point : Option Pubkey)
      (cltvExpiry : UInt32) (accepted : PtlcAccepted ch enabled dir amountSats point)
      (bounded : allowed amountSats) :
      ChannelMove allowed ch
        { ch.chargePtlc dir amountSats with
          ptlcs := ch.ptlcs ++ [newPtlc dir amountSats point cltvExpiry ch]
          ptlcsCap := channelGrownPtlcsCap ch
          nextPtlcId := ch.nextPtlcId+1 }
  | closePtlc (ch' : Channel) (closed : PtlcClosed ch ch') : ChannelMove allowed ch ch'

def ChannelMoves (allowed : UInt64 → Prop) : Channel → Channel → Prop :=
  Relation.ReflTransGen (ChannelMove allowed)

def ChannelOp.Allowed (allowed : UInt64 → Prop) : ChannelOp → Prop
  | .addPtlc enabled _ amountSats _ _ _ => enabled = true → allowed amountSats
  | _ => True

instance (allowed : UInt64 → Prop) [DecidablePred allowed] (op : ChannelOp) :
    Decidable (op.Allowed allowed) := by
  unfold Allowed
  cases op <;> infer_instance

section

variable {allowed : UInt64 → Prop} {secp : Secp} {ch : Channel}

variable {ch' : Channel}

theorem ChannelMove.fixed (h : ChannelMove allowed ch ch') : ch'.fixed = ch.fixed := by
  cases h with
  | idle => rfl
  | addHtlc =>
    rw [fixed_nextCommitment,fixed_withHtlc]
  | closeHtlc =>
    rw [fixed_nextCommitment,fixed_withoutHtlc]
  | update =>
    rw [fixed_nextCommitment]
    rfl
  | addPtlc _ dir amountSats =>
    change (ch.chargePtlc dir amountSats).fixed = ch.fixed
    unfold chargePtlc
    split_ifs
    · simp only [fixed_debit]
    · rfl
  | closePtlc _ closed =>
    obtain ⟨before,after,p,closed,payee,-,-,-⟩ := closed
    exact fixed_withoutPtlc _ _ _ _

theorem ChannelMoves.fixed (h : ChannelMoves allowed ch ch') : ch'.fixed = ch.fixed := by
  induction h with
  | refl => rfl
  | tail _ hlast ih => exact hlast.fixed.trans ih

theorem setCap_moves (cap : ℕ) (ch : Channel) :
    ChannelMove allowed ch { ch with htlcsCap := cap } :=
  .idle cap ch.feeRateSatPerKvb ch.lastHtlcCheckHeight

theorem AddAccepted.setCap {direction : HtlcDirection} {amountSats : UInt64} {cap : ℕ}
    (h : AddAccepted ch direction amountSats) :
    AddAccepted { ch with htlcsCap := cap } direction amountSats := by
  obtain ⟨hconfirmed,hroom,hdust,hfunds,hreserve,hfee⟩ := h
  cases direction <;> exact ⟨hconfirmed,hroom,hdust,hfunds,hreserve,hfee⟩

theorem failHtlc_move (id : UInt64) (draw : PcsDraw) (ch : Channel) :
    ChannelMoves allowed ch (channelFailHtlc id draw ch).1 := by
  rcases channelFailHtlc_cases id draw ch with ⟨-,heq⟩ | ⟨before,h,after,hat,heq⟩
  · rw [heq]
    exact .refl
  · rw [heq]
    exact .single (.closeHtlc before after h _ draw hat.split hat.active)

theorem timeoutLoop_moves (currentHeight : UInt32) (draws : ℕ → PcsDraw) (fuel i failed : ℕ)
    (ch : Channel) :
    ChannelMoves allowed ch (timeoutLoop currentHeight draws fuel i failed ch).1 := by
  induction fuel generalizing i failed ch with
  | zero => exact .refl
  | succ _ ih =>
    rw [timeoutLoop]
    cases ch.htlcs[i]? with
    | none => exact .refl
    | some h =>
      dsimp only
      split_ifs
      · exact (failHtlc_move h.id (draws i) ch).trans (ih _ _ _)
      · exact ih _ _ _

theorem call_steps (secp : Secp) (ch : Channel) (op : ChannelOp) (hop : op.Allowed allowed)
    (hzero : allowed 0) (hscan : ∀ height draws, op ≠ .checkHtlcTimeouts height draws) : ∃ cap,
    op.call secp ch = ({ ch with htlcsCap := cap },0) ∨
      (op.call secp ch).2 ≠ 0 ∧
        ChannelMove allowed { ch with htlcsCap := cap } (channelStep secp ch op) := by
  unfold channelStep
  cases op with
  | addHtlc direction amountSats paymentHash cltvExpiry grow draw =>
    by_cases hadd : AddAccepted ch direction amountSats ∧ HasSlot grow ch
    · obtain ⟨cap,heq⟩ := channelAddHtlc_added hadd.1 hadd.2
      rw [call,heq]
      exact ⟨cap,.inr ⟨nofun,
        .addHtlc direction amountSats paymentHash cltvExpiry draw hadd.1.setCap⟩⟩
    · obtain ⟨cap,heq⟩ := channelAddHtlc_refused hadd
      rw [call,heq]
      exact ⟨cap,.inl rfl⟩
  | fulfillHtlc htlcId preimage draw =>
    rcases channelFulfillHtlc_cases secp htlcId preimage draw ch with
      ⟨heq,-⟩ | ⟨before,h,after,hat,-,heq⟩
    · rw [call,heq]
      exact ⟨ch.htlcsCap,.inl rfl⟩
    · rw [call,heq]
      exact ⟨ch.htlcsCap,.inr ⟨nofun,.closeHtlc before after h _ draw hat.split hat.active⟩⟩
  | failHtlc htlcId draw =>
    rcases channelFailHtlc_cases htlcId draw ch with ⟨-,heq⟩ | ⟨before,h,after,hat,heq⟩
    · rw [call,heq]
      exact ⟨ch.htlcsCap,.inl rfl⟩
    · rw [call,heq]
      exact ⟨ch.htlcsCap,.inr ⟨nofun,.closeHtlc before after h _ draw hat.split hat.active⟩⟩
  | checkHtlcTimeouts currentHeight draws => exact absurd rfl (hscan currentHeight draws)
  | setFeeRate rate =>
    exact ⟨ch.htlcsCap,.inr ⟨nofun,.idle ch.htlcsCap rate ch.lastHtlcCheckHeight⟩⟩
  | update deltaSats draw =>
    rcases channelUpdate_cases deltaSats draw ch with heq | ⟨hlocal,hremote,heq⟩
    · rw [call,heq]
      exact ⟨ch.htlcsCap,.inl rfl⟩
    · rw [call,heq]
      exact ⟨ch.htlcsCap,.inr ⟨nofun,.update deltaSats draw hlocal hremote⟩⟩
  | addPtlc enabled direction amountSats point cltvExpiry grow =>
    rcases channelAddPtlc_cases enabled direction amountSats point cltvExpiry grow ch with
      heq | ⟨haccepted,heq⟩
    · rw [call,heq]
      exact ⟨ch.htlcsCap,.inl rfl⟩
    · have hallowed : allowed amountSats := by
        rcases haccepted.gate with hopen | hempty
        · exact hop hopen
        · rw [hempty.1]
          exact hzero
      rw [call,heq]
      exact ⟨ch.htlcsCap,.inr ⟨nofun,
        .addPtlc enabled direction amountSats point cltvExpiry haccepted hallowed⟩⟩
  | settlePtlc ptlcId sig =>
    rcases channelSettlePtlc_cases ptlcId sig ch with heq | ⟨ch',hclosed,heq⟩
    · rw [call,heq]
      exact ⟨ch.htlcsCap,.inl rfl⟩
    · rw [call,heq]
      exact ⟨ch.htlcsCap,.inr ⟨nofun,.closePtlc ch' hclosed⟩⟩
  | failPtlc ptlcId =>
    rcases channelFailPtlc_cases ptlcId ch with heq | ⟨ch',hclosed,heq⟩
    · rw [call,heq]
      exact ⟨ch.htlcsCap,.inl rfl⟩
    · rw [call,heq]
      exact ⟨ch.htlcsCap,.inr ⟨nofun,.closePtlc ch' hclosed⟩⟩

theorem timeouts_moves (currentHeight : UInt32) (draws : ℕ → PcsDraw) (ch : Channel) :
    ChannelMoves allowed ch (channelCheckHtlcTimeouts currentHeight draws ch).1 := by
  rw [channelCheckHtlcTimeouts]
  split_ifs
  · exact .refl
  · exact (Relation.ReflTransGen.single (ChannelMove.idle ch.htlcsCap ch.feeRateSatPerKvb
      currentHeight)).trans (timeoutLoop_moves currentHeight draws _ 0 0 _)

theorem call_moves (op : ChannelOp) (hzero : allowed 0) (hop : op.Allowed allowed) :
    ChannelMoves allowed ch (channelStep secp ch op) := by
  by_cases hscan : ∃ height draws, op = .checkHtlcTimeouts height draws
  · obtain ⟨height,draws,rfl⟩ := hscan
    exact timeouts_moves height draws ch
  · have hother : ∀ height draws, op ≠ .checkHtlcTimeouts height draws :=
      fun height draws heq => hscan ⟨height,draws,heq⟩
    obtain ⟨cap,heq | ⟨-,hmove⟩⟩ := call_steps secp ch op hop hzero hother
    · rw [channelStep,heq]
      exact .single (setCap_moves cap ch)
    · exact (Relation.ReflTransGen.single (setCap_moves cap ch)).tail hmove

theorem allowed_always (op : ChannelOp) : op.Allowed (fun _ => True) := by
  cases op with
  | addPtlc enabled => exact fun _ => trivial
  | _ => trivial

theorem step_fixed (secp : Secp) (ch : Channel) (op : ChannelOp) :
    (channelStep secp ch op).fixed = ch.fixed :=
  (call_moves op trivial (allowed_always op)).fixed

theorem timeoutLoop_count (currentHeight : UInt32) (draws : ℕ → PcsDraw) (fuel i failed : ℕ)
    (ch : Channel) :
    failed ≤ (timeoutLoop currentHeight draws fuel i failed ch).2 ∧
      ((timeoutLoop currentHeight draws fuel i failed ch).2 = failed →
        (timeoutLoop currentHeight draws fuel i failed ch).1 = ch) := by
  induction fuel generalizing i failed ch with
  | zero => exact ⟨le_refl _,fun _ => rfl⟩
  | succ _ ih =>
    rw [timeoutLoop]
    cases ch.htlcs[i]? with
    | none => exact ⟨le_refl _,fun _ => rfl⟩
    | some h =>
      dsimp only
      split_ifs
      · have hmore := (ih (i+1) (failed+1) (channelFailHtlc h.id (draws i) ch).1).1
        exact ⟨by omega,fun heq => by omega⟩
      · exact ih _ _ _

theorem call_zero (op : ChannelOp) (h : (op.call secp ch).2 = 0) : ∃ cap height,
    channelStep secp ch op = { ch with htlcsCap := cap, lastHtlcCheckHeight := height } := by
  by_cases hscan : ∃ height draws, op = .checkHtlcTimeouts height draws
  · obtain ⟨height,draws,rfl⟩ := hscan
    rw [call,channelCheckHtlcTimeouts] at h
    rw [channelStep,call,channelCheckHtlcTimeouts]
    split_ifs at h ⊢
    · exact ⟨ch.htlcsCap,ch.lastHtlcCheckHeight,rfl⟩
    · exact ⟨ch.htlcsCap,height,(timeoutLoop_count _ _ _ _ _ _).2 h⟩
  · obtain ⟨cap,heq | ⟨hne,-⟩⟩ := call_steps secp ch op (allowed_always op)
      trivial fun height draws heq => hscan ⟨height,draws,heq⟩
    · exact ⟨cap,ch.lastHtlcCheckHeight,congrArg Prod.fst heq⟩
    · exact absurd h hne

end

end SuperScalar
