import SuperScalar.Channel.Numbering

namespace SuperScalar

open List Channel

open Ledger (Side)

structure ChannelTerms where
  fundingTxid : Blob 32
  fundingVout : UInt32
  localPaymentBasepoint : Pubkey
  localDelayedPaymentBasepoint : Pubkey
  localRevocationBasepoint : Pubkey
  localHtlcBasepoint : Pubkey
  remotePaymentBasepoint : Pubkey
  remoteDelayedPaymentBasepoint : Pubkey
  remoteRevocationBasepoint : Pubkey
  remoteHtlcBasepoint : Pubkey
  toSelfDelay : UInt32
  funderIsLocal : Bool
  useRevocationLeaf : Bool
deriving DecidableEq

def Channel.terms (ch : Channel) : ChannelTerms :=
  { fundingTxid := ch.fundingTxid
    fundingVout := ch.fundingVout
    localPaymentBasepoint := ch.localPaymentBasepoint
    localDelayedPaymentBasepoint := ch.localDelayedPaymentBasepoint
    localRevocationBasepoint := ch.localRevocationBasepoint
    localHtlcBasepoint := ch.localHtlcBasepoint
    remotePaymentBasepoint := ch.remotePaymentBasepoint
    remoteDelayedPaymentBasepoint := ch.remoteDelayedPaymentBasepoint
    remoteRevocationBasepoint := ch.remoteRevocationBasepoint
    remoteHtlcBasepoint := ch.remoteHtlcBasepoint
    toSelfDelay := ch.toSelfDelay
    funderIsLocal := ch.funderIsLocal
    useRevocationLeaf := ch.useRevocationLeaf }

def ChannelTerms.swap (t : ChannelTerms) : ChannelTerms :=
  { t with
    localPaymentBasepoint := t.remotePaymentBasepoint
    localDelayedPaymentBasepoint := t.remoteDelayedPaymentBasepoint
    localRevocationBasepoint := t.remoteRevocationBasepoint
    localHtlcBasepoint := t.remoteHtlcBasepoint
    remotePaymentBasepoint := t.localPaymentBasepoint
    remoteDelayedPaymentBasepoint := t.localDelayedPaymentBasepoint
    remoteRevocationBasepoint := t.localRevocationBasepoint
    remoteHtlcBasepoint := t.localHtlcBasepoint
    funderIsLocal := !t.funderIsLocal }

section

variable (m : Musig)

def HoldsPoint (a b : Channel) (n : UInt64) : Prop := ∃ point,
  channelGetRemotePcp m a n = some point ∧ channelGetPerCommitmentPoint m b n = some point

structure Mirror (a b : Channel) : Prop where
  terms : b.terms = a.terms.swap
  balances : ∀ side, b.balance side = a.balance side.other
  htlcs : b.htlcs = a.htlcs.map Htlc.flip
  ptlcs : b.ptlcs = a.ptlcs.map Ptlc.flip
  number : b.commitmentNumber = a.commitmentNumber
  firstHolds : HoldsPoint m a b a.commitmentNumber
  secondHolds : HoldsPoint m b a a.commitmentNumber

structure Prepared (a b : Channel) : Prop where
  feeRate : b.feeRateSatPerKvb = a.feeRateSatPerKvb
  confirmed : b.fundingPendingReorg = a.fundingPendingReorg
  nextHtlcId : b.nextHtlcId = a.nextHtlcId
  firstHolds : HoldsPoint m a b (a.commitmentNumber+1)
  secondHolds : HoldsPoint m b a (a.commitmentNumber+1)

end

inductive HtlcOp where
  | add (direction : HtlcDirection) (amountSats : UInt64) (paymentHash : Blob 32)
      (cltvExpiry : UInt32)
  | fulfill (htlcId : UInt64) (preimage : Blob 32)
  | fail (htlcId : UInt64)

def HtlcOp.flip : HtlcOp → HtlcOp
  | .add direction amountSats paymentHash cltvExpiry =>
    .add direction.flip amountSats paymentHash cltvExpiry
  | op => op

def HtlcOp.toCall (draw : PcsDraw) : HtlcOp → ChannelOp
  | .add direction amountSats paymentHash cltvExpiry =>
    .addHtlc direction amountSats paymentHash cltvExpiry true draw
  | .fulfill htlcId preimage => .fulfillHtlc htlcId preimage draw
  | .fail htlcId => .failHtlc htlcId draw

section

variable {m : Musig} {a b : Channel}

theorem Mirror.view (h : Mirror m a b) : a.remoteView.view = b.view := by
  have hlocal : b.localAmount = a.remoteAmount := h.balances .mine
  have hremote : b.remoteAmount = a.localAmount := h.balances .theirs
  have hterms (f : ChannelTerms → Pubkey) : f b.terms = f a.terms.swap := congrArg f h.terms
  have htxid : b.fundingTxid = a.fundingTxid := congrArg ChannelTerms.fundingTxid h.terms
  have hvout : b.fundingVout = a.fundingVout := congrArg ChannelTerms.fundingVout h.terms
  have hdelay : b.toSelfDelay = a.toSelfDelay := congrArg ChannelTerms.toSelfDelay h.terms
  have hleaf : b.useRevocationLeaf = a.useRevocationLeaf :=
    congrArg ChannelTerms.useRevocationLeaf h.terms
  have hdelayed : b.localDelayedPaymentBasepoint = a.remoteDelayedPaymentBasepoint :=
    hterms ChannelTerms.localDelayedPaymentBasepoint
  have hhtlc : b.localHtlcBasepoint = a.remoteHtlcBasepoint :=
    hterms ChannelTerms.localHtlcBasepoint
  have hpayment : b.remotePaymentBasepoint = a.localPaymentBasepoint :=
    hterms ChannelTerms.remotePaymentBasepoint
  have hrevocation : b.remoteRevocationBasepoint = a.localRevocationBasepoint :=
    hterms ChannelTerms.remoteRevocationBasepoint
  have hhtlc' : b.remoteHtlcBasepoint = a.localHtlcBasepoint :=
    hterms ChannelTerms.remoteHtlcBasepoint
  simp only [Channel.view,Channel.remoteView,hlocal,hremote,htxid,hvout,hdelay,hleaf,
    hdelayed,hhtlc,hpayment,hrevocation,hhtlc',h.htlcs,h.ptlcs]

theorem Mirror.commitment (h : Mirror m a b) (hconfirmed : b.fundingPendingReorg = false) :
    channelBuildCommitmentTxForRemote m a = channelBuildCommitmentTx m b := by
  obtain ⟨point,hheld,hown⟩ := h.firstHolds
  rw [← h.number] at hown
  unfold channelBuildCommitmentTxForRemote channelBuildCommitmentTx
  rw [hheld,hconfirmed,impl_none,hown]
  exact impl_congr h.view

end

section

variable {m : Musig} {ch ch' : Channel}

structure SideKept (ch ch' : Channel) : Prop where
  fixed : ch'.fixed = ch.fixed
  ptlcs : ch'.ptlcs = ch.ptlcs

theorem SideKept.trans {ch'' : Channel} (h : SideKept ch ch') (h' : SideKept ch' ch'') : SideKept ch ch'' :=
  ⟨h'.fixed.trans h.fixed,h'.ptlcs.trans h.ptlcs⟩

theorem kept_nextCommitment (ch : Channel) (draw : PcsDraw) : SideKept ch (ch.nextCommitment draw) := by
  refine ⟨ch.fixed_nextCommitment draw,?_⟩
  obtain ⟨pcs,count,heq⟩ := ch.nextCommitment_eq draw
  rw [heq]

theorem kept_withHtlc (ch : Channel) (h : Htlc) : SideKept ch (ch.withHtlc h) :=
  ⟨ch.fixed_withHtlc h,(ptlcs_withBalance _ _ _).trans (ptlcs_withBalance _ _ _)⟩

theorem kept_withoutHtlc (ch : Channel) (h : Htlc) (payee : Side) (rest : List Htlc) :
    SideKept ch (ch.withoutHtlc h payee rest) :=
  ⟨ch.fixed_withoutHtlc h payee rest,(ptlcs_credit _ _ _).trans (ptlcs_credit _ _ _)⟩

theorem SideKept.terms (h : SideKept ch ch') : ch'.terms = ch.terms := by
  have hterms := congrArg Channel.terms h.fixed
  exact hterms

theorem SideKept.remotePcp (h : SideKept ch ch') (n : UInt64) :
    channelGetRemotePcp m ch' n = channelGetRemotePcp m ch n := by
  have hpcp := congrArg (channelGetRemotePcp m · n) h.fixed
  exact hpcp

theorem add_one_ne (n : UInt64) : (n+1).toNat ≠ n.toNat := by
  have hlt := n.toNat_lt
  rw [UInt64.toNat_add,UInt64.toNat_one]
  omega

structure Staged (ch next : Channel) : Prop where
  kept : SideKept ch next
  number : next.commitmentNumber = ch.commitmentNumber
  localPcs : next.localPcs = ch.localPcs
  nLocalPcs : next.nLocalPcs = ch.nLocalPcs

theorem staged_withHtlc (ch : Channel) (cap : ℕ) (h : Htlc) :
    Staged ch ({ ch with htlcsCap := cap }.withHtlc h) := by
  have hcap : SideKept ch { ch with htlcsCap := cap } := ⟨rfl,rfl⟩
  obtain ⟨hnumber,hpcs,hcount⟩ := withHtlc_numbers { ch with htlcsCap := cap } h
  exact ⟨hcap.trans (kept_withHtlc _ h),hnumber,hpcs,hcount⟩

theorem staged_withoutHtlc (ch : Channel) (h : Htlc) (payee : Side) (rest : List Htlc) :
    Staged ch (ch.withoutHtlc h payee rest) := by
  obtain ⟨hnumber,hpcs,hcount⟩ := withoutHtlc_numbers ch h payee rest
  exact ⟨kept_withoutHtlc ch h payee rest,hnumber,hpcs,hcount⟩

theorem Staged.nextNumber {next : Channel} (h : Staged ch next) (draw : PcsDraw) :
    (next.nextCommitment draw).commitmentNumber = ch.commitmentNumber+1 := by
  obtain ⟨pcs,count,heq⟩ := next.nextCommitment_eq draw
  rw [heq,← h.number]

theorem Staged.point {next : Channel} {point : Pubkey} (h : Staged ch next) (draw : PcsDraw)
    (hpoint : channelGetPerCommitmentPoint m ch (ch.commitmentNumber+1) = some point) :
    channelGetPerCommitmentPoint m (next.nextCommitment draw) (ch.commitmentNumber+1) =
      some point := by
  obtain ⟨secret,hsecret,hcreate⟩ := Option.bind_eq_some_iff.mp hpoint
  have hkept : channelGetLocalPcs (next.nextCommitment draw) (ch.commitmentNumber+1) =
      some secret := by
    have hne : (next.commitmentNumber+1+1).toNat ≠ (ch.commitmentNumber+1).toNat := by
      rw [h.number]
      exact add_one_ne _
    refine generate_keeps hne ?_
    rw [getLocalPcs_some] at hsecret ⊢
    rw [h.nLocalPcs,h.localPcs]
    exact hsecret
  rw [channelGetPerCommitmentPoint,hkept]
  exact hcreate

end

section

variable {m : Musig} {a b nextA nextB : Channel} {drawA drawB : PcsDraw}

def Balanced (a b : Channel) : Prop := ∀ side, b.balance side = a.balance side.other

theorem Balanced.debit (h : Balanced a b) (side : Side) (n : UInt64) :
    Balanced (a.debit side n) (b.debit side.other n) := by
  have hmine : b.localAmount = a.remoteAmount := h .mine
  have htheirs : b.remoteAmount = a.localAmount := h .theirs
  intro s
  cases side <;> cases s <;>
    simp only [Channel.debit,Channel.withBalance,Channel.balance,Side.other,hmine,htheirs]

theorem Balanced.credit (h : Balanced a b) (side : Side) (n : UInt64) :
    Balanced (a.credit side n) (b.credit side.other n) := by
  have hmine : b.localAmount = a.remoteAmount := h .mine
  have htheirs : b.remoteAmount = a.localAmount := h .theirs
  intro s
  cases side <;> cases s <;>
    simp only [Channel.credit,Channel.withBalance,Channel.balance,Side.other,hmine,htheirs]

theorem flip_offerer (d : HtlcDirection) : d.flip.offerer = d.offerer.other := by
  cases d <;> rfl

theorem flip_recipient (d : HtlcDirection) : d.flip.recipient = d.recipient.other := by
  cases d <;> rfl

theorem Mirror.funder (h : Mirror m a b) : b.funder = a.funder.other := by
  have hflag : b.funderIsLocal = !a.funderIsLocal := congrArg ChannelTerms.funderIsLocal h.terms
  unfold Channel.funder
  rw [hflag]
  cases a.funderIsLocal <;> rfl

theorem Mirror.advance (h : Mirror m a b) (hp : Prepared m a b) (ha : Staged a nextA)
    (hb : Staged b nextB) (hbalances : Balanced nextA nextB)
    (hhtlcs : nextB.htlcs = nextA.htlcs.map Htlc.flip) :
    Mirror m (nextA.nextCommitment drawA) (nextB.nextCommitment drawB) := by
  have hkeptA := ha.kept.trans (kept_nextCommitment nextA drawA)
  have hkeptB := hb.kept.trans (kept_nextCommitment nextB drawB)
  have hbalance (ch : Channel) (draw : PcsDraw) (side : Side) :
      (ch.nextCommitment draw).balance side = ch.balance side := by
    obtain ⟨pcs,count,heq⟩ := ch.nextCommitment_eq draw
    rw [heq]
    cases side <;> rfl
  have hlist (ch : Channel) (draw : PcsDraw) : (ch.nextCommitment draw).htlcs = ch.htlcs := by
    obtain ⟨pcs,count,heq⟩ := ch.nextCommitment_eq draw
    rw [heq]
  refine ⟨?_,fun side => ?_,?_,?_,?_,?_,?_⟩
  · rw [hkeptB.terms,hkeptA.terms,h.terms]
  · simp only [hbalance,hbalances side]
  · rw [hlist,hlist,hhtlcs]
  · rw [hkeptB.ptlcs,hkeptA.ptlcs,h.ptlcs]
  · rw [hb.nextNumber,ha.nextNumber,h.number]
  · obtain ⟨point,hheld,hown⟩ := hp.firstHolds
    rw [← h.number] at hown
    refine ⟨point,?_,?_⟩
    · rw [ha.nextNumber,hkeptA.remotePcp,hheld]
    · rw [ha.nextNumber,← h.number,hb.point drawB hown]
  · obtain ⟨point,hheld,hown⟩ := hp.secondHolds
    refine ⟨point,?_,?_⟩
    · rw [ha.nextNumber,hkeptB.remotePcp,hheld]
    · rw [ha.nextNumber,ha.point drawA hown]

structure Alike (a b : Channel) : Prop where
  balances : Balanced a b
  funder : b.funder = a.funder.other
  fee : b.perEntryFee = a.perEntryFee
  confirmed : b.fundingPendingReorg = a.fundingPendingReorg
  length : b.htlcs.length = a.htlcs.length

theorem other_other (side : Side) : side.other.other = side := by cases side <;> rfl

theorem Alike.symm (h : Alike a b) : Alike b a := by
  refine ⟨fun side => ?_,?_,h.fee.symm,h.confirmed.symm,h.length.symm⟩
  · rw [h.balances,other_other]
  · rw [h.funder,other_other]

theorem Alike.offererBalance (h : Alike a b) (d : HtlcDirection) :
    b.balance d.flip.offerer = a.balance d.offerer := by
  rw [h.balances,flip_offerer,other_other]

theorem Alike.funderBalance (h : Alike a b) (d : HtlcDirection) (n : UInt64) :
    (b.debit d.flip.offerer n).balance b.funder = (a.debit d.offerer n).balance a.funder := by
  rw [h.funder,flip_offerer,h.balances.debit,other_other]

theorem Alike.accepted (h : Alike a b) {direction : HtlcDirection} {amountSats : UInt64}
    (hadd : AddAccepted a direction amountSats) : AddAccepted b direction.flip amountSats := by
  refine ⟨h.confirmed.trans hadd.confirmed,h.length.trans_lt hadd.room,hadd.dust,?_,?_,?_⟩
  · rw [h.offererBalance]
    exact hadd.funds
  · rw [h.offererBalance]
    exact hadd.reserve
  · rw [h.fee,h.funderBalance]
    exact hadd.fee

theorem flip_flip (d : HtlcDirection) : d.flip.flip = d := by cases d <;> rfl

theorem Alike.accepted_iff (h : Alike a b) (direction : HtlcDirection) (amountSats : UInt64) :
    AddAccepted b direction.flip amountSats ↔ AddAccepted a direction amountSats := by
  refine ⟨fun hadd => ?_,h.accepted⟩
  have hback := h.symm.accepted hadd
  rwa [flip_flip] at hback

theorem Mirror.alike (h : Mirror m a b) (hp : Prepared m a b) : Alike a b := by
  refine ⟨h.balances,h.funder,?_,hp.confirmed,?_⟩
  · simp only [perEntryFee,hp.feeRate]
  · rw [h.htlcs,length_map]

theorem Mirror.added (h : Mirror m a b) (hp : Prepared m a b) {direction : HtlcDirection}
    {amountSats : UInt64} (paymentHash : Blob 32) (cltvExpiry : UInt32) (capA capB : ℕ) :
    Mirror m
      (({ a with htlcsCap := capA }.withHtlc
        (newHtlc direction amountSats paymentHash cltvExpiry a)).nextCommitment drawA)
      (({ b with htlcsCap := capB }.withHtlc
        (newHtlc direction.flip amountSats paymentHash cltvExpiry b)).nextCommitment drawB) := by
  have hfee : b.perEntryFee = a.perEntryFee := (h.alike hp).fee
  have hnew : newHtlc direction.flip amountSats paymentHash cltvExpiry b =
      (newHtlc direction amountSats paymentHash cltvExpiry a).flip := by
    unfold newHtlc Htlc.flip
    rw [hfee,hp.nextHtlcId]
  rw [hnew]
  refine h.advance hp (staged_withHtlc a capA _) (staged_withHtlc b capB _) ?_ ?_
  · have hgrown : Balanced { a with htlcsCap := capA } { b with htlcsCap := capB } := by
      intro side
      have hside := h.balances side
      cases side <;> exact hside
    have hpaid := (hgrown.debit direction.offerer amountSats).debit a.funder a.perEntryFee
    rw [← flip_offerer,← h.funder] at hpaid
    intro side
    have hside := hpaid side
    cases side <;> exact hside
  · change b.htlcs ++ _ = (a.htlcs++_).map Htlc.flip
    rw [h.htlcs,map_append]
    rfl

theorem HtlcAt.flip {id : UInt64} {before after : List Htlc} {h : Htlc}
    (hhtlcs : b.htlcs = a.htlcs.map Htlc.flip) (hat : HtlcAt a id before h after) :
    HtlcAt b id (before.map Htlc.flip) h.flip (after.map Htlc.flip) := by
  refine ⟨?_,hat.named,hat.active,fun x hx => ?_⟩
  · rw [hhtlcs,hat.split,map_append,map_cons]
  · obtain ⟨y,hy,rfl⟩ := mem_map.mp hx
    exact hat.first y hy

theorem findActive_flip {id : UInt64} (hhtlcs : b.htlcs = a.htlcs.map Htlc.flip)
    (hnone : findActive id a.htlcs = none) : findActive id b.htlcs = none := by
  rw [findActive_none] at hnone ⊢
  intro x hx
  rw [hhtlcs] at hx
  obtain ⟨y,hy,rfl⟩ := mem_map.mp hx
  exact hnone y hy

variable (h : Mirror m a b)

include h

variable (hp : Prepared m a b)

include hp

theorem Mirror.removed (before after : List Htlc)
    (e : Htlc) (payee : Side) (drawA drawB : PcsDraw) :
    Mirror m ((a.withoutHtlc e payee (before++after)).nextCommitment drawA)
      ((b.withoutHtlc e.flip payee.other
        (before.map Htlc.flip ++ after.map Htlc.flip)).nextCommitment drawB) := by
  refine h.advance hp (staged_withoutHtlc a e payee _) (staged_withoutHtlc b e.flip payee.other _)
    ?_ ?_
  · have hpaid := (Balanced.credit h.balances payee e.amountSats).credit a.funder e.feeAtAdd
    rw [← h.funder] at hpaid
    intro side
    have hside := hpaid side
    cases side <;> exact hside
  · change (before.map Htlc.flip ++ after.map Htlc.flip).filter Htlc.isActive =
      ((before++after).filter Htlc.isActive).map Htlc.flip
    rw [← map_append,filter_map]
    rfl

theorem fulfill_call (id : UInt64) (preimage : Blob 32)
    (drawA drawB : PcsDraw) :
    ((channelFulfillHtlc m.toSecp id preimage drawA a).2 = false ∧
        (channelFulfillHtlc m.toSecp id preimage drawB b).2 = false) ∨
      ((channelFulfillHtlc m.toSecp id preimage drawA a).2 = true ∧
        (channelFulfillHtlc m.toSecp id preimage drawB b).2 = true ∧
        Mirror m (channelFulfillHtlc m.toSecp id preimage drawA a).1
          (channelFulfillHtlc m.toSecp id preimage drawB b).1) := by
  cases hfind : findActive id a.htlcs with
  | none =>
    left
    rw [channelFulfillHtlc,hfind,channelFulfillHtlc,findActive_flip h.htlcs hfind]
    exact ⟨rfl,rfl⟩
  | some found =>
    obtain ⟨i,e⟩ := found
    obtain ⟨before,after,hsplit,-,hid,hactive,hfirst⟩ := findActive_some hfind
    have hat : HtlcAt a id before e after := ⟨hsplit,hid,hactive,hfirst⟩
    have hat' := hat.flip h.htlcs
    by_cases hhash : m.sha256 preimage.val = e.paymentHash
    · right
      rw [hat.fulfilled hhash,hat'.fulfilled hhash]
      refine ⟨rfl,rfl,?_⟩
      have hmirror := h.removed hp before after e e.direction.recipient drawA drawB
      rw [← flip_recipient] at hmirror
      exact hmirror
    · left
      rw [channelFulfillHtlc,hat.found,channelFulfillHtlc,hat'.found]
      dsimp only
      rw [if_neg hhash,if_neg (show ¬ m.sha256 preimage.val = e.flip.paymentHash from hhash)]
      exact ⟨rfl,rfl⟩

theorem fail_call (id : UInt64)
    (drawA drawB : PcsDraw) :
    ((channelFailHtlc id drawA a).2 = false ∧ (channelFailHtlc id drawB b).2 = false) ∨
      ((channelFailHtlc id drawA a).2 = true ∧ (channelFailHtlc id drawB b).2 = true ∧
        Mirror m (channelFailHtlc id drawA a).1 (channelFailHtlc id drawB b).1) := by
  cases hfind : findActive id a.htlcs with
  | none =>
    left
    rw [channelFailHtlc,hfind,channelFailHtlc,findActive_flip h.htlcs hfind]
    exact ⟨rfl,rfl⟩
  | some found =>
    obtain ⟨i,e⟩ := found
    obtain ⟨before,after,hsplit,-,hid,hactive,hfirst⟩ := findActive_some hfind
    have hat : HtlcAt a id before e after := ⟨hsplit,hid,hactive,hfirst⟩
    right
    rw [hat.failed,(hat.flip h.htlcs).failed]
    refine ⟨rfl,rfl,?_⟩
    have hmirror := h.removed hp before after e e.direction.offerer drawA drawB
    rw [← flip_offerer] at hmirror
    exact hmirror

theorem add_call (direction : HtlcDirection)
    (amountSats : UInt64) (paymentHash : Blob 32) (cltvExpiry : UInt32) (drawA drawB : PcsDraw) :
    ((channelAddHtlc direction amountSats paymentHash cltvExpiry true drawA a).2 = none ∧
        (channelAddHtlc direction.flip amountSats paymentHash cltvExpiry true drawB b).2 = none) ∨
      ∃ id, (channelAddHtlc direction amountSats paymentHash cltvExpiry true drawA a).2 = some id ∧
        (channelAddHtlc direction.flip amountSats paymentHash cltvExpiry true drawB b).2 = some id ∧
        Mirror m (channelAddHtlc direction amountSats paymentHash cltvExpiry true drawA a).1
          (channelAddHtlc direction.flip amountSats paymentHash cltvExpiry true drawB b).1 := by
  have hiff := (h.alike hp).accepted_iff direction amountSats
  have hslot (ch : Channel) : HasSlot true ch := .inr rfl
  by_cases hadd : AddAccepted a direction amountSats
  · obtain ⟨capA,heqA⟩ := channelAddHtlc_added hadd (hslot a)
    obtain ⟨capB,heqB⟩ := channelAddHtlc_added (hiff.mpr hadd) (hslot b)
    right
    rw [heqA,heqB]
    exact ⟨a.nextHtlcId,rfl,congrArg some hp.nextHtlcId,h.added hp paymentHash cltvExpiry capA capB⟩
  · obtain ⟨capA,heqA⟩ := channelAddHtlc_refused (fun hboth => hadd hboth.1)
    obtain ⟨capB,heqB⟩ := channelAddHtlc_refused (fun hboth => hadd (hiff.mp hboth.1))
    left
    rw [heqA,heqB]
    exact ⟨rfl,rfl⟩

end

theorem mirrors_commit_alike (m : Musig) (a b : Channel) (h : Mirror m a b) :
    (b.fundingPendingReorg = false →
        channelBuildCommitmentTxForRemote m a = channelBuildCommitmentTx m b) ∧
      (Prepared m a b → ∀ (op : HtlcOp) (drawA drawB : PcsDraw),
        (((op.toCall drawA).call m.toSecp a).2 = 0 ∧
          ((op.flip.toCall drawB).call m.toSecp b).2 = 0) ∨
        (((op.toCall drawA).call m.toSecp a).2 = 1 ∧
          ((op.flip.toCall drawB).call m.toSecp b).2 = 1 ∧
          Mirror m (channelStep m.toSecp a (op.toCall drawA))
            (channelStep m.toSecp b (op.flip.toCall drawB)))) := by
  refine ⟨h.commitment,fun hp op drawA drawB => ?_⟩
  cases op with
  | add direction amountSats paymentHash cltvExpiry =>
    have hcode {r : Option UInt64} {s : Option UInt64} (heq : r = s) :
        r.isSome.toNat = s.isSome.toNat := by rw [heq]
    rcases add_call h hp direction amountSats paymentHash cltvExpiry drawA drawB with
      ⟨hA,hB⟩ | ⟨id,hA,hB,hmirror⟩
    · exact .inl ⟨hcode hA,hcode hB⟩
    · exact .inr ⟨hcode hA,hcode hB,hmirror⟩
  | fulfill id preimage =>
    rcases fulfill_call h hp id preimage drawA drawB with ⟨hA,hB⟩ | ⟨hA,hB,hmirror⟩
    · exact .inl ⟨congrArg Bool.toNat hA,congrArg Bool.toNat hB⟩
    · exact .inr ⟨congrArg Bool.toNat hA,congrArg Bool.toNat hB,hmirror⟩
  | fail id =>
    rcases fail_call h hp id drawA drawB with ⟨hA,hB⟩ | ⟨hA,hB,hmirror⟩
    · exact .inl ⟨congrArg Bool.toNat hA,congrArg Bool.toNat hB⟩
    · exact .inr ⟨congrArg Bool.toNat hA,congrArg Bool.toNat hB,hmirror⟩

def samplePoint : Pubkey := Secp.sampleHash 64 (replicate 32 0)

def mirrorLeft : Channel :=
  { sample with
    remotePcp0 := some ⟨0,samplePoint⟩
    remotePcp1 := some ⟨1,samplePoint⟩ }

def mirrorRight : Channel := { mirrorLeft with funderIsLocal := true }

theorem mirrorLeft_holds (n : UInt64) (hn : n = 0 ∨ n = 1) :
    HoldsPoint Musig.sample mirrorLeft mirrorRight n ∧
      HoldsPoint Musig.sample mirrorRight mirrorLeft n := by
  rcases hn with rfl | rfl
  · exact ⟨⟨samplePoint,rfl,rfl⟩,⟨samplePoint,rfl,rfl⟩⟩
  · exact ⟨⟨samplePoint,rfl,rfl⟩,⟨samplePoint,rfl,rfl⟩⟩

theorem mirrorLeft_mirror : Mirror Musig.sample mirrorLeft mirrorRight :=
  ⟨rfl,fun side => by cases side <;> rfl,rfl,rfl,rfl,(mirrorLeft_holds 0 (.inl rfl)).1,
    (mirrorLeft_holds 0 (.inl rfl)).2⟩

theorem mirrors_commit_alike_sample :
    channelBuildCommitmentTxForRemote Musig.sample mirrorLeft =
        channelBuildCommitmentTx Musig.sample mirrorRight ∧
      (channelBuildCommitmentTx Musig.sample mirrorRight).isSome = true ∧
      Mirror Musig.sample
        (channelStep Musig.sample.toSecp mirrorLeft
          ((HtlcOp.add .offered 20000 (Blob.zero 32) 500).toCall ⟨true,none⟩))
        (channelStep Musig.sample.toSecp mirrorRight
          ((HtlcOp.add .offered 20000 (Blob.zero 32) 500).flip.toCall ⟨true,none⟩)) := by
  have halike := mirrors_commit_alike Musig.sample mirrorLeft mirrorRight mirrorLeft_mirror
  have hprepared : Prepared Musig.sample mirrorLeft mirrorRight :=
    ⟨rfl,rfl,rfl,(mirrorLeft_holds 1 (.inr rfl)).1,(mirrorLeft_holds 1 (.inr rfl)).2⟩
  refine ⟨halike.1 rfl,by decide +kernel,?_⟩
  rcases halike.2 hprepared (.add .offered 20000 (Blob.zero 32) 500) ⟨true,none⟩ ⟨true,none⟩ with
    ⟨hrefused,-⟩ | ⟨-,-,hmirror⟩
  · exact absurd hrefused (by decide +kernel)
  · exact hmirror

def mirrorCostly : Channel := { mirrorRight with feeRateSatPerKvb := 1000000000 }

theorem mirrors_disagree_on_fee :
    Mirror Musig.sample mirrorLeft mirrorCostly ∧
      (((HtlcOp.add .offered 20000 (Blob.zero 32) 500).toCall ⟨true,none⟩).call
        Musig.sample.toSecp mirrorLeft).2 = 1 ∧
      (((HtlcOp.add .offered 20000 (Blob.zero 32) 500).flip.toCall ⟨true,none⟩).call
        Musig.sample.toSecp mirrorCostly).2 = 0 := by
  refine ⟨⟨rfl,fun side => by cases side <;> rfl,rfl,rfl,rfl,⟨samplePoint,rfl,rfl⟩,
    ⟨samplePoint,rfl,rfl⟩⟩,?_,?_⟩
  · decide +kernel
  · decide +kernel

end SuperScalar
