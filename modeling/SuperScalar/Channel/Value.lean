import SuperScalar.Channel.Calls

namespace SuperScalar

open List UInt64 Channel

open Ledger (Side Book Escrow Move Moves)

structure ChannelSetup where
  localPaymentBasepoint : Pubkey
  localDelayedPaymentBasepoint : Pubkey
  localRevocationBasepoint : Pubkey
  localHtlcBasepoint : Pubkey
  remotePaymentBasepoint : Pubkey
  remoteDelayedPaymentBasepoint : Pubkey
  remoteRevocationBasepoint : Pubkey
  remoteHtlcBasepoint : Pubkey
  remotePcp0 : Option RemotePcp
  remotePcp1 : Option RemotePcp
  funderIsLocal : Bool
  useRevocationLeaf : Bool
  localNoncePool : MusigNoncePool
  remotePubnoncesSer : List (Blob 66)
  remoteNonceCount : ℕ
  chanMerkleRoot : Option (Blob 32)
  fundingPendingReorg : Bool

def Channel.configure (ch : Channel) (c : ChannelSetup) : Channel :=
  { ch with
    localPaymentBasepoint := c.localPaymentBasepoint
    localDelayedPaymentBasepoint := c.localDelayedPaymentBasepoint
    localRevocationBasepoint := c.localRevocationBasepoint
    localHtlcBasepoint := c.localHtlcBasepoint
    remotePaymentBasepoint := c.remotePaymentBasepoint
    remoteDelayedPaymentBasepoint := c.remoteDelayedPaymentBasepoint
    remoteRevocationBasepoint := c.remoteRevocationBasepoint
    remoteHtlcBasepoint := c.remoteHtlcBasepoint
    remotePcp0 := c.remotePcp0
    remotePcp1 := c.remotePcp1
    funderIsLocal := c.funderIsLocal
    useRevocationLeaf := c.useRevocationLeaf
    localNoncePool := c.localNoncePool
    remotePubnoncesSer := c.remotePubnoncesSer
    remoteNonceCount := c.remoteNonceCount
    chanMerkleRoot := c.chanMerkleRoot
    fundingPendingReorg := c.fundingPendingReorg }

def Htlc.escrow (h : Htlc) : Escrow := ⟨h.amountSats.toNat,h.feeAtAdd.toNat⟩

def Ptlc.escrow (p : Ptlc) : Escrow := ⟨p.amountSats.toNat,p.feeAtAdd.toNat⟩

def heldHtlcs (htlcs : List Htlc) : Multiset Escrow :=
  ((htlcs.filter Htlc.isActive).map Htlc.escrow : List Escrow)

def heldPtlcs (ptlcs : List Ptlc) : Multiset Escrow :=
  ((ptlcs.filter Ptlc.isActive).map Ptlc.escrow : List Escrow)

def Channel.book (ch : Channel) : Book where
  mine := ch.localAmount.toNat
  theirs := ch.remoteAmount.toNat
  held := heldHtlcs ch.htlcs + heldPtlcs ch.ptlcs

section

variable {before after : List Htlc} {h : Htlc} {ps qs : List Ptlc} {p q : Ptlc}

theorem heldHtlcs_filter (htlcs : List Htlc) :
    heldHtlcs (htlcs.filter Htlc.isActive) = heldHtlcs htlcs := by
  unfold heldHtlcs
  rw [filter_filter]
  simp only [Bool.and_self]

theorem heldHtlcs_split (hactive : h.isActive = true) :
    heldHtlcs (before ++ h :: after) = h.escrow ::ₘ heldHtlcs (before++after) := by
  unfold heldHtlcs
  simp only [filter_append,filter_cons_of_pos hactive,map_append,map_cons,Multiset.cons_coe]
  exact Multiset.coe_eq_coe.mpr perm_middle

theorem heldPtlcs_split (hactive : p.isActive = true) :
    heldPtlcs (ps ++ p :: qs) = p.escrow ::ₘ heldPtlcs (ps++qs) := by
  unfold heldPtlcs
  simp only [filter_append,filter_cons_of_pos hactive,map_append,map_cons,Multiset.cons_coe]
  exact Multiset.coe_eq_coe.mpr perm_middle

theorem heldPtlcs_inactive (hclosed : q.isActive = false) :
    heldPtlcs (ps ++ q :: qs) = heldPtlcs (ps++qs) := by
  unfold heldPtlcs
  rw [filter_append,filter_append,filter_cons_of_neg (by rw [hclosed]; decide)]

end

namespace Channel

variable {ch : Channel} {side : Side} {n : UInt64}

theorem book_withBalance_held (ch : Channel) (side : Side) (n : UInt64) :
    (ch.withBalance side n).book.held = ch.book.held := by
  cases side <;> rfl

theorem book_balance (ch : Channel) (side : Side) :
    ch.book.balance side = (ch.balance side).toNat := by
  cases side <;> rfl

theorem book_nextCommitment (ch : Channel) (draw : PcsDraw) :
    (ch.nextCommitment draw).book = ch.book := by
  obtain ⟨pcs,count,heq⟩ := ch.nextCommitment_eq draw
  rw [heq]
  rfl

theorem book_credit (h : (ch.balance side).toNat + n.toNat < 2^64) :
    (ch.credit side n).book = ch.book.credit side n.toNat := by
  have hsum : (ch.balance side + n).toNat = (ch.balance side).toNat + n.toNat := by
    rw [UInt64.toNat_add,Nat.mod_eq_of_lt h]
  cases side with
  | mine => exact congrArg (fun k => Book.mk k _ _) hsum
  | theirs => exact congrArg (fun k => Book.mk _ k _) hsum

theorem book_debit (h : n ≤ ch.balance side) :
    ch.book = (ch.debit side n).book.credit side n.toNat := by
  have hdiff : (ch.balance side).toNat = (ch.balance side - n).toNat + n.toNat := by
    rw [UInt64.toNat_sub_of_le _ _ h]
    have := le_iff_toNat_le.mp h
    omega
  cases side with
  | mine => exact congrArg (fun k => Book.mk k _ _) hdiff
  | theirs => exact congrArg (fun k => Book.mk _ k _) hdiff

theorem book_release {e : Escrow} {payee : Side} {amount fee : UInt64}
    (hamount : amount.toNat = e.amount) (hfee : fee.toNat = e.fee)
    (htotal : (ch.book.hold e).total < 2^64) :
    ((ch.credit payee amount).credit ch.funder fee).book =
      (ch.book.credit payee e.amount).credit ch.funder e.fee := by
  rw [Book.total_hold] at htotal
  have hpaid : (ch.credit payee amount).book = ch.book.credit payee e.amount := by
    rw [← hamount]
    apply book_credit
    have hle := ch.book.balance_le_total payee
    rw [book_balance] at hle
    omega
  rw [← hpaid,← hfee]
  apply book_credit
  have hle := (ch.credit payee amount).book.balance_le_total ch.funder
  rw [hpaid,Book.total_credit,← hpaid,book_balance] at hle
  omega

end Channel

section

variable {ch : Channel}

variable {amountSats : UInt64} {direction : HtlcDirection} {before after : List Htlc} {h : Htlc}
  {ch' : Channel}

theorem withHtlc_books (paymentHash : Blob 32) (cltvExpiry : UInt32)
    (h : AddAccepted ch direction amountSats) :
    ∃ left : Book,
      ch.book = (left.credit direction.offerer amountSats.toNat).credit ch.funder
        ch.perEntryFee.toNat ∧
      (ch.withHtlc (newHtlc direction amountSats paymentHash cltvExpiry ch)).book =
        left.hold ⟨amountSats.toNat,ch.perEntryFee.toNat⟩ := by
  let new := newHtlc direction amountSats paymentHash cltvExpiry ch
  let left := (ch.debit direction.offerer amountSats).debit ch.funder ch.perEntryFee
  have hbefore := (book_debit h.funds).trans
      (congrArg (Book.credit · direction.offerer amountSats.toNat) (book_debit h.fee))
  have hafter : (ch.withHtlc new).book = left.book.hold new.escrow := by
    have hheld : heldHtlcs (ch.htlcs ++ [new]) = new.escrow ::ₘ heldHtlcs ch.htlcs := by
      rw [heldHtlcs_split rfl,append_nil]
    have hsame : left.book.held = ch.book.held :=
      (book_withBalance_held _ _ _).trans (book_withBalance_held _ _ _)
    have hptlcs : (ch.withHtlc new).ptlcs = ch.ptlcs := by
      unfold withHtlc
      simp only [debit,ptlcs_withBalance]
    have hnew : (ch.withHtlc new).book.held = new.escrow ::ₘ left.book.held := by
      rw [hsame]
      change heldHtlcs (ch.htlcs ++ [new]) + heldPtlcs (ch.withHtlc new).ptlcs = _
      rw [hheld,hptlcs,Multiset.cons_add]
      rfl
    exact congrArg (fun held => Book.mk left.book.mine left.book.theirs held) hnew
  refine ⟨left.book,?_,hafter⟩
  rw [Book.credit_swap]
  exact hbefore

theorem withHtlc_moves (paymentHash : Blob 32) (cltvExpiry : UInt32)
    (h : AddAccepted ch direction amountSats) :
    Move ch.book (ch.withHtlc (newHtlc direction amountSats paymentHash cltvExpiry ch)).book := by
  obtain ⟨left,hbefore,hafter⟩ := withHtlc_books paymentHash cltvExpiry h
  rw [hbefore,hafter]
  exact Move.lock left direction.offerer ch.funder ⟨amountSats.toNat,ch.perEntryFee.toNat⟩

theorem withoutHtlc_books (payee : Side) (hsplit : ch.htlcs = before ++ h :: after)
    (hactive : h.isActive = true) (htotal : ch.book.total < 2^64) :
    ∃ rest : Book, ch.book = rest.hold h.escrow ∧
      (ch.withoutHtlc h payee (before++after)).book =
        (rest.credit payee h.escrow.amount).credit ch.funder h.escrow.fee := by
  let rest := ch.setHtlcs ((before++after).filter Htlc.isActive)
  have hbefore : ch.book = rest.book.hold h.escrow := by
    have hheld : ch.book.held = h.escrow ::ₘ rest.book.held := by
      change heldHtlcs ch.htlcs + heldPtlcs ch.ptlcs =
        h.escrow ::ₘ (heldHtlcs ((before++after).filter Htlc.isActive) + heldPtlcs ch.ptlcs)
      rw [hsplit,heldHtlcs_split hactive,heldHtlcs_filter,Multiset.cons_add]
    exact congrArg (fun held => Book.mk ch.book.mine ch.book.theirs held) hheld
  have hsame : ch.withoutHtlc h payee (before++after) =
      (rest.credit payee h.amountSats).credit rest.funder h.feeAtAdd := by
    cases payee <;> cases hf : ch.funderIsLocal <;>
      simp [withoutHtlc,rest,credit,setHtlcs,withBalance,balance,funder,hf]
  refine ⟨rest.book,hbefore,?_⟩
  rw [hsame]
  exact book_release rfl rfl (hbefore ▸ htotal)

theorem withoutHtlc_moves (payee : Side) (hsplit : ch.htlcs = before ++ h :: after)
    (hactive : h.isActive = true) (htotal : ch.book.total < 2^64) :
    Move ch.book (ch.withoutHtlc h payee (before++after)).book := by
  obtain ⟨rest,hbefore,hafter⟩ := withoutHtlc_books payee hsplit hactive htotal
  rw [hafter,hbefore]
  exact Move.release rest payee ch.funder h.escrow

theorem moved_moves {deltaSats : Int64}
    (pays : deltaSats > 0 → deltaSats.toUInt64 ≤ ch.localAmount)
    (isPaid : deltaSats < 0 → (-deltaSats).toUInt64 ≤ ch.remoteAmount)
    (htotal : ch.book.total < 2^64) : Moves ch.book (ch.moved deltaSats).book := by
  have hpay (payer : Side) (n : UInt64) (hn : n ≤ ch.balance payer)
      (hmoved : ch.moved deltaSats = (ch.debit payer n).credit payer.other n) :
      Moves ch.book (ch.moved deltaSats).book := by
    have hbefore := book_debit hn
    have hroom : ((ch.debit payer n).balance payer.other).toNat + n.toNat < 2^64 := by
      have hle := (ch.debit payer n).book.balance_le_total payer.other
      rw [book_balance] at hle
      rw [hbefore,Book.total_credit] at htotal
      omega
    rw [hmoved,book_credit hroom,hbefore]
    exact .single (Move.pay (ch.debit payer n).book payer n.toNat)
  by_cases hpos : deltaSats > 0
  · refine hpay .mine deltaSats.toUInt64 (pays hpos) ?_
    simp [moved,credit,debit,withBalance,balance,Side.other]
  by_cases hneg : deltaSats < 0
  · refine hpay .theirs (-deltaSats).toUInt64 (isPaid hneg) ?_
    simp [moved,credit,debit,withBalance,balance,Side.other,UInt64.sub_eq_add_neg]
  · have hzero : deltaSats = 0 := by grind
    subst hzero
    have hsame : ch.moved 0 = ch := by
      simp [moved]
    rw [hsame]
    exact .refl

def ptlcReserveFits (amountSats : UInt64) : Prop :=
  amountSats.toNat + channelReserveSats.toNat < 2^64

theorem funds_of_fits {balance : UInt64} (hfits : ptlcReserveFits amountSats)
    (h : amountSats + channelReserveSats ≤ balance) : amountSats ≤ balance := by
  rw [UInt64.le_iff_toNat_le,UInt64.toNat_add,Nat.mod_eq_of_lt hfits] at h
  rw [UInt64.le_iff_toNat_le]
  omega

theorem addPtlc_moves {enabled : Bool} {dir : HtlcDirection} {point : Option Pubkey}
    (cltvExpiry : UInt32) (h : PtlcAccepted ch enabled dir amountSats point)
    (hfits : ptlcReserveFits amountSats) :
    Move ch.book
      ({ ch.chargePtlc dir amountSats with
        ptlcs := ch.ptlcs ++ [newPtlc dir amountSats point cltvExpiry ch]
        ptlcsCap := channelGrownPtlcsCap ch
        nextPtlcId := ch.nextPtlcId+1 } : Channel).book := by
  let new := newPtlc dir amountSats point cltvExpiry ch
  have hheld : heldPtlcs (ch.ptlcs ++ [new]) = new.escrow ::ₘ heldPtlcs ch.ptlcs := by
    rw [heldPtlcs_split rfl,append_nil]
  have hafter (left : Channel) (hptlcs : left.ptlcs = ch.ptlcs) :
      ({ left with
        ptlcs := ch.ptlcs ++ [new]
        ptlcsCap := channelGrownPtlcsCap ch
        nextPtlcId := ch.nextPtlcId+1 } : Channel).book = left.book.hold new.escrow := by
    have hnew : heldHtlcs left.htlcs + heldPtlcs (ch.ptlcs ++ [new]) =
        new.escrow ::ₘ left.book.held := by
      rw [hheld,Multiset.add_cons,← hptlcs]
      rfl
    exact congrArg (fun held => Book.mk left.book.mine left.book.theirs held) hnew
  unfold chargePtlc
  split_ifs with hpos
  · let left := (ch.debit dir.offerer amountSats).debit ch.funder ch.perEntryFee
    have hfee : new.escrow.fee = ch.perEntryFee.toNat :=
      congrArg toNat (if_pos hpos)
    have hbefore : ch.book =
        (left.book.credit ch.funder new.escrow.fee).credit dir.offerer new.escrow.amount := by
      rw [hfee]
      exact (book_debit (funds_of_fits hfits (h.funds hpos))).trans
        (congrArg (Book.credit · dir.offerer amountSats.toNat) (book_debit (h.fee hpos)))
    rw [hafter left ((ptlcs_withBalance _ _ _).trans (ptlcs_withBalance _ _ _)),
      hbefore,Book.credit_swap]
    exact Move.lock left.book dir.offerer ch.funder new.escrow
  · have hamount : new.escrow.amount = 0 :=
      congrArg UInt64.toNat (UInt64.le_zero_iff.mp (UInt64.not_lt.mp hpos))
    have hfee : new.escrow.fee = 0 := congrArg toNat (if_neg hpos)
    rw [hafter ch rfl]
    have hlock := Move.lock ch.book dir.offerer ch.funder new.escrow
    simp only [hamount,hfee,Book.credit_zero] at hlock
    exact hlock

def FeesBacked (ch : Channel) : Prop :=
  ∀ p ∈ ch.ptlcs, p.isActive = true → p.amountSats = 0 → p.feeAtAdd = 0

theorem closePtlc_moves (hclosed : PtlcClosed ch ch') (hfees : FeesBacked ch)
    (htotal : ch.book.total < 2^64) : Move ch.book ch'.book := by
  obtain ⟨before,after,p,closed,payee,hsplit,hactive,hinactive⟩ := hclosed
  let rest := ch.setPtlcs (before ++ closed :: after)
  have hbefore : ch.book = rest.book.hold p.escrow := by
    have hheld : ch.book.held = p.escrow ::ₘ rest.book.held := by
      change heldHtlcs ch.htlcs + heldPtlcs ch.ptlcs =
        p.escrow ::ₘ (heldHtlcs ch.htlcs + heldPtlcs (before ++ closed :: after))
      rw [hsplit,heldPtlcs_split hactive,heldPtlcs_inactive hinactive,Multiset.add_cons]
    exact congrArg (fun held => Book.mk ch.book.mine ch.book.theirs held) hheld
  have hafter : (ch.withoutPtlc p payee (before ++ closed :: after)).book =
      (rest.book.credit payee p.escrow.amount).credit ch.funder p.escrow.fee := by
    unfold withoutPtlc
    split_ifs with hpos
    · have hsame : ((ch.credit payee p.amountSats).credit ch.funder p.feeAtAdd).setPtlcs
          (before ++ closed :: after) =
          (rest.credit payee p.amountSats).credit rest.funder p.feeAtAdd := by
        cases payee <;> cases hf : ch.funderIsLocal <;>
          simp [rest,credit,setPtlcs,withBalance,balance,funder,hf]
      rw [hsame]
      exact book_release rfl rfl (hbefore ▸ htotal)
    · have hzero := UInt64.le_zero_iff.mp (UInt64.not_lt.mp hpos)
      have hamount : p.escrow.amount = 0 := congrArg toNat hzero
      have hfee : p.escrow.fee = 0 :=
        congrArg toNat (hfees p (by rw [hsplit]; simp) hactive hzero)
      rw [hamount,hfee,Book.credit_zero,Book.credit_zero]
  rw [hafter,hbefore]
  exact Move.release rest.book payee ch.funder p.escrow

theorem ChannelMove.ptlc_cases {allowed : UInt64 → Prop} (hmove : ChannelMove allowed ch ch')
    {p : Ptlc} (hp : p ∈ ch'.ptlcs) (hactive : p.isActive = true) : p ∈ ch.ptlcs ∨
      ∃ dir point cltvExpiry, p = newPtlc dir p.amountSats point cltvExpiry ch ∧
        allowed p.amountSats := by
  have hsame (next : Channel) (draw : PcsDraw) (hptlcs : next.ptlcs = ch.ptlcs)
      (hp : p ∈ (next.nextCommitment draw).ptlcs) : p ∈ ch.ptlcs := by
    obtain ⟨pcs,count,heq⟩ := next.nextCommitment_eq draw
    rw [heq] at hp
    exact hptlcs ▸ hp
  cases hmove with
  | idle => exact .inl hp
  | addHtlc _ _ _ _ draw =>
    refine .inl (hsame _ draw ?_ hp)
    exact (ptlcs_withBalance _ _ _).trans (ptlcs_withBalance _ _ _)
  | closeHtlc _ _ _ _ draw =>
    refine .inl (hsame _ draw ?_ hp)
    exact (ptlcs_credit _ _ _).trans (ptlcs_credit _ _ _)
  | update deltaSats draw => exact .inl (hsame (ch.moved deltaSats) draw rfl hp)
  | addPtlc _ dir _ point cltvExpiry _ bounded =>
    rcases mem_append.mp hp with hold | hnew
    · exact .inl hold
    · obtain rfl := mem_singleton.mp hnew
      exact .inr ⟨dir,point,cltvExpiry,rfl,bounded⟩
  | closePtlc _ closed =>
    obtain ⟨before,after,q,closed,payee,hsplit,-,hinactive⟩ := closed
    rw [hsplit]
    rcases mem_append.mp hp with hleft | hright
    · exact .inl (mem_append_left _ hleft)
    · rcases mem_cons.mp hright with heq | hlater
      · rw [heq,hinactive] at hactive
        cases hactive
      · exact .inl (mem_append_right _ (.tail _ hlater))

theorem FeesBacked.move {allowed : UInt64 → Prop} (hmove : ChannelMove allowed ch ch')
    (hfees : FeesBacked ch) : FeesBacked ch' := by
  intro p hp hactive hzero
  rcases hmove.ptlc_cases hp hactive with hold | ⟨dir,point,cltvExpiry,hnew,-⟩
  · exact hfees p hold hactive hzero
  · rw [hnew]
    exact if_neg (by rw [hzero]; decide)

theorem move_books (hmove : ChannelMove ptlcReserveFits ch ch') (hfees : FeesBacked ch)
    (htotal : ch.book.total < 2^64) : Moves ch.book ch'.book := by
  cases hmove with
  | idle => exact .refl
  | addHtlc _ _ paymentHash cltvExpiry _ accepted =>
    rw [book_nextCommitment]
    exact .single (withHtlc_moves paymentHash cltvExpiry accepted)
  | closeHtlc _ _ _ payee _ split active =>
    rw [book_nextCommitment]
    exact .single (withoutHtlc_moves payee split active htotal)
  | update _ _ pays isPaid =>
    rw [book_nextCommitment]
    exact moved_moves pays isPaid htotal
  | addPtlc _ _ _ _ cltvExpiry accepted bounded =>
    exact .single (addPtlc_moves cltvExpiry accepted bounded)
  | closePtlc _ closed => exact .single (closePtlc_moves closed hfees htotal)

theorem moves_books (hmoves : ChannelMoves ptlcReserveFits ch ch') (hfees : FeesBacked ch)
    (htotal : ch.book.total < 2^64) : FeesBacked ch' ∧ Moves ch.book ch'.book := by
  induction hmoves with
  | refl => exact ⟨hfees,.refl⟩
  | tail _ hlast ih =>
    have hmid : _ < 2^64 := ih.2.total ▸ htotal
    exact ⟨ih.1.move hlast,ih.2.trans (move_books hlast ih.1 hmid)⟩

end

section

variable {m : Musig} {p : ChannelParams} {alloc : Bool} {draw0 draw1 : PcsDraw} {ch : Channel}

instance (amountSats : UInt64) : Decidable (ptlcReserveFits amountSats) :=
  inferInstanceAs (Decidable (_ < _))

theorem ptlcReserveFits_zero : ptlcReserveFits 0 := by decide

def channelCalls (secp : Secp) (allowed : UInt64 → Prop) : Channel → Channel → Prop :=
  Runs.Reaches (channelStep secp) (fun _ op => op.Allowed allowed)

structure FreshChannel (p : ChannelParams) (ch : Channel) : Prop where
  localAmount : ch.localAmount = p.localAmount
  remoteAmount : ch.remoteAmount = p.remoteAmount
  htlcs : ch.htlcs = []
  ptlcs : ch.ptlcs = []
  commitmentNumber : ch.commitmentNumber = 0
  nLocalPcs : ch.nLocalPcs ≤ 2

theorem FreshChannel.generate {k : UInt64} {draw : PcsDraw} (h : FreshChannel p ch)
    (hk : (k+1).toNat ≤ 2) : FreshChannel p (channelGenerateLocalPcs k draw ch) := by
  obtain ⟨pcs,count,hcount,heq⟩ := generate_eq k draw ch
  rw [heq]
  exact ⟨h.localAmount,h.remoteAmount,h.htlcs,h.ptlcs,h.commitmentNumber,
    hcount.trans (max_le h.nLocalPcs hk)⟩

theorem channelInit_fresh (h : channelInit m p alloc draw0 draw1 = some ch) :
    FreshChannel p ch := by
  cases alloc with
  | false => cases h
  | true =>
    obtain ⟨keypair,-,h⟩ := Option.bind_eq_some_iff.mp h
    obtain ⟨⟨keyagg,signerIdx⟩,-,h⟩ := Option.bind_eq_some_iff.mp h
    obtain rfl := Option.some.inj h
    exact (FreshChannel.generate ⟨rfl,rfl,rfl,rfl,rfl,Nat.zero_le 2⟩ (by decide)).generate
      (by decide)

theorem configure_book (setup : ChannelSetup) (h : channelInit m p alloc draw0 draw1 = some ch) :
    (ch.configure setup).book = ⟨p.localAmount.toNat,p.remoteAmount.toNat,0⟩ := by
  have hfresh := channelInit_fresh h
  change Book.mk ch.localAmount.toNat ch.remoteAmount.toNat
    (heldHtlcs ch.htlcs + heldPtlcs ch.ptlcs) = _
  rw [hfresh.localAmount,hfresh.remoteAmount,hfresh.htlcs,hfresh.ptlcs]
  rfl

structure Channel.SameFunds (ch ch' : Channel) : Prop where
  localAmount : ch'.localAmount = ch.localAmount
  remoteAmount : ch'.remoteAmount = ch.remoteAmount
  htlcs : ch'.htlcs = ch.htlcs
  ptlcs : ch'.ptlcs = ch.ptlcs
  commitmentNumber : ch'.commitmentNumber = ch.commitmentNumber

variable {secp : Secp}

theorem step_value {op : ChannelOp} (hop : op.Allowed ptlcReserveFits) (hfees : FeesBacked ch)
    (htotal : ch.book.total < 2^64) :
    FeesBacked (channelStep secp ch op) ∧ Moves ch.book (channelStep secp ch op).book :=
  moves_books (call_moves op ptlcReserveFits_zero hop) hfees htotal

theorem run_value {ch' : Channel} (hrun : channelCalls secp ptlcReserveFits ch ch')
    (hfees : FeesBacked ch) (htotal : ch.book.total < 2^64) :
    FeesBacked ch' ∧ ch'.book.total = ch.book.total := by
  refine Runs.Reaches.invariant (I := fun s => FeesBacked s ∧ s.book.total = ch.book.total)
    (fun s op hs hop => ?_) hrun ⟨hfees,rfl⟩
  obtain ⟨hbacked,hmoves⟩ := step_value hop hs.1 (hs.2 ▸ htotal)
  exact ⟨hbacked,hmoves.total.trans hs.2⟩

theorem channel_value_conserved (m : Musig) (p : ChannelParams) (alloc : Bool)
    (draw0 draw1 : PcsDraw) (opened : Channel) (setup : ChannelSetup) (ch : Channel)
    (hinit : channelInit m p alloc draw0 draw1 = some opened)
    (hfunds : p.localAmount.toNat + p.remoteAmount.toNat < 2^64)
    (hrun : channelCalls m.toSecp ptlcReserveFits (opened.configure setup) ch) :
    ch.book.total = p.localAmount.toNat + p.remoteAmount.toNat ∧
      ∀ op : ChannelOp,
        (op.Allowed ptlcReserveFits → Moves ch.book (channelStep m.toSecp ch op).book) ∧
        ((op.call m.toSecp ch).2 = 0 → ch.SameFunds (channelStep m.toSecp ch op)) := by
  have hstart : (opened.configure setup).book.total =
      p.localAmount.toNat + p.remoteAmount.toNat := by
    rw [configure_book setup hinit]
    rfl
  have hnone : FeesBacked (opened.configure setup) := by
    intro q hq
    have hptlcs : (opened.configure setup).ptlcs = [] := (channelInit_fresh hinit).ptlcs
    rw [hptlcs] at hq
    cases hq
  obtain ⟨hfees,htotal⟩ := run_value hrun hnone (hstart ▸ hfunds)
  rw [hstart] at htotal
  refine ⟨htotal,fun op => ⟨fun hop => (step_value hop hfees (htotal ▸ hfunds)).2,fun hzero => ?_⟩⟩
  obtain ⟨cap,height,heq⟩ := call_zero op hzero
  rw [heq]
  exact ⟨rfl,rfl,rfl,rfl,rfl⟩

end

def sampleParams : ChannelParams :=
  { localFundingSecret := Blob.zero 32
    localFundingPubkey := Blob.zero 64
    remoteFundingPubkey := Blob.zero 64
    fundingTxid := Blob.zero 32
    fundingVout := 0
    fundingAmount := 1020000
    fundingSpk := []
    localAmount := 10000
    remoteAmount := 1000000
    toSelfDelay := 144 }

def sampleSetup : ChannelSetup :=
  { localPaymentBasepoint := Blob.zero 64
    localDelayedPaymentBasepoint := Blob.zero 64
    localRevocationBasepoint := Blob.zero 64
    localHtlcBasepoint := Blob.zero 64
    remotePaymentBasepoint := Blob.zero 64
    remoteDelayedPaymentBasepoint := Blob.zero 64
    remoteRevocationBasepoint := Blob.zero 64
    remoteHtlcBasepoint := Blob.zero 64
    remotePcp0 := none
    remotePcp1 := none
    funderIsLocal := false
    useRevocationLeaf := false
    localNoncePool := MusigNoncePool.empty
    remotePubnoncesSer := []
    remoteNonceCount := 0
    chanMerkleRoot := none
    fundingPendingReorg := false }

def sampleDraw : PcsDraw := ⟨true,some (Blob.zero 32)⟩

def sampleChannel : Option Channel :=
  (channelInit Musig.sample sampleParams true sampleDraw sampleDraw).map
    (configure · sampleSetup)

theorem sampleChannel_some {ch : Channel} (h : ch ∈ sampleChannel) : ∃ opened,
    channelInit Musig.sample sampleParams true sampleDraw sampleDraw = some opened ∧
      opened.configure sampleSetup = ch :=
  Option.map_eq_some_iff.mp h

def usualCalls : List ChannelOp :=
  [.addHtlc .received 50000 (Blob.zero 32) 500 true sampleDraw,
    .addPtlc true .received 20000 none 500 true,.failHtlc 0 sampleDraw,
    .settlePtlc 0 none,.update 4000 sampleDraw]

theorem channel_value_conserved_usualCalls : ∃ opened ch,
    channelInit Musig.sample sampleParams true sampleDraw sampleDraw = some opened ∧
      channelCalls Musig.sample.toSecp ptlcReserveFits (opened.configure sampleSetup) ch ∧
      ch.localAmount = 26000 ∧ ch.book.total = 1010000 := by
  obtain ⟨start,hstart,ch,hrun,hlocal⟩ : ∃ start, sampleChannel = some start ∧
      ∃ ch, Runs.play (channelStep Musig.sample.toSecp) (fun _ op => op.Allowed ptlcReserveFits) start
        usualCalls = some ch ∧ ch.localAmount = 26000 := by
    decide +kernel
  obtain ⟨opened,hopened,rfl⟩ := sampleChannel_some hstart
  have hcalls := Runs.reaches_of_play hrun
  refine ⟨opened,ch,hopened,hcalls,hlocal,?_⟩
  exact (channel_value_conserved Musig.sample sampleParams true sampleDraw sampleDraw opened
    sampleSetup ch hopened (by decide) hcalls).1

def hugePtlc : ChannelOp := .addPtlc true .offered 18446744073709551615 none 0 true

theorem channel_value_hugePtlc : ∃ opened,
    channelInit Musig.sample sampleParams true sampleDraw sampleDraw = some opened ∧
      (opened.configure sampleSetup).book.total = 1010000 ∧
      (channelStep Musig.sample.toSecp (opened.configure sampleSetup) hugePtlc).localAmount =
        10001 ∧
      (channelStep Musig.sample.toSecp (opened.configure sampleSetup) hugePtlc).book.total =
        18446744073710561616 := by
  decide +kernel

end SuperScalar
