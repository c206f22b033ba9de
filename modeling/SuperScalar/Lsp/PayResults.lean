import SuperScalar.Lsp.Origins

namespace SuperScalar

open List Option

section

variable {m : Musig} {mgr : LspMgr} {p : Outbound} {r : Round} {msg : PayResultMsg}

def Outbound.Named (p : Outbound) (origins : List HtlcOrigin) : Prop :=
  ∃ (i : ℕ) (o : HtlcOrigin), origins[i]? = some o ∧ o.Names p ∧
    ∀ j : ℕ, (∃ x : HtlcOrigin, origins[j]? = some x ∧ x.active = true ∧
      x.requestId = p.requestId) ↔ j = i

def PayResultMsg.Settles (m : Musig) (msg : PayResultMsg) (p : Outbound) : Prop :=
  msg.success = true → m.sha256 msg.preimage.val = p.paymentHash

structure Resolves (m : Musig) (r : Round) (msg : PayResultMsg) (p : Outbound)
    (mgr : LspMgr) : Prop where
  others : ∀ i, i ≠ p.senderIdx →
    (handlePayResult m r (some msg) mgr).mgr.channel? i = mgr.channel? i
  sender : ∃ ch ch', mgr.channel? p.senderIdx = some ch ∧
    (handlePayResult m r (some msg) mgr).mgr.channel? p.senderIdx = some ch' ∧
    SameFunds (resolveHtlc m r msg p.htlcId ch) ch' ∧
    (∀ x ∈ ch.htlcs, x.isActive = true → x.id = p.htlcId →
      x.paymentHash = p.paymentHash ∧ x.direction = .received) ∧
    ∀ x : Htlc, x.isActive = true →
      (x ∈ ch'.htlcs ↔ x ∈ ch.htlcs ∧ ¬ (msg.Settles m p ∧ x.id = p.htlcId))
  told : ∃ ch', (handlePayResult m r (some msg) mgr).actions =
    [.send p.senderIdx (msg.update p.htlcId),savedBalance p.senderIdx ch',
      .deleteHtlc p.senderIdx p.htlcId]

theorem Recorded.named {origins : List HtlcOrigin} (h : Recorded p origins) : p.Named origins := by
  obtain ⟨i,o,hi,hactive,hnames,-,hunique⟩ := h
  refine ⟨i,o,hi,hnames,fun j => ⟨?_,?_⟩⟩
  · rintro ⟨x,hx,-,hid⟩
    exact hunique j x hx hid
  · rintro rfl
    exact ⟨o,hi,hactive,hnames.request⟩

theorem exists_htlcAt {ch : Channel} {x : Htlc} (hx : x ∈ ch.htlcs) (hactive : x.isActive = true) :
    ∃ before h after, HtlcAt ch x.id before h after := by
  cases hfind : findActive x.id ch.htlcs with
  | none => exact absurd ⟨rfl,hactive⟩ (findActive_none.mp hfind x hx)
  | some found =>
    obtain ⟨before,after,hsplit,-,hid,hact,hfirst⟩ := findActive_some hfind
    exact ⟨before,found.2,after,hsplit,hid,hact,hfirst⟩

theorem mem_removed {ch : Channel} {id : UInt64} {before after : List Htlc} {h x : Htlc}
    (hok : IdsOk ch) (hat : HtlcAt ch id before h after) (hactive : x.isActive = true) :
    x ∈ (before++after).filter Htlc.isActive ↔ x ∈ ch.htlcs ∧ x.id ≠ id := by
  have hdistinct := hok.distinct
  rw [hat.split,filter_append,filter_cons,hat.active,if_pos rfl,
    pairwise_middle (fun hne => Ne.symm hne),pairwise_cons,← filter_append]
    at hdistinct
  have hsplit : x ∈ ch.htlcs ↔ x = h ∨ x ∈ before ++ after := by
    rw [hat.split]
    simp only [mem_append,mem_cons]
    tauto
  constructor
  · intro hx
    refine ⟨hsplit.mpr (.inr (mem_filter.mp hx).1),fun hid => ?_⟩
    exact hdistinct.1 x hx (hat.named.trans hid.symm)
  · rintro ⟨hx,hid⟩
    refine mem_filter.mpr ⟨(hsplit.mp hx).resolve_left fun heq => hid ?_,hactive⟩
    rw [heq]
    exact hat.named

theorem mem_resolved {ch : Channel} {x : Htlc} (hok : IdsOk ch) (hheld : p.Held ch)
    (hactive : x.isActive = true) :
    x ∈ (resolveHtlc m r msg p.htlcId ch).htlcs ↔
      x ∈ ch.htlcs ∧ ¬ (msg.Settles m p ∧ x.id = p.htlcId) := by
  have hgone {before after : List Htlc} {h : Htlc} {payee : Ledger.Side}
      (hat : HtlcAt ch p.htlcId before h after) (hsettles : msg.Settles m p) :
      x ∈ ((ch.withoutHtlc h payee (before++after)).nextCommitment r.draw).htlcs ↔
        x ∈ ch.htlcs ∧ ¬ (msg.Settles m p ∧ x.id = p.htlcId) := by
    rw [htlcs_withoutHtlc,mem_removed hok hat hactive]
    exact and_congr_right fun _ => ⟨fun hne h => hne h.2,fun hne hid => hne ⟨hsettles,hid⟩⟩
  have hmem {before after : List Htlc} {h : Htlc} (hat : HtlcAt ch p.htlcId before h after) :
      h ∈ ch.htlcs := by
    rw [hat.split]
    exact mem_append_right _ mem_cons_self
  unfold resolveHtlc
  split_ifs with hsuccess
  · rcases channelFulfillHtlc_cases m.toSecp p.htlcId msg.preimage r.draw ch with
      ⟨heq,hnot⟩ | ⟨before,h,after,hat,hhash,heq⟩
    · rw [heq]
      refine ⟨fun hx => ⟨hx,?_⟩,fun hx => hx.1⟩
      rintro ⟨hsettles,hid⟩
      obtain ⟨before,h,after,hat⟩ := exists_htlcAt hx hactive
      rw [hid] at hat
      refine hnot before h after hat ((hsettles hsuccess).trans ?_)
      exact (hheld.2 h (hmem hat) hat.active hat.named).1.symm
    · rw [heq]
      refine hgone hat fun _ => hhash.trans ?_
      exact (hheld.2 h (hmem hat) hat.active hat.named).1
  · have hsettles : msg.Settles m p := fun h => absurd h hsuccess
    rcases channelFailHtlc_cases p.htlcId r.draw ch with
      ⟨hnone,heq⟩ | ⟨before,h,after,hat,heq⟩
    · rw [heq]
      refine ⟨fun hx => ⟨hx,fun hboth => ?_⟩,fun hx => hx.1⟩
      exact findActive_none.mp hnone x hx ⟨hboth.2,hactive⟩
    · rw [heq]
      exact hgone hat hsettles

theorem handlePayResult_recorded {ch : Channel} (h : Recorded p mgr.htlcOrigins)
    (hch : mgr.channel? p.senderIdx = some ch) (hid : msg.requestId = p.requestId) :
    ∃ i, handlePayResult m r (some msg) mgr =
      ⟨(releaseOrigin i mgr).setChannel p.senderIdx
          (settlePayment m r msg p.senderIdx p.htlcId ch).1,
        (settlePayment m r msg p.senderIdx p.htlcId ch).2,true⟩ := by
  obtain ⟨i,o,hi,hactive,hnames,-,hunique⟩ := h
  have hfind : mgr.htlcOrigins.findIdx?
      (fun o => o.active && o.requestId = msg.requestId) = some i := by
    refine Lists.findIdx_some_iff.mpr ⟨⟨o,hi,?_⟩,fun j x hj hx => ?_⟩
    · rw [hactive,hid,hnames.request,decide_eq_true rfl,Bool.and_self]
    · refine Bool.eq_false_iff.mpr fun hboth => ?_
      have hrequest := of_decide_eq_true (Bool.and_eq_true_iff.mp hboth).2
      exact hj.ne (hunique j x hx (hrequest.trans hid))
  refine ⟨i,?_⟩
  unfold handlePayResult
  dsimp only
  rw [hfind]
  dsimp only
  rw [hi,bind_some,hnames.sender,hch,map_some,← hnames.sender,← hnames.htlc]

theorem Outbound.Followed.resolves (h : p.Followed mgr) (hok : MgrOk mgr)
    (hid : msg.requestId = p.requestId) : Resolves m r msg p mgr := by
  obtain ⟨ch,hch,hheld⟩ := h.held
  obtain ⟨i,heq⟩ := handlePayResult_recorded h.recorded hch hid
  have hfunds := settlePayment_sameFunds (m := m) (r := r) msg p.senderIdx p.htlcId ch
  refine ⟨fun j hj => ?_,⟨ch,_,hch,?_,hfunds,hheld.2,fun x hx => ?_⟩,?_⟩
  · rw [heq]
    exact channel_setChannel_other (Ne.symm hj)
  · rw [heq]
    exact channel_setChannel_self hch
  · rw [hfunds.htlcs]
    exact mem_resolved (hok.channels _ ch hch) hheld hx
  · rw [heq]
    exact ⟨_,rfl⟩

def SendersKept (mgr mgr' : LspMgr) : Prop :=
  ∀ (i : ℕ) (o : HtlcOrigin), mgr.htlcOrigins[i]? = some o → o.active = true →
    ∃ o' : HtlcOrigin, mgr'.htlcOrigins[i]? = some o' ∧ o'.senderIdx = o.senderIdx ∧
      o'.senderHtlcId = o.senderHtlcId

end

def bridgeStart : BridgeRun :=
  ⟨{ LspMgr.sample [lspChannel,lspChannel,lspChannel] with bridgeConnected := true },[]⟩

def hashOf (n : UInt8) : Blob 32 := Blob.fill 32 n

def invoiceOp (clientIdx : ℕ) (paymentHash : Blob 32) : BridgeOp :=
  .client ⟨timedFactory,clientIdx,.updateAddHtlc ⟨goodRound,goodRound,true,true⟩
    (some ⟨0,20000000,paymentHash,500,none,some "lnbc"⟩)⟩

def failedOp (requestId : UInt64) : BridgeOp :=
  .bridge timedFactory (.payResult goodRound (some ⟨requestId,false,Blob.zero 32⟩))

theorem bridgeStart_ok : MgrOk bridgeStart.mgr := by
  have hok : IdsOk lspChannel := ⟨fun h hh => absurd hh not_mem_nil,Pairwise.nil⟩
  refine ⟨fun i ch hch => ?_,fun j o ho => absurd ho (by simp [bridgeStart,LspMgr.sample]),
    by decide⟩
  match i with
  | 0 => exact some.inj hch ▸ hok
  | 1 => exact some.inj hch ▸ hok
  | 2 => exact some.inj hch ▸ hok
  | i+3 => cases hch

theorem invoiceOp_allowed : BridgeGuard Musig.sample bridgeStart (invoiceOp 0 (hashOf 1)) := by
  refine ⟨⟨fun i ch hch => ?_,by decide⟩,fun _ _ _ _ _ => ⟨0,rfl,Nat.zero_le _⟩⟩
  have hleft : IdsLeft lspChannel := by decide
  match i with
  | 0 => exact some.inj hch ▸ hleft
  | 1 => exact some.inj hch ▸ hleft
  | 2 => exact some.inj hch ▸ hleft
  | i+3 => cases hch

def resolvedOnce : BridgeRun :=
  [invoiceOp 0 (hashOf 1),invoiceOp 1 (hashOf 2),failedOp 1].foldl (bridgeStep Musig.sample)
    bridgeStart

def crowded : BridgeRun := bridgeStep Musig.sample resolvedOnce (invoiceOp 2 (hashOf 3))

end SuperScalar
