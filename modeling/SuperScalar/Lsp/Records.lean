import SuperScalar.Foundation.Lists
import SuperScalar.Lsp.Bridge
import SuperScalar.Lsp.Hub

namespace SuperScalar

open List

section

variable {ch ch' ch'' : Channel} {m : Musig}

structure IdsOk (ch : Channel) : Prop where
  below : ∀ h ∈ ch.htlcs, h.isActive = true → h.id < ch.nextHtlcId
  distinct : (ch.htlcs.filter Htlc.isActive).Pairwise (fun x y => x.id ≠ y.id)

structure Thinned (ch ch' : Channel) : Prop where
  sublist : ch'.htlcs.Sublist ch.htlcs
  next : ch'.nextHtlcId = ch.nextHtlcId

theorem Thinned.refl (ch : Channel) : Thinned ch ch := ⟨Sublist.refl _,rfl⟩

theorem Thinned.trans (h : Thinned ch ch') (h' : Thinned ch' ch'') : Thinned ch ch'' :=
  ⟨h'.sublist.trans h.sublist,h'.next.trans h.next⟩

theorem SameFunds.thinned (h : SameFunds ch ch') : Thinned ch ch' :=
  ⟨by rw [h.htlcs],h.nextHtlcId⟩

theorem Recapped.thinned (h : Recapped ch ch') : Thinned ch ch' := by
  obtain ⟨cap,rfl⟩ := h
  exact ⟨Sublist.refl _,rfl⟩

theorem withoutHtlc_thinned {h : Htlc} {before after : List Htlc} (payee : Ledger.Side)
    (draw : PcsDraw) (hsplit : ch.htlcs = before ++ h :: after) :
    Thinned ch ((ch.withoutHtlc h payee (before++after)).nextCommitment draw) := by
  refine ⟨?_,?_⟩
  · rw [htlcs_withoutHtlc,hsplit]
    exact (filter_sublist).trans
      ((Sublist.refl before).append (sublist_cons_self h after))
  · rw [(nextCommitment_sameHtlcs _ draw).nextHtlcId]
    unfold Channel.withoutHtlc
    cases payee <;> cases hf : ch.funder <;> rfl

theorem failHtlc_thinned (id : UInt64) (draw : PcsDraw) (ch : Channel) :
    Thinned ch (channelFailHtlc id draw ch).1 := by
  rcases channelFailHtlc_cases id draw ch with ⟨-,heq⟩ | ⟨before,h,after,hat,heq⟩
  · rw [heq]
    exact .refl ch
  · rw [heq]
    exact withoutHtlc_thinned _ draw hat.split

theorem fulfillHtlc_thinned (secp : Secp) (id : UInt64) (preimage : Blob 32) (draw : PcsDraw)
    (ch : Channel) : Thinned ch (channelFulfillHtlc secp id preimage draw ch).1 := by
  rcases channelFulfillHtlc_cases secp id preimage draw ch with
    ⟨heq,-⟩ | ⟨before,h,after,hat,-,heq⟩
  · rw [heq]
    exact .refl ch
  · rw [heq]
    exact withoutHtlc_thinned _ draw hat.split

theorem PaidOut.thinned {preimage : Blob 32} {id : UInt64} {before after : List Htlc} {h : Htlc}
    (hpaid : PaidOut m.toSecp preimage id before h after ch ch') : Thinned ch ch' := by
  obtain ⟨draw,heffect⟩ := hpaid.effect
  exact (withoutHtlc_thinned _ draw hpaid.entry.split).trans heffect.thinned

theorem claims_thinned {preimage : Blob 32}
    (h : Relation.ReflTransGen (Claims m.toSecp preimage) ch ch') : Thinned ch ch' := by
  induction h with
  | refl => exact .refl ch
  | tail _ hlast ih =>
    obtain ⟨id,before,h,after,hpaid⟩ := hlast
    exact ih.trans hpaid.thinned

theorem timeoutLoop_thinned (height : UInt32) (draws : ℕ → PcsDraw) (fuel i failed : ℕ)
    (ch : Channel) : Thinned ch (timeoutLoop height draws fuel i failed ch).1 := by
  induction fuel generalizing i failed ch with
  | zero => exact .refl ch
  | succ _ ih =>
    rw [timeoutLoop]
    cases ch.htlcs[i]? with
    | none => exact .refl ch
    | some h =>
      dsimp only
      split_ifs
      · exact (failHtlc_thinned h.id (draws i) ch).trans (ih _ _ _)
      · exact ih _ _ _

theorem timeouts_thinned (height : UInt32) (draws : ℕ → PcsDraw) (ch : Channel) :
    Thinned ch (channelCheckHtlcTimeouts height draws ch).1 := by
  unfold channelCheckHtlcTimeouts
  split_ifs
  · exact .refl ch
  · have hloop := timeoutLoop_thinned height draws ch.htlcs.length 0 0
      { ch with lastHtlcCheckHeight := height }
    exact ⟨hloop.sublist,hloop.next⟩

structure Entered (ch ch' : Channel) (g : Htlc) : Prop where
  appended : ch'.htlcs = ch.htlcs ++ [g]
  active : g.isActive = true
  id : g.id = ch.nextHtlcId
  next : ch'.nextHtlcId = ch.nextHtlcId+1

theorem Added.entered {direction : HtlcDirection} {amountSats : UInt64} {paymentHash : Blob 32}
    {cltvExpiry : UInt32} (h : Added direction amountSats paymentHash cltvExpiry ch ch') :
    Entered ch ch' (newHtlc direction amountSats paymentHash cltvExpiry ch) := by
  have happended := h.appended
  obtain ⟨cap,draw,heffect⟩ := h.effect
  refine ⟨happended,rfl,rfl,?_⟩
  rw [heffect.nextHtlcId,(nextCommitment_sameHtlcs _ draw).nextHtlcId]
  rfl

inductive Turnover (ch ch' : Channel) : Prop
  | thinned (h : Thinned ch ch')
  | entered (mid : Channel) (g : Htlc) (h : Entered ch mid g) (h' : Thinned mid ch')

theorem IdsOk.thinned (hok : IdsOk ch) (h : Thinned ch ch') : IdsOk ch' := by
  refine ⟨fun x hx hactive => ?_,hok.distinct.sublist (h.sublist.filter _)⟩
  rw [h.next]
  exact hok.below x (h.sublist.subset hx) hactive

theorem next_lt (hleft : IdsLeft ch) : ch.nextHtlcId < ch.nextHtlcId+1 := by
  rw [UInt64.lt_iff_toNat_lt,UInt64.toNat_add]
  have hsum := Nat.mod_eq_of_lt hleft
  rw [show (1 : UInt64).toNat = 1 from rfl,hsum]
  exact Nat.lt_succ_self _

theorem IdsOk.entered {g : Htlc} (hok : IdsOk ch) (hleft : IdsLeft ch) (h : Entered ch ch' g) :
    IdsOk ch' := by
  refine ⟨fun x hx hactive => ?_,?_⟩
  · rw [h.appended,mem_append,mem_singleton] at hx
    rw [h.next]
    rcases hx with hx | rfl
    · exact UInt64.lt_trans (hok.below x hx hactive) (next_lt hleft)
    · rw [h.id]
      exact next_lt hleft
  · rw [h.appended,filter_append,filter_cons,h.active,if_pos rfl,filter_nil,pairwise_append]
    refine ⟨hok.distinct,pairwise_singleton _ _,fun x hx y hy heq => ?_⟩
    obtain ⟨hmem,hactive⟩ := mem_filter.mp hx
    have hlt := hok.below x hmem hactive
    rw [heq,mem_singleton.mp hy,h.id] at hlt
    exact UInt64.lt_irrefl _ hlt

theorem IdsOk.turnover (hok : IdsOk ch) (hleft : IdsLeft ch) (h : Turnover ch ch') : IdsOk ch' := by
  cases h with
  | thinned h => exact hok.thinned h
  | entered _ _ h h' => exact (hok.entered hleft h).thinned h'

end

section

structure Outbound where
  requestId : UInt64
  senderIdx : ℕ
  htlcId : UInt64
  paymentHash : Blob 32
deriving DecidableEq

structure HtlcOrigin.Names (o : HtlcOrigin) (p : Outbound) : Prop where
  request : o.requestId = p.requestId
  sender : o.senderIdx = p.senderIdx
  htlc : o.senderHtlcId = p.htlcId
  hash : o.paymentHash = p.paymentHash

def Recorded (p : Outbound) (origins : List HtlcOrigin) : Prop :=
  ∃ (i : ℕ) (o : HtlcOrigin), origins[i]? = some o ∧ o.active = true ∧ o.Names p ∧
    o.cltvExpiry = 0 ∧ ∀ (j : ℕ) (o' : HtlcOrigin), origins[j]? = some o' →
      o'.requestId = p.requestId → j = i

def Outbound.Held (p : Outbound) (ch : Channel) : Prop :=
  p.htlcId < ch.nextHtlcId ∧ ∀ x ∈ ch.htlcs, x.isActive = true → x.id = p.htlcId →
    x.paymentHash = p.paymentHash ∧ x.direction = .received

variable {p : Outbound} {ch ch' : Channel}

theorem Outbound.Held.thinned (h : p.Held ch) (hthinned : Thinned ch ch') : p.Held ch' := by
  refine ⟨?_,fun x hx => h.2 x (hthinned.sublist.subset hx)⟩
  rw [hthinned.next]
  exact h.1

theorem Outbound.Held.entered {g : Htlc} (h : p.Held ch) (hleft : IdsLeft ch)
    (hentered : Entered ch ch' g) : p.Held ch' := by
  refine ⟨?_,fun x hx hactive hid => ?_⟩
  · rw [hentered.next]
    exact UInt64.lt_trans h.1 (next_lt hleft)
  · rw [hentered.appended,mem_append,mem_singleton] at hx
    rcases hx with hx | rfl
    · exact h.2 x hx hactive hid
    · have hlt := h.1
      rw [← hid,hentered.id] at hlt
      exact absurd hlt (UInt64.lt_irrefl _)

theorem Outbound.Held.turnover (h : p.Held ch) (hleft : IdsLeft ch) (hturn : Turnover ch ch') :
    p.Held ch' := by
  cases hturn with
  | thinned hthinned => exact h.thinned hthinned
  | entered _ _ hentered hthinned => exact (h.entered hleft hentered).thinned hthinned

theorem Entered.held {g : Htlc} (hok : IdsOk ch) (hleft : IdsLeft ch) (h : Entered ch ch' g)
    (hid : p.htlcId = ch.nextHtlcId) (hhash : g.paymentHash = p.paymentHash)
    (hreceived : g.direction = .received) : p.Held ch' := by
  refine ⟨?_,fun x hx hactive hx' => ?_⟩
  · rw [h.next,hid]
    exact next_lt hleft
  · rw [h.appended,mem_append,mem_singleton] at hx
    rcases hx with hx | rfl
    · have hlt := hok.below x hx hactive
      rw [hx',hid] at hlt
      exact absurd hlt (UInt64.lt_irrefl _)
    · exact ⟨hhash,hreceived⟩

end

section

variable (payments : List Outbound)

def HtlcOrigin.Spared (o : HtlcOrigin) : Prop :=
  o.cltvExpiry = 0 ∧ ∃ p ∈ payments, o.requestId = p.requestId

def HtlcOrigin.released (o : HtlcOrigin) : HtlcOrigin := { o with active := false }

inductive SlotRelease : Option HtlcOrigin → Option HtlcOrigin → Prop
  | same (a : Option HtlcOrigin) : SlotRelease a a
  | released (o : HtlcOrigin) (h : ¬ o.Spared payments) : SlotRelease (some o) (some o.released)

-- A record is made in a slot that is free or new, under an id it had or a `new` one.
inductive SlotMove (new : UInt64 → Prop) : Option HtlcOrigin → Option HtlcOrigin → Prop
  | release (a b : Option HtlcOrigin) (h : SlotRelease payments a b) : SlotMove new a b
  | record (a : Option HtlcOrigin) (o : HtlcOrigin) (hfree : ∀ x, a = some x → x.active = false)
      (hid : new o.requestId ∨ ∃ x, a = some x ∧ o.requestId = x.requestId) :
      SlotMove new a (some o)

variable {payments} {new : UInt64 → Prop} {a b c : Option HtlcOrigin}
  {xs ys : List HtlcOrigin}

theorem SlotRelease.trans (h : SlotRelease payments a b) (h' : SlotRelease payments b c) :
    SlotRelease payments a c := by
  cases h with
  | same => exact h'
  | released o hnot =>
    cases h' with
    | same => exact .released o hnot
    | released => exact .released o hnot

section

variable (h : SlotMove payments new a b)

include h

theorem SlotMove.mono {new' : UInt64 → Prop}
    (himp : ∀ id, new id → new' id) : SlotMove payments new' a b := by
  cases h with
  | release _ h => exact .release _ _ h
  | record o hfree hid => exact .record _ o hfree (hid.imp_left (himp _))

theorem SlotMove.spared {o : HtlcOrigin} (ha : a = some o)
    (hactive : o.active = true) (hspared : o.Spared payments) : b = some o := by
  cases h with
  | release _ h =>
    cases h with
    | same => exact ha
    | released _ hnot => exact absurd (Option.some.inj ha ▸ hspared) hnot
  | record _ hfree =>
    have hidle := hfree o ha
    rw [hactive] at hidle
    cases hidle

theorem SlotMove.request {o : HtlcOrigin} (hb : b = some o) :
    new o.requestId ∨ ∃ x, a = some x ∧ o.requestId = x.requestId := by
  cases h with
  | release _ h =>
    cases h with
    | same => exact .inr ⟨o,hb,rfl⟩
    | released x =>
      cases hb
      exact .inr ⟨x,rfl,rfl⟩
  | record _ _ hid =>
    cases hb
    exact hid

theorem SlotMove.sender {o : HtlcOrigin} (ha : a = some o)
    (hactive : o.active = true) : ∃ o', b = some o' ∧ o'.senderIdx = o.senderIdx ∧
      o'.senderHtlcId = o.senderHtlcId := by
  cases h with
  | release _ h =>
    cases h with
    | same => exact ⟨o,ha,rfl,rfl⟩
    | released =>
      cases ha
      exact ⟨_,rfl,rfl,rfl⟩
  | record _ hfree =>
    have hidle := hfree o ha
    rw [hactive] at hidle
    cases hidle

end

theorem Recorded.move {p : Outbound} (h : Recorded p xs) (hp : p ∈ payments)
    (hnew : ¬ new p.requestId) (hmove : ∀ j : ℕ, SlotMove payments new xs[j]? ys[j]?) :
    Recorded p ys := by
  obtain ⟨i,o,hi,hactive,hnames,hcltv,hunique⟩ := h
  have hspared : o.Spared payments := ⟨hcltv,p,hp,hnames.request⟩
  refine ⟨i,o,(hmove i).spared hi hactive hspared,hactive,hnames,hcltv,fun j o' hj hid => ?_⟩
  rcases (hmove j).request hj with hissued | ⟨x,hx,heq⟩
  · rw [hid] at hissued
    exact absurd hissued hnew
  · exact hunique j x hx (heq.symm.trans hid)

end

section

def freeSlot (cap : ℕ) (origins : List HtlcOrigin) : Option ℕ :=
  match origins.findIdx? (fun o => !o.active) with
  | some k => some k
  | none => if origins.length ≥ cap then none else some origins.length

def RecordsLast (cap : ℕ) (origins : List HtlcOrigin) : Prop :=
  ∃ k, freeSlot cap origins = some k ∧ origins.length ≤ k+1

def Unshadowed (cap : ℕ) (paymentHash : Blob 32) (origins : List HtlcOrigin) : Prop :=
  ∀ (i : ℕ) (o : HtlcOrigin), origins[i]? = some o → o.active = true →
    o.paymentHash = paymentHash → ∃ k, freeSlot cap origins = some k ∧ k < i

structure Fills (k : ℕ) (o : HtlcOrigin) (xs ys : List HtlcOrigin) : Prop where
  entry : ys[k]? = some o
  others : ∀ j, j ≠ k → ys[j]? = xs[j]?
  free : ∀ x, xs[k]? = some x → x.active = false

variable {paymentHash : Blob 32} {bridgeHtlcId : UInt64} {cap k : ℕ} {o : HtlcOrigin}
  {origins xs ys : List HtlcOrigin} {payments : List Outbound} {new : UInt64 → Prop}

theorem Fills.modify (h : Fills k o xs ys) (change : HtlcOrigin → HtlcOrigin) :
    Fills k (change o) xs (ys.modify k change) := by
  refine ⟨?_,fun j hj => ?_,h.free⟩
  · rw [getElem?_modify_eq,h.entry]
    rfl
  · rw [getElem?_modify_ne _ _ (Ne.symm hj)]
    exact h.others j hj

theorem Fills.moves (h : Fills k o xs ys)
    (hid : new o.requestId ∨ ∃ x, xs[k]? = some x ∧ o.requestId = x.requestId) (j : ℕ) :
    SlotMove payments new xs[j]? ys[j]? := by
  by_cases hj : j = k
  · subst hj
    rw [h.entry]
    exact .record _ o h.free hid
  · rw [h.others j hj]
    exact .release _ _ (.same _)

theorem freeSlot_le (h : freeSlot cap origins = some k) : k ≤ origins.length := by
  unfold freeSlot at h
  split at h
  · rename_i i hi
    cases h
    obtain ⟨⟨x,hx,-⟩,-⟩ := Lists.findIdx_some_iff.mp hi
    exact (List.getElem?_eq_some_iff.mp hx).1.le
  · split_ifs at h
    exact (Option.some.inj h).ge

theorem tracked_full (h : freeSlot cap origins = none) :
    trackedOrigins paymentHash bridgeHtlcId cap origins = origins := by
  unfold freeSlot at h
  unfold trackedOrigins
  cases hfind : origins.findIdx? (fun o => !o.active) with
  | some =>
    rw [hfind] at h
    cases h
  | none =>
    rw [hfind] at h
    split_ifs at h with hfull
    rw [if_pos hfull]

theorem tracked_fills (paymentHash : Blob 32) (bridgeHtlcId : UInt64)
    (h : freeSlot cap origins = some k) :
    (trackedOrigins paymentHash bridgeHtlcId cap origins).length = max origins.length (k+1) ∧
    ∃ o : HtlcOrigin, Fills k o origins (trackedOrigins paymentHash bridgeHtlcId cap origins) ∧
      o.paymentHash = paymentHash ∧ o.active = true ∧ o.cltvExpiry = 0 ∧
      (o.requestId = 0 ∨ ∃ x, origins[k]? = some x ∧ o.requestId = x.requestId) := by
  have hle := freeSlot_le h
  unfold freeSlot at h
  unfold trackedOrigins
  cases hfind : origins.findIdx? (fun o => !o.active) with
  | some =>
    rw [hfind] at h
    cases h
    obtain ⟨⟨x,hx,hfree⟩,-⟩ := Lists.findIdx_some_iff.mp hfind
    have hlt := (List.getElem?_eq_some_iff.mp hx).1
    refine ⟨?_,{ x with
      paymentHash := paymentHash
      bridgeHtlcId := bridgeHtlcId
      cltvExpiry := 0
      active := true },⟨?_,fun j hj => ?_,fun y hy => ?_⟩,rfl,rfl,rfl,.inr ⟨x,hx,rfl⟩⟩
    · rw [length_modify]
      omega
    · rw [getElem?_modify_eq,hx]
      rfl
    · exact getElem?_modify_ne _ _ (Ne.symm hj)
    · obtain rfl := Option.mem_unique hx hy
      exact Bool.not_eq_true' _ ▸ hfree
  | none =>
    rw [hfind] at h
    split_ifs at h ⊢ with hfull
    cases h
    refine ⟨?_,⟨paymentHash,bridgeHtlcId,0,0,0,0,true⟩,⟨?_,fun j hj => ?_,fun y hy => ?_⟩,
      rfl,rfl,rfl,.inl rfl⟩
    · rw [length_append,length_singleton]
      omega
    · exact getElem?_concat_length
    · rcases Nat.lt_or_gt_of_ne hj with hlt | hgt
      · exact getElem?_append_left hlt
      · rw [getElem?_eq_none hgt.le,getElem?_eq_none]
        rw [length_append,length_singleton]
        exact hgt
    · rw [getElem?_eq_none (Nat.le_refl _)] at hy
      cases hy

theorem recordedPay_fills {requestId htlcId : UInt64} {senderIdx : ℕ}
    (h : RecordsLast cap origins) : ∃ k o,
    Fills k o origins (recordedPay paymentHash requestId senderIdx htlcId cap origins) ∧
      o.active = true ∧ o.Names ⟨requestId,senderIdx,htlcId,paymentHash⟩ ∧ o.cltvExpiry = 0 := by
  obtain ⟨k,hslot,hlast⟩ := h
  obtain ⟨hlen,o,hfills,hhash,hactive,hcltv,-⟩ :=
    tracked_fills paymentHash 0 hslot
  have hindex : (trackedOrigins paymentHash 0 cap origins).length-1 = k := by
    rw [hlen]
    omega
  refine ⟨k,{ o with requestId := requestId, senderIdx := senderIdx, senderHtlcId := htlcId },?_,
    hactive,⟨rfl,rfl,rfl,hhash⟩,hcltv⟩
  unfold recordedPay
  dsimp only
  rw [hindex]
  exact hfills.modify (fun o =>
    { o with requestId := requestId, senderIdx := senderIdx, senderHtlcId := htlcId })

def inboundOrigins (msg : BridgeAddMsg) (destIdx : ℕ) (destHtlcId : UInt64) (cap : ℕ)
    (origins : List HtlcOrigin) : List HtlcOrigin :=
  let tracked := trackedOrigins msg.paymentHash msg.htlcId cap origins
  match tracked.findIdx? (fun o => o.active && o.paymentHash = msg.paymentHash) with
  | none => tracked
  | some i => tracked.modify i (fun o =>
      { o with
        cltvExpiry := msg.cltvExpiry
        senderIdx := destIdx
        senderHtlcId := destHtlcId })

theorem recordInbound_eq (msg : BridgeAddMsg) (destIdx : ℕ) (destHtlcId : UInt64) (mgr : LspMgr) :
    recordInbound msg destIdx destHtlcId mgr =
      { mgr with htlcOrigins :=
          inboundOrigins msg destIdx destHtlcId mgr.htlcOriginsCap mgr.htlcOrigins } := by
  unfold recordInbound inboundOrigins
  rw [trackBridgeOrigin_eq]
  dsimp only
  cases (trackedOrigins msg.paymentHash msg.htlcId mgr.htlcOriginsCap mgr.htlcOrigins).findIdx?
    (fun o => o.active && o.paymentHash = msg.paymentHash) <;> rfl

theorem inboundOrigins_moves {msg : BridgeAddMsg} {destIdx : ℕ} {destHtlcId : UInt64}
    (h : Unshadowed cap msg.paymentHash origins) (j : ℕ) :
    SlotMove payments (· = 0) origins[j]?
      (inboundOrigins msg destIdx destHtlcId cap origins)[j]? := by
  unfold inboundOrigins
  dsimp only
  cases hslot : freeSlot cap origins with
  | none =>
    rw [tracked_full hslot]
    have hnone : origins.findIdx? (fun o => o.active && o.paymentHash = msg.paymentHash) = none := by
      rw [findIdx?_eq_none_iff]
      intro o ho
      obtain ⟨i,hi⟩ := mem_iff_getElem?.mp ho
      refine Bool.eq_false_iff.mpr fun hboth => ?_
      obtain ⟨hactive,hhash⟩ := Bool.and_eq_true_iff.mp hboth
      obtain ⟨k,hk,-⟩ := h i o hi hactive (of_decide_eq_true hhash)
      rw [hslot] at hk
      cases hk
    rw [hnone]
    exact .release _ _ (.same _)
  | some k =>
    obtain ⟨-,o,hfills,hhash,hactive,-,hid⟩ :=
      tracked_fills msg.paymentHash msg.htlcId hslot
    have hfound : (trackedOrigins msg.paymentHash msg.htlcId cap origins).findIdx?
        (fun o => o.active && o.paymentHash = msg.paymentHash) = some k := by
      refine Lists.findIdx_some_iff.mpr ⟨⟨o,hfills.entry,?_⟩,fun i x hi hx => ?_⟩
      · rw [hactive,hhash,decide_eq_true rfl,Bool.and_self]
      · refine Bool.eq_false_iff.mpr fun hboth => ?_
        obtain ⟨hxactive,hxhash⟩ := Bool.and_eq_true_iff.mp hboth
        rw [hfills.others i hi.ne] at hx
        obtain ⟨k',hk',hlt⟩ := h i x hx hxactive (of_decide_eq_true hxhash)
        obtain rfl := Option.mem_unique hslot hk'
        omega
    rw [hfound]
    exact (hfills.modify _).moves hid j

end

end SuperScalar
