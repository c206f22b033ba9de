import SuperScalar.Lsp.Forward

namespace SuperScalar

open List Option UInt64 Nat LspMgr

section

variable (f : Factory)

def shareBps (i : ℕ) : UInt16 := ((f.profiles[i+1]?).map ParticipantProfile.profitShareBps).getD 0

def profitShare (i : ℕ) (chFees : UInt64) : UInt64 := chFees*(shareBps f i).toUInt64/10000

def LspEntry.payOut (e : LspEntry) (share : UInt64) : LspEntry :=
  { e with
    channel :=
      { e.channel with
        localAmount := e.channel.localAmount-share
        remoteAmount := e.channel.remoteAmount + share }
    accumulatedFeesSats := 0 }

def settleEntry (i : ℕ) (e : LspEntry) : LspEntry × Bool :=
  if e.accumulatedFeesSats = 0 then (e,false)
  else if i+1 ≥ f.nParticipants then (e,false)
  else if shareBps f i = 0 then (e,false)
  else
    let share := profitShare f i e.accumulatedFeesSats
    if share = 0 then (e,false)
    else if e.channel.localAmount ≥ share then (e.payOut share,true)
    else (e,false)

def lspChannelsSettleProfits (mgr : LspMgr) : LspMgr × ℕ :=
  if mgr.economicMode ≠ .profitShared then (mgr,0)
  else if mgr.accumulatedFeesSats = 0 then (mgr,0)
  else
    let results := mgr.entries.mapIdx (settleEntry f)
    let settled := results.countP Prod.snd
    ({ mgr with
        entries := results.map Prod.fst
        accumulatedFeesSats := if settled > 0 then 0 else mgr.accumulatedFeesSats },settled)

def lspChannelsUnsettledShare (mgr : LspMgr) (clientIdx : ℕ) : UInt64 :=
  if mgr.economicMode ≠ .profitShared then 0
  else
    match mgr.entries[clientIdx]? with
    | none => 0
    | some e =>
      if e.accumulatedFeesSats = 0 then 0
      else if clientIdx+1 ≥ f.nParticipants then 0
      else profitShare f clientIdx e.accumulatedFeesSats

end

def feeTotal (counters : List UInt64) : ℕ := (counters.map toNat).sum

def feesAt (mgr : LspMgr) (i : ℕ) : UInt64 := (mgr.counters[i]?).getD 0

def remoteAt (mgr : LspMgr) (i : ℕ) : ℕ :=
  ((mgr.channel? i).map (fun ch => ch.remoteAmount.toNat)).getD 0

inductive FeeOp where
  | payment (f : Factory) (w : AddWorld) (senderIdx : ℕ) (parsed : Option AddHtlcMsg)
  | settle (f : Factory)

structure FeeRun where
  mgr : LspMgr
  accrued : ℕ
  retained : ℕ
  pending : ℕ → ℕ
  paid : ℕ → ℕ
  shares : ℕ → ℕ

def FeeRun.start (mgr : LspMgr) : FeeRun where
  mgr := mgr
  accrued := 0
  retained := 0
  pending i := (feesAt mgr i).toNat
  paid _ := 0
  shares _ := 0

def retainedSats (actions : List LspAction) : ℕ :=
  if actions.any LspAction.isAdd then rowSats .received actions - rowSats .offered actions else 0

def feeStep (m : Musig) (s : FeeRun) : FeeOp → FeeRun
  | .payment f w senderIdx parsed =>
    let r := handleAddHtlc m f w senderIdx parsed s.mgr
    let added := (r.mgr.accumulatedFeesSats-s.mgr.accumulatedFeesSats).toNat
    { s with
      mgr := r.mgr
      accrued := s.accrued + added
      retained := s.retained + retainedSats r.actions
      pending := fun i => if i = senderIdx then s.pending i + added else s.pending i }
  | .settle f =>
    let mgr := (lspChannelsSettleProfits f s.mgr).1
    { s with
      mgr := mgr
      pending := fun i => if feesAt mgr i = feesAt s.mgr i then s.pending i else 0
      paid := fun i => s.paid i + (remoteAt mgr i - remoteAt s.mgr i)
      shares := fun i =>
        if feesAt mgr i = feesAt s.mgr i then s.shares i
        else s.shares i + s.pending i * (shareBps f i).toNat / 10000 }

def FeeCovered (routingFeePpm amountMsat : UInt64) : Prop :=
  routingFeeMsat routingFeePpm amountMsat % 1000 = 0 ∨
    amountMsat % 1000 < routingFeeMsat routingFeePpm amountMsat % 1000

def PaymentOk (m : Musig) (mgr : LspMgr) (f : Factory) (w : AddWorld) (senderIdx : ℕ)
    (parsed : Option AddHtlcMsg) : Prop :=
  ∀ msg ch destIdx dest chd terms, SenderAdds w senderIdx msg mgr parsed ch →
    SenderCommits m w msg ch → Accrues w senderIdx msg mgr destIdx dest chd terms →
    terms.feeSats ≠ 0 →
    (∃ cltv, Forwardable f w senderIdx msg mgr destIdx dest chd terms cltv) ∧
      FeeCovered mgr.routingFeePpm msg.amountMsat ∧
      mgr.accumulatedFeesSats.toNat + terms.feeSats.toNat < 2^64

structure Payable (f : Factory) (i : ℕ) (e : LspEntry) : Prop where
  earned : e.accumulatedFeesSats ≠ 0
  participant : i+1 < f.nParticipants
  due : profitShare f i e.accumulatedFeesSats ≠ 0
  funds : profitShare f i e.accumulatedFeesSats ≤ e.channel.localAmount

def ShareFits (f : Factory) (i : ℕ) (e : LspEntry) : Prop :=
  e.accumulatedFeesSats.toNat * (shareBps f i).toNat < 2^64 ∧
    e.channel.remoteAmount.toNat + (profitShare f i e.accumulatedFeesSats).toNat < 2^64

def SettleOk (f : Factory) (mgr : LspMgr) : Prop :=
  mgr.economicMode = .profitShared →
    (∀ i e, mgr.entries[i]? = some e → ShareFits f i e) ∧
      ((∀ i e, mgr.entries[i]? = some e → e.accumulatedFeesSats ≠ 0 → Payable f i e) ∨
        ∀ i e, mgr.entries[i]? = some e → ¬ Payable f i e)

def FeeOk (m : Musig) (s : FeeRun) : FeeOp → Prop
  | .payment f w senderIdx parsed => PaymentOk m s.mgr f w senderIdx parsed
  | .settle f => SettleOk f s.mgr

section

variable {f : Factory} {i : ℕ} {e : LspEntry}

theorem settleEntry_paid (h : Payable f i e) :
    settleEntry f i e = (e.payOut (profitShare f i e.accumulatedFeesSats),true) := by
  have hbps : shareBps f i ≠ 0 := by
    intro hzero
    refine h.due ?_
    rw [profitShare,hzero]
    simp
  unfold settleEntry
  rw [if_neg h.earned,if_neg (not_le.mpr h.participant),if_neg hbps]
  rw [if_neg h.due,if_pos h.funds]

theorem settleEntry_kept (h : ¬ Payable f i e) : settleEntry f i e = (e,false) := by
  unfold settleEntry
  dsimp only
  split_ifs with hearned hparticipant hbps hdue hfunds
  · rfl
  · rfl
  · rfl
  · rfl
  · exact absurd ⟨hearned,not_le.mp hparticipant,hdue,hfunds⟩ h
  · rfl

theorem profitShare_toNat (h : ShareFits f i e) :
    (profitShare f i e.accumulatedFeesSats).toNat =
      e.accumulatedFeesSats.toNat * (shareBps f i).toNat / 10000 := by
  rw [profitShare,UInt64.toNat_div,UInt64.toNat_mul,UInt16.toNat_toUInt64,Nat.mod_eq_of_lt h.1]
  rfl

end

section

theorem feeTotal_modify {counters : List UInt64} {i : ℕ} {old fee : UInt64}
    (hold : counters[i]? = some old) (hfits : old.toNat + fee.toNat < 2^64) :
    feeTotal (counters.modify i (· + fee)) = feeTotal counters + fee.toNat := by
  induction counters generalizing i with
  | nil => cases hold
  | cons c _ ih =>
    cases i with
    | zero =>
      obtain rfl : c = old := some.inj hold
      simp only [modify_zero_cons,feeTotal,map_cons,sum_cons,List.sum_cons,UInt64.toNat_add,
        Nat.mod_eq_of_lt hfits]
      omega
    | succ =>
      have hrest := ih hold
      simp only [feeTotal] at hrest
      simp only [modify_succ_cons,feeTotal,map_cons,sum_cons,hrest]
      omega

theorem counter_le_total {counters : List UInt64} {i : ℕ} {old : UInt64}
    (hold : counters[i]? = some old) : old.toNat ≤ feeTotal counters :=
  single_le_sum (by simp) _ (mem_map_of_mem (mem_of_getElem? hold))

variable {m : Musig} {f : Factory} {w : AddWorld} {senderIdx : ℕ} {msg : AddHtlcMsg} {mgr : LspMgr}
  {parsed : Option AddHtlcMsg}

theorem feeCovered_le {routingFeePpm amountMsat : UInt64} {terms : ForwardTerms}
    (hpriced : forwardTerms routingFeePpm amountMsat = some terms)
    (hcovered : FeeCovered routingFeePpm amountMsat) :
    terms.feeSats.toNat ≤ (amountMsat/1000).toNat-terms.amountSats.toNat := by
  unfold forwardTerms at hpriced
  dsimp only at hpriced
  split_ifs at hpriced with hppm hfee hzero
  · cases hpriced
    have hlt := UInt64.lt_iff_toNat_lt.mp (UInt64.not_le.mp hfee)
    have hsmall : (routingFeeMsat routingFeePpm amountMsat).toNat ≤ 2^64/1000000 := by
      exact Nat.div_le_div_right (UInt64.toNat_lt _).le
    have hcov : (routingFeeMsat routingFeePpm amountMsat).toNat % 1000 = 0 ∨
        amountMsat.toNat % 1000 < (routingFeeMsat routingFeePpm amountMsat).toNat % 1000 := by
      refine hcovered.imp (fun h => ?_) fun h => ?_
      · have hnat := congrArg UInt64.toNat h
        rwa [UInt64.toNat_mod] at hnat
      · have hnat := UInt64.lt_iff_toNat_lt.mp h
        rwa [UInt64.toNat_mod,UInt64.toNat_mod] at hnat
    have hsub := UInt64.toNat_sub_of_le _ _ (UInt64.le_of_lt (UInt64.not_le.mp hfee))
    simp only [UInt64.toNat_div,hsub,UInt64.toNat_add]
    have h999 : (999 : UInt64).toNat = 999 := rfl
    have h1000 : (1000 : UInt64).toNat = 1000 := rfl
    rw [h999,h1000,Nat.mod_eq_of_lt (by omega)]
    omega
  · cases hpriced
    exact Nat.zero_le _

structure Charged (mgr : LspMgr) (senderIdx : ℕ) (r : Handled) (fee : UInt64) : Prop where
  total : r.mgr.accumulatedFeesSats = mgr.accumulatedFeesSats + fee
  counters : r.mgr.counters = mgr.counters.modify senderIdx (· + fee)
  entry : fee ≠ 0 → ∃ old, mgr.counters[senderIdx]? = some old
  fits : mgr.accumulatedFeesSats.toNat + fee.toNat < 2^64
  covered : fee.toNat ≤ retainedSats r.actions

theorem modify_add_zero (counters : List UInt64) (i : ℕ) :
    counters.modify i (· + 0) = counters := by
  refine ext_getElem? fun k => ?_
  rw [getElem?_modify]
  cases counters[k]? with
  | none => rfl
  | some => simp

theorem Charged.free {r : Handled} (htotal : r.mgr.accumulatedFeesSats = mgr.accumulatedFeesSats)
    (hcounters : r.mgr.counters = mgr.counters) : Charged mgr senderIdx r 0 := by
  refine ⟨?_,?_,fun h => absurd rfl h,?_,zero_le _⟩
  · rw [htotal,UInt64.add_zero]
  · rw [hcounters,modify_add_zero]
  · exact toNat_lt _

theorem rowSats_append (direction : HtlcDirection) (xs ys : List LspAction) :
    rowSats direction (xs++ys) = rowSats direction xs + rowSats direction ys := by
  simp only [rowSats,map_append,List.sum_append]

theorem accumulated_setDest {i : ℕ} {dest : DestChannel} {ch : Channel} :
    (mgr.setDest i dest ch).accumulatedFeesSats = mgr.accumulatedFeesSats := by
  cases dest <;> rfl

theorem counter_of_channel {ch : Channel} (h : mgr.channel? senderIdx = some ch) :
    ∃ old, mgr.counters[senderIdx]? = some old := by
  obtain ⟨e,he,-⟩ := map_eq_some_iff.mp h
  exact ⟨e.accumulatedFeesSats,by rw [counters,getElem?_map,he]; rfl⟩

theorem RouteOutcome.charged_fee {added ch : Channel} {newHtlcId : UInt64} {r : Handled} {saved : List LspAction}
    (h : RouteOutcome m f w senderIdx msg mgr added newHtlcId r) (hfound : mgr.channel? senderIdx = some ch)
    (hok : ∀ destIdx dest chd terms, Accrues w senderIdx msg mgr destIdx dest chd terms →
      terms.feeSats ≠ 0 →
      (∃ cltv, Forwardable f w senderIdx msg mgr destIdx dest chd terms cltv) ∧
        FeeCovered mgr.routingFeePpm msg.amountMsat ∧
        mgr.accumulatedFeesSats.toNat + terms.feeSats.toNat < 2^64)
    (hrows : rowSats .received saved = (msg.amountMsat/1000).toNat ∧ rowSats .offered saved = 0) :
    ∃ fee, Charged mgr senderIdx (r.after saved) fee := by
  have hunrouted {destIdx : ℕ} {dest : DestChannel} {chd : Channel} {terms : ForwardTerms}
      (hroute : ¬ Routable f w senderIdx msg mgr)
      (haccrues : Accrues w senderIdx msg mgr destIdx dest chd terms) : terms.feeSats = 0 := by
    by_contra hfee
    obtain ⟨⟨cltv,hforward⟩,-⟩ := hok _ _ _ _ haccrues hfee
    exact hroute (.inl ⟨_,_,_,_,_,hforward⟩)
  have haccrued (fee : UInt64) : ((mgr.setChannel senderIdx added).accrue senderIdx fee).counters =
      mgr.counters.modify senderIdx (· + fee) := by
    rw [counters_accrue,counters_setChannel]
  cases h with
  | kept => exact ⟨0,.free rfl counters_setChannel⟩
  | charged _ _ _ terms hroute haccrues =>
    refine ⟨0,.free ?_ ?_⟩
    · change mgr.accumulatedFeesSats + terms.feeSats = _
      rw [hunrouted hroute haccrues,UInt64.add_zero]
    · refine (haccrued terms.feeSats).trans ?_
      rw [hunrouted hroute haccrues,modify_add_zero]
  | destRefused _ _ _ terms _ hroute haccrues =>
    refine ⟨0,.free ?_ ?_⟩
    · refine accumulated_setDest.trans ?_
      change mgr.accumulatedFeesSats + terms.feeSats = _
      rw [hunrouted hroute haccrues,UInt64.add_zero]
    · refine counters_setDest.trans ((haccrued terms.feeSats).trans ?_)
      rw [hunrouted hroute haccrues,modify_add_zero]
  | placed destIdx _ chd _ terms cltv actions _ hforward _ hannounced _ hrows' =>
    refine ⟨terms.feeSats,accumulated_setDest,counters_setDest.trans (haccrued _),
      fun _ => counter_of_channel hfound,?_,?_⟩
    · by_cases hfee : terms.feeSats = 0
      · rw [hfee]
        exact toNat_lt _
      · exact (hok _ _ _ _ hforward.toAccrues hfee).2.2
    · have hany : (saved++actions).any LspAction.isAdd = true := by
        rw [any_append,Bool.or_eq_true]
        right
        rw [List.any_eq_true]
        have hmem : announcement destIdx terms.amountMsat msg.paymentHash cltv chd.nextHtlcId ∈
            actions.filter LspAction.isAdd := by
          rw [hannounced]
          exact mem_singleton.mpr rfl
        exact ⟨_,(mem_filter.mp hmem).1,rfl⟩
      have hkept : retainedSats (saved++actions) =
          (msg.amountMsat/1000).toNat - terms.amountSats.toNat := by
        simp only [retainedSats,if_pos hany,rowSats_append,hrows.1,hrows.2,hrows'.1,
          hrows'.2,add_zero,zero_add]
      by_cases hfee : terms.feeSats = 0
      · rw [hfee]
        exact zero_le _
      · exact (feeCovered_le hforward.priced (hok _ _ _ _ hforward.toAccrues hfee).2.1).trans
          hkept.ge
  | bridge => exact ⟨0,.free rfl counters_setChannel⟩

theorem payment_charged (hok : PaymentOk m mgr f w senderIdx parsed) :
    ∃ fee, Charged mgr senderIdx (handleAddHtlc m f w senderIdx parsed mgr) fee := by
  have houtcome : AddOutcome m f w senderIdx mgr parsed _ := handleAddHtlc_outcome parsed
  generalize handleAddHtlc m f w senderIdx parsed mgr = r at houtcome ⊢
  cases houtcome with
  | dropped => exact ⟨0,.free rfl rfl⟩
  | refused => exact ⟨0,.free rfl counters_setChannel⟩
  | broken => exact ⟨0,.free rfl counters_setChannel⟩
  | routed msg ch _ _ _ hadds _ hcommit hroute _ hrows =>
    exact hroute.charged_fee hadds.found (fun d dest chd terms haccrues hfee =>
      hok msg ch d dest chd terms hadds hcommit haccrues hfee) hrows

end

section

variable {m : Musig} {f : Factory} {mgr : LspMgr} {s : FeeRun} {i : ℕ}

structure FeeRun.Ok (s : FeeRun) : Prop where
  total : s.mgr.accumulatedFeesSats.toNat = feeTotal s.mgr.counters
  pending : ∀ i, (feesAt s.mgr i).toNat = s.pending i
  covered : s.accrued ≤ s.retained
  paid : ∀ i, s.paid i = s.shares i

theorem FeeRun.Ok.payment {w : AddWorld} {senderIdx : ℕ} {parsed : Option AddHtlcMsg} (h : s.Ok)
    (hok : PaymentOk m s.mgr f w senderIdx parsed) :
    (feeStep m s (.payment f w senderIdx parsed)).Ok := by
  obtain ⟨fee,hcharged⟩ := payment_charged hok
  have hadded : ((handleAddHtlc m f w senderIdx parsed s.mgr).mgr.accumulatedFeesSats -
      s.mgr.accumulatedFeesSats).toNat = fee.toNat := by
    rw [hcharged.total,UInt64.add_comm,UInt64.add_sub_cancel]
  have hfits {old : UInt64} (hold : s.mgr.counters[senderIdx]? = some old) :
      old.toNat + fee.toNat < 2^64 := by
    have hle := counter_le_total hold
    have hsum := hcharged.fits
    rw [h.total] at hsum
    omega
  refine ⟨?_,fun i => ?_,?_,h.paid⟩
  · change (handleAddHtlc m f w senderIdx parsed s.mgr).mgr.accumulatedFeesSats.toNat =
      feeTotal (handleAddHtlc m f w senderIdx parsed s.mgr).mgr.counters
    rw [hcharged.total,hcharged.counters,UInt64.toNat_add,Nat.mod_eq_of_lt hcharged.fits,h.total]
    by_cases hfee : fee = 0
    · rw [hfee,modify_add_zero]
      rfl
    · obtain ⟨old,hold⟩ := hcharged.entry hfee
      rw [feeTotal_modify hold (hfits hold)]
  · change ((handleAddHtlc m f w senderIdx parsed s.mgr).mgr.counters[i]?.getD 0).toNat =
      if i = senderIdx then
        s.pending i + ((handleAddHtlc m f w senderIdx parsed s.mgr).mgr.accumulatedFeesSats -
          s.mgr.accumulatedFeesSats).toNat
      else s.pending i
    rw [hadded,hcharged.counters,← h.pending i,feesAt]
    by_cases hi : i = senderIdx
    · subst hi
      rw [if_pos rfl,getElem?_modify_eq]
      cases hold : s.mgr.counters[i]? with
      | none =>
        have hfree : fee = 0 := by
          by_contra hfee
          obtain ⟨old,hsome⟩ := hcharged.entry hfee
          rw [hold] at hsome
          cases hsome
        rw [hfree]
        rfl
      | some old =>
        change (old+fee).toNat = old.toNat + fee.toNat
        rw [UInt64.toNat_add,Nat.mod_eq_of_lt (hfits hold)]
    · rw [if_neg hi,getElem?_modify_ne _ _ (Ne.symm hi)]
  · have hle := h.covered
    have hkept := hcharged.covered
    change s.accrued + ((handleAddHtlc m f w senderIdx parsed s.mgr).mgr.accumulatedFeesSats -
      s.mgr.accumulatedFeesSats).toNat ≤
        s.retained + retainedSats (handleAddHtlc m f w senderIdx parsed s.mgr).actions
    omega

theorem settle_skipped (h : mgr.economicMode ≠ .profitShared ∨ mgr.accumulatedFeesSats = 0) :
    lspChannelsSettleProfits f mgr = (mgr,0) := by
  unfold lspChannelsSettleProfits
  by_cases hmode : mgr.economicMode ≠ .profitShared
  · rw [if_pos hmode]
  · rw [if_neg hmode,if_pos (h.resolve_left hmode)]

theorem settle_entry (hmode : mgr.economicMode = .profitShared)
    (hfees : mgr.accumulatedFeesSats ≠ 0) (i : ℕ) :
    (lspChannelsSettleProfits f mgr).1.entries[i]? =
      (mgr.entries[i]?).map (fun e => (settleEntry f i e).1) := by
  unfold lspChannelsSettleProfits
  rw [if_neg (not_not.mpr hmode),if_neg hfees]
  rw [List.getElem?_map,List.getElem?_mapIdx,Option.map_map]
  rfl

theorem settle_unpaid (h : ∀ i e, mgr.entries[i]? = some e → ¬ Payable f i e) :
    (lspChannelsSettleProfits f mgr).1 = mgr := by
  by_cases hskip : mgr.economicMode ≠ .profitShared ∨ mgr.accumulatedFeesSats = 0
  · rw [settle_skipped hskip]
  · obtain ⟨hmode,hfees⟩ := not_or.mp hskip
    have hkept : mgr.entries.mapIdx (settleEntry f) = mgr.entries.map (fun e => (e,false)) := by
      refine ext_getElem? fun i => ?_
      rw [getElem?_mapIdx,getElem?_map]
      cases hentry : mgr.entries[i]? with
      | none => rfl
      | some e => exact congrArg some (settleEntry_kept (h i e hentry))
    have hnone : (mgr.entries.map (fun e => (e,false))).countP Prod.snd = 0 := by
      rw [countP_eq_zero]
      intro p hp
      obtain ⟨e,-,rfl⟩ := mem_map.mp hp
      simp
    unfold lspChannelsSettleProfits
    rw [if_neg hmode,if_neg hfees]
    dsimp only
    rw [hkept,hnone,List.map_map]
    have hid : (Prod.fst ∘ fun e : LspEntry => (e,false)) = id := rfl
    rw [hid,List.map_id,if_neg (Nat.lt_irrefl 0)]

theorem feeTotal_pos {counters : List UInt64} (h : feeTotal counters ≠ 0) :
    ∃ (i : ℕ) (c : UInt64), counters[i]? = some c ∧ c ≠ 0 := by
  by_contra hnone
  refine h (sum_eq_zero fun n hn => ?_)
  obtain ⟨c,hc,rfl⟩ := mem_map.mp hn
  obtain ⟨i,hi⟩ := mem_iff_getElem?.mp hc
  by_contra hzero
  exact hnone ⟨i,c,hi,fun hc0 => hzero (by rw [hc0]; rfl)⟩

theorem feeTotal_zero {counters : List UInt64} (h : ∀ c ∈ counters, c = 0) :
    feeTotal counters = 0 := by
  refine sum_eq_zero fun n hn => ?_
  obtain ⟨c,hc,rfl⟩ := mem_map.mp hn
  rw [h c hc]
  rfl

theorem settle_all_total (hmode : mgr.economicMode = .profitShared)
    (hfees : mgr.accumulatedFeesSats ≠ 0)
    (htotal : mgr.accumulatedFeesSats.toNat = feeTotal mgr.counters)
    (hall : ∀ i e, mgr.entries[i]? = some e → e.accumulatedFeesSats ≠ 0 → Payable f i e) :
    (lspChannelsSettleProfits f mgr).1.accumulatedFeesSats.toNat =
      feeTotal (lspChannelsSettleProfits f mgr).1.counters := by
  have hcleared : ∀ c ∈ (lspChannelsSettleProfits f mgr).1.counters, c = 0 := by
    intro c hc
    obtain ⟨e',he',rfl⟩ := mem_map.mp hc
    obtain ⟨i,hi⟩ := mem_iff_getElem?.mp he'
    rw [settle_entry hmode hfees] at hi
    obtain ⟨e,he,rfl⟩ := map_eq_some_iff.mp hi
    by_cases hzero : e.accumulatedFeesSats = 0
    · rw [settleEntry_kept fun h => h.earned hzero]
      exact hzero
    · rw [settleEntry_paid (hall i e he hzero)]
      rfl
  have hpos : feeTotal mgr.counters ≠ 0 := by
    rw [← htotal]
    exact fun hzero => hfees (UInt64.toNat_inj.mp hzero)
  obtain ⟨i,c,hi,hc⟩ := feeTotal_pos hpos
  rw [counters,getElem?_map] at hi
  obtain ⟨e,he,rfl⟩ := map_eq_some_iff.mp hi
  have hsettled : 0 < (mgr.entries.mapIdx (settleEntry f)).countP Prod.snd := by
    rw [countP_pos_iff]
    refine ⟨settleEntry f i e,mem_iff_getElem?.mpr ⟨i,?_⟩,?_⟩
    · rw [getElem?_mapIdx,he]
      rfl
    · rw [settleEntry_paid (hall i e he hc)]
  rw [feeTotal_zero hcleared]
  unfold lspChannelsSettleProfits
  rw [if_neg (not_not.mpr hmode),if_neg hfees]
  dsimp only
  rw [if_pos hsettled]
  rfl

theorem settle_client (hfits : ∀ e, mgr.entries[i]? = some e → ShareFits f i e) :
    (feesAt (lspChannelsSettleProfits f mgr).1 i = feesAt mgr i ∧
      remoteAt (lspChannelsSettleProfits f mgr).1 i = remoteAt mgr i) ∨
    (feesAt (lspChannelsSettleProfits f mgr).1 i = 0 ∧ feesAt mgr i ≠ 0 ∧
      remoteAt (lspChannelsSettleProfits f mgr).1 i =
        remoteAt mgr i + (feesAt mgr i).toNat*(shareBps f i).toNat/10000) := by
  by_cases hskip : mgr.economicMode ≠ .profitShared ∨ mgr.accumulatedFeesSats = 0
  · rw [settle_skipped hskip]
    exact .inl ⟨rfl,rfl⟩
  · obtain ⟨hmode,hfees⟩ := not_or.mp hskip
    have hentry := settle_entry (f := f) (not_not.mp hmode) hfees i
    unfold feesAt remoteAt counters channel?
    simp only [getElem?_map,hentry]
    cases he : mgr.entries[i]? with
    | none => exact .inl ⟨rfl,rfl⟩
    | some e =>
      by_cases hpay : Payable f i e
      · have hshare := profitShare_toNat (hfits e he)
        have hsum := (hfits e he).2
        dsimp only [map_some,getD_some]
        rw [settleEntry_paid hpay]
        refine .inr ⟨rfl,hpay.earned,?_⟩
        change (e.channel.remoteAmount + profitShare f i e.accumulatedFeesSats).toNat = _
        rw [UInt64.toNat_add,Nat.mod_eq_of_lt hsum,hshare]
      · dsimp only [map_some,getD_some]
        rw [settleEntry_kept hpay]
        exact .inl ⟨rfl,rfl⟩

theorem FeeRun.Ok.settle (h : s.Ok) (hok : SettleOk f s.mgr) : (feeStep m s (.settle f)).Ok := by
  have hclient (i : ℕ) : (feesAt (lspChannelsSettleProfits f s.mgr).1 i = feesAt s.mgr i ∧
      remoteAt (lspChannelsSettleProfits f s.mgr).1 i = remoteAt s.mgr i) ∨
    (feesAt (lspChannelsSettleProfits f s.mgr).1 i = 0 ∧ feesAt s.mgr i ≠ 0 ∧
      remoteAt (lspChannelsSettleProfits f s.mgr).1 i =
        remoteAt s.mgr i + (feesAt s.mgr i).toNat*(shareBps f i).toNat/10000) := by
    by_cases hmode : s.mgr.economicMode = .profitShared
    · exact settle_client ((hok hmode).1 i)
    · rw [settle_skipped (.inl hmode)]
      exact .inl ⟨rfl,rfl⟩
  refine ⟨?_,fun i => ?_,h.covered,fun i => ?_⟩
  · change (lspChannelsSettleProfits f s.mgr).1.accumulatedFeesSats.toNat =
      feeTotal (lspChannelsSettleProfits f s.mgr).1.counters
    by_cases hskip : s.mgr.economicMode ≠ .profitShared ∨ s.mgr.accumulatedFeesSats = 0
    · rw [settle_skipped hskip]
      exact h.total
    · obtain ⟨hmode,hfees⟩ := not_or.mp hskip
      rcases (hok (not_not.mp hmode)).2 with hall | hnone
      · exact settle_all_total (not_not.mp hmode) hfees h.total hall
      · rw [settle_unpaid hnone]
        exact h.total
  · change (feesAt (lspChannelsSettleProfits f s.mgr).1 i).toNat =
      if feesAt (lspChannelsSettleProfits f s.mgr).1 i = feesAt s.mgr i then s.pending i else 0
    rcases hclient i with ⟨hsame,-⟩ | ⟨hzero,hne,-⟩
    · rw [if_pos hsame,hsame,h.pending]
    · rw [hzero,if_neg (Ne.symm hne)]
      rfl
  · change s.paid i + (remoteAt (lspChannelsSettleProfits f s.mgr).1 i - remoteAt s.mgr i) =
      if feesAt (lspChannelsSettleProfits f s.mgr).1 i = feesAt s.mgr i then s.shares i
      else s.shares i + s.pending i * (shareBps f i).toNat / 10000
    rcases hclient i with ⟨hsame,hremote⟩ | ⟨hzero,hne,hremote⟩
    · rw [if_pos hsame,hremote,Nat.sub_self,h.paid]
      rfl
    · rw [hzero,if_neg (Ne.symm hne),hremote,Nat.add_sub_cancel_left,h.pending,h.paid]

theorem FeeRun.Ok.step {op : FeeOp} (h : s.Ok) (hok : FeeOk m s op) : (feeStep m s op).Ok := by
  cases op with
  | payment => exact h.payment hok
  | settle => exact h.settle hok

end

section

variable {f : Factory} {s : FeeRun} {i : ℕ} {e : LspEntry}

theorem feesAt_entry {mgr : LspMgr} (he : mgr.entries[i]? = some e) :
    feesAt mgr i = e.accumulatedFeesSats := by
  rw [feesAt,counters,getElem?_map,he]
  rfl

theorem FeeRun.Ok.share (h : s.Ok) (he : s.mgr.entries[i]? = some e) (hfits : ShareFits f i e) :
    profitShare f i e.accumulatedFeesSats =
      UInt64.ofNat (s.pending i * (shareBps f i).toNat / 10000) := by
  have hnat := profitShare_toNat hfits
  rw [← feesAt_entry he,h.pending i] at hnat
  rw [← hnat,UInt64.ofNat_toNat,feesAt_entry he]

theorem FeeRun.Ok.payable_iff (h : s.Ok) (he : s.mgr.entries[i]? = some e)
    (hfits : ShareFits f i e) (hi : i+1 < f.nParticipants) :
    Payable f i e ↔ 0 < s.pending i * (shareBps f i).toNat / 10000 ∧
      s.pending i * (shareBps f i).toNat / 10000 ≤ e.channel.localAmount.toNat := by
  have hnat := profitShare_toNat hfits
  rw [← feesAt_entry he,h.pending i,feesAt_entry he] at hnat
  rw [← hnat]
  constructor
  · intro hpay
    refine ⟨Nat.pos_of_ne_zero fun hzero => hpay.due (UInt64.toNat_inj.mp hzero),?_⟩
    exact le_iff_toNat_le.mp hpay.funds
  · rintro ⟨hpos,hle⟩
    refine ⟨fun hzero => ?_,hi,fun hzero => ?_,le_iff_toNat_le.mpr hle⟩
    · rw [hzero,profitShare,UInt64.zero_mul] at hpos
      exact absurd hpos (by decide)
    · rw [hzero] at hpos
      exact absurd hpos (by decide)

theorem FeeRun.Ok.unsettled (h : s.Ok) (hmode : s.mgr.economicMode = .profitShared)
    (he : s.mgr.entries[i]? = some e) (hfits : ShareFits f i e) (hi : i+1 < f.nParticipants) :
    (lspChannelsUnsettledShare f s.mgr i).toNat = s.pending i * (shareBps f i).toNat / 10000 := by
  have hnat := profitShare_toNat hfits
  rw [← feesAt_entry he,h.pending i,feesAt_entry he] at hnat
  unfold lspChannelsUnsettledShare
  rw [if_neg (not_not.mpr hmode),he]
  dsimp only
  rw [if_neg (not_le.mpr hi)]
  split_ifs with hzero
  · rw [← h.pending i,feesAt_entry he,hzero]
    simp
  · exact hnat

theorem FeeRun.Ok.settles (h : s.Ok) (hmode : s.mgr.economicMode = .profitShared)
    (he : s.mgr.entries[i]? = some e) (hpay : Payable f i e) :
    (lspChannelsSettleProfits f s.mgr).1.entries[i]? =
      some (e.payOut (profitShare f i e.accumulatedFeesSats)) := by
  have hfees : s.mgr.accumulatedFeesSats ≠ 0 := by
    intro hzero
    have hcounter : s.mgr.counters[i]? = some e.accumulatedFeesSats := by
      rw [counters,getElem?_map,he]
      rfl
    have hle := counter_le_total hcounter
    rw [← h.total,hzero] at hle
    exact hpay.earned (UInt64.toNat_inj.mp (Nat.le_zero.mp hle))
  rw [settle_entry hmode hfees,he,map_some,settleEntry_paid hpay]

theorem settle_keeps {mgr : LspMgr} (he : mgr.entries[i]? = some e) (hpay : ¬ Payable f i e) :
    (lspChannelsSettleProfits f mgr).1.entries[i]? = some e := by
  by_cases hskip : mgr.economicMode ≠ .profitShared ∨ mgr.accumulatedFeesSats = 0
  · rw [settle_skipped hskip]
    exact he
  · obtain ⟨hmode,hfees⟩ := not_or.mp hskip
    rw [settle_entry (not_not.mp hmode) hfees,he,map_some,settleEntry_kept hpay]

end

theorem payment_sample_ok :
    FeeOk Musig.sample (FeeRun.start (sample [lspChannel,lspChannel]))
      (.payment timedFactory ⟨goodRound,goodRound,true,true⟩ 0 (some payment)) := by
  intro msg ch destIdx dest chd terms hadds _ haccrues _
  obtain rfl := some.inj hadds.parsed
  obtain rfl := some.inj haccrues.named
  have hfound := haccrues.found
  obtain ⟨rfl,rfl⟩ := Prod.mk.inj (some.inj hfound)
  have hpriced := haccrues.priced
  obtain rfl : (⟨19980,19980000,20⟩ : ForwardTerms) = terms :=
    mem_unique (by decide : forwardTerms 1000 20000000 = _) hpriced
  have haccepted : AddAccepted lspChannel .offered 19980 := by
    constructor <;> decide +kernel
  exact ⟨⟨460,⟨haccrues,by decide +kernel,haccepted,.inr rfl⟩⟩,.inl (by decide),by decide⟩

def oddPayment : AddHtlcMsg := { payment with amountMsat := 1001999 }

def sharingFactory : Factory :=
  { Factory.sample 2 1 0 with profiles := replicate 3 ⟨0,0,0,5000⟩ }

def earningMgr : LspMgr :=
  { sample [] with
    entries := [⟨lspChannel,0,true,100⟩,⟨{ lspChannel with localAmount := 10 },1,true,100⟩]
    accumulatedFeesSats := 200 }

end SuperScalar
