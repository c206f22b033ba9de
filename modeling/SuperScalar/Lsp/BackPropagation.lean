import SuperScalar.Foundation.Lists
import SuperScalar.Lsp.Fulfill

namespace SuperScalar

open List Option Nat

def LspAction.isFulfill : LspAction → Bool
  | .send _ (.updateFulfillHtlc _ _) => true
  | _ => false

def LspAction.isDelete : LspAction → Bool
  | .deleteHtlc _ _ => true
  | _ => false

def Channel.activeHtlcs (ch : Channel) : List Htlc := ch.htlcs.filter Htlc.isActive

section

variable (m : Musig) (w : FulfillWorld) (clientIdx : ℕ) (msg : FulfillHtlcMsg) (mgr : LspMgr)

def BackPropagates : Prop :=
  (handleFulfillHtlc m w clientIdx (some msg) mgr).ok = true ∧
    ∃ a ∈ (handleFulfillHtlc m w clientIdx (some msg) mgr).actions, a.isFulfill = true

-- `g` alone is taken out of the other channels, and its sender and its row are told so.
structure Propagated (r : Handled) (s : ℕ) (g : Htlc) : Prop where
  other : s ≠ clientIdx
  received : g.direction = .received
  active : g.isActive = true
  hash : g.paymentHash = m.sha256 msg.preimage.val
  removed : ∃ ch ch' before after, mgr.channel? s = some ch ∧ r.mgr.channel? s = some ch' ∧
    ch.htlcs = before ++ g :: after ∧ ch'.activeHtlcs = (before++after).filter Htlc.isActive
  told : r.actions.filter LspAction.isFulfill = [.send s (.updateFulfillHtlc g.id msg.preimage)]
  deleted : r.actions.filter LspAction.isDelete =
    [.deleteHtlc clientIdx msg.htlcId,.deleteHtlc s g.id]
  own : ∃ ch ch' before h after, mgr.channel? clientIdx = some ch ∧
    r.mgr.channel? clientIdx = some ch' ∧ HtlcAt ch msg.htlcId before h after ∧
    ch'.activeHtlcs = (before++after).filter Htlc.isActive
  others : ∀ i, i ≠ clientIdx → i ≠ s →
    (r.mgr.channel? i).map Channel.activeHtlcs = (mgr.channel? i).map Channel.activeHtlcs

structure SoleTarget (s : ℕ) (ch : Channel) (i : ℕ) (before : List Htlc) (g : Htlc)
    (after : List Htlc) : Prop where
  other : s ≠ clientIdx
  found : mgr.channel? s = some ch
  hit : Hit m msg.preimage (w.senders s) ch i before g after
  first : ∀ j < i, Quiet m msg.preimage (w.senders s) ch j
  received : g.direction = .received
  slot : toldId ch i before after = g.id
  signed : (channelCreateCommitmentPartialSig m
    (paidChannel (w.senders s) ch i before g after)).2.isSome = true
  sole : ∀ k ch' j, k ≠ clientIdx → k ≠ s → mgr.channel? k = some ch' →
    Quiet m msg.preimage (w.senders k) ch' j

end

section

variable {m : Musig} {preimage : Blob 32} {rounds : ℕ → Round} {s i fuel : ℕ} {ch : Channel}
  {before after : List Htlc} {h : Htlc} {w : FulfillWorld} {clientIdx : ℕ}

theorem scanHtlcs_cases (m : Musig) (preimage : Blob 32) (rounds : ℕ → Round) (ch : Channel) (i : ℕ) :
    Quiet m preimage rounds ch i ∨ ∃ before h after, Hit m preimage rounds ch i before h after := by
  by_cases hhit : ∃ before h after, Hit m preimage rounds ch i before h after
  · exact .inr hhit
  · exact .inl fun before h after hh => hhit ⟨before,h,after,hh⟩

theorem scanHtlcs_told (m : Musig) (preimage : Blob 32) (rounds : ℕ → Round) (s fuel i : ℕ)
    (ch : Channel) :
    ∀ a ∈ (scanHtlcs m preimage rounds s fuel i ch).2, a.isFulfill = true →
      ∃ id, a = .send s (.updateFulfillHtlc id preimage) := by
  induction fuel generalizing i ch with
  | zero => exact fun a ha => absurd ha not_mem_nil
  | succ _ ih =>
    rcases scanHtlcs_cases m preimage rounds ch i with hquiet | ⟨before,h,after,hhit⟩
    · rw [scanHtlcs_quiet hquiet]
      exact ih (i+1) ch
    · rw [scanHtlcs_hit hhit]
      split
      · rintro a ha hfulfill
        rcases mem_cons.mp ha with rfl | hlater
        · exact ⟨_,rfl⟩
        · exact ih _ _ a hlater hfulfill
      · rintro a ha hfulfill
        simp only [mem_cons,not_mem_nil,or_false] at ha
        rcases ha with rfl | rfl | rfl
        · exact ⟨_,rfl⟩
        · cases hfulfill
        · cases hfulfill

theorem scanHtlcs_counts (m : Musig) (preimage : Blob 32) (rounds : ℕ → Round) (s fuel i : ℕ)
    (ch : Channel) :
    ((scanHtlcs m preimage rounds s fuel i ch).2.filter LspAction.isDelete).length ≤
      ((scanHtlcs m preimage rounds s fuel i ch).2.filter LspAction.isFulfill).length := by
  induction fuel generalizing i ch with
  | zero => exact le_refl 0
  | succ fuel ih =>
    rcases scanHtlcs_cases m preimage rounds ch i with hquiet | ⟨before,h,after,hhit⟩
    · rw [scanHtlcs_quiet hquiet]
      exact ih (i+1) ch
    · rw [scanHtlcs_hit hhit]
      split
      · exact le_succ_of_le (ih _ _)
      · exact le_refl 1

theorem first_hit (m : Musig) (preimage : Blob 32) (rounds : ℕ → Round) (ch : Channel) :
    (∀ i, Quiet m preimage rounds ch i) ∨ ∃ i before h after,
      Hit m preimage rounds ch i before h after ∧ ∀ j < i, Quiet m preimage rounds ch j := by
  by_cases hhit : ∃ i, ¬ Quiet m preimage rounds ch i
  · classical
    obtain ⟨before,h,after,hh⟩ :=
      (scanHtlcs_cases m preimage rounds ch (Nat.find hhit)).resolve_left (Nat.find_spec hhit)
    exact .inr ⟨_,before,h,after,hh,fun j hj => not_not.mp (Nat.find_min hhit hj)⟩
  · exact .inl fun i => by_contra fun hi => hhit ⟨i,hi⟩

theorem Hit.lt_length (hhit : Hit m preimage rounds ch i before h after) : i < ch.htlcs.length := by
  obtain ⟨x,hslot,-⟩ := hhit.slot
  exact (List.getElem?_eq_some_iff.mp hslot).1

theorem scanChannel_quiet (hquiet : ∀ i, Quiet m preimage (w.senders s) ch i) :
    scanChannel m w clientIdx preimage s ch = (ch,[]) := by
  unfold scanChannel
  split_ifs
  · rfl
  · have hto : scanHtlcs m preimage (w.senders s) s (ch.htlcs.length-0+0) 0 ch =
        scanHtlcs m preimage (w.senders s) s 0 ch.htlcs.length ch :=
      scanHtlcs_to (zero_le _) (fun j _ _ => hquiet j)
    exact hto

theorem scanChannel_hit (hs : s ≠ clientIdx)
    (hhit : Hit m preimage (w.senders s) ch i before h after)
    (hfirst : ∀ j < i, Quiet m preimage (w.senders s) ch j) :
    ∃ fuel, scanChannel m w clientIdx preimage s ch =
      scanHtlcs m preimage (w.senders s) s (fuel+1) i ch := by
  have hlt := hhit.lt_length
  refine ⟨ch.htlcs.length-i-1,?_⟩
  unfold scanChannel
  rw [if_neg hs,← scanHtlcs_to (zero_le i) (fun j _ hj => hfirst j hj)]
  congr 1
  omega

theorem scanChannel_told (hs : s ≠ clientIdx)
    (hhit : Hit m preimage (w.senders s) ch i before h after)
    (hfirst : ∀ j < i, Quiet m preimage (w.senders s) ch j) :
    ∃ later, (scanChannel m w clientIdx preimage s ch).2 =
      .send s (.updateFulfillHtlc (toldId ch i before after) preimage) :: later := by
  obtain ⟨fuel,heq⟩ := scanChannel_hit hs hhit hfirst
  rw [heq,scanHtlcs_hit hhit]
  split <;> exact ⟨_,rfl⟩

theorem scanChannel_unsigned (hs : s ≠ clientIdx)
    (hhit : Hit m preimage (w.senders s) ch i before h after)
    (hfirst : ∀ j < i, Quiet m preimage (w.senders s) ch j)
    (hunsigned : (channelCreateCommitmentPartialSig m
      (paidChannel (w.senders s) ch i before h after)).2.isSome = false) :
    ((scanChannel m w clientIdx preimage s ch).2.filter LspAction.isDelete).length <
      ((scanChannel m w clientIdx preimage s ch).2.filter LspAction.isFulfill).length := by
  obtain ⟨fuel,heq⟩ := scanChannel_hit hs hhit hfirst
  rw [heq,scanHtlcs_hit hhit]
  split
  · exact lt_succ_of_le (scanHtlcs_counts m preimage (w.senders s) s fuel (i+1) _)
  · rename_i hsig
    rw [hsig] at hunsigned
    cases hunsigned

theorem htlcs_paidChannel {ch' : Channel}
    (hsame : SameFunds (paidChannel rounds ch i before h after) ch') :
    ch'.htlcs = (before++after).filter Htlc.isActive :=
  hsame.htlcs.trans (htlcs_withoutHtlc _ _ _ _ _)

theorem scanChannel_signed (hs : s ≠ clientIdx)
    (hhit : Hit m preimage (w.senders s) ch i before h after)
    (hfirst : ∀ j < i, Quiet m preimage (w.senders s) ch j)
    (hsigned : (channelCreateCommitmentPartialSig m
      (paidChannel (w.senders s) ch i before h after)).2.isSome = true) :
    ∃ ch', scanChannel m w clientIdx preimage s ch =
        (ch',[.send s (.updateFulfillHtlc (toldId ch i before after) preimage),
          savedBalance s ch',.deleteHtlc s (toldId ch i before after)]) ∧
      SameFunds (paidChannel (w.senders s) ch i before h after) ch' := by
  obtain ⟨fuel,heq⟩ := scanChannel_hit hs hhit hfirst
  rw [heq,scanHtlcs_hit hhit]
  have hsame := createSig_sameFunds (m := m) (paidChannel (w.senders s) ch i before h after)
  split
  · rename_i hsig
    rw [hsig] at hsigned
    cases hsigned
  · rename_i signed sig hsig
    rw [hsig] at hsame
    exact ⟨_,rfl,hsame.trans (receiveAck_sameFunds false (w.senders s i) signed)⟩

theorem backPropagate_filter (p : LspAction → Bool) (a : LspAction) (mgr : LspMgr) :
    (backPropagate m w clientIdx preimage mgr).2.filter p = [a] ↔
      ∃ s ch, mgr.channel? s = some ch ∧
        (scanChannel m w clientIdx preimage s ch).2.filter p = [a] ∧
        ∀ k ch', k ≠ s → mgr.channel? k = some ch' →
          (scanChannel m w clientIdx preimage k ch').2.filter p = [] := by
  have hget (k : ℕ) (l : List LspAction) : ((mgr.entries.mapIdx (fun s e =>
      (scanChannel m w clientIdx preimage s e.channel).2)).map (filter p))[k]? = some l ↔
      ∃ ch, mgr.channel? k = some ch ∧
        (scanChannel m w clientIdx preimage k ch).2.filter p = l := by
    rw [getElem?_map,getElem?_mapIdx,LspMgr.channel?]
    cases mgr.entries[k]? <;> simp
  rw [backPropagate,filter_flatten,Lists.flatten_eq_singleton_iff]
  constructor
  · rintro ⟨s,hs,hother⟩
    obtain ⟨ch,hch,hacts⟩ := (hget s _).mp hs
    exact ⟨s,ch,hch,hacts,fun k ch' hk hch' => hother k _ hk ((hget k _).mpr ⟨ch',hch',rfl⟩)⟩
  · rintro ⟨s,ch,hch,hacts,hother⟩
    refine ⟨s,(hget s _).mpr ⟨ch,hch,hacts⟩,fun k l hk hl => ?_⟩
    obtain ⟨ch',hch',rfl⟩ := (hget k l).mp hl
    exact hother k ch' hk hch'

end

section

variable {m : Musig} {w : FulfillWorld} {clientIdx : ℕ} {msg : FulfillHtlcMsg} {mgr : LspMgr}

structure Scanned (m : Musig) (w : FulfillWorld) (clientIdx : ℕ) (msg : FulfillHtlcMsg)
    (mgr : LspMgr) (r : Handled) (own : Channel) (scanned : LspMgr) : Prop where
  paid : ∃ ch before h after, mgr.channel? clientIdx = some ch ∧
    PaidOut m.toSecp msg.preimage msg.htlcId before h after ch own
  payee : scanned.channel? clientIdx = some own
  others : ∀ i, i ≠ clientIdx → scanned.channel? i = mgr.channel? i
  result : r.mgr = (backPropagate m w clientIdx msg.preimage scanned).1
  actions : r.actions = [savedBalance clientIdx own,.deleteHtlc clientIdx msg.htlcId] ++
    (backPropagate m w clientIdx msg.preimage scanned).2

theorem BackPropagates.scanned (h : BackPropagates m w clientIdx msg mgr) :
    ∃ own scanned, Scanned m w clientIdx msg mgr
      (handleFulfillHtlc m w clientIdx (some msg) mgr) own scanned := by
  have houtcome : FulfillOutcome m w clientIdx mgr (some msg) _ := handleFulfillHtlc_outcome _
  unfold BackPropagates at h
  generalize handleFulfillHtlc m w clientIdx (some msg) mgr = r at h houtcome
  obtain ⟨hok,a,ha,hfulfill⟩ := h
  cases houtcome with
  | dropped => cases hok
  | broken => cases hok
  | bridge _ _ _ _ _ _ _ _ _ _ _ _ hsent =>
    cases a with
    | send i msg => exact absurd ha (hsent i msg)
    | sendPay => cases hfulfill
    | sendBridgeFulfill => cases hfulfill
    | sendBridgeFail => cases hfulfill
    | saveBalance => cases hfulfill
    | saveHtlc => cases hfulfill
    | deleteHtlc => cases hfulfill
  | scanned _ ch ch' before after h invoices origins hfound hpaid =>
    refine ⟨ch',{ mgr.setChannel clientIdx ch' with invoices := invoices, htlcOrigins := origins },
      ⟨ch,before,h,after,hfound,hpaid⟩,?_,fun i hi => ?_,rfl,rfl⟩
    · exact channel_setChannel_self hfound
    · exact channel_setChannel_other (Ne.symm hi)

variable {r : Handled} {own : Channel} {scanned : LspMgr}

theorem Scanned.channel (h : Scanned m w clientIdx msg mgr r own scanned) (i : ℕ) :
    r.mgr.channel? i = (scanned.channel? i).map (fun ch =>
      (scanChannel m w clientIdx msg.preimage i ch).1) := by
  rw [h.result]
  exact backPropagate_channel _ _ _

theorem scanChannel_own (m : Musig) (w : FulfillWorld) (clientIdx : ℕ) (preimage : Blob 32)
    (ch : Channel) : scanChannel m w clientIdx preimage clientIdx ch = (ch,[]) :=
  if_pos rfl

section

variable (h : Scanned m w clientIdx msg mgr r own scanned)

include h

theorem Scanned.kept : r.mgr.channel? clientIdx = some own := by
  rw [h.channel,h.payee,map_some,scanChannel_own]

theorem Scanned.told :
    r.actions.filter LspAction.isFulfill =
      (backPropagate m w clientIdx msg.preimage scanned).2.filter LspAction.isFulfill := by
  rw [h.actions,filter_append]
  rfl

theorem Scanned.deleted :
    r.actions.filter LspAction.isDelete = .deleteHtlc clientIdx msg.htlcId ::
      (backPropagate m w clientIdx msg.preimage scanned).2.filter LspAction.isDelete := by
  rw [h.actions,filter_append]
  rfl

end

theorem filter_isActive_idem (l : List Htlc) :
    (l.filter Htlc.isActive).filter Htlc.isActive = l.filter Htlc.isActive := by
  rw [List.filter_filter]
  simp only [Bool.and_self]

theorem SoleTarget.propagated {s i : ℕ} {ch : Channel} {before after : List Htlc} {g : Htlc}
    (h : Scanned m w clientIdx msg mgr r own scanned)
    (ht : SoleTarget m w clientIdx msg mgr s ch i before g after) :
    Propagated m clientIdx msg mgr r s g := by
  have hfound := (h.others s ht.other).trans ht.found
  obtain ⟨ch',heq,hsame⟩ := scanChannel_signed ht.other ht.hit ht.first ht.signed
  rw [ht.slot] at heq
  obtain ⟨x,-,-,hat⟩ := ht.hit.slot
  have hquiet (k : ℕ) (chk : Channel) (hk : k ≠ s) (hchk : scanned.channel? k = some chk) :
      scanChannel m w clientIdx msg.preimage k chk = (chk,[]) := by
    by_cases hown : k = clientIdx
    · rw [hown]
      exact scanChannel_own _ _ _ _ _
    · rw [h.others k hown] at hchk
      exact scanChannel_quiet fun j => ht.sole k chk j hown hk hchk
  obtain ⟨chOwn,beforeOwn,hOwn,afterOwn,hfoundOwn,hpaid⟩ := h.paid
  refine ⟨ht.other,ht.received,hat.active,ht.hit.hash.symm,?_,?_,?_,?_,?_⟩
  · refine ⟨ch,ch',before,after,ht.found,?_,hat.split,?_⟩
    · rw [h.channel,hfound,map_some,heq]
    · rw [Channel.activeHtlcs,htlcs_paidChannel hsame,filter_isActive_idem]
  · rw [h.told,backPropagate_filter]
    refine ⟨s,ch,hfound,?_,fun k chk hk hchk => ?_⟩
    · rw [heq]
      rfl
    · rw [hquiet k chk hk hchk]
      rfl
  · rw [h.deleted,cons_inj_right,backPropagate_filter]
    refine ⟨s,ch,hfound,?_,fun k chk hk hchk => ?_⟩
    · rw [heq]
      rfl
    · rw [hquiet k chk hk hchk]
      rfl
  · refine ⟨chOwn,own,beforeOwn,hOwn,afterOwn,hfoundOwn,h.kept,hpaid.entry,?_⟩
    rw [Channel.activeHtlcs,hpaid.htlcs,filter_isActive_idem]
  · intro k hown hk
    rw [h.channel,h.others k hown]
    cases hchk : mgr.channel? k with
    | none => rfl
    | some chk => rw [map_some,hquiet k chk hk ((h.others k hown).trans hchk)]

theorem scanChannel_sends {preimage : Blob 32} {s : ℕ} {ch : Channel} {a : LspAction}
    (ha : a ∈ (scanChannel m w clientIdx preimage s ch).2) (hfulfill : a.isFulfill = true) :
    ∃ id, a = .send s (.updateFulfillHtlc id preimage) := by
  unfold scanChannel at ha
  split_ifs at ha
  · exact absurd ha not_mem_nil
  · exact scanHtlcs_told _ _ _ _ _ _ _ a ha hfulfill

theorem quiet_of_untold {preimage : Blob 32} {s : ℕ} {ch : Channel} (hs : s ≠ clientIdx)
    (hnone : (scanChannel m w clientIdx preimage s ch).2.filter LspAction.isFulfill = []) :
    ∀ i, Quiet m preimage (w.senders s) ch i := by
  refine (first_hit m preimage (w.senders s) ch).resolve_right ?_
  rintro ⟨i,before,h,after,hhit,hfirst⟩
  obtain ⟨later,hlater⟩ := scanChannel_told hs hhit hfirst
  rw [hlater] at hnone
  cases hnone

theorem Propagated.target {s : ℕ} {g : Htlc} (h : Scanned m w clientIdx msg mgr r own scanned)
    (hp : Propagated m clientIdx msg mgr r s g) :
    ∃ ch i before after, SoleTarget m w clientIdx msg mgr s ch i before g after := by
  obtain ⟨ch,ch',before',after',hch,hch',hsplit',hrest'⟩ := hp.removed
  have hfound := (h.others s hp.other).trans hch
  have htold := hp.told
  have hdeleted := hp.deleted
  rw [h.told,backPropagate_filter] at htold
  rw [h.deleted,cons_inj_right,backPropagate_filter] at hdeleted
  obtain ⟨s₀,ch₀,hch₀,htold,hsilent⟩ := htold
  obtain rfl : s = s₀ := by
    have hmem : LspAction.send s (.updateFulfillHtlc g.id msg.preimage) ∈
        (scanChannel m w clientIdx msg.preimage s₀ ch₀).2.filter LspAction.isFulfill := by
      rw [htold]
      exact mem_singleton.mpr rfl
    obtain ⟨id,heq⟩ := scanChannel_sends (mem_filter.mp hmem).1 rfl
    exact (LspAction.send.inj heq).1
  obtain rfl : ch = ch₀ := mem_unique hfound hch₀
  have hquiet (k : ℕ) (chk : Channel) (hk : k ≠ s) (hown : k ≠ clientIdx)
      (hchk : scanned.channel? k = some chk) : ∀ j, Quiet m msg.preimage (w.senders k) chk j :=
    quiet_of_untold hown (hsilent k chk hk hchk)
  obtain ⟨s₁,ch₁,hch₁,hdeleted,-⟩ := hdeleted
  obtain rfl : s = s₁ := by
    by_contra hne
    have hnone : scanChannel m w clientIdx msg.preimage s₁ ch₁ = (ch₁,[]) := by
      by_cases hown : s₁ = clientIdx
      · rw [hown]
        exact scanChannel_own _ _ _ _ _
      · exact scanChannel_quiet (hquiet s₁ ch₁ (Ne.symm hne) hown hch₁)
    rw [hnone] at hdeleted
    cases hdeleted
  obtain rfl : ch = ch₁ := mem_unique hfound hch₁
  rcases first_hit m msg.preimage (w.senders s) ch with hnone | ⟨i,before,g₀,after,hhit,hfirst⟩
  · rw [scanChannel_quiet hnone] at htold
    cases htold
  have hsigned : (channelCreateCommitmentPartialSig m
      (paidChannel (w.senders s) ch i before g₀ after)).2.isSome = true := by
    by_contra hunsigned
    have hlt := scanChannel_unsigned hp.other hhit hfirst (Bool.eq_false_iff.mpr hunsigned)
    rw [htold,hdeleted] at hlt
    exact absurd hlt (lt_irrefl 1)
  obtain ⟨ch'',heq,hsame⟩ := scanChannel_signed hp.other hhit hfirst hsigned
  obtain ⟨x,-,-,hat⟩ := hhit.slot
  obtain rfl : ch' = ch'' := by
    rw [h.channel,hfound,map_some,heq] at hch'
    exact (some.inj hch').symm
  -- Both ways of closing up the array leave the same entries, so the entry taken out is `g`.
  obtain rfl : g₀ = g := by
    have hfiltered := congrArg (filter Htlc.isActive) (hat.split.symm.trans hsplit')
    simp only [Channel.activeHtlcs,htlcs_paidChannel hsame,filter_isActive_idem,filter_append] at hrest'
    simp only [filter_append,filter_cons_of_pos hat.active,filter_cons_of_pos hp.active] at hfiltered
    exact Lists.removed_unique hfiltered hrest'
  refine ⟨ch,i,before,after,hp.other,hch,hhit,hfirst,hp.received,?_,hsigned,?_⟩
  · rw [heq] at htold
    have hsend := head_eq_of_cons_eq htold
    injection hsend with _ hmsg
    injection hmsg
  · intro k chk j hown hk hchk
    exact hquiet k chk hk hown ((h.others k hown).trans hchk) j

end

theorem toldId_eq_iff_last {ch : Channel} {before after : List Htlc} {h : Htlc}
    (hsplit : ch.htlcs = before ++ h :: after) (hactive : ∀ x ∈ ch.htlcs, x.isActive = true)
    (hids : (ch.htlcs.map Htlc.id).Nodup) :
    toldId ch before.length before after = h.id ↔ after = [] := by
  have hall : (before++after).filter Htlc.isActive = before ++ after := by
    rw [filter_eq_self]
    intro x hx
    refine hactive x ?_
    rw [hsplit]
    exact ((Sublist.refl before).append (sublist_cons_self h after)).subset hx
  unfold toldId slotId
  rw [hall]
  cases after with
  | nil =>
    refine iff_of_true ?_ rfl
    rw [append_nil,hsplit,drop_left,getElem?_append_right (le_refl _),Nat.sub_self]
    rfl
  | cons y rest =>
    refine iff_of_false (fun hid => ?_) (cons_ne_nil y rest)
    have hslot : ((before ++ y :: rest) ++ ch.htlcs.drop (before ++ y :: rest).length)[
        before.length]? = some y := by
      rw [List.append_assoc,List.getElem?_append_right (Nat.le_refl _),Nat.sub_self]
      rfl
    rw [hslot] at hid
    simp only [hsplit,map_append,map_cons] at hids
    have hpair := (nodup_cons.mp hids.of_append_right).1
    exact hpair (mem_cons.mpr (.inl hid.symm))

def paidHash : Blob 32 := Musig.sample.sha256 (Blob.zero 32).val

def channelWith (htlcs : List Htlc) : Channel :=
  { lspChannel with htlcs := htlcs, nextHtlcId := UInt64.ofNat htlcs.length }

def paidOffer : Htlc := newHtlc .offered 19980 paidHash 460 lspChannel

def paidReceipt : Htlc := newHtlc .received 20000 paidHash 500 lspChannel

def laterReceipt : Htlc :=
  newHtlc .received 30000 (Blob.zero 32) 500 { lspChannel with nextHtlcId := 1 }

def goodFulfill : FulfillWorld := ⟨goodRound,fun _ _ => goodRound⟩

end SuperScalar
