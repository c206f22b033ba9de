import SuperScalar.Foundation.Lists
import SuperScalar.Lsp.Hub

namespace SuperScalar

open List Option

section

def valueAt (value : Channel → ℕ) (mgr : LspMgr) (i : ℕ) : ℕ :=
  ((mgr.channel? i).map value).getD 0

variable {value : Channel → ℕ} {mgr mgr' : LspMgr} {n : ℕ}

theorem hubSum_eq (h : mgr.entries.length ≤ n) :
    hubSum value mgr = ∑ i ∈ Finset.range n, valueAt value mgr i := by
  rw [hubSum,Lists.sum_map_eq_range _ _ h]
  refine Finset.sum_congr rfl fun i _ => ?_
  rw [valueAt,LspMgr.channel?,Option.map_map]
  rfl

variable {i : ℕ} {ch : Channel}

theorem lt_length_of_channel (h : mgr.channel? i = some ch) : i < mgr.entries.length := by
  obtain ⟨e,he,-⟩ := map_eq_some_iff.mp h
  exact (List.getElem?_eq_some_iff.mp he).1

theorem hubSum_le {c d x y z : ℕ} (hc : c < mgr.entries.length) (hd : d < mgr.entries.length)
    (h : ∀ i, valueAt value mgr i + Lists.spike c x i ≤
      valueAt value mgr' i + (Lists.spike c y i + Lists.spike d z i)) :
    hubSum value mgr + x ≤ hubSum value mgr' + (y+z) := by
  let n := max mgr.entries.length mgr'.entries.length
  have hn : mgr.entries.length ≤ n := Nat.le_max_left _ _
  have hsum := Finset.sum_le_sum fun i (_ : i ∈ Finset.range n) => h i
  rw [Finset.sum_add_distrib,Finset.sum_add_distrib,Finset.sum_add_distrib,
    Lists.sum_spike (Nat.lt_of_lt_of_le hc hn),Lists.sum_spike (Nat.lt_of_lt_of_le hc hn),
    Lists.sum_spike (Nat.lt_of_lt_of_le hd hn),← hubSum_eq hn,
    ← hubSum_eq (Nat.le_max_right _ _)] at hsum
  exact hsum

theorem hubSum_mono (h : ∀ i, valueAt value mgr i ≤ valueAt value mgr' i) :
    hubSum value mgr ≤ hubSum value mgr' := by
  rw [hubSum_eq (Nat.le_max_left _ mgr'.entries.length),
    hubSum_eq (Nat.le_max_right mgr.entries.length _)]
  exact Finset.sum_le_sum fun i _ => h i

theorem valueAt_some (h : mgr.channel? i = some ch) : valueAt value mgr i = value ch := by
  rw [valueAt,h]
  rfl

theorem valueAt_rel {R : Channel → Channel → Prop}
    (h : Rel R (mgr.channel? i) (mgr'.channel? i))
    (hvalue : ∀ ch ch', mgr.channel? i = some ch → R ch ch' → value ch ≤ value ch') :
    valueAt value mgr i ≤ valueAt value mgr' i := by
  unfold valueAt
  generalize mgr.channel? i = a at h hvalue ⊢
  generalize mgr'.channel? i = b at h ⊢
  cases h with
  | some hxy => exact hvalue _ _ rfl hxy
  | none => exact Nat.le_refl 0

end

section

variable {clientIdx : ℕ} {mgr mgr' : LspMgr} {made : List HubForward}

variable {ch ch' : Channel} {g : Htlc} {fw : HubForward}

theorem Recapped.ok (h : Recapped ch ch') (hok : ChannelOk ch) : ChannelOk ch' := by
  obtain ⟨cap,rfl⟩ := h
  exact ⟨hok.ids,hok.total⟩

theorem Recapped.value (h : Recapped ch ch') :
    ch'.hubFunds = ch.hubFunds ∧ ch'.htlcs = ch.htlcs ∧ ch'.nextHtlcId = ch.nextHtlcId := by
  obtain ⟨cap,rfl⟩ := h
  exact ⟨rfl,rfl,rfl⟩

theorem Grown.satsHeld (h : Grown ch ch' g) (direction : HtlcDirection) :
    satsHeld direction ch'.htlcs = satsHeld direction ch.htlcs +
      if g.direction = direction then g.amountSats.toNat else 0 := by
  rw [h.appended,satsHeld_append _ h.active]

theorem HubChange.channelsOk (hok : ChannelsOk mgr) (h : HubChange clientIdx mgr mgr' made) :
    ChannelsOk mgr' := by
  intro i chi hchi
  cases h with
  | resolved _ h =>
    obtain ⟨ch,-,heased⟩ := rel_before (h.eased i) hchi
    exact heased.ok
  | received _ ch' _ _ hch' hgrown _ _ hothers =>
    by_cases hi : i = clientIdx
    · subst hi
      obtain rfl := mem_unique hch' hchi
      exact hgrown.ok
    · obtain ⟨ch₀,hch₀,hcap⟩ := rel_before (hothers i hi) hchi
      exact hcap.ok (hok i ch₀ hch₀)
  | forwarded dest _ ch' _ chd' _ _ _ _ hch' _ hchd' hgrown hgrown' _ _ _ _ _ hothers =>
    by_cases hi : i = clientIdx
    · subst hi
      obtain rfl := mem_unique hch' hchi
      exact hgrown.ok
    by_cases hid : i = dest
    · subst hid
      obtain rfl := mem_unique hchd' hchi
      exact hgrown'.ok
    · obtain ⟨ch₀,hch₀,hcap⟩ := rel_before (hothers i hi hid) hchi
      exact hcap.ok (hok i ch₀ hch₀)

theorem HubChange.own (h : HubChange clientIdx mgr mgr' made) {x : Htlc}
    (hch : mgr.channel? clientIdx = some ch) (hch' : mgr'.channel? clientIdx = some ch')
    (hx : x ∈ ch.htlcs) (hactive : x.isActive = true) (hreceived : x.direction = .received) :
    x ∈ ch'.htlcs := by
  have hgrows {ch₀ ch₀' : Channel} {g : Htlc} (hch₀ : mgr.channel? clientIdx = some ch₀)
      (hch₀' : mgr'.channel? clientIdx = some ch₀') (hgrown : Grown ch₀ ch₀' g) :
      x ∈ ch'.htlcs := by
    obtain rfl : ch = ch₀ := mem_unique hch hch₀
    obtain rfl := mem_unique hch' hch₀'
    rw [hgrown.appended]
    exact mem_append_left _ hx
  cases h with
  | resolved _ h =>
    obtain ⟨ch₀,hch₀,heased⟩ := rel_before (h.eased clientIdx) hch'
    obtain rfl : ch = ch₀ := mem_unique hch hch₀
    exact heased.kept x hx hactive ⟨hreceived,.inl rfl⟩
  | received _ _ _ hch₀ hch₀' hgrown => exact hgrows hch₀ hch₀' hgrown
  | forwarded _ _ _ _ _ _ _ _ hch₀ hch₀' _ _ hgrown =>
    exact hgrows hch₀ hch₀' hgrown

theorem HubChange.funds (h : HubChange clientIdx mgr mgr' made) :
    hubFunds mgr ≤ hubFunds mgr' + (hubOffered mgr' - hubOffered mgr) := by
  cases h with
  | resolved _ h =>
    have hfunds : hubFunds mgr ≤ hubFunds mgr' :=
      hubSum_mono fun i => valueAt_rel (h.eased i) fun _ _ _ heased => heased.funds
    omega
  | received ch _ g hch hch' hgrown hreceived _ hothers =>
    have hlt := lt_length_of_channel hch
    have hchannel := hgrown.funds
    rw [hreceived,if_pos rfl,if_neg (by decide)] at hchannel
    have hfunds : hubFunds mgr + g.amountSats.toNat ≤ hubFunds mgr' + (lspFee ch + 0) := by
      refine hubSum_le hlt hlt fun i => ?_
      unfold Lists.spike
      by_cases hi : i = clientIdx
      · subst hi
        rw [valueAt_some hch,valueAt_some hch',if_pos rfl,if_pos rfl,if_pos rfl]
        omega
      · simp only [if_neg hi]
        exact valueAt_rel (hothers i hi) fun _ _ _ hcap => hcap.value.1.ge
    omega
  | forwarded dest ch _ chd _ g h hne hch hch' hchd hchd' hgrown hgrown' hreceived hoffered _ _ _ hothers =>
    have hlt := lt_length_of_channel hch
    have hltd := lt_length_of_channel hchd
    have hchannel := hgrown.funds
    rw [hreceived,if_pos rfl,if_neg (by decide)] at hchannel
    have hchannel' := hgrown'.funds
    rw [hoffered,if_pos rfl,if_neg (by decide)] at hchannel'
    have hfunds : hubFunds mgr + g.amountSats.toNat ≤
        hubFunds mgr' + (lspFee ch + (lspFee chd + h.amountSats.toNat)) := by
      refine hubSum_le hlt hltd fun i => ?_
      unfold Lists.spike
      by_cases hi : i = clientIdx
      · subst hi
        rw [valueAt_some hch,valueAt_some hch',if_pos rfl,if_pos rfl,if_neg (Ne.symm hne)]
        omega
      by_cases hid : i = dest
      · subst hid
        rw [valueAt_some hchd,valueAt_some hchd',if_neg hi,if_neg hi,if_pos rfl]
        omega
      · simp only [if_neg hi,if_neg hid]
        exact valueAt_rel (hothers i hi hid) fun _ _ _ hcap => hcap.value.1.ge
    have hoffers : hubOffered mgr + h.amountSats.toNat ≤ hubOffered mgr' + (0+0) := by
      refine hubSum_le hltd hltd fun i => ?_
      unfold Lists.spike
      by_cases hi : i = clientIdx
      · subst hi
        have hsame := hgrown.satsHeld .offered
        rw [hreceived,if_neg (by decide)] at hsame
        rw [valueAt_some hch,valueAt_some hch',if_neg (Ne.symm hne)]
        omega
      by_cases hid : i = dest
      · subst hid
        have hmore := hgrown'.satsHeld .offered
        rw [hoffered,if_pos rfl] at hmore
        rw [valueAt_some hchd,valueAt_some hchd',if_pos rfl]
        omega
      · simp only [if_neg hid]
        refine valueAt_rel (hothers i hi hid) fun x y _ hcap => ?_
        rw [hcap.value.2.1]
    omega

structure Extends (ch ch' : Channel) : Prop where
  subset : ∀ x ∈ ch.htlcs, x ∈ ch'.htlcs
  fresh : ∀ x ∈ ch'.htlcs, x ∈ ch.htlcs ∨ x.id = ch.nextHtlcId
  next : ch.nextHtlcId ≤ ch'.nextHtlcId

theorem Recapped.extends (h : Recapped ch ch') : Extends ch ch' := by
  obtain ⟨cap,rfl⟩ := h
  exact ⟨fun _ hx => hx,fun _ hx => .inl hx,UInt64.le_refl _⟩

theorem Grown.extends (h : Grown ch ch' g) : Extends ch ch' := by
  have hmem : g ∈ ch'.htlcs := by
    rw [h.appended]
    exact mem_append_right _ (mem_singleton.mpr rfl)
  refine ⟨fun x hx => ?_,fun x hx => ?_,?_⟩
  · rw [h.appended]
    exact mem_append_left _ hx
  · rw [h.appended,mem_append,mem_singleton] at hx
    refine hx.imp_right fun heq => ?_
    rw [heq]
    exact h.id
  · rw [← h.id]
    exact UInt64.le_of_lt (h.ok.ids g hmem h.active)

def HubForward.Issued (mgr : LspMgr) (fw : HubForward) : Prop :=
  ∃ chd, mgr.channel? fw.dest = some chd ∧ fw.outgoing < chd.nextHtlcId

theorem HubForward.Backed.extends (h : ∀ i, Rel Extends (mgr.channel? i) (mgr'.channel? i))
    (hissued : fw.Issued mgr) (hbacked : fw.Backed mgr) : fw.Backed mgr' ∧ fw.Issued mgr' := by
  obtain ⟨chd,hchd,hlt⟩ := hissued
  obtain ⟨chd',hchd',hext⟩ := rel_after (h fw.dest) hchd
  refine ⟨fun chd₀ x hchd₀ hx hactive hoffered hid => ?_,chd',hchd',?_⟩
  · obtain rfl := mem_unique hchd' hchd₀
    have hold : x ∈ chd.htlcs := by
      refine (hext.fresh x hx).resolve_right fun hnew => ?_
      rw [hid] at hnew
      rw [hnew] at hlt
      exact UInt64.lt_irrefl _ hlt
    obtain ⟨ch,g,hch,hg,hrest⟩ := hbacked chd x hchd hold hactive hoffered hid
    obtain ⟨ch',hch',hext'⟩ := rel_after (h fw.sender) hch
    exact ⟨ch',g,hch',hext'.subset g hg,hrest⟩
  · exact UInt64.lt_of_lt_of_le hlt hext.next

theorem Resolved.backed {spared : Blob 32 → Prop} (h : Resolved clientIdx spared mgr mgr')
    (hissued : fw.Issued mgr) (hbacked : fw.Backed mgr) : fw.Backed mgr' ∧ fw.Issued mgr' := by
  obtain ⟨chd,hchd,hlt⟩ := hissued
  obtain ⟨chd',hchd',heased⟩ := rel_after (h.eased fw.dest) hchd
  refine ⟨fun chd₀ x hchd₀ hx hactive hoffered hid => ?_,chd',hchd',?_⟩
  · obtain rfl := mem_unique hchd' hchd₀
    have hspared := h.clear fw.dest chd' x hchd' hx hactive hoffered
    obtain ⟨ch,g,hch,hg,hgactive,hreceived,hgid,hhash,hle⟩ :=
      hbacked chd x hchd (heased.subset x hx) hactive hoffered hid
    obtain ⟨ch',hch',heased'⟩ := rel_after (h.eased fw.sender) hch
    have hkept := heased'.kept g hg hgactive ⟨hreceived,.inr (hhash ▸ hspared)⟩
    exact ⟨ch',g,hch',hkept,hgactive,hreceived,hgid,hhash,hle⟩
  · rw [heased.next]
    exact hlt

theorem HubChange.backed (h : HubChange clientIdx mgr mgr' made) (hissued : fw.Issued mgr)
    (hbacked : fw.Backed mgr) : fw.Backed mgr' ∧ fw.Issued mgr' := by
  cases h with
  | resolved _ h => exact h.backed hissued hbacked
  | received _ _ _ hch hch' hgrown _ _ hothers =>
    refine hbacked.extends (fun i => ?_) hissued
    by_cases hi : i = clientIdx
    · rw [hi,hch,hch']
      exact .some hgrown.extends
    · exact rel_mono (hothers i hi) fun _ _ _ hcap => hcap.extends
  | forwarded dest _ _ _ _ _ _ _ hch hch' hchd hchd' hgrown hgrown' _ _ _ _ _ hothers =>
    refine hbacked.extends (fun i => ?_) hissued
    by_cases hi : i = clientIdx
    · rw [hi,hch,hch']
      exact .some hgrown.extends
    by_cases hid : i = dest
    · rw [hid,hchd,hchd']
      exact .some hgrown'.extends
    · exact rel_mono (hothers i hi hid) fun _ _ _ hcap => hcap.extends

theorem HubChange.madeBacked (hok : ChannelsOk mgr) (h : HubChange clientIdx mgr mgr' made) :
    ∀ fw ∈ made, fw.Backed mgr' ∧ fw.Issued mgr' := by
  cases h with
  | resolved => exact fun fw hfw => absurd hfw not_mem_nil
  | received => exact fun fw hfw => absurd hfw not_mem_nil
  | forwarded dest _ ch' chd chd' g h _ _ hch' hchd hchd' hgrown hgrown' hreceived _ hhash hle =>
    intro fw hfw
    obtain rfl := mem_singleton.mp hfw
    have hmem : g ∈ ch'.htlcs := by
      rw [hgrown.appended]
      exact mem_append_right _ (mem_singleton.mpr rfl)
    have hmem' : h ∈ chd'.htlcs := by
      rw [hgrown'.appended]
      exact mem_append_right _ (mem_singleton.mpr rfl)
    refine ⟨fun chd₀ x hchd₀ hx hactive hdirection hid => ?_,chd',hchd',
      hgrown'.ok.ids h hmem' hgrown'.active⟩
    obtain rfl := mem_unique hchd' hchd₀
    -- Older entries have smaller ids, so the forward is the entry just added.
    have hnew : x = h := by
      rw [hgrown'.appended,mem_append,mem_singleton] at hx
      refine hx.resolve_left fun hold => ?_
      have hlt := hok dest chd hchd |>.ids x hold hactive
      rw [hid,hgrown'.id] at hlt
      exact UInt64.lt_irrefl _ hlt
    rw [hnew]
    exact ⟨ch',g,hch',hmem,hgrown.active,hreceived,rfl,hhash,hle⟩

end

section

variable {m : Musig} {s : HubRun} {o : HubOp}

structure HubRun.Ok (s : HubRun) : Prop where
  channels : ChannelsOk s.mgr
  forwards : ∀ fw ∈ s.forwards, fw.Backed s.mgr ∧ fw.Issued s.mgr

theorem HubGuard.change (hok : ChannelsOk s.mgr) (hguard : HubGuard m s o) :
    HubChange o.clientIdx s.mgr (o.handle m s.mgr).mgr
      (forwardsMade s.mgr o.clientIdx (o.handle m s.mgr).actions) := by
  obtain ⟨f,clientIdx,msg⟩ := o
  unfold HubOp.handle lspChannelsHandleMsg
  split_ifs
  · rw [forwardsMade_nil rfl]
    exact .idle hok fun _ => recapped_of_eq rfl
  · cases msg with
    | updateAddHtlc => exact add_change hok hguard
    | updateFulfillHtlc => exact fulfill_change hok hguard
    | updateFailHtlc => exact fail_change hok hguard

theorem HubRun.Ok.step (h : s.Ok) (hguard : HubGuard m s o) : (hubStep m s o).Ok := by
  have hchange := hguard.change h.channels
  refine ⟨hchange.channelsOk h.channels,fun fw hfw => ?_⟩
  rcases mem_append.mp hfw with hnew | hold
  · exact hchange.madeBacked h.channels fw hnew
  · exact hchange.backed (h.forwards fw hold).2 (h.forwards fw hold).1

end

theorem hub_solvent (m : Musig) (mgr : LspMgr) (t : HubRun) (hstart : ChannelsOk mgr)
    (hrun : Runs.Reaches (hubStep m) (HubGuard m) ⟨mgr,[]⟩ t) :
    (∀ fw ∈ t.forwards, fw.Backed t.mgr) ∧
      ∀ o, HubGuard m t o → StepSafe t.mgr (o.handle m t.mgr).mgr o.clientIdx := by
  have hfirst : HubRun.Ok ⟨mgr,[]⟩ := ⟨hstart,fun fw hfw => absurd hfw not_mem_nil⟩
  have hok : t.Ok := hrun.invariant (fun _ _ h hguard => h.step hguard) hfirst
  refine ⟨fun fw hfw => (hok.forwards fw hfw).1,fun o hguard => ?_⟩
  have hchange := hguard.change hok.channels
  exact ⟨fun ch ch' x hch hch' hx hactive hreceived => hchange.own hch hch' hx hactive hreceived,
    hchange.funds⟩

def startRun : HubRun := ⟨LspMgr.sample [lspChannel,lspChannel],[]⟩

def payOp : HubOp :=
  ⟨timedFactory,0,.updateAddHtlc ⟨goodRound,goodRound,true,true⟩ (some payment)⟩

theorem sample_channels_ok : ChannelsOk (LspMgr.sample [lspChannel,lspChannel]) := by
  have hok : ChannelOk lspChannel := ⟨fun h hh => absurd hh not_mem_nil,by decide +kernel⟩
  intro i ch hch
  match i with
  | 0 => exact some.inj hch ▸ hok
  | 1 => exact some.inj hch ▸ hok
  | i+2 => cases hch

theorem payOp_allowed : HubGuard Musig.sample startRun payOp := by
  intro msg ch hadds
  obtain rfl := some.inj hadds.parsed
  obtain rfl := some.inj hadds.found
  refine ⟨by decide,by decide,fun destIdx dest chd terms cltv _ hforward => ?_⟩
  obtain rfl := some.inj hforward.named
  have hfound := hforward.found
  obtain ⟨rfl,rfl⟩ := Prod.mk.inj (some.inj hfound)
  exact ⟨rfl,by decide,by decide⟩

theorem hub_solvent_payment :
    ∃ t, Runs.Reaches (hubStep Musig.sample) (HubGuard Musig.sample) startRun t ∧
      t.forwards = [⟨0,0,1,0⟩] ∧ ∀ fw ∈ t.forwards, fw.Backed t.mgr := by
  have hrun : Runs.Reaches (hubStep Musig.sample) (HubGuard Musig.sample) startRun _ :=
    .single ⟨payOp,payOp_allowed,rfl⟩
  exact ⟨_,hrun,by decide +kernel,(hub_solvent _ _ _ sample_channels_ok hrun).1⟩

def takeBackOp : HubOp := ⟨timedFactory,0,.updateFailHtlc ⟨true,none⟩ (some 0)⟩

theorem hub_payment_taken_back :
    let paid := hubStep Musig.sample startRun payOp
    let taken := hubStep Musig.sample paid takeBackOp
    taken.forwards = [⟨0,0,1,0⟩] ∧ ¬ HubForward.Backed taken.mgr ⟨0,0,1,0⟩ ∧
      hubFunds taken.mgr + (hubOffered taken.mgr - hubOffered paid.mgr) < hubFunds paid.mgr := by
  obtain ⟨chd,hchd,h,hh,hactive,hdirection,hid⟩ : ∃ ch, (hubStep Musig.sample
      (hubStep Musig.sample startRun payOp) takeBackOp).mgr.channel? 1 = some ch ∧
        ∃ h ∈ ch.htlcs, h.isActive = true ∧ h.direction = .offered ∧ h.id = 0 := by
    decide +kernel
  obtain ⟨ch₀,hch₀,hempty⟩ : ∃ ch, (hubStep Musig.sample (hubStep Musig.sample startRun payOp)
      takeBackOp).mgr.channel? 0 = some ch ∧ ch.htlcs = [] := by
    decide +kernel
  refine ⟨by decide +kernel,fun hbacked => ?_,by decide +kernel⟩
  obtain ⟨ch,g,hch,hg,-⟩ := hbacked chd h hchd hh hactive hdirection hid
  obtain rfl : ch₀ = ch := mem_unique hch₀ hch
  rw [hempty] at hg
  exact absurd hg not_mem_nil

end SuperScalar
