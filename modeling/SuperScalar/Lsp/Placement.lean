import SuperScalar.Foundation.Lists
import SuperScalar.Lsp.Forward

namespace SuperScalar

open List Option UInt32 LspMgr

structure Placement where
  incoming : Htlc
  outgoing : Htlc
  wireMsat : ℕ
  wireCltv : UInt32

def Placement.announced (p : Placement) (destIdx : ℕ) : LspAction :=
  .send destIdx (.updateAddHtlc p.outgoing.id p.wireMsat p.outgoing.paymentHash p.wireCltv)

structure ForwardSafe (f : Factory) (p : Placement) : Prop where
  amount : p.outgoing.amountSats ≤ p.incoming.amountSats
  delta : p.outgoing.cltvExpiry.toNat + (lspComputeFactoryCltvDelta f).toNat ≤
    p.incoming.cltvExpiry.toNat
  timeout : p.incoming.cltvExpiry < f.cltvTimeout
  expiry : p.wireCltv = p.outgoing.cltvExpiry
  sats : ofJsonNumber p.wireMsat / 1000 = p.outgoing.amountSats

inductive ForwardPath where
  | add (w : AddWorld) (senderIdx : ℕ) (msg : AddHtlcMsg)
  | replay (worlds : ℕ → ReplayWorld) (reconnectedIdx : ℕ)

structure AddPlaces (m : Musig) (f : Factory) (mgr : LspMgr) (w : AddWorld) (senderIdx : ℕ)
    (msg : AddHtlcMsg) (p : Placement) : Prop where
  received : ∃ ch ch', mgr.channel? senderIdx = some ch ∧
    (handleAddHtlc m f w senderIdx (some msg) mgr).mgr.channel? senderIdx = some ch' ∧
    ch'.htlcs = ch.htlcs ++ [p.incoming]
  offered : ∃ destIdx dest ch ch', destChannel mgr destIdx = some (dest,ch) ∧
    destChannel (handleAddHtlc m f w senderIdx (some msg) mgr).mgr destIdx = some (dest,ch') ∧
    ch'.htlcs = ch.htlcs ++ [p.outgoing] ∧
    p.announced destIdx ∈ (handleAddHtlc m f w senderIdx (some msg) mgr).actions

structure ReplayPlaces (m : Musig) (mgr : LspMgr) (worlds : ℕ → ReplayWorld) (reconnectedIdx : ℕ)
    (p : Placement) : Prop where
  turn : ∃ before r after ch ch',
    (replaySources reconnectedIdx mgr).zipIdx.map (fun q => (q.1,worlds q.2)) =
      before ++ (p.incoming,r) :: after ∧
    (replayAll m reconnectedIdx before mgr).1.channel? reconnectedIdx = some ch ∧
    (replayHtlc m r reconnectedIdx p.incoming
      (replayAll m reconnectedIdx before mgr).1).1.channel? reconnectedIdx = some ch' ∧
    ch'.htlcs = ch.htlcs ++ [p.outgoing] ∧
    p.announced reconnectedIdx ∈ (replayHtlc m r reconnectedIdx p.incoming
      (replayAll m reconnectedIdx before mgr).1).2

def Places (m : Musig) (f : Factory) (mgr : LspMgr) (p : Placement) : ForwardPath → Prop
  | .add w senderIdx msg => AddPlaces m f mgr w senderIdx msg p
  | .replay worlds reconnectedIdx =>
    f.nodes ≠ [] ∧ ReplayPlaces m mgr worlds reconnectedIdx p

def KeepsSats (amountMsat : UInt64) : Prop :=
  ofJsonNumber (jsonNumber amountMsat) / 1000 = amountMsat/1000

def PathSafe (f : Factory) (mgr : LspMgr) : ForwardPath → Prop
  | .add _ _ msg => f.cltvTimeout > 0 ∧ KeepsSats (forwardedMsat mgr.routingFeePpm msg.amountMsat)
  | .replay _ _ => False

section

variable {cltvExpiry factoryCltvTimeout cltvDelta fwdCltvExpiry : UInt32}

theorem lspComputeFactoryCltvDelta_pos (f : Factory) : lspComputeFactoryCltvDelta f ≠ 0 := by
  unfold lspComputeFactoryCltvDelta
  dsimp only
  split_ifs with hnone hpos
  · decide
  · intro hzero
    rw [hzero] at hpos
    exact absurd hpos (by decide)
  · decide

theorem lspValidateCltv_some (hdelta : cltvDelta ≠ 0)
    (h : lspValidateCltvForForward cltvExpiry factoryCltvTimeout cltvDelta = some fwdCltvExpiry) :
    fwdCltvExpiry.toNat + cltvDelta.toNat = cltvExpiry.toNat ∧
      (factoryCltvTimeout > 0 → cltvExpiry < factoryCltvTimeout) := by
  unfold lspValidateCltvForForward at h
  rw [if_neg hdelta] at h
  dsimp only at h
  split_ifs at h with hsmall hlate
  cases h
  have hlt := UInt32.lt_iff_toNat_lt.mp (UInt32.not_le.mp hsmall)
  refine ⟨?_,fun hpos => UInt32.not_le.mp fun hge => hlate ⟨hpos,hge⟩⟩
  rw [UInt32.toNat_sub_of_le _ _ (UInt32.le_of_lt (UInt32.not_le.mp hsmall))]
  omega

end

section

variable {mgr : LspMgr} {i destIdx : ℕ} {dest : DestChannel} {ch ch' : Channel}

theorem destChannel_accrue (feeSats : UInt64) :
    destChannel (mgr.accrue i feeSats) destIdx = destChannel mgr destIdx := by
  have hentry : (mgr.accrue i feeSats).entries[destIdx]? = (mgr.entries[destIdx]?).map (fun e =>
      if i = destIdx then { e with accumulatedFeesSats := e.accumulatedFeesSats + feeSats }
      else e) := by
    unfold accrue
    rw [getElem?_modify]
    cases mgr.entries[destIdx]? <;> rfl
  unfold destChannel
  rw [hentry]
  cases mgr.entries[destIdx]? with
  | none => rfl
  | some =>
    split_ifs <;> rfl

theorem destChannel_setDest (h : destChannel mgr destIdx = some (dest,ch)) :
    destChannel (mgr.setDest destIdx dest ch') destIdx = some (dest,ch') := by
  unfold destChannel at h
  cases hentry : mgr.entries[destIdx]? with
  | none =>
    rw [hentry] at h
    cases h
  | some =>
    rw [hentry] at h
    dsimp only at h
    split_ifs at h with hready
    · obtain ⟨rfl,-⟩ := Prod.mk.inj (some.inj h)
      unfold destChannel setDest setChannel
      rw [getElem?_modify_eq,hentry]
      exact if_pos hready
    · cases hfind : jitChannelFind mgr destIdx with
      | none =>
        rw [hfind] at h
        cases h
      | some k =>
        rw [hfind] at h
        dsimp only at h
        cases hjit : mgr.jitChannels[k]? with
        | none =>
          rw [hjit] at h
          cases h
        | some j =>
          rw [hjit] at h
          dsimp only at h
          split_ifs at h with hopen
          obtain ⟨rfl,-⟩ := Prod.mk.inj (some.inj h)
          have hsame : jitChannelFind (mgr.setJitChannel k ch') destIdx = some k := by
            rw [← hfind]
            apply Lists.findIdx_modify
            intro j
            rfl
          unfold destChannel setDest
          rw [show (mgr.setJitChannel k ch').entries = mgr.entries from rfl,hentry]
          dsimp only
          rw [if_neg hready,hsame]
          rw [setJitChannel]
          dsimp only
          rw [getElem?_modify_eq,hjit]
          exact if_pos hopen

end

section

variable {m : Musig} {f : Factory} {w : AddWorld} {senderIdx : ℕ} {msg : AddHtlcMsg} {mgr : LspMgr}
  {p : Placement}

theorem RouteOutcome.of_announced {added : Channel} {newHtlcId : UInt64} {r : Handled} {a : LspAction}
    (h : RouteOutcome m f w senderIdx msg mgr added newHtlcId r) (ha : a ∈ r.actions) (hadd : a.isAdd = true) :
    ∃ destIdx dest ch ch' terms cltv,
      Forwardable f w senderIdx msg mgr destIdx dest ch terms cltv ∧
      Added .offered terms.amountSats msg.paymentHash cltv ch ch' ∧
      a = announcement destIdx terms.amountMsat msg.paymentHash cltv ch.nextHtlcId ∧
      r.mgr = ((mgr.setChannel senderIdx added).accrue senderIdx terms.feeSats).setDest destIdx
        dest ch' := by
  cases h with
  | kept => cases ha
  | charged => cases ha
  | destRefused => cases ha
  | placed destIdx dest ch ch' terms cltv actions _ hforward hadded hannounced =>
    refine ⟨destIdx,dest,ch,ch',terms,cltv,hforward,hadded,?_,rfl⟩
    have hmem := mem_filter.mpr ⟨ha,hadd⟩
    rw [hannounced] at hmem
    exact mem_singleton.mp hmem
  | bridge =>
    obtain rfl := mem_singleton.mp ha
    cases hadd

theorem AddPlaces.spec (h : AddPlaces m f mgr w senderIdx msg p) :
    ∃ destIdx dest ch terms cltv, Forwardable f w senderIdx msg mgr destIdx dest ch terms cltv ∧
      p.incoming.amountSats = msg.amountMsat/1000 ∧ p.incoming.cltvExpiry = msg.cltvExpiry ∧
      p.outgoing.amountSats = terms.amountSats ∧ p.outgoing.cltvExpiry = cltv ∧
      p.wireMsat = jsonNumber terms.amountMsat ∧ p.wireCltv = cltv := by
  obtain ⟨old,new,hold,hnew,hincoming⟩ := h.received
  obtain ⟨destIdx,dest,ch,ch',hdest,hdest',houtgoing,hannounced⟩ := h.offered
  have houtcome : AddOutcome m f w senderIdx mgr (some msg) _ := handleAddHtlc_outcome (some msg)
  generalize handleAddHtlc m f w senderIdx (some msg) mgr = r at houtcome hnew hdest' hannounced
  cases houtcome with
  | dropped => cases hannounced
  | refused =>
    cases mem_singleton.mp hannounced
  | broken => cases hannounced
  | routed msg' sender added saved r hadds hadded _ hroute hsaved =>
    obtain rfl := some.inj hadds.parsed
    have hsplit := hannounced
    have hmem : p.announced destIdx ∈ r.actions := by
      rcases mem_append.mp hsplit with hs | hr
      · exact absurd rfl (filter_eq_nil_iff.mp hsaved.1 _ hs)
      · exact hr
    obtain ⟨d,dest',chd,chd',terms,cltv,hforward,hplaced,hmsg,hmgr⟩ :=
      hroute.of_announced hmem rfl
    unfold Placement.announced announcement at hmsg
    simp only [LspAction.send.injEq,LspMsg.updateAddHtlc.injEq] at hmsg
    obtain ⟨rfl,-,hmsat,-,hcltv⟩ := hmsg
    obtain ⟨rfl,rfl⟩ := Prod.mk.inj (mem_unique hdest hforward.found)
    have hin : p.incoming =
        newHtlc .received (msg.amountMsat/1000) msg.paymentHash msg.cltvExpiry sender := by
      obtain rfl := mem_unique hold hadds.found
      have hsender := hroute.senderChannel hadds.found
      obtain rfl := mem_unique hnew hsender
      exact Lists.append_one_inj (hincoming.symm.trans hadded.appended)
    have hout : p.outgoing =
        newHtlc .offered terms.amountSats msg.paymentHash cltv ch := by
      have hset : destChannel r.mgr destIdx = some (dest,chd') := by
        have hprior : destChannel ((mgr.setChannel senderIdx added).accrue senderIdx
            terms.feeSats) destIdx = some (dest,ch) := by
          rw [destChannel_accrue,destChannel_setChannel (Ne.symm hforward.other)]
          exact hforward.found
        rw [hmgr]
        exact destChannel_setDest hprior
      obtain rfl := (Prod.mk.inj (mem_unique hdest' hset)).2
      exact Lists.append_one_inj (houtgoing.symm.trans hplaced.appended)
    rw [hin,hout]
    exact ⟨destIdx,dest,ch,terms,cltv,hforward,rfl,rfl,rfl,rfl,hmsat,hcltv⟩

theorem replayHtlc_places {r : ReplayWorld} {idx : ℕ} {h : Htlc} {ch ch' : Channel}
    {outgoing : Htlc} (hch : mgr.channel? idx = some ch)
    (hch' : (replayHtlc m r idx h mgr).1.channel? idx = some ch')
    (houtgoing : ch'.htlcs = ch.htlcs ++ [outgoing]) : outgoing.cltvExpiry = h.cltvExpiry := by
  have hkept (cap : ℕ) (heq : ch' = { ch with htlcsCap := cap }) : False := by
    rw [heq] at houtgoing
    have hlen := congrArg length houtgoing
    simp at hlen
  unfold replayHtlc at hch'
  rw [hch] at hch'
  dsimp only at hch'
  split_ifs at hch'
  · exact (hkept ch.htlcsCap (mem_unique hch' hch)).elim
  · exact (hkept ch.htlcsCap (mem_unique hch' hch)).elim
  · by_cases hadd : AddAccepted ch .offered h.amountSats ∧ HasSlot r.dest.grow ch
    · obtain ⟨placed,actions,ok,heq,hadded,-,-⟩ := placeHtlc_placed hadd.1 hadd.2
      rw [heq,channel_setChannel_self hch] at hch'
      obtain rfl := some.inj hch'
      rw [Lists.append_one_inj (houtgoing.symm.trans hadded.appended)]
      rfl
    · obtain ⟨cap,heq⟩ := placeHtlc_refused hadd
      rw [heq,channel_setChannel_self hch] at hch'
      exact (hkept cap (some.inj hch').symm).elim

end

theorem forward_safe_iff (m : Musig) (f : Factory) (mgr : LspMgr) (path : ForwardPath)
    (p : Placement) (h : Places m f mgr p path) : ForwardSafe f p ↔ PathSafe f mgr path := by
  have hdelta := lspComputeFactoryCltvDelta_pos f
  cases path with
  | add w senderIdx msg =>
    obtain ⟨destIdx,dest,ch,terms,cltv,hforward,hinSats,hinCltv,houtSats,houtCltv,hmsat,
      hcltv⟩ := AddPlaces.spec h
    obtain ⟨htermsMsat,htermsSats,hle⟩ := forwardTerms_some hforward.priced
    obtain ⟨hsum,htimeout⟩ := lspValidateCltv_some hdelta hforward.timely
    have hsats : ofJsonNumber p.wireMsat / 1000 = p.outgoing.amountSats ↔
        KeepsSats (forwardedMsat mgr.routingFeePpm msg.amountMsat) := by
      rw [hmsat,houtSats,htermsMsat,htermsSats]
      rfl
    constructor
    · intro hsafe
      refine ⟨?_,hsats.mp hsafe.sats⟩
      exact UInt32.lt_of_le_of_lt (UInt32.zero_le) hsafe.timeout
    · rintro ⟨hpos,hkeeps⟩
      refine ⟨?_,?_,?_,hcltv.trans houtCltv.symm,hsats.mpr hkeeps⟩
      · rw [houtSats,hinSats,htermsSats]
        exact div_thousand_le hle
      · rw [houtCltv,hinCltv,hsum]
      · rw [hinCltv]
        exact htimeout hpos
  | replay worlds reconnectedIdx =>
    obtain ⟨before,r,after,ch,ch',-,hch,hch',houtgoing,-⟩ := h.2.turn
    have hexpiry := replayHtlc_places hch hch' houtgoing
    refine iff_of_false (fun hsafe => ?_) id
    have hsum := hsafe.delta
    rw [hexpiry] at hsum
    have hpos : (lspComputeFactoryCltvDelta f).toNat ≠ 0 := fun hzero =>
      hdelta (UInt32.toNat_inj.mp hzero)
    omega

def paymentForward : Placement where
  incoming := newHtlc .received 20000 (Blob.zero 32) 500 lspChannel
  outgoing := newHtlc .offered 19980 (Blob.zero 32) 460 lspChannel
  wireMsat := 19980000
  wireCltv := 460

theorem forward_safe_payment :
    Places Musig.sample timedFactory (sample [lspChannel,lspChannel]) paymentForward
        (.add ⟨goodRound,goodRound,true,true⟩ 0 payment) ∧
      ForwardSafe timedFactory paymentForward := by
  have hplaces : Places Musig.sample timedFactory (sample [lspChannel,lspChannel])
      paymentForward (.add ⟨goodRound,goodRound,true,true⟩ 0 payment) := by
    obtain ⟨ch,hch,hgrown⟩ : ∃ ch, (handleAddHtlc Musig.sample timedFactory
        ⟨goodRound,goodRound,true,true⟩ 0 (some payment)
        (sample [lspChannel,lspChannel])).mgr.channel? 0 = some ch ∧
          ch.htlcs = lspChannel.htlcs ++ [paymentForward.incoming] := by
      decide +kernel
    obtain ⟨⟨dest,ch'⟩,hdest,rfl,hgrown'⟩ : ∃ q, destChannel (handleAddHtlc Musig.sample
        timedFactory ⟨goodRound,goodRound,true,true⟩ 0 (some payment)
        (sample [lspChannel,lspChannel])).mgr 1 = some q ∧ q.1 = .factory ∧
          q.2.htlcs = lspChannel.htlcs ++ [paymentForward.outgoing] := by
      decide +kernel
    exact ⟨⟨lspChannel,ch,rfl,hch,hgrown⟩,
      ⟨1,.factory,lspChannel,ch',rfl,hdest,hgrown',by decide +kernel⟩⟩
  refine ⟨hplaces,(forward_safe_iff _ _ _ _ _ hplaces).mpr ⟨by decide,?_⟩⟩
  unfold KeepsSats
  rw [jsonNumber_roundtrip (by decide)]

def waitingChannel : Channel :=
  { lspChannel with
    htlcs := [newHtlc .received 20000 (Blob.zero 32) 500 lspChannel]
    nextHtlcId := 1 }

def waitingMgr : LspMgr :=
  { sample [waitingChannel,lspChannel] with invoices := [⟨Blob.zero 32,1,true⟩] }

def replayedForward : Placement where
  incoming := newHtlc .received 20000 (Blob.zero 32) 500 lspChannel
  outgoing := newHtlc .offered 20000 (Blob.zero 32) 500 lspChannel
  wireMsat := 20000
  wireCltv := 500

theorem forward_unsafe_replay :
    ∃ f, factoryBuildTree Env.sample timedFactory = some f ∧
      Places Musig.sample f waitingMgr replayedForward (.replay (fun _ => ⟨goodRound,true⟩) 1) ∧
      replayedForward.outgoing.cltvExpiry = replayedForward.incoming.cltvExpiry ∧
      ofJsonNumber replayedForward.wireMsat / 1000 = 20 ∧ ¬ ForwardSafe f replayedForward := by
  obtain ⟨f,hf,hnodes⟩ : ∃ f, factoryBuildTree Env.sample timedFactory = some f ∧
      f.nodes ≠ [] := by
    decide +kernel
  obtain ⟨ch,hch,hgrown⟩ : ∃ ch, (replayHtlc Musig.sample ⟨goodRound,true⟩ 1
      replayedForward.incoming waitingMgr).1.channel? 1 = some ch ∧
        ch.htlcs = lspChannel.htlcs ++ [replayedForward.outgoing] := by
    decide +kernel
  refine ⟨f,hf,⟨hnodes,⟨[],⟨goodRound,true⟩,[],lspChannel,ch,rfl,rfl,hch,hgrown,
    by decide +kernel⟩⟩,rfl,by decide,fun hsafe => ?_⟩
  exact absurd hsafe.sats (by decide)

end SuperScalar
