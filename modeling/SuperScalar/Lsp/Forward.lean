import SuperScalar.Lsp.Manager

namespace SuperScalar

open List Option UInt64 LspAction LspMgr

section

def lspComputeFactoryCltvDelta (f : Factory) : UInt32 :=
  if f.counter.nLayers = 0 then factoryCltvDeltaDefault
  else
    let total := f.counter.layers.foldl (fun total layer =>
      let waited :=
        if layer.maxStates > 1 then total + layer.stepBlocks.toUInt32*(layer.maxStates-1)
        else total
      waited + 6) 0 + 36
    if total > 0 then total else factoryCltvDeltaDefault

def lspValidateCltvForForward (cltvExpiry factoryCltvTimeout cltvDelta : UInt32) : Option UInt32 :=
  let cltvDelta := if cltvDelta = 0 then factoryCltvDeltaDefault else cltvDelta
  if cltvExpiry ≤ cltvDelta then none
  else if factoryCltvTimeout > 0 ∧ cltvExpiry ≥ factoryCltvTimeout then none
  else some (cltvExpiry-cltvDelta)

structure ForwardTerms where
  amountSats : UInt64
  amountMsat : UInt64
  feeSats : UInt64
deriving DecidableEq

def routingFeeMsat (routingFeePpm amountMsat : UInt64) : UInt64 :=
  (amountMsat*routingFeePpm+999999) / 1000000

def forwardTerms (routingFeePpm amountMsat : UInt64) : Option ForwardTerms :=
  if routingFeePpm > 0 then
    let feeMsat := routingFeeMsat routingFeePpm amountMsat
    if feeMsat ≥ amountMsat then none
    else
      let fwdMsat := amountMsat-feeMsat
      if fwdMsat/1000 = 0 then none
      else some ⟨fwdMsat/1000,fwdMsat,(feeMsat+999)/1000⟩
  else some ⟨amountMsat/1000,amountMsat,0⟩

def forwardedMsat (routingFeePpm amountMsat : UInt64) : UInt64 :=
  if routingFeePpm > 0 then amountMsat - routingFeeMsat routingFeePpm amountMsat else amountMsat

variable {routingFeePpm amountMsat : UInt64} {terms : ForwardTerms}

theorem forwardTerms_some (h : forwardTerms routingFeePpm amountMsat = some terms) :
    terms.amountMsat = forwardedMsat routingFeePpm amountMsat ∧
      terms.amountSats = forwardedMsat routingFeePpm amountMsat / 1000 ∧
      forwardedMsat routingFeePpm amountMsat ≤ amountMsat := by
  unfold forwardTerms at h
  unfold forwardedMsat
  dsimp only at h
  split_ifs at h with hppm hfee hzero
  · cases h
    rw [if_pos hppm]
    refine ⟨rfl,rfl,?_⟩
    rw [UInt64.le_iff_toNat_le,UInt64.toNat_sub_of_le _ _ (UInt64.le_of_lt (UInt64.not_le.mp hfee))]
    exact Nat.sub_le _ _
  · cases h
    rw [if_neg hppm]
    exact ⟨rfl,rfl,UInt64.le_refl _⟩

theorem div_thousand_le {a b : UInt64} (h : a ≤ b) : a/1000 ≤ b/1000 := by
  rw [le_iff_toNat_le] at h ⊢
  exact Nat.div_le_div_right h

end

section

variable (m : Musig) (f : Factory)

structure AddHtlcMsg where
  htlcId : UInt64
  amountMsat : UInt64
  paymentHash : Blob 32
  cltvExpiry : UInt32
  destClient : Option ℕ
  bolt11 : Option String
deriving DecidableEq

structure AddWorld where
  sender : Round
  dest : Round
  sentAdd : Bool
  sentPay : Bool

variable (w : AddWorld) (senderIdx : ℕ) (msg : AddHtlcMsg)

def savedBalance (i : ℕ) (ch : Channel) : LspAction :=
  .saveBalance i ch.localAmount ch.remoteAmount ch.commitmentNumber

def persistedHtlc (direction : HtlcDirection) (amountSats : UInt64) (paymentHash : Blob 32)
    (cltvExpiry : UInt32) (id : UInt64) : Htlc :=
  { direction := direction
    state := .active
    amountSats := amountSats
    paymentHash := paymentHash
    paymentPreimage := Blob.zero 32
    cltvExpiry := cltvExpiry
    id := id
    feeAtAdd := 0 }

def placeHtlc (r : Round) (sentAdd : Bool) (destIdx : ℕ) (amountSats amountMsat : UInt64)
    (paymentHash : Blob 32) (cltvExpiry : UInt32) (ch : Channel) :
    Channel × List LspAction × Bool :=
  match channelAddHtlc .offered amountSats paymentHash cltvExpiry r.grow r.draw ch with
  | (ch,none) => (ch,[],false)
  | (ch,some destHtlcId) =>
    let actions :=
      [.saveHtlc destIdx (persistedHtlc .offered amountSats paymentHash cltvExpiry destHtlcId),
        .send destIdx (.updateAddHtlc destHtlcId (jsonNumber amountMsat) paymentHash cltvExpiry)]
    if !sentAdd then (ch,actions,false)
    else
      match commitChannel m true r ch with
      | (ch,false) => (ch,actions,false)
      | (ch,true) => (ch,actions ++ [savedBalance destIdx ch],true)

def forwardHtlc (destIdx : ℕ) (dest : DestChannel) (ch : Channel) (mgr : LspMgr) : Handled :=
  if w.dest.snapshotFails ch.htlcs.length then ⟨mgr,[],false⟩
  else
    match forwardTerms mgr.routingFeePpm msg.amountMsat with
    | none => ⟨mgr,[],false⟩
    | some terms =>
      let mgr := mgr.accrue senderIdx terms.feeSats
      match lspValidateCltvForForward msg.cltvExpiry f.cltvTimeout
        (lspComputeFactoryCltvDelta f) with
      | none => ⟨mgr,[],false⟩
      | some fwdCltvExpiry =>
        let placed := placeHtlc m w.dest w.sentAdd destIdx terms.amountSats terms.amountMsat
          msg.paymentHash fwdCltvExpiry ch
        ⟨mgr.setDest destIdx dest placed.1,placed.2.1,placed.2.2⟩

def routeToBridge (bolt11 : String) (newHtlcId : UInt64) (mgr : LspMgr) : Handled :=
  let requestId := mgr.nextRequestId
  let mgr := { mgr with nextRequestId := requestId+1 }
  let pay := sendPay bolt11 msg.paymentHash requestId
  if !w.sentPay then ⟨mgr,[pay],false⟩
  else
    let tracked := lspChannelsTrackBridgeOrigin msg.paymentHash 0 mgr
    ⟨{ tracked with
        htlcOrigins := tracked.htlcOrigins.modify (tracked.htlcOrigins.length-1) (fun o =>
          { o with requestId := requestId, senderIdx := senderIdx, senderHtlcId := newHtlcId }) },
      [pay],true⟩

def routeHtlc (newHtlcId : UInt64) (mgr : LspMgr) : Handled :=
  match msg.destClient with
  | none =>
    match msg.bolt11 with
    | none => ⟨mgr,[],false⟩
    | some bolt11 =>
      if mgr.bridgeConnected then routeToBridge w senderIdx msg bolt11 newHtlcId mgr
      else ⟨mgr,[],false⟩
  | some destIdx =>
    if destIdx ≥ mgr.entries.length ∨ destIdx = senderIdx then ⟨mgr,[],false⟩
    else
      match destChannel mgr destIdx with
      | none => ⟨mgr,[],false⟩
      | some (dest,ch) => forwardHtlc m f w senderIdx msg destIdx dest ch mgr

def handleAddHtlc (parsed : Option AddHtlcMsg) (mgr : LspMgr) : Handled :=
  match parsed, mgr.channel? senderIdx with
  | some msg, some ch =>
    let amountSats := msg.amountMsat/1000
    if amountSats = 0 then ⟨mgr,[],false⟩
    else if w.sender.snapshotFails (ch.htlcs.length+ch.ptlcs.length) then ⟨mgr,[],false⟩
    else
      match channelAddHtlc .received amountSats msg.paymentHash msg.cltvExpiry w.sender.grow
        w.sender.draw ch with
      | (ch,none) =>
        ⟨mgr.setChannel senderIdx ch,
          [.send senderIdx (.updateFailHtlc msg.htlcId "insufficient funds")],true⟩
      | (ch,some newHtlcId) =>
        match commitChannel m true w.sender ch with
        | (ch,false) => ⟨mgr.setChannel senderIdx ch,[],false⟩
        | (ch,true) =>
          (routeHtlc m f w senderIdx msg newHtlcId (mgr.setChannel senderIdx ch)).after
            [savedBalance senderIdx ch,.saveHtlc senderIdx (persistedHtlc .received amountSats
              msg.paymentHash msg.cltvExpiry newHtlcId)]
  | _, _ => ⟨mgr,[],false⟩

structure ReplayWorld where
  dest : Round
  sentAdd : Bool

def alreadyForwarded (h : Htlc) (dest : Channel) : Bool :=
  dest.htlcs.any (fun x => x.isActive && x.paymentHash = h.paymentHash)

def replayable (mgr : LspMgr) (reconnectedIdx : ℕ) (dest : Channel) (h : Htlc) : Bool :=
  h.isActive && h.direction = .received &&
    lspChannelsLookupInvoice mgr h.paymentHash = some reconnectedIdx && !alreadyForwarded h dest

def replayHtlc (r : ReplayWorld) (reconnectedIdx : ℕ) (h : Htlc) (mgr : LspMgr) :
    LspMgr × List LspAction :=
  match mgr.channel? reconnectedIdx with
  | none => (mgr,[])
  | some dest =>
    if !replayable mgr reconnectedIdx dest h then (mgr,[])
    else if r.dest.snapshotFails dest.htlcs.length then (mgr,[])
    else
      let placed := placeHtlc m r.dest r.sentAdd reconnectedIdx h.amountSats h.amountSats
        h.paymentHash h.cltvExpiry dest
      (mgr.setChannel reconnectedIdx placed.1,placed.2.1)

-- Only the reconnected client's channel changes, so the sources can be listed beforehand.
def replaySources (reconnectedIdx : ℕ) (mgr : LspMgr) : List Htlc :=
  (mgr.entries.eraseIdx reconnectedIdx).flatMap (fun e => e.channel.htlcs)

def replayAll (reconnectedIdx : ℕ) : List (Htlc × ReplayWorld) → LspMgr → LspMgr × List LspAction
  | [], mgr => (mgr,[])
  | (h,r) :: rest, mgr =>
    let first := replayHtlc m r reconnectedIdx h mgr
    let later := replayAll reconnectedIdx rest first.1
    (later.1,first.2 ++ later.2)

end

section

variable {mgr : LspMgr} {i j : ℕ} {ch : Channel}

theorem entries_setChannel_other (h : i ≠ j) :
    (mgr.setChannel i ch).entries[j]? = mgr.entries[j]? :=
  getElem?_modify_ne _ _ h

theorem channel_setChannel_self {old : Channel} (h : mgr.channel? i = some old) :
    (mgr.setChannel i ch).channel? i = some ch := by
  obtain ⟨e,he,-⟩ := map_eq_some_iff.mp h
  rw [channel?,setChannel]
  rw [getElem?_modify_eq,he]
  rfl

theorem channel_setChannel_other (h : i ≠ j) :
    (mgr.setChannel i ch).channel? j = mgr.channel? j := by
  simp only [channel?,entries_setChannel_other h]

theorem rel_setChannel {R : Channel → Channel → Prop} {old : Channel}
    (hold : mgr.channel? i = some old) (h : R old ch) (hrefl : ∀ x, R x x) (j : ℕ) :
    Rel R (mgr.channel? j) ((mgr.setChannel i ch).channel? j) := by
  by_cases hj : i = j
  · subst hj
    rw [channel_setChannel_self hold,hold]
    exact .some h
  · exact rel_of_eq (channel_setChannel_other hj).symm hrefl

@[simp] theorem length_setChannel : (mgr.setChannel i ch).entries.length = mgr.entries.length :=
  length_modify _ _ _

theorem channel_mapChannels (change : ℕ → Channel → Channel) (c : ℕ) :
    (mgr.mapChannels change).channel? c = (mgr.channel? c).map (change c) := by
  simp only [channel?,mapChannels]
  simp only [List.getElem?_mapIdx,Option.map_map]
  rfl

@[simp] theorem channel_accrue (feeSats : UInt64) :
    (mgr.accrue i feeSats).channel? j = mgr.channel? j := by
  rw [channel?,accrue,channel?]
  rw [getElem?_modify]
  cases mgr.entries[j]? with
  | none => rfl
  | some => split_ifs <;> rfl

theorem destChannel_setChannel (h : i ≠ j) :
    destChannel (mgr.setChannel i ch) j = destChannel mgr j := by
  unfold destChannel
  rw [entries_setChannel_other h]
  rfl

variable {dest : DestChannel}

theorem channel_setDest_other {destIdx i : ℕ} {ch : Channel} (h : destIdx ≠ i) :
    (mgr.setDest destIdx dest ch).channel? i = mgr.channel? i := by
  cases dest with
  | factory => exact channel_setChannel_other h
  | jit => rfl

theorem counters_setChannel : (mgr.setChannel i ch).counters = mgr.counters := by
  refine ext_getElem? fun k => ?_
  unfold counters
  simp only [getElem?_map]
  by_cases hik : i = k
  · subst hik
    unfold setChannel
    rw [getElem?_modify_eq]
    cases mgr.entries[i]? <;> rfl
  · rw [entries_setChannel_other hik]

theorem counters_setDest : (mgr.setDest i dest ch).counters = mgr.counters := by
  cases dest with
  | factory => exact counters_setChannel
  | jit => rfl

theorem counters_accrue (feeSats : UInt64) :
    (mgr.accrue i feeSats).counters = mgr.counters.modify i (· + feeSats) := by
  refine ext_getElem? fun k => ?_
  unfold counters accrue
  simp only [getElem?_map,getElem?_modify]
  cases mgr.entries[k]? with
  | none => rfl
  | some =>
    split_ifs <;> rfl

end

section

variable {m : Musig} {r : Round} {sentAdd : Bool} {destIdx : ℕ} {amountSats amountMsat : UInt64}
  {paymentHash : Blob 32} {cltvExpiry : UInt32} {ch ch' : Channel}

structure Added (direction : HtlcDirection) (amountSats : UInt64) (paymentHash : Blob 32)
    (cltvExpiry : UInt32) (ch ch' : Channel) : Prop where
  accepted : AddAccepted ch direction amountSats
  effect : ∃ cap draw, SameFunds (({ ch with htlcsCap := cap }.withHtlc
    (newHtlc direction amountSats paymentHash cltvExpiry ch)).nextCommitment draw) ch'

variable {direction : HtlcDirection}

section

variable (h : Added direction amountSats paymentHash cltvExpiry ch ch')

include h

theorem Added.same {ch'' : Channel}
    (h' : SameFunds ch' ch'') : Added direction amountSats paymentHash cltvExpiry ch ch'' := by
  obtain ⟨cap,draw,heq⟩ := h.effect
  exact ⟨h.accepted,cap,draw,heq.trans h'⟩

theorem Added.appended :
    ch'.htlcs = ch.htlcs ++ [newHtlc direction amountSats paymentHash cltvExpiry ch] := by
  obtain ⟨cap,draw,heq⟩ := h.effect
  exact heq.htlcs.trans (nextCommitment_sameHtlcs _ draw).htlcs

end

def announcement (destIdx : ℕ) (amountMsat : UInt64) (paymentHash : Blob 32) (cltvExpiry : UInt32)
    (id : UInt64) : LspAction :=
  .send destIdx (.updateAddHtlc id (jsonNumber amountMsat) paymentHash cltvExpiry)

def LspAction.isAdd : LspAction → Bool
  | .send _ (.updateAddHtlc _ _ _ _) => true
  | _ => false

def LspAction.isPay : LspAction → Bool
  | .sendPay _ _ _ => true
  | _ => false

def rowSats (direction : HtlcDirection) (actions : List LspAction) : ℕ :=
  (actions.map (fun a =>
    match a with
    | .saveHtlc _ h => if h.direction = direction then h.amountSats.toNat else 0
    | _ => 0)).sum

theorem placeHtlc_refused (h : ¬ (AddAccepted ch .offered amountSats ∧ HasSlot r.grow ch)) :
    ∃ cap, placeHtlc m r sentAdd destIdx amountSats amountMsat paymentHash cltvExpiry ch =
      ({ ch with htlcsCap := cap },[],false) := by
  obtain ⟨cap,heq⟩ := channelAddHtlc_refused h
  refine ⟨cap,?_⟩
  unfold placeHtlc
  rw [heq]

theorem placeHtlc_placed (h : AddAccepted ch .offered amountSats) (hslot : HasSlot r.grow ch) :
    ∃ ch' actions ok,
      placeHtlc m r sentAdd destIdx amountSats amountMsat paymentHash cltvExpiry ch =
        (ch',actions,ok) ∧
      Added .offered amountSats paymentHash cltvExpiry ch ch' ∧
      actions.filter isAdd =
        [announcement destIdx amountMsat paymentHash cltvExpiry ch.nextHtlcId] ∧
      actions.any isPay = false ∧
      rowSats .offered actions = amountSats.toNat ∧ rowSats .received actions = 0 := by
  obtain ⟨cap,heq⟩ := channelAddHtlc_added h hslot
  have hadded : Added .offered amountSats paymentHash cltvExpiry ch _ :=
    ⟨h,cap,r.draw,SameFunds.refl _⟩
  unfold placeHtlc
  rw [heq]
  dsimp only
  split_ifs
  · exact ⟨_,_,_,rfl,hadded,rfl,rfl,rfl,rfl⟩
  · have hsame := commitChannel_sameFunds (m := m) true r
      (({ ch with htlcsCap := cap }.withHtlc
        (newHtlc .offered amountSats paymentHash cltvExpiry ch)).nextCommitment r.draw)
    cases hcommit : commitChannel m true r (({ ch with htlcsCap := cap }.withHtlc
        (newHtlc .offered amountSats paymentHash cltvExpiry ch)).nextCommitment r.draw) with
    | mk ch'' ok =>
      rw [hcommit] at hsame
      cases ok with
      | false => exact ⟨_,_,_,rfl,hadded.same hsame,rfl,rfl,rfl,rfl⟩
      | true => exact ⟨_,_,_,rfl,hadded.same hsame,rfl,rfl,rfl,rfl⟩

end

def trackedOrigins (paymentHash : Blob 32) (bridgeHtlcId : UInt64) (cap : ℕ)
    (origins : List HtlcOrigin) : List HtlcOrigin :=
  match origins.findIdx? (fun o => !o.active) with
  | some i => origins.modify i (fun o =>
      { o with
        paymentHash := paymentHash
        bridgeHtlcId := bridgeHtlcId
        cltvExpiry := 0
        active := true })
  | none =>
    if origins.length ≥ cap then origins
    else origins ++ [⟨paymentHash,bridgeHtlcId,0,0,0,0,true⟩]

def recordedPay (paymentHash : Blob 32) (requestId : UInt64) (senderIdx : ℕ) (htlcId : UInt64)
    (cap : ℕ) (origins : List HtlcOrigin) : List HtlcOrigin :=
  let tracked := trackedOrigins paymentHash 0 cap origins
  tracked.modify (tracked.length-1) (fun o =>
    { o with requestId := requestId, senderIdx := senderIdx, senderHtlcId := htlcId })

section

variable (m : Musig) (f : Factory) (w : AddWorld) (senderIdx : ℕ) (msg : AddHtlcMsg) (mgr : LspMgr)

structure Accrues (destIdx : ℕ) (dest : DestChannel) (ch : Channel) (terms : ForwardTerms) :
    Prop where
  named : msg.destClient = some destIdx
  other : destIdx ≠ senderIdx
  found : destChannel mgr destIdx = some (dest,ch)
  snapshot : w.dest.snapshotFails ch.htlcs.length = false
  priced : forwardTerms mgr.routingFeePpm msg.amountMsat = some terms

structure Forwardable (destIdx : ℕ) (dest : DestChannel) (ch : Channel) (terms : ForwardTerms)
    (fwdCltvExpiry : UInt32) : Prop extends
    Accrues w senderIdx msg mgr destIdx dest ch terms where
  timely : lspValidateCltvForForward msg.cltvExpiry f.cltvTimeout
    (lspComputeFactoryCltvDelta f) = some fwdCltvExpiry
  accepted : AddAccepted ch .offered terms.amountSats
  slot : HasSlot w.dest.grow ch

structure Bridgeable : Prop where
  unnamed : msg.destClient = none
  invoiced : msg.bolt11.isSome = true
  connected : mgr.bridgeConnected = true
  sent : w.sentPay = true

def Routable : Prop :=
  (∃ destIdx dest ch terms fwdCltvExpiry,
    Forwardable f w senderIdx msg mgr destIdx dest ch terms fwdCltvExpiry) ∨ Bridgeable w msg mgr

-- How routing ends once the sender's channel has become `added`.
inductive RouteOutcome (added : Channel) (newHtlcId : UInt64) : Handled → Prop
  | kept (hroute : ¬ Routable f w senderIdx msg mgr) :
      RouteOutcome added newHtlcId ⟨mgr.setChannel senderIdx added,[],false⟩
  | charged (destIdx : ℕ) (dest : DestChannel) (ch : Channel) (terms : ForwardTerms)
      (hroute : ¬ Routable f w senderIdx msg mgr)
      (haccrues : Accrues w senderIdx msg mgr destIdx dest ch terms) :
      RouteOutcome added newHtlcId
        ⟨(mgr.setChannel senderIdx added).accrue senderIdx terms.feeSats,[],false⟩
  | destRefused (destIdx : ℕ) (dest : DestChannel) (ch : Channel) (terms : ForwardTerms) (cap : ℕ)
      (hroute : ¬ Routable f w senderIdx msg mgr)
      (haccrues : Accrues w senderIdx msg mgr destIdx dest ch terms) :
      RouteOutcome added newHtlcId
        ⟨((mgr.setChannel senderIdx added).accrue senderIdx terms.feeSats).setDest destIdx dest
          { ch with htlcsCap := cap },[],false⟩
  | placed (destIdx : ℕ) (dest : DestChannel) (ch ch' : Channel) (terms : ForwardTerms)
      (fwdCltvExpiry : UInt32) (actions : List LspAction) (ok : Bool)
      (hforward : Forwardable f w senderIdx msg mgr destIdx dest ch terms fwdCltvExpiry)
      (hadded : Added .offered terms.amountSats msg.paymentHash fwdCltvExpiry ch ch')
      (hannounced : actions.filter isAdd =
        [announcement destIdx terms.amountMsat msg.paymentHash fwdCltvExpiry ch.nextHtlcId])
      (hpay : actions.any isPay = false)
      (hrows : rowSats .offered actions = terms.amountSats.toNat ∧ rowSats .received actions = 0)
      (hplace : placeHtlc m w.dest w.sentAdd destIdx terms.amountSats terms.amountMsat
        msg.paymentHash fwdCltvExpiry ch = (ch',actions,ok)) :
      RouteOutcome added newHtlcId
        ⟨((mgr.setChannel senderIdx added).accrue senderIdx terms.feeSats).setDest destIdx dest ch',
          actions,ok⟩
  | bridge (origins : List HtlcOrigin) (bolt11 : String)
      (hroute : Routable f w senderIdx msg mgr ↔ w.sentPay = true)
      (hbridge : w.sentPay = true → Bridgeable w msg mgr)
      (horigins : origins = if w.sentPay then
        recordedPay msg.paymentHash mgr.nextRequestId senderIdx newHtlcId mgr.htlcOriginsCap
          mgr.htlcOrigins else mgr.htlcOrigins) :
      RouteOutcome added newHtlcId
        ⟨{ mgr.setChannel senderIdx added with
            nextRequestId := mgr.nextRequestId+1
            htlcOrigins := origins },[.sendPay bolt11 msg.paymentHash mgr.nextRequestId],w.sentPay⟩

structure SenderAdds (parsed : Option AddHtlcMsg) (ch : Channel) : Prop where
  parsed : parsed = some msg
  found : mgr.channel? senderIdx = some ch
  amount : msg.amountMsat/1000 ≠ 0
  snapshot : w.sender.snapshotFails (ch.htlcs.length+ch.ptlcs.length) = false
  accepted : AddAccepted ch .received (msg.amountMsat/1000)
  slot : HasSlot w.sender.grow ch

def SenderCommits (ch : Channel) : Prop :=
  (commitChannel m true w.sender (channelAddHtlc .received (msg.amountMsat/1000) msg.paymentHash
    msg.cltvExpiry w.sender.grow w.sender.draw ch).1).2 = true

inductive AddOutcome (parsed : Option AddHtlcMsg) : Handled → Prop
  | dropped (hadds : ∀ msg ch, ¬ SenderAdds w senderIdx msg mgr parsed ch) :
      AddOutcome parsed ⟨mgr,[],false⟩
  | refused (msg : AddHtlcMsg) (ch : Channel) (cap : ℕ)
      (hadds : ∀ msg ch, ¬ SenderAdds w senderIdx msg mgr parsed ch)
      (hfound : mgr.channel? senderIdx = some ch) :
      AddOutcome parsed ⟨mgr.setChannel senderIdx { ch with htlcsCap := cap },
        [.send senderIdx (.updateFailHtlc msg.htlcId "insufficient funds")],true⟩
  | broken (msg : AddHtlcMsg) (ch ch' : Channel) (hadds : SenderAdds w senderIdx msg mgr parsed ch)
      (hadded : Added .received (msg.amountMsat/1000) msg.paymentHash msg.cltvExpiry ch ch')
      (hcommit : ¬ SenderCommits m w msg ch) :
      AddOutcome parsed ⟨mgr.setChannel senderIdx ch',[],false⟩
  | routed (msg : AddHtlcMsg) (ch ch' : Channel) (saved : List LspAction) (r : Handled)
      (hadds : SenderAdds w senderIdx msg mgr parsed ch)
      (hadded : Added .received (msg.amountMsat/1000) msg.paymentHash msg.cltvExpiry ch ch')
      (hcommit : SenderCommits m w msg ch) (hroute : RouteOutcome m f w senderIdx msg mgr ch' ch.nextHtlcId r)
      (hsaved : saved.filter isAdd = [] ∧ saved.any isPay = false)
      (hrows : rowSats .received saved = (msg.amountMsat/1000).toNat ∧ rowSats .offered saved = 0)
      (hwrites : saved = [savedBalance senderIdx ch',.saveHtlc senderIdx (persistedHtlc .received
        (msg.amountMsat/1000) msg.paymentHash msg.cltvExpiry ch.nextHtlcId)]) :
      AddOutcome parsed (r.after saved)

variable {m f w senderIdx msg mgr}

variable {destIdx : ℕ} {dest : DestChannel} {ch added : Channel} {newHtlcId : UInt64}

theorem not_routable_of_no_dest (hdest : msg.destClient = some destIdx)
    (h : destIdx = senderIdx ∨ destChannel mgr destIdx = none) :
    ¬ Routable f w senderIdx msg mgr := by
  rintro (⟨d,dest,ch,terms,cltv,hf⟩ | hb)
  · obtain rfl := mem_unique hdest hf.named
    rcases h with heq | hnone
    · exact hf.other heq
    · rw [hf.found] at hnone
      cases hnone
  · rw [hb.unnamed] at hdest
    cases hdest

theorem Forwardable.unique {d : ℕ} {dest' : DestChannel} {ch' : Channel} {terms : ForwardTerms}
    {cltv : UInt32} (h : Forwardable f w senderIdx msg mgr d dest' ch' terms cltv)
    (hdest : msg.destClient = some destIdx) (hfound : destChannel mgr destIdx = some (dest,ch)) :
    destIdx = d ∧ ch = ch' := by
  obtain rfl := mem_unique hdest h.named
  have heq := hfound.symm.trans h.found
  exact ⟨rfl,(Prod.mk.inj (some.inj heq)).2⟩

theorem forwardHtlc_outcome (hdest : msg.destClient = some destIdx) (hother : destIdx ≠ senderIdx)
    (hfound : destChannel mgr destIdx = some (dest,ch)) :
    RouteOutcome m f w senderIdx msg mgr added newHtlcId
      (forwardHtlc m f w senderIdx msg destIdx dest ch (mgr.setChannel senderIdx added)) := by
  have hneed (P : Prop) (h : ∀ terms cltv,
      Forwardable f w senderIdx msg mgr destIdx dest ch terms cltv → P) :
      Routable f w senderIdx msg mgr → P := by
    rintro (⟨d,dest',ch',terms,cltv,hf⟩ | hb)
    · obtain ⟨rfl,rfl⟩ := hf.unique hdest hfound
      have hsame := hfound.symm.trans hf.found
      obtain rfl := (Prod.mk.inj (some.inj hsame)).1
      exact h terms cltv hf
    · rw [hb.unnamed] at hdest
      cases hdest
  unfold forwardHtlc
  split_ifs with hsnap
  · refine .kept (hneed _ fun terms cltv hf => ?_)
    rw [hf.snapshot] at hsnap
    cases hsnap
  · have hsnapshot := Bool.eq_false_iff.mpr hsnap
    cases hpriced : forwardTerms (mgr.setChannel senderIdx added).routingFeePpm msg.amountMsat with
    | none =>
      refine .kept (hneed _ fun terms cltv hf => ?_)
      exact absurd (hpriced.symm.trans hf.priced) (by simp)
    | some terms =>
      cases htimely : lspValidateCltvForForward msg.cltvExpiry f.cltvTimeout
          (lspComputeFactoryCltvDelta f) with
      | none =>
        refine .charged destIdx dest ch terms (hneed _ fun terms cltv hf => ?_)
          ⟨hdest,hother,hfound,hsnapshot,hpriced⟩
        rw [hf.timely] at htimely
        cases htimely
      | some fwdCltvExpiry =>
        dsimp only
        by_cases hadd : AddAccepted ch .offered terms.amountSats ∧ HasSlot w.dest.grow ch
        · obtain ⟨ch',actions,ok,heq,hadded,hannounced,hpay,hrows⟩ :=
            placeHtlc_placed hadd.1 hadd.2
          rw [heq]
          exact .placed destIdx dest ch ch' terms fwdCltvExpiry actions ok
            ⟨⟨hdest,hother,hfound,hsnapshot,hpriced⟩,htimely,hadd.1,hadd.2⟩ hadded hannounced
            hpay hrows heq
        · obtain ⟨cap,heq⟩ := placeHtlc_refused hadd
          rw [heq]
          refine .destRefused destIdx dest ch terms cap (hneed _ fun terms' cltv hf => ?_)
            ⟨hdest,hother,hfound,hsnapshot,hpriced⟩
          obtain rfl := mem_unique hpriced hf.priced
          exact hadd ⟨hf.accepted,hf.slot⟩

theorem trackBridgeOrigin_eq (paymentHash : Blob 32) (bridgeHtlcId : UInt64) (mgr : LspMgr) :
    lspChannelsTrackBridgeOrigin paymentHash bridgeHtlcId mgr =
      { mgr with htlcOrigins :=
          trackedOrigins paymentHash bridgeHtlcId mgr.htlcOriginsCap mgr.htlcOrigins } := by
  unfold lspChannelsTrackBridgeOrigin trackedOrigins
  cases mgr.htlcOrigins.findIdx? (fun o => !o.active) with
  | some => rfl
  | none =>
    split_ifs
    · rfl
    · rfl

theorem routeToBridge_outcome {bolt11 : String} (newHtlcId : UInt64) (hdest : msg.destClient = none)
    (hbolt11 : msg.bolt11 = some bolt11) (hconnected : mgr.bridgeConnected = true) :
    RouteOutcome m f w senderIdx msg mgr added newHtlcId
      (routeToBridge w senderIdx msg bolt11 newHtlcId (mgr.setChannel senderIdx added)) := by
  have hbridge (hsent : w.sentPay = true) : Bridgeable w msg mgr :=
    ⟨hdest,by rw [hbolt11]; rfl,hconnected,hsent⟩
  have hroute : Routable f w senderIdx msg mgr ↔ w.sentPay = true := by
    constructor
    · rintro (⟨d,dest,ch,terms,cltv,hf⟩ | hb)
      · exact absurd (hdest.symm.trans hf.named) (by simp)
      · exact hb.sent
    · exact fun hsent => .inr (hbridge hsent)
  have houtcome : RouteOutcome m f w senderIdx msg mgr added newHtlcId _ :=
    .bridge _ bolt11 hroute hbridge rfl
  unfold routeToBridge
  dsimp only
  rw [trackBridgeOrigin_eq]
  cases hsent : w.sentPay with
  | false =>
    rw [hsent] at houtcome
    exact houtcome
  | true =>
    rw [hsent] at houtcome
    exact houtcome

theorem routeHtlc_outcome (newHtlcId : UInt64) :
    RouteOutcome m f w senderIdx msg mgr added newHtlcId
      (routeHtlc m f w senderIdx msg newHtlcId (mgr.setChannel senderIdx added)) := by
  unfold routeHtlc
  cases hdest : msg.destClient with
  | none =>
    have hno (h : ¬ Bridgeable w msg mgr) : ¬ Routable f w senderIdx msg mgr := by
      rintro (⟨d,dest,ch,terms,cltv,hf⟩ | hb)
      · exact absurd (hdest.symm.trans hf.named) (by simp)
      · exact h hb
    cases hbolt11 : msg.bolt11 with
    | none =>
      refine .kept (hno fun hb => ?_)
      have hinvoiced := hb.invoiced
      rw [hbolt11] at hinvoiced
      cases hinvoiced
    | some =>
      split_ifs with hconnected
      · exact routeToBridge_outcome newHtlcId hdest hbolt11 hconnected
      · exact .kept (hno fun hb => hconnected hb.connected)
  | some destIdx =>
    dsimp only
    split_ifs with hbad
    · refine .kept (not_routable_of_no_dest hdest ?_)
      rcases hbad with hrange | hself
      · refine .inr ?_
        rw [length_setChannel] at hrange
        unfold destChannel
        rw [getElem?_eq_none hrange]
      · exact .inl hself
    · obtain ⟨-,hother⟩ := not_or.mp hbad
      rw [destChannel_setChannel (Ne.symm hother)]
      cases hfound : destChannel mgr destIdx with
      | none => exact .kept (not_routable_of_no_dest hdest (.inr hfound))
      | some => exact forwardHtlc_outcome hdest hother hfound

theorem handleAddHtlc_outcome (parsed : Option AddHtlcMsg) :
    AddOutcome m f w senderIdx mgr parsed (handleAddHtlc m f w senderIdx parsed mgr) := by
  unfold handleAddHtlc
  cases parsed with
  | none => exact .dropped fun msg ch h => nomatch h.parsed
  | some msg =>
    cases hfound : mgr.channel? senderIdx with
    | none => exact .dropped fun msg ch h => nomatch hfound.symm.trans h.found
    | some ch =>
      have hneed (P : Prop) (h : SenderAdds w senderIdx msg mgr (some msg) ch → P) (msg' : AddHtlcMsg)
          (ch' : Channel) (hadds : SenderAdds w senderIdx msg' mgr (some msg) ch') : P := by
        obtain rfl := some.inj hadds.parsed
        obtain rfl : ch = ch' := mem_unique hfound hadds.found
        exact h hadds
      dsimp only
      split_ifs with hamount hsnap
      · exact .dropped (hneed _ fun h => h.amount hamount)
      · refine .dropped (hneed _ fun h => ?_)
        rw [h.snapshot] at hsnap
        cases hsnap
      · by_cases hadd : AddAccepted ch .received (msg.amountMsat/1000) ∧ HasSlot w.sender.grow ch
        · have hadds : SenderAdds w senderIdx msg mgr (some msg) ch :=
            ⟨rfl,hfound,hamount,Bool.eq_false_iff.mpr hsnap,hadd.1,hadd.2⟩
          obtain ⟨cap,heq⟩ := channelAddHtlc_added hadd.1 hadd.2
          have hadded : Added .received (msg.amountMsat/1000) msg.paymentHash msg.cltvExpiry ch
              (channelAddHtlc .received (msg.amountMsat/1000) msg.paymentHash msg.cltvExpiry
                w.sender.grow w.sender.draw ch).1 :=
            ⟨hadd.1,cap,w.sender.draw,by rw [heq]; exact .refl _⟩
          have hsecond : (channelAddHtlc .received (msg.amountMsat/1000) msg.paymentHash
              msg.cltvExpiry w.sender.grow w.sender.draw ch).2 = some ch.nextHtlcId := by rw [heq]
          clear heq
          cases hcall : channelAddHtlc .received (msg.amountMsat/1000) msg.paymentHash
              msg.cltvExpiry w.sender.grow w.sender.draw ch with
          | mk ch1 id =>
            rw [hcall] at hadded hsecond
            obtain rfl := hsecond
            have hsame := commitChannel_sameFunds (m := m) true w.sender ch1
            have hcommits : SenderCommits m w msg ch ↔
                (commitChannel m true w.sender ch1).2 = true := by
              unfold SenderCommits
              rw [hcall]
            dsimp only
            cases hcommit : commitChannel m true w.sender ch1 with
            | mk ch2 ok =>
              rw [hcommit] at hsame hcommits
              cases ok with
              | false => exact .broken msg ch ch2 hadds (hadded.same hsame) (by simp [hcommits])
              | true =>
                exact .routed msg ch ch2 _ _ hadds (hadded.same hsame) (hcommits.mpr rfl)
                  (routeHtlc_outcome ch.nextHtlcId) ⟨rfl,rfl⟩
                  ⟨by simp [rowSats,savedBalance,persistedHtlc],rfl⟩ rfl
        · obtain ⟨cap,heq⟩ := channelAddHtlc_refused hadd
          rw [heq]
          exact .refused msg ch cap (hneed _ fun h => hadd ⟨h.accepted,h.slot⟩) hfound

theorem RouteOutcome.senderChannel {old : Channel} {r : Handled}
    (hfound : mgr.channel? senderIdx = some old)
    (h : RouteOutcome m f w senderIdx msg mgr added newHtlcId r) :
    r.mgr.channel? senderIdx = some added := by
  have hset : (mgr.setChannel senderIdx added).channel? senderIdx = some added :=
    channel_setChannel_self hfound
  cases h with
  | kept => exact hset
  | charged => exact (channel_accrue _).trans hset
  | destRefused _ _ _ _ _ _ haccrues =>
    exact (channel_setDest_other haccrues.other).trans ((channel_accrue _).trans hset)
  | placed _ _ _ _ _ _ _ _ hforward =>
    exact (channel_setDest_other hforward.other).trans ((channel_accrue _).trans hset)
  | bridge => exact hset

end

def timedFactory : Factory := { Factory.sample 4 2 1 with cltvTimeout := 1000 }

def payment : AddHtlcMsg := ⟨0,20000000,Blob.zero 32,500,some 1,none⟩

end SuperScalar
