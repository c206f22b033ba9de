import SuperScalar.Node.Relay

namespace SuperScalar

open Option

section

variable (sphinx : Sphinx) (ourPrivkey : Blob 32) (m : Musig)

structure RelayRun where
  node : LnDispatch
  sentTo : ℕ → Option ℕ

def flushedTo (answers : ℕ → Answers) (r : RelayRun) (i : ℕ) : Option ℕ :=
  match r.node.fwd[i]?, (lnDispatchFlushRelay m answers r.node).node.fwd[i]? with
  | some e, some e' =>
    if e.state = .pendingOut ∧ e'.state = .inflight then
      peerMgrFindByScid e.nextHopScid r.node.peers
    else r.sentTo i
  | _, _ => r.sentTo i

inductive RelayStep : RelayRun → RelayRun → Prop
  | message (s : NodeMsg) (r : RelayRun) (p : Processed)
      (h : s.processed sphinx ourPrivkey r.node = some p) : RelayStep r ⟨p.node,r.sentTo⟩
  | flush (answers : ℕ → Answers) (r : RelayRun) :
      RelayStep r ⟨(lnDispatchFlushRelay m answers r.node).node,flushedTo m answers r⟩
  | environment (r : RelayRun) (invoices : Option Bolt11InvoiceTable) (peers : List Peer)
      (channels : List (Option Channel)) :
      RelayStep r
        ⟨{ r.node with invoices := invoices, peers := peers, channels := channels },r.sentTo⟩

def RelayRuns : RelayRun → RelayRun → Prop := Relation.ReflTransGen (RelayStep sphinx ourPrivkey m)

def NodeMsg.resolution (s : NodeMsg) : Option (ForwardState × UInt64) :=
  if s.msg.length < 2 then none
  else if getU16 s.msg = bolt2UpdateFulfillHtlc then
    if s.msg.length < 2+32+8+32 then none else some (.settled,getU64 (s.msg.drop 34))
  else if getU16 s.msg = bolt2UpdateFailHtlc then
    if s.msg.length < 2+32+8+2 + (getU16 (s.msg.drop 42)).toNat then none
    else some (.failed,getU64 (s.msg.drop 34))
  else if getU16 s.msg = bolt2UpdateFailMalformedHtlc then
    if s.msg.length < 2+74 then none else some (.failed,getU64 (s.msg.drop 34))
  else none

def RelayRun.Waits (r : RelayRun) (peerIdx : ℕ) (id : UInt64) (i : ℕ) : Prop :=
  r.sentTo i = some peerIdx ∧
    ∃ e, r.node.fwd[i]? = some e ∧ e.state = .inflight ∧ e.outHtlcId = id

def RelayRun.Answered (r : RelayRun) (s : NodeMsg) (state : ForwardState) (id : UInt64) : Prop :=
  ∀ p, s.processed sphinx ourPrivkey r.node = some p → ∀ i e, r.node.fwd[i]? = some e →
    (r.Waits s.peerIdx id i → p.node.fwd[i]? = some { e with state := state }) ∧
      (¬ r.Waits s.peerIdx id i → p.node.fwd[i]? = some e)

def RelayRun.Keyed (r : RelayRun) (peerIdx : ℕ) (id : UInt64) (i : ℕ) : Prop :=
  (∃ e, r.node.fwd[i]? = some e ∧ e.awaits id (UInt64.ofNat peerIdx) = true) ∧
    ∀ k < i, ∀ e, r.node.fwd[k]? = some e → e.awaits id (UInt64.ofNat peerIdx) = false

end

section

variable {fwd : List ForwardEntry} {state : ForwardState} {id chan : UInt64}

def FirstAwaits (id chan : UInt64) (fwd : List ForwardEntry) (i : ℕ) : Prop :=
  (∃ e, fwd[i]? = some e ∧ e.awaits id chan = true) ∧
    ∀ k < i, ∀ e, fwd[k]? = some e → e.awaits id chan = false

theorem firstAwaits_succ {e : ForwardEntry} (he : e.awaits id chan = false) (i : ℕ) :
    FirstAwaits id chan (e :: fwd) (i+1) ↔ FirstAwaits id chan fwd i := by
  constructor
  · rintro ⟨hat,hbefore⟩
    exact ⟨hat,fun k hk x hx => hbefore (k+1) (Nat.succ_lt_succ hk) x hx⟩
  · rintro ⟨hat,hbefore⟩
    refine ⟨hat,fun k hk x hx => ?_⟩
    cases k with
    | zero =>
      cases hx
      exact he
    | succ k => exact hbefore k (Nat.lt_of_succ_lt_succ hk) x hx

theorem resolveForward_getElem (fwd : List ForwardEntry) (i : ℕ) (e : ForwardEntry)
    (he : fwd[i]? = some e) :
    (FirstAwaits id chan fwd i →
      (resolveForward state id chan fwd)[i]? = some { e with state := state }) ∧
    (¬ FirstAwaits id chan fwd i → (resolveForward state id chan fwd)[i]? = some e) := by
  induction fwd generalizing i with
  | nil => cases he
  | cons x _ ih =>
    unfold resolveForward
    cases hx : x.awaits id chan with
    | true =>
      rw [if_pos rfl]
      cases i with
      | zero =>
        obtain rfl := some.inj he
        refine ⟨fun _ => rfl,fun hnot => absurd ⟨⟨x,rfl,hx⟩,fun k hk => ?_⟩ hnot⟩
        exact absurd hk (Nat.not_lt_zero k)
      | succ i =>
        refine ⟨fun hfirst => ?_,fun _ => he⟩
        exact absurd ((hfirst.2 0 (Nat.succ_pos i) x rfl).symm.trans hx) (by decide)
    | false =>
      rw [if_neg (by decide)]
      cases i with
      | zero =>
        obtain rfl := some.inj he
        refine ⟨fun hfirst => ?_,fun _ => rfl⟩
        obtain ⟨y,hy,hawaits⟩ := hfirst.1
        obtain rfl := some.inj hy
        exact absurd (hx.symm.trans hawaits) (by decide)
      | succ i =>
        rw [firstAwaits_succ hx]
        exact ih i he

end

section

variable {sphinx : Sphinx} {ourPrivkey : Blob 32} {s : NodeMsg} {r : RelayRun}
  {state : ForwardState} {id : UInt64}

theorem processed_resolution (h : s.resolution = some (state,id)) :
    ∃ p, s.processed sphinx ourPrivkey r.node = some p ∧
      p.node.fwd = resolveForward state id (UInt64.ofNat s.peerIdx) r.node.fwd := by
  have hadd : bolt2UpdateFulfillHtlc ≠ bolt2UpdateAddHtlc := by decide
  have hadd' : bolt2UpdateFailHtlc ≠ bolt2UpdateAddHtlc := by decide
  have hadd'' : bolt2UpdateFailMalformedHtlc ≠ bolt2UpdateAddHtlc := by decide
  unfold NodeMsg.resolution at h
  unfold NodeMsg.processed lnDispatchProcessMsg
  split_ifs at h with hshort hfulfill hlen hfail hlen hmalformed hlen
  · cases h
    rw [if_neg hshort,if_neg (hfulfill ▸ hadd),if_pos hfulfill]
    unfold processFulfill
    rw [if_neg hlen]
    exact ⟨_,rfl,rfl⟩
  · cases h
    rw [if_neg hshort,if_neg (hfail ▸ hadd'),if_neg hfulfill,if_pos hfail]
    unfold processFail
    rw [if_neg (by omega),if_neg hlen]
    exact ⟨_,rfl,rfl⟩
  · cases h
    rw [if_neg hshort,if_neg (hmalformed ▸ hadd''),if_neg hfulfill,if_neg hfail,if_pos hmalformed]
    unfold processFailMalformed
    rw [if_pos (by omega)]
    exact ⟨_,rfl,rfl⟩

theorem settled_or_failed (h : s.resolution = some (state,id)) : state ≠ .inflight := by
  unfold NodeMsg.resolution at h
  split_ifs at h
  · cases h
    exact fun heq => nomatch heq
  · cases h
    exact fun heq => nomatch heq
  · cases h
    exact fun heq => nomatch heq

theorem relays_answered_iff (sphinx : Sphinx) (ourPrivkey : Blob 32) (r : RelayRun) (s : NodeMsg)
    (state : ForwardState) (id : UInt64) (h : s.resolution = some (state,id)) :
    r.Answered sphinx ourPrivkey s state id ↔
      ∀ i, r.Waits s.peerIdx id i ↔ r.Keyed s.peerIdx id i := by
  obtain ⟨p,hp,hfwd⟩ := @processed_resolution sphinx ourPrivkey s r state id h
  have hstate := settled_or_failed h
  constructor
  · intro hanswered i
    constructor
    · intro hwaits
      obtain ⟨e,he,hinflight,-⟩ := hwaits.2
      by_contra hkeyed
      have hmoved := (hanswered p hp i e he).1 hwaits
      rw [hfwd,(resolveForward_getElem r.node.fwd i e he).2 hkeyed] at hmoved
      have hsame := congrArg ForwardEntry.state (some.inj hmoved)
      exact hstate (hsame.symm.trans hinflight)
    · intro hkeyed
      obtain ⟨e,he,hawaits⟩ := hkeyed.1
      by_contra hwaits
      have hstays := (hanswered p hp i e he).2 hwaits
      rw [hfwd,(resolveForward_getElem r.node.fwd i e he).1 hkeyed] at hstays
      have hsame := congrArg ForwardEntry.state (some.inj hstays)
      have hinflight := of_decide_eq_true (Bool.and_eq_true_iff.mp hawaits).2
      exact hstate (hsame.trans hinflight)
  · intro hmatch p' hp' i e he
    rw [hp] at hp'
    cases hp'
    rw [hmatch i,hfwd]
    exact resolveForward_getElem r.node.fwd i e he

end

def fulfillMsg (peerIdx : ℕ) : NodeMsg :=
  ⟨peerIdx,0,6,updateFulfillHtlc (Blob.zero 32) 0 (samplePriv 3)⟩

theorem fulfillMsg_resolution (peerIdx : ℕ) :
    (fulfillMsg peerIdx).resolution = some (.settled,0) := by
  change NodeMsg.resolution ⟨0,0,6,updateFulfillHtlc (Blob.zero 32) 0 (samplePriv 3)⟩ = _
  decide +kernel

def inflightEntry : ForwardEntry := { ForwardEntry.zero with outChanId := 5, state := .inflight }

def inflightRun : RelayRun :=
  ⟨⟨[inflightEntry],none,[],[]⟩,fun i => if i = 0 then some 5 else none⟩

theorem relays_answered_same_index :
    inflightRun.Answered Sphinx.sample (samplePriv 1) (fulfillMsg 5) .settled 0 ∧
      inflightRun.Waits 5 0 0 := by
  have hwaits : inflightRun.Waits 5 0 0 := ⟨rfl,inflightEntry,rfl,rfl,rfl⟩
  have hkeyed : inflightRun.Keyed 5 0 0 :=
    ⟨⟨inflightEntry,rfl,by decide⟩,fun k hk => absurd hk (Nat.not_lt_zero k)⟩
  refine ⟨(relays_answered_iff Sphinx.sample (samplePriv 1) inflightRun (fulfillMsg 5) .settled 0
    (fulfillMsg_resolution 5)).mpr fun i => ?_,hwaits⟩
  cases i with
  | zero => exact iff_of_true hwaits hkeyed
  | succ =>
    refine iff_of_false (fun h => ?_) (fun h => ?_)
    · obtain ⟨-,e,he,-⟩ := h
      cases he
    · obtain ⟨⟨e,he,-⟩,-⟩ := h
      cases he

def relayStart : RelayRun := ⟨relayNode,fun _ => none⟩

def samplePoint33 : Blob 33 := Blob.fill 33 2

def signingAnswers (_ : ℕ) : Answers :=
  { luck := ⟨true,⟨true,some (samplePriv 4)⟩,true⟩
    oks := [true,true,true]
    inbox :=
      [some (revokeAndAck (Blob.zero 32) (samplePriv 4) samplePoint33),
        some (commitmentSigned (Blob.zero 32) (packCommitSig (samplePriv 4) 0))] }

def relaySent : Option (Processed × ForwardEntry) := do
  let p ← (relayMsg (samplePriv 7) 1000000 144).processed Sphinx.sample (samplePriv 1) relayNode
  let e ← (lnDispatchFlushRelay Musig.sample signingAnswers p.node).node.fwd[0]?
  if e.state = .inflight ∧ e.outHtlcId = 0 ∧ e.outChanId = 5 ∧
      flushedTo Musig.sample signingAnswers ⟨p.node,fun _ => none⟩ 0 = some 0 then
    some (p,e)
  else none

theorem relay_answer_lost : ∃ r,
    RelayRuns Sphinx.sample (samplePriv 1) Musig.sample relayStart r ∧ r.Waits 0 0 0 ∧
      ¬ r.Answered Sphinx.sample (samplePriv 1) (fulfillMsg 0) .settled 0 := by
  obtain ⟨⟨p,e⟩,hsent⟩ := isSome_iff_exists.mp
    (by decide +kernel : relaySent.isSome = true)
  unfold relaySent at hsent
  obtain ⟨p',hp,h⟩ := bind_eq_some_iff.mp hsent
  obtain ⟨e',he,h⟩ := bind_eq_some_iff.mp h
  split_ifs at h with hentry
  obtain ⟨hinflight,hid,hchan,hpeer⟩ := hentry
  have hwaits : RelayRun.Waits ⟨(lnDispatchFlushRelay Musig.sample signingAnswers p'.node).node,
      flushedTo Musig.sample signingAnswers ⟨p'.node,fun _ => none⟩⟩ 0 0 0 :=
    ⟨hpeer,e',he,hinflight,hid⟩
  refine ⟨_,.tail (.single (.message _ relayStart p' hp)) (.flush signingAnswers _),hwaits,?_⟩
  intro hanswered
  obtain ⟨q,hq,hfwd⟩ := @processed_resolution Sphinx.sample (samplePriv 1) (fulfillMsg 0) _ _ _
    (fulfillMsg_resolution 0)
  have hmoved := (hanswered q hq 0 e' he).1 hwaits
  have hnot : ¬ FirstAwaits 0 (UInt64.ofNat 0)
      (lnDispatchFlushRelay Musig.sample signingAnswers p'.node).node.fwd 0 := by
    rintro ⟨⟨x,hx,hawaits⟩,-⟩
    rw [he] at hx
    cases hx
    have hkey := (Bool.and_eq_true_iff.mp (Bool.and_eq_true_iff.mp hawaits).1).2
    rw [hchan] at hkey
    exact absurd hkey (by decide)
  have hstays : (resolveForward .settled 0 (UInt64.ofNat 0)
      (lnDispatchFlushRelay Musig.sample signingAnswers p'.node).node.fwd)[0]? = some e' :=
    (resolveForward_getElem _ 0 e' he).2 hnot
  have hunmoved : q.node.fwd[0]? = some e' := by
    rw [hfwd]
    exact hstays
  rw [hunmoved] at hmoved
  have hsame := congrArg ForwardEntry.state (some.inj hmoved)
  exact nomatch hinflight.symm.trans hsame

end SuperScalar
