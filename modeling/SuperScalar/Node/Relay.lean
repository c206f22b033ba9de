import SuperScalar.Node.Payments
import SuperScalar.Peer.Interlock

namespace SuperScalar

open List Option

section

variable (sphinx : Sphinx) (ourPrivkey : Blob 32) (m : Musig)

inductive DispatchStep : LnDispatch → LnDispatch → Prop
  | message (s : NodeMsg) (d : LnDispatch) (p : Processed)
      (h : s.processed sphinx ourPrivkey d = some p) : DispatchStep d p.node
  | flush (answers : ℕ → Answers) (d : LnDispatch) :
      DispatchStep d (lnDispatchFlushRelay m answers d).node
  | environment (d : LnDispatch) (invoices : Option Bolt11InvoiceTable) (peers : List Peer)
      (channels : List (Option Channel)) :
      DispatchStep d { d with invoices := invoices, peers := peers, channels := channels }

def DispatchRuns : LnDispatch → LnDispatch → Prop :=
  Relation.ReflTransGen (DispatchStep sphinx ourPrivkey m)

structure RelayLaw (incoming outgoing : AddMsg) : Prop where
  hash : outgoing.paymentHash = incoming.paymentHash
  amount : outgoing.amountMsat ≤ incoming.amountMsat
  expiry : outgoing.cltv < incoming.cltv

structure Relayed (s : NodeMsg) (d : LnDispatch) (p : Processed) (add : AddMsg) (amt : UInt64)
    (outCltv : UInt32) : Prop where
  type : getU16 s.msg = bolt2UpdateAddHtlc
  parsed : parseAdd s.msg = some add
  processed : s.processed sphinx ourPrivkey d = some p
  asks : ∃ peeled payload, onionPeel sphinx s.turns ourPrivkey add.onion.val = some (some peeled) ∧
    trampolineTerms s.turns peeled.payload = some payload ∧ payload.amtToForward = some amt ∧
    payload.outgoingCltvValue = some outCltv
  relayed : ∃ fwd e, htlcForwardProcess sphinx s.turns ourPrivkey add.onion add.htlcId
    (UInt64.ofNat s.peerIdx) add.amountMsat add.cltv d.fwd = some (fwd,.relay e)

end

section

structure SameTerms (e e' : ForwardEntry) : Prop where
  hash : e'.paymentHash = e.paymentHash
  amount : e'.outAmountMsat = e.outAmountMsat
  cltv : e'.outCltv = e.outCltv

theorem SameTerms.refl (e : ForwardEntry) : SameTerms e e := ⟨rfl,rfl,rfl⟩

variable {e e' : ForwardEntry} {fwd fwd' : List ForwardEntry}

theorem SameTerms.trans {e'' : ForwardEntry} (h : SameTerms e e') (h' : SameTerms e' e'') :
    SameTerms e e'' :=
  ⟨h'.hash.trans h.hash,h'.amount.trans h.amount,h'.cltv.trans h.cltv⟩

def KeepsTerms (fwd fwd' : List ForwardEntry) : Prop :=
  ∀ (i : ℕ) (e : ForwardEntry), fwd[i]? = some e → ∃ e', fwd'[i]? = some e' ∧ SameTerms e e'

theorem KeepsTerms.refl (fwd : List ForwardEntry) : KeepsTerms fwd fwd :=
  fun _ e he => ⟨e,he,.refl e⟩

theorem KeepsTerms.trans {a b c : List ForwardEntry} (h : KeepsTerms a b) (h' : KeepsTerms b c) :
    KeepsTerms a c := by
  intro i e he
  obtain ⟨e',he',hsame⟩ := h i e he
  obtain ⟨e'',he'',hsame'⟩ := h' i e' he'
  exact ⟨e'',he'',hsame.trans hsame'⟩

theorem keepsTerms_append (fwd rest : List ForwardEntry) : KeepsTerms fwd (fwd++rest) := by
  intro i e he
  have hlt := (List.getElem?_eq_some_iff.mp he).1
  exact ⟨e,by rw [List.getElem?_append_left hlt,he],.refl e⟩

theorem keepsTerms_modify {f : ForwardEntry → ForwardEntry} (hf : ∀ e, SameTerms e (f e))
    (fwd : List ForwardEntry) (k : ℕ) : KeepsTerms fwd (fwd.modify k f) := by
  intro i e he
  rw [getElem?_modify,he]
  by_cases hk : k = i
  · exact ⟨f e,by simp [hk],hf e⟩
  · exact ⟨e,by simp [hk],.refl e⟩

theorem keepsTerms_cons (he : SameTerms e e') (h : KeepsTerms fwd fwd') :
    KeepsTerms (e :: fwd) (e' :: fwd') := by
  intro i x hx
  cases i with
  | zero =>
    cases hx
    exact ⟨e',rfl,he⟩
  | succ i => exact h i x hx

theorem resolveForward_terms (state : ForwardState) (outHtlcId outChanId : UInt64)
    (fwd : List ForwardEntry) : KeepsTerms fwd (resolveForward state outHtlcId outChanId fwd) := by
  induction fwd with
  | nil => exact .refl []
  | cons e fwd ih =>
    unfold resolveForward
    split_ifs
    · exact keepsTerms_cons ⟨rfl,rfl,rfl⟩ (.refl fwd)
    · exact keepsTerms_cons (.refl e) ih

theorem htlcForwardProcess_terms {sphinx : Sphinx} {turns : ℕ} {ourPrivkey : Blob 32}
    {onion : Onion} {inHtlcId inChanId amountMsat : UInt64} {cltv : UInt32} {result : ForwardResult}
    (h : htlcForwardProcess sphinx turns ourPrivkey onion inHtlcId inChanId amountMsat cltv fwd =
      some (fwd',result)) : KeepsTerms fwd fwd' := by
  cases htlcForwardProcess_cases h with
  | fail => exact .refl fwd
  | final => exact keepsTerms_append fwd _
  | relay =>
    exact keepsTerms_append fwd _

theorem flushEntry_terms (m : Musig) (answers : Answers) (peers : List Peer)
    (channels : List (Option Channel)) (e : ForwardEntry) :
    SameTerms e (flushEntry m answers peers channels e).entry := by
  unfold flushEntry
  split_ifs
  · exact .refl e
  · split
    · exact .refl e
    · split
      · exact .refl e
      · dsimp only
        split_ifs
        · exact ⟨rfl,rfl,rfl⟩
        · exact ⟨rfl,rfl,rfl⟩

theorem flushEntries_terms (m : Musig) (answers : ℕ → Answers) (peers : List Peer) (i : ℕ)
    (channels : List (Option Channel)) (fwd : List ForwardEntry) :
    KeepsTerms fwd ((flushEntries m answers peers i channels fwd).2.map Prod.fst) := by
  induction fwd generalizing i channels with
  | nil => exact .refl []
  | cons e _ ih => exact keepsTerms_cons (flushEntry_terms m _ peers channels e) (ih _ _)

end

section

variable {sphinx : Sphinx} {ourPrivkey : Blob 32} {m : Musig} {s : NodeMsg} {d d' : LnDispatch}
  {p : Processed}

theorem processAdd_terms {turns peerIdx : ℕ} {now : UInt32} {msg : Bytes}
    (h : processAdd sphinx ourPrivkey turns peerIdx now msg d = some p) :
    KeepsTerms d.fwd p.node.fwd := by
  unfold processAdd at h
  split at h
  · cases h
    exact .refl _
  · split at h
    · cases h
    · rename_i fwd e hprocess
      split at h
      · cases h
        exact htlcForwardProcess_terms hprocess
      · cases h
        exact htlcForwardProcess_terms hprocess
    · rename_i fwd e hprocess
      cases h
      refine (htlcForwardProcess_terms hprocess).trans ?_
      refine keepsTerms_modify ?_ fwd _
      exact fun _ => ⟨rfl,rfl,rfl⟩
    · rename_i fwd hprocess
      cases h
      exact htlcForwardProcess_terms hprocess

theorem processed_terms (h : s.processed sphinx ourPrivkey d = some p) :
    KeepsTerms d.fwd p.node.fwd := by
  unfold NodeMsg.processed lnDispatchProcessMsg at h
  split_ifs at h
  · cases h
    exact .refl _
  · exact processAdd_terms h
  · cases h
    unfold processFulfill
    split_ifs
    · exact .refl _
    · exact resolveForward_terms _ _ _ _
  · cases h
    unfold processFail
    dsimp only
    split_ifs
    · exact .refl _
    · exact .refl _
    · exact resolveForward_terms _ _ _ _
  · cases h
    unfold processFailMalformed
    split_ifs
    · exact resolveForward_terms _ _ _ _
    · exact .refl _
  · cases h
    exact .refl _

theorem DispatchStep.terms (h : DispatchStep sphinx ourPrivkey m d d') : KeepsTerms d.fwd d'.fwd := by
  cases h with
  | message _ _ _ hp => exact processed_terms hp
  | flush answers => exact flushEntries_terms m answers _ 0 _ _
  | environment => exact .refl _

theorem DispatchRuns.terms (h : DispatchRuns sphinx ourPrivkey m d d') : KeepsTerms d.fwd d'.fwd := by
  induction h with
  | refl => exact .refl _
  | tail _ hlast ih => exact ih.trans hlast.terms

end

section

variable {m : Musig}

theorem parseAdd_updateAddHtlc (channelId : Blob 32) (htlcId amountMsat : UInt64)
    (paymentHash : Blob 32) (cltv : UInt32) (onion : Onion) :
    parseAdd (updateAddHtlc channelId htlcId amountMsat paymentHash cltv onion) =
      some ⟨channelId,htlcId,amountMsat,paymentHash,cltv,onion⟩ := by
  have hid : (putU64 htlcId).length = 8 := rfl
  have hamount : (putU64 amountMsat).length = 8 := rfl
  have hcltv : (putU32 cltv).length = 4 := rfl
  have htype : (putU16 bolt2UpdateAddHtlc).length = 2 := rfl
  have hlen : ¬ (updateAddHtlc channelId htlcId amountMsat paymentHash cltv onion).length <
      2 + 32+8+8+32+4+1366 := by
    simp only [updateAddHtlc,length_append,Blob.length_val,hid,hamount,hcltv,htype]
    decide
  have hdrop : (updateAddHtlc channelId htlcId amountMsat paymentHash cltv onion).drop 2 =
      channelId.val ++ (putU64 htlcId ++ (putU64 amountMsat ++ (paymentHash.val ++
        (putU32 cltv ++ onion.val)))) := by
    simp only [updateAddHtlc,append_assoc]
    exact drop_left' htype
  generalize hp : (updateAddHtlc channelId htlcId amountMsat paymentHash cltv onion).drop 2 = p
    at hdrop
  have h32 : p.drop 32 = putU64 htlcId ++ (putU64 amountMsat ++ (paymentHash.val ++
      (putU32 cltv ++ onion.val))) := by
    rw [hdrop]
    exact drop_left' channelId.length_val
  have h40 : p.drop 40 = putU64 amountMsat ++ (paymentHash.val ++ (putU32 cltv ++ onion.val)) := by
    rw [show 40 = 32+8 from rfl,← drop_drop,h32]
    exact drop_left' hid
  have h48 : p.drop 48 = paymentHash.val ++ (putU32 cltv ++ onion.val) := by
    rw [show 48 = 40+8 from rfl,← drop_drop,h40]
    exact drop_left' hamount
  have h80 : p.drop 80 = putU32 cltv ++ onion.val := by
    rw [show 80 = 48+32 from rfl,← drop_drop,h48]
    exact drop_left' paymentHash.length_val
  have h84 : p.drop 84 = onion.val := by
    rw [show 84 = 80+4 from rfl,← drop_drop,h80]
    exact drop_left' hcltv
  have hlast := copyBytes_append onion []
  rw [append_nil] at hlast
  unfold parseAdd
  rw [if_neg hlen]
  dsimp only
  rw [hp,h32,h40,h48,h80,h84,hdrop,copyBytes_append,getU64_putU64,getU64_putU64,
    copyBytes_append,getU32_putU32,hlast]

variable {e : ForwardEntry} {peers : List Peer} {channels : List (Option Channel)} {send : PeerSend}

theorem relayCall_firstSend {luck : Luck} {ch : Channel} {msg : Bytes}
    (h : (relayCall m luck e ch).firstSend = some msg) :
    ∃ htlcId, msg = updateAddHtlc ch.fundingTxid htlcId e.outAmountMsat e.paymentHash e.outCltv
      e.nextOnion := by
  unfold relayCall htlcCommitAddAndSign at h
  split at h
  · cases h
  · rename_i ch' htlcId hadd
    exact ⟨htlcId,(some.inj h).symm⟩

theorem flushEntry_offer {answers : Answers}
    (h : (flushEntry m answers peers channels e).offer = some send) :
    ∃ channelId htlcId, send.msg = updateAddHtlc channelId htlcId e.outAmountMsat e.paymentHash
      e.outCltv e.nextOnion := by
  unfold flushEntry at h
  split_ifs at h
  split at h
  · cases h
  · split at h
    · cases h
    · obtain ⟨msg,hmsg,rfl⟩ := map_eq_some_iff.mp h
      obtain ⟨htlcId,rfl⟩ := relayCall_firstSend hmsg
      exact ⟨_,htlcId,rfl⟩

theorem flushEntries_offer {answers : ℕ → Answers} {k i : ℕ} {fwd : List ForwardEntry}
    (h : ((flushEntries m answers peers k channels fwd).2.map Prod.snd)[i]? = some (some send)) :
    ∃ e channelId htlcId, fwd[i]? = some e ∧ send.msg = updateAddHtlc channelId htlcId
      e.outAmountMsat e.paymentHash e.outCltv e.nextOnion := by
  induction fwd generalizing k i channels with
  | nil => cases h
  | cons e _ ih =>
    cases i with
    | zero =>
      obtain ⟨channelId,htlcId,hmsg⟩ := flushEntry_offer (some.inj h)
      exact ⟨e,channelId,htlcId,rfl,hmsg⟩
    | succ => exact ih h

end

section

variable {sphinx : Sphinx} {ourPrivkey : Blob 32} {m : Musig} {s : NodeMsg} {d d' : LnDispatch}
  {p : Processed} {add : AddMsg} {amt : UInt64} {outCltv : UInt32}

variable (h : Relayed sphinx ourPrivkey s d p add amt outCltv)

include h

theorem Relayed.entry :
    ∃ e, p.node.fwd[d.fwd.length]? = some e ∧ e.paymentHash = Blob.zero 32 ∧
      e.outAmountMsat = amt ∧ e.outCltv = outCltv := by
  obtain ⟨peeled,payload,hpeel,hterms,hamt,hcltv⟩ := h.asks
  obtain ⟨fwd,e,hrelay⟩ := h.relayed
  have hlen : ¬ s.msg.length < 2 := by
    have hparsed := h.parsed
    unfold parseAdd at hparsed
    split_ifs at hparsed with hshort
    omega
  have hprocessed := h.processed
  unfold NodeMsg.processed lnDispatchProcessMsg at hprocessed
  rw [if_neg hlen,if_pos h.type] at hprocessed
  unfold processAdd at hprocessed
  simp only [h.parsed,hrelay] at hprocessed
  cases hprocessed
  cases htlcForwardProcess_cases hrelay with
  | relay _ ss _ _ _ hpeel' _ hterms' hamt' hcltv' =>
    rw [hpeel] at hpeel'
    obtain rfl := some.inj (some.inj hpeel')
    rw [hterms] at hterms'
    cases hterms'
    rw [hamt] at hamt'
    cases hamt'
    rw [hcltv] at hcltv'
    cases hcltv'
    refine ⟨{ relayEntry payload amt outCltv peeled.next ss add.htlcId (UInt64.ofNat s.peerIdx)
      add.amountMsat add.cltv with inChannelId := add.channelId },?_,rfl,rfl,rfl⟩
    unfold setInChannelId
    rw [getElem?_modify,length_append,length_singleton,Nat.add_sub_cancel,getElem?_concat_length]
    simp

theorem relay_law_iff
    (hrun : DispatchRuns sphinx ourPrivkey m p.node d') (answers : ℕ → Answers) (send : PeerSend)
    (hsent : (lnDispatchFlushRelay m answers d').offers[d.fwd.length]? = some (some send)) :
    (∃ out, parseAdd send.msg = some out ∧ RelayLaw add out) ↔
      add.paymentHash = Blob.zero 32 ∧ amt ≤ add.amountMsat ∧ outCltv < add.cltv := by
  obtain ⟨e,he,hhash,hamt,hcltv⟩ := h.entry
  obtain ⟨e',he',hsame⟩ := hrun.terms _ e he
  obtain ⟨e'',channelId,htlcId,he'',hmsg⟩ := flushEntries_offer hsent
  rw [he'] at he''
  cases he''
  rw [hmsg,parseAdd_updateAddHtlc,hsame.hash,hsame.amount,hsame.cltv,hhash,hamt,hcltv]
  constructor
  · rintro ⟨out,hout,hlaw⟩
    cases hout
    exact ⟨hlaw.hash.symm,hlaw.amount,hlaw.expiry⟩
  · rintro ⟨hzero,hamount,hexpiry⟩
    exact ⟨_,rfl,hzero.symm,hamount,hexpiry⟩

end

def relayOnion : Onion :=
  copyBytes 1366 ((onionBuild Sphinx.sample
    [{ (sampleHop 1 false).1 with
        amountMsat := 20000000
        cltvExpiry := 500
        shortChannelId := 5 },(sampleHop 2 true).1] (samplePriv 5)).getD [])

def relayMsg (paymentHash : Blob 32) (amountMsat : UInt64) (cltv : UInt32) : NodeMsg :=
  { peerIdx := 1
    now := 0
    turns := 6
    msg := updateAddHtlc (Blob.zero 32) 0 amountMsat paymentHash cltv relayOnion }

def relayNode : LnDispatch :=
  ⟨[],none,[⟨true,5⟩,⟨true,6⟩],[some (withPools mirrorLeft),none]⟩

def silentAnswers (_ : ℕ) : Answers := ⟨luckyDraw,[true],[]⟩

def relayTerms : Option (UInt64 × UInt32) := do
  let peeled ← (onionPeel Sphinx.sample 6 (samplePriv 1) relayOnion.val).join
  let payload ← trampolineTerms 6 peeled.payload
  let amt ← payload.amtToForward
  let cltv ← payload.outgoingCltvValue
  some (amt,cltv)

theorem relayTerms_eq : relayTerms = some (20000000,500) := by
  decide +kernel

def ForwardResult.isRelay : ForwardResult → Bool
  | .relay _ => true
  | _ => false

def relayAdd (paymentHash : Blob 32) (amountMsat : UInt64) (cltv : UInt32) : AddMsg :=
  ⟨Blob.zero 32,0,amountMsat,paymentHash,cltv,relayOnion⟩

theorem relayMsg_parsed (paymentHash : Blob 32) (amountMsat : UInt64) (cltv : UInt32) :
    parseAdd (relayMsg paymentHash amountMsat cltv).msg =
      some (relayAdd paymentHash amountMsat cltv) := by
  unfold relayMsg relayAdd
  rw [parseAdd_updateAddHtlc]

theorem relayMsg_relayed {paymentHash : Blob 32} {amountMsat : UInt64} {cltv : UInt32}
    {p : Processed} (hp : (relayMsg paymentHash amountMsat cltv).processed Sphinx.sample (samplePriv 1) relayNode =
      some p)
    (hrelay : (htlcForwardProcess Sphinx.sample 6 (samplePriv 1) relayOnion 0 (UInt64.ofNat 1)
      amountMsat cltv []).any (fun r => r.2.isRelay) = true) :
    Relayed Sphinx.sample (samplePriv 1) (relayMsg paymentHash amountMsat cltv) relayNode p
      (relayAdd paymentHash amountMsat cltv) 20000000 500 where
  type := by
    change getU16 (updateAddHtlc _ _ _ _ _ _) = _
    simp only [updateAddHtlc,append_assoc,getU16_putU16]
  parsed := relayMsg_parsed _ _ _
  processed := hp
  asks := by
    have hasked := relayTerms_eq
    unfold relayTerms at hasked
    obtain ⟨peeled,hpeeled,h⟩ := bind_eq_some_iff.mp hasked
    obtain ⟨payload,hpayload,h⟩ := bind_eq_some_iff.mp h
    obtain ⟨amt,hamt,h⟩ := bind_eq_some_iff.mp h
    obtain ⟨outCltv,hcltv,h⟩ := bind_eq_some_iff.mp h
    cases h
    exact ⟨peeled,payload,join_eq_some_iff.mp hpeeled,hpayload,hamt,hcltv⟩
  relayed := by
    obtain ⟨⟨fwd,result⟩,hr,hresult⟩ := (any_eq_true _ _).mp hrelay
    cases result with
    | relay e => exact ⟨fwd,e,hr⟩
    | final => cases hresult
    | fail => cases hresult

def relayOffered (s : NodeMsg) : Option (Processed × PeerSend) := do
  let p ← s.processed Sphinx.sample (samplePriv 1) relayNode
  let send ← ((lnDispatchFlushRelay Musig.sample silentAnswers p.node).offers[0]?).join
  some (p,send)

theorem relayOffered_some {s : NodeMsg} (h : (relayOffered s).isSome = true) :
    ∃ p send, s.processed Sphinx.sample (samplePriv 1) relayNode = some p ∧
      (lnDispatchFlushRelay Musig.sample silentAnswers p.node).offers[0]? = some (some send) := by
  obtain ⟨r,hr⟩ := isSome_iff_exists.mp h
  obtain ⟨p,hp,h'⟩ := bind_eq_some_iff.mp hr
  obtain ⟨send,hsend,-⟩ := bind_eq_some_iff.mp h'
  exact ⟨p,send,hp,join_eq_some_iff.mp hsend⟩

theorem relay_law_zero_hash : ∃ p send,
    Relayed Sphinx.sample (samplePriv 1) (relayMsg (Blob.zero 32) 21000000 600) relayNode p
        (relayAdd (Blob.zero 32) 21000000 600) 20000000 500 ∧
      (lnDispatchFlushRelay Musig.sample silentAnswers p.node).offers[0]? = some (some send) ∧
      ∃ out, parseAdd send.msg = some out ∧ RelayLaw (relayAdd (Blob.zero 32) 21000000 600) out := by
  obtain ⟨p,send,hp,hsend⟩ := relayOffered_some
    (by decide +kernel : (relayOffered (relayMsg (Blob.zero 32) 21000000 600)).isSome = true)
  have hrelayed := relayMsg_relayed hp (by decide +kernel)
  exact ⟨p,send,hrelayed,hsend,(relay_law_iff hrelayed .refl silentAnswers send hsend).mpr
    ⟨rfl,by decide,by decide⟩⟩

theorem relay_pays_out_more : ∃ p send,
    Relayed Sphinx.sample (samplePriv 1) (relayMsg (samplePriv 7) 1000000 144) relayNode p
        (relayAdd (samplePriv 7) 1000000 144) 20000000 500 ∧
      (lnDispatchFlushRelay Musig.sample silentAnswers p.node).offers[0]? = some (some send) ∧
      (parseAdd send.msg).map (fun out => (out.paymentHash,out.amountMsat,out.cltv)) =
        some (Blob.zero 32,20000000,500) := by
  obtain ⟨p,send,hp,hsend⟩ := relayOffered_some
    (by decide +kernel : (relayOffered (relayMsg (samplePriv 7) 1000000 144)).isSome = true)
  have hrelayed := relayMsg_relayed hp (by decide +kernel)
  obtain ⟨e,he,hhash,hamt,hcltv⟩ := hrelayed.entry
  obtain ⟨e',channelId,htlcId,he',hmsg⟩ := flushEntries_offer hsend
  rw [show p.node.fwd[0]? = some e from he] at he'
  cases he'
  refine ⟨p,send,hrelayed,hsend,?_⟩
  rw [hmsg,parseAdd_updateAddHtlc,hhash,hamt,hcltv]
  rfl

end SuperScalar
