import SuperScalar.Channel.Commitment
import SuperScalar.Channel.Calls

namespace SuperScalar

open List

section

variable (m : Musig)

def channelInitNoncePool (pairs : List (Secnonce × Pubnonce)) (ch : Channel) : Channel :=
  { ch with
    localNoncePool := musigNoncePoolGenerate pairs
    remoteNonceCount := 0
    remoteNonceNext := 0 }

def channelSetRemotePubnonces (pubnonces : List (Blob 66)) (ch : Channel) : Channel :=
  { ch with
    remotePubnoncesSer := pubnonces.take musigNoncePoolMax
    remoteNonceCount := min pubnonces.length musigNoncePoolMax
    remoteNonceNext := 0 }

def remotePubnonce (ch : Channel) (index : UInt32) : Option Pubnonce :=
  m.musigPubnonceParse (ch.remotePubnoncesSer.getD index.toNat (Blob.zero 66))

def commitmentSighash (ch : Channel) (unsignedTx : Bytes) : Blob 32 :=
  computeTaprootSighash m unsignedTx 0 ch.fundingSpk ch.fundingAmount 0xFFFFFFFE

def signerOrder {α : Type} (ch : Channel) (mine theirs : α) : List α :=
  if ch.localFundingSignerIdx = 0 then [mine,theirs] else [theirs,mine]

def commitmentSession (ch : Channel) (unsignedTx : Bytes) (mine theirs : Pubnonce) :
    Option (MusigSession × KeyaggCache) :=
  musigSessionFinalizeNonces m ch.fundingKeyagg (signerOrder ch mine theirs)
    (commitmentSighash m ch unsignedTx) ch.chanMerkleRoot

def signWithNonce (ch : Channel) (nidx : UInt32) (unsignedTx : Bytes) (secnonce : Secnonce)
    (pubnonce : Pubnonce) : Option (Blob 32) := do
  let peerPubnonce ← remotePubnonce m ch nidx
  let (session,cache) ← commitmentSession m ch unsignedTx pubnonce peerPubnonce
  let psig ← m.musigPartialSign secnonce ch.localFundingKeypair cache session
  m.musigPartialSigSerialize psig

def drawNonce {α : Type} (ch : Channel) (built : Option (Bytes × Blob 32))
    (finish : Bytes → Secnonce → Pubnonce → Option α) : Channel × Option α :=
  match built with
  | none => (ch,none)
  | some (unsignedTx,_) =>
    match musigNoncePoolNext ch.localNoncePool with
    | none => (ch,none)
    | some (secnonce,pubnonce,pool) =>
      match finish unsignedTx secnonce pubnonce with
      | none => ({ ch with localNoncePool := pool },none)
      | some result =>
        ({ ch with localNoncePool := pool, remoteNonceNext := ch.remoteNonceNext+1 },some result)

def channelCreateCommitmentPartialSig (ch : Channel) : Channel × Option (Blob 32 × UInt32) :=
  let nidx := UInt32.ofNat ch.remoteNonceNext
  if nidx.toNat ≥ ch.remoteNonceCount then (ch,none)
  else
    drawNonce ch (channelBuildCommitmentTxForRemote m ch) (fun unsignedTx secnonce pubnonce =>
      (signWithNonce m ch nidx unsignedTx secnonce pubnonce).map (fun sig => (sig,nidx)))

def aggregateWithNonce (ch : Channel) (peerPartialSig : Blob 32) (peerNonceIndex : UInt32)
    (unsignedTx : Bytes) (secnonce : Secnonce) (pubnonce : Pubnonce) : Option (Blob 64) :=
  if peerNonceIndex.toNat ≥ ch.remoteNonceCount then none
  else do
    let peerPubnonce ← remotePubnonce m ch peerNonceIndex
    let (session,cache) ← commitmentSession m ch unsignedTx pubnonce peerPubnonce
    let peerPsig ← m.musigPartialSigParse peerPartialSig
    if !m.musigPartialSigVerify peerPsig peerPubnonce ch.remoteFundingPubkey cache session then none
    else do
      let myPsig ← m.musigPartialSign secnonce ch.localFundingKeypair cache session
      m.musigPartialSigAgg session (signerOrder ch myPsig peerPsig)

def channelVerifyAndAggregateCommitmentSig (peerPartialSig : Blob 32) (peerNonceIndex : UInt32)
    (ch : Channel) : Channel × Option (Blob 64) :=
  drawNonce ch (channelBuildCommitmentTx m ch)
    (aggregateWithNonce m ch peerPartialSig peerNonceIndex)

end

section

variable (m : Musig)

inductive NonceOp where
  | create
  | verify (peerPartialSig : Blob 32) (peerNonceIndex : UInt32)
  | other (op : ChannelOp)

def NonceOp.apply (ch : Channel) : NonceOp → Channel
  | .create => (channelCreateCommitmentPartialSig m ch).1
  | .verify peerPartialSig peerNonceIndex =>
    (channelVerifyAndAggregateCommitmentSig m peerPartialSig peerNonceIndex ch).1
  | .other op => channelStep m.toSecp ch op

def NonceOp.peerIndex (ch : Channel) : NonceOp → ℕ
  | .create => (UInt32.ofNat ch.remoteNonceNext).toNat
  | .verify _ peerNonceIndex => peerNonceIndex.toNat
  | .other _ => 0

structure NonceSession where
  localIndex : ℕ
  peerIndex : ℕ
deriving DecidableEq

structure NonceRun where
  channel : Channel
  sessions : List NonceSession

def nonceStep (s : NonceRun) (op : NonceOp) : NonceRun :=
  let ch := op.apply m s.channel
  { channel := ch
    sessions :=
      if ch.localNoncePool.nextUnused = s.channel.localNoncePool.nextUnused then s.sessions
      else s.sessions ++ [⟨s.channel.localNoncePool.nextUnused,op.peerIndex s.channel⟩] }

end

section

variable (m : Musig)

def Signs (ch : Channel) (nidx : UInt32) (unsignedTx : Bytes) (secnonce : Secnonce)
    (pubnonce : Pubnonce) : Prop :=
  ∃ peerPubnonce session cache psig sig,
    remotePubnonce m ch nidx = some peerPubnonce ∧
      commitmentSession m ch unsignedTx pubnonce peerPubnonce = some (session,cache) ∧
      m.musigPartialSign secnonce ch.localFundingKeypair cache session = some psig ∧
      m.musigPartialSigSerialize psig = some sig

def Aggregates (ch : Channel) (peerPartialSig : Blob 32) (peerNonceIndex : UInt32)
    (unsignedTx : Bytes) (secnonce : Secnonce) (pubnonce : Pubnonce) : Prop :=
  ∃ peerPubnonce session cache peerPsig myPsig sig,
    remotePubnonce m ch peerNonceIndex = some peerPubnonce ∧
      commitmentSession m ch unsignedTx pubnonce peerPubnonce = some (session,cache) ∧
      m.musigPartialSigParse peerPartialSig = some peerPsig ∧
      m.musigPartialSigVerify peerPsig peerPubnonce ch.remoteFundingPubkey cache session = true ∧
      m.musigPartialSign secnonce ch.localFundingKeypair cache session = some myPsig ∧
      m.musigPartialSigAgg session (signerOrder ch myPsig peerPsig) = some sig

def Completes (ch : Channel) : NonceOp → Prop
  | .create => ∀ unsignedTx txid secnonce pubnonce pool,
    channelBuildCommitmentTxForRemote m ch = some (unsignedTx,txid) →
      musigNoncePoolNext ch.localNoncePool = some (secnonce,pubnonce,pool) →
      Signs m ch (UInt32.ofNat ch.remoteNonceNext) unsignedTx secnonce pubnonce
  | .verify peerPartialSig peerNonceIndex => ∀ unsignedTx txid secnonce pubnonce pool,
    channelBuildCommitmentTx m ch = some (unsignedTx,txid) →
      musigNoncePoolNext ch.localNoncePool = some (secnonce,pubnonce,pool) →
      peerNonceIndex.toNat = ch.remoteNonceNext ∧ peerNonceIndex.toNat < ch.remoteNonceCount ∧
        Aggregates m ch peerPartialSig peerNonceIndex unsignedTx secnonce pubnonce
  | .other _ => True

end

section

variable {m : Musig} {ch : Channel}

variable {secnonce : Secnonce} {pubnonce : Pubnonce} {unsignedTx : Bytes}

theorem noncePoolNext_some {pool pool' : MusigNoncePool}
    (h : musigNoncePoolNext pool = some (secnonce,pubnonce,pool')) :
    pool.nextUnused < pool.count ∧ pool'.nextUnused = pool.nextUnused+1 ∧
      pool'.count = pool.count := by
  unfold musigNoncePoolNext at h
  split_ifs at h with hlt
  obtain ⟨-,hrest⟩ := Prod.mk.inj (Option.some.inj h)
  obtain ⟨-,rfl⟩ := Prod.mk.inj hrest
  exact ⟨Nat.not_le.mp hlt,rfl,rfl⟩

theorem Signs.signed {nidx : UInt32} (h : Signs m ch nidx unsignedTx secnonce pubnonce) :
    signWithNonce m ch nidx unsignedTx secnonce pubnonce ≠ none := by
  obtain ⟨peerPubnonce,session,cache,psig,sig,hnonce,hsession,hpsig,hsig⟩ := h
  simp [signWithNonce,hnonce,hsession,hpsig,hsig]

theorem Aggregates.aggregated {peerPartialSig : Blob 32} {peerNonceIndex : UInt32}
    (h : Aggregates m ch peerPartialSig peerNonceIndex unsignedTx secnonce pubnonce)
    (hindex : peerNonceIndex.toNat < ch.remoteNonceCount) :
    aggregateWithNonce m ch peerPartialSig peerNonceIndex unsignedTx secnonce pubnonce ≠ none := by
  obtain ⟨peerPubnonce,session,cache,peerPsig,myPsig,sig,hnonce,hsession,hparse,hverify,
    hpsig,hsig⟩ := h
  simp [aggregateWithNonce,Nat.not_le.mpr hindex,hnonce,hsession,hparse,hverify,hpsig,hsig]

inductive Draw (ch : Channel) (built : Option (Bytes × Blob 32))
    (finishes : Bytes → Secnonce → Pubnonce → Prop) : Channel → Prop where
  | idle : Draw ch built finishes ch
  | paired (unsignedTx : Bytes) (txid : Blob 32) (secnonce : Secnonce) (pubnonce : Pubnonce)
      (pool : MusigNoncePool) (tx : built = some (unsignedTx,txid))
      (drawn : musigNoncePoolNext ch.localNoncePool = some (secnonce,pubnonce,pool)) :
      Draw ch built finishes
        { ch with localNoncePool := pool, remoteNonceNext := ch.remoteNonceNext+1 }
  | wasted (unsignedTx : Bytes) (txid : Blob 32) (secnonce : Secnonce) (pubnonce : Pubnonce)
      (pool : MusigNoncePool) (tx : built = some (unsignedTx,txid))
      (drawn : musigNoncePoolNext ch.localNoncePool = some (secnonce,pubnonce,pool))
      (unfinished : ¬ finishes unsignedTx secnonce pubnonce) :
      Draw ch built finishes { ch with localNoncePool := pool }

theorem drawNonce_draw {α : Type} (ch : Channel) (built : Option (Bytes × Blob 32))
    (finish : Bytes → Secnonce → Pubnonce → Option α) :
    Draw ch built (fun unsignedTx secnonce pubnonce => finish unsignedTx secnonce pubnonce ≠ none)
      (drawNonce ch built finish).1 := by
  unfold drawNonce
  cases hbuilt : built with
  | none => exact .idle
  | some tx =>
    cases hpool : musigNoncePoolNext ch.localNoncePool with
    | none => exact .idle
    | some drawn =>
      obtain ⟨secnonce,pubnonce,pool⟩ := drawn
      dsimp only
      cases hfinish : finish tx.1 secnonce pubnonce with
      | none =>
        exact .wasted tx.1 tx.2 secnonce pubnonce pool rfl hpool (fun hne => hne hfinish)
      | some => exact .paired tx.1 tx.2 secnonce pubnonce pool rfl hpool

end

section

variable {m : Musig} {s t : NonceRun} {op : NonceOp}

def HandedInOrder (s : NonceRun) : Prop :=
  s.sessions.map NonceSession.localIndex = range s.channel.localNoncePool.nextUnused

structure Paired (s : NonceRun) : Prop where
  counters : s.channel.remoteNonceNext = s.channel.localNoncePool.nextUnused
  size : s.channel.localNoncePool.count ≤ musigNoncePoolMax
  peers : s.sessions.map NonceSession.peerIndex = range s.channel.localNoncePool.nextUnused

theorem other_pool (op : ChannelOp) (ch : Channel) :
    (channelStep m.toSecp ch op).localNoncePool = ch.localNoncePool ∧
      (channelStep m.toSecp ch op).remoteNonceNext = ch.remoteNonceNext := by
  have hpool := congrArg Channel.localNoncePool (step_fixed m.toSecp ch op)
  have hnext := congrArg Channel.remoteNonceNext (step_fixed m.toSecp ch op)
  exact ⟨hpool,hnext⟩

structure DrewNonce (m : Musig) (ch ch' : Channel) (op : NonceOp) : Prop where
  available : ch.localNoncePool.nextUnused < ch.localNoncePool.count
  used : ch'.localNoncePool.nextUnused = ch.localNoncePool.nextUnused+1
  count : ch'.localNoncePool.count = ch.localNoncePool.count
  keepsStep : Completes m ch op → ch'.remoteNonceNext = ch.remoteNonceNext+1 ∧
    (ch.remoteNonceNext < 2^32 → op.peerIndex ch = ch.remoteNonceNext)

theorem draw_counts {ch ch' : Channel} {built : Option (Bytes × Blob 32)}
    {finishes : Bytes → Secnonce → Pubnonce → Prop} (hdraw : Draw ch built finishes ch')
    (hcompletes : Completes m ch op → ∀ unsignedTx txid secnonce pubnonce pool,
      built = some (unsignedTx,txid) →
      musigNoncePoolNext ch.localNoncePool = some (secnonce,pubnonce,pool) →
      finishes unsignedTx secnonce pubnonce ∧
        (ch.remoteNonceNext < 2^32 → op.peerIndex ch = ch.remoteNonceNext)) :
    (ch'.localNoncePool = ch.localNoncePool ∧ ch'.remoteNonceNext = ch.remoteNonceNext) ∨
      DrewNonce m ch ch' op := by
  cases hdraw with
  | idle => exact .inl ⟨rfl,rfl⟩
  | paired unsignedTx txid secnonce pubnonce pool tx drawn =>
    obtain ⟨hlt,hused,hcount⟩ := noncePoolNext_some drawn
    exact .inr ⟨hlt,hused,hcount,fun h =>
      ⟨rfl,(hcompletes h unsignedTx txid secnonce pubnonce pool tx drawn).2⟩⟩
  | wasted unsignedTx txid secnonce pubnonce pool tx drawn unfinished =>
    obtain ⟨hlt,hused,hcount⟩ := noncePoolNext_some drawn
    exact .inr ⟨hlt,hused,hcount,fun h =>
      absurd (hcompletes h unsignedTx txid secnonce pubnonce pool tx drawn).1 unfinished⟩

theorem apply_counts (op : NonceOp) (ch : Channel) :
    ((op.apply m ch).localNoncePool = ch.localNoncePool ∧
        (op.apply m ch).remoteNonceNext = ch.remoteNonceNext) ∨
      DrewNonce m ch (op.apply m ch) op := by
  cases op with
  | create =>
    rw [NonceOp.apply,channelCreateCommitmentPartialSig]
    split_ifs
    · exact .inl ⟨rfl,rfl⟩
    · refine draw_counts (drawNonce_draw _ _ _) ?_
      intro hcompletes unsignedTx txid secnonce pubnonce pool htx hdrawn
      have hsigned := (hcompletes unsignedTx txid secnonce pubnonce pool htx hdrawn).signed
      refine ⟨fun hnone => hsigned (Option.map_eq_none_iff.mp hnone),fun hlt => ?_⟩
      exact UInt32.toNat_ofNat_of_lt' hlt
  | verify peerPartialSig peerNonceIndex =>
    refine draw_counts (drawNonce_draw _ _ _) ?_
    intro hcompletes unsignedTx txid secnonce pubnonce pool htx hdrawn
    obtain ⟨hindex,hlt,haggregates⟩ :=
      hcompletes unsignedTx txid secnonce pubnonce pool htx hdrawn
    exact ⟨haggregates.aggregated hlt,fun _ => hindex⟩
  | other op => exact .inl (other_pool op ch)

theorem nonceStep_idle
    (h : (op.apply m s.channel).localNoncePool = s.channel.localNoncePool) :
    (nonceStep m s op).sessions = s.sessions := by
  exact if_pos (congrArg MusigNoncePool.nextUnused h)

theorem nonceStep_drew (h : DrewNonce m s.channel (op.apply m s.channel) op) :
    (nonceStep m s op).sessions =
      s.sessions ++ [⟨s.channel.localNoncePool.nextUnused,op.peerIndex s.channel⟩] := by
  refine if_neg fun heq => ?_
  rw [h.used] at heq
  omega

theorem HandedInOrder.step (h : HandedInOrder s) : HandedInOrder (nonceStep m s op) := by
  unfold HandedInOrder at h ⊢
  rcases apply_counts op s.channel with ⟨hpool,-⟩ | hdrew
  · rw [nonceStep_idle hpool,h]
    exact congrArg (fun pool => range (MusigNoncePool.nextUnused pool)) hpool.symm
  · rw [nonceStep_drew hdrew,map_append,h]
    change _ = range (op.apply m s.channel).localNoncePool.nextUnused
    rw [hdrew.used,range_succ]
    rfl

theorem Paired.step (h : Paired s) (hcompletes : Completes m s.channel op) :
    Paired (nonceStep m s op) := by
  rcases apply_counts op s.channel with ⟨hpool,hnext⟩ | hdrew
  · have hchannel : (nonceStep m s op).channel = op.apply m s.channel := rfl
    refine ⟨?_,?_,?_⟩
    · rw [hchannel,hnext,hpool,h.counters]
    · rw [hchannel,hpool]
      exact h.size
    · rw [nonceStep_idle hpool,hchannel,hpool,h.peers]
  · obtain ⟨hnext,hpeer⟩ := hdrew.keepsStep hcompletes
    have hchannel : (nonceStep m s op).channel = op.apply m s.channel := rfl
    have hsmall : s.channel.remoteNonceNext < 2^32 := by
      have hlt := hdrew.available
      have hsize : s.channel.localNoncePool.count ≤ 256 := h.size
      rw [h.counters]
      omega
    refine ⟨?_,?_,?_⟩
    · rw [hchannel,hnext,hdrew.used,h.counters]
    · rw [hchannel,hdrew.count]
      exact h.size
    · rw [nonceStep_drew hdrew,map_append,h.peers,hchannel,hdrew.used,range_succ,
        ← h.counters,← hpeer hsmall]
      rfl

end

def exchangedPools (pairs : List (Secnonce × Pubnonce)) (pubnonces : List (Blob 66))
    (ch : Channel) : NonceRun :=
  ⟨channelSetRemotePubnonces pubnonces (channelInitNoncePool pairs ch),[]⟩

theorem nonces_stay_paired (m : Musig) (pairs : List (Secnonce × Pubnonce))
    (pubnonces : List (Blob 66)) (ch : Channel) (s : NonceRun) :
    (Runs.Reaches (nonceStep m) (fun _ _ => True) (exchangedPools pairs pubnonces ch) s →
        (s.sessions.map NonceSession.localIndex).Nodup) ∧
      (Runs.Reaches (nonceStep m) (fun s op => Completes m s.channel op)
          (exchangedPools pairs pubnonces ch) s →
        s.channel.localNoncePool.nextUnused = s.channel.remoteNonceNext ∧
          ∀ (k : ℕ) (session : NonceSession), s.sessions[k]? = some session →
            session.localIndex = k ∧ session.peerIndex = k) := by
  have horder : HandedInOrder (exchangedPools pairs pubnonces ch) := rfl
  have hpaired : Paired (exchangedPools pairs pubnonces ch) :=
    ⟨rfl,Nat.min_le_right _ _,rfl⟩
  have hget (f : NonceSession → ℕ) (n k : ℕ) (session : NonceSession)
      (hrange : s.sessions.map f = range n) (hk : s.sessions[k]? = some session) :
      f session = k := by
    have hmap : (s.sessions.map f)[k]? = some (f session) := by
      rw [getElem?_map,hk]
      rfl
    rw [hrange] at hmap
    obtain ⟨hlt,heq⟩ := List.getElem?_eq_some_iff.mp hmap
    rw [getElem_range] at heq
    exact heq.symm
  refine ⟨fun hrun => ?_,fun hrun => ?_⟩
  · have hlast := hrun.invariant (fun _ _ h _ => HandedInOrder.step h) horder
    rw [hlast]
    exact nodup_range
  · have hlast := hrun.invariant (fun _ _ h hcompletes => Paired.step h hcompletes) hpaired
    have hordered := hrun.invariant (fun _ _ h _ => HandedInOrder.step h) horder
    refine ⟨hlast.counters.symm,fun k session hk => ⟨?_,?_⟩⟩
    · exact hget _ _ k session hordered hk
    · exact hget _ _ k session hlast.peers hk

def nonceChannel : Channel := { Channel.sample with remotePcp0 := some ⟨0,Blob.zero 64⟩ }

def sampleNonce : Blob 66 := Blob.fill 66 1

def sampleExchange : NonceRun :=
  exchangedPools [(Blob.zero 132,Blob.zero 132)] [sampleNonce] nonceChannel

theorem sampleExchange_completes : Completes Musig.sample sampleExchange.channel .create := by
  intro unsignedTx txid secnonce pubnonce pool _ _
  exact ⟨_,_,_,_,_,rfl,rfl,rfl,rfl⟩

theorem nonces_stay_paired_create : ∃ s,
    Runs.Reaches (nonceStep Musig.sample) (fun s op => Completes Musig.sample s.channel op)
        sampleExchange s ∧
      s.channel.localNoncePool.nextUnused = 1 ∧ s.channel.remoteNonceNext = 1 := by
  have hrun : Runs.Reaches (nonceStep Musig.sample)
      (fun s op => Completes Musig.sample s.channel op) sampleExchange
      (nonceStep Musig.sample sampleExchange .create) :=
    .single ⟨.create,sampleExchange_completes,rfl⟩
  have hused : (nonceStep Musig.sample sampleExchange .create).channel.localNoncePool.nextUnused =
      1 := by
    decide +kernel
  refine ⟨_,hrun,hused,?_⟩
  exact ((nonces_stay_paired Musig.sample _ _ nonceChannel _).2 hrun).1.symm.trans hused

theorem nonces_unpaired_badIndex :
    (nonceStep Musig.sample sampleExchange
        (.verify (Blob.zero 32) 7)).channel.localNoncePool.nextUnused = 1 ∧
      (nonceStep Musig.sample sampleExchange
        (.verify (Blob.zero 32) 7)).channel.remoteNonceNext = 0 := by
  constructor
  · decide +kernel
  · decide +kernel

end SuperScalar
