import SuperScalar.Peer.HtlcIds
import SuperScalar.Channel.Mirror

namespace SuperScalar

section

variable (m : Musig) (luck : Luck) (channelId : Blob 32)

def onUpdateAdd (ch : Channel) : PeerCall :=
  .recv (fun got =>
    match got with
    | none => .done (ch,false)
    | some msg =>
      htlcCommitRecvAndSign m luck channelId (messageId msg) (getU64 (msg.drop 42))
        (copyBytes 32 (msg.drop 50)) (getU32 (msg.drop 82)) ch)

end

structure AddTerms where
  channelId : Blob 32
  amountMsat : UInt64
  paymentHash : Blob 32
  cltvExpiry : UInt32
  onion : Onion
  luckA : Luck
  luckB : Luck

section

variable (m : Musig) (t : AddTerms)

def addLink (a b : Channel) : Link Bytes (Channel × Bool) (Channel × Bool) :=
  ⟨htlcCommitAddAndSign m t.luckA t.channelId t.amountMsat t.paymentHash t.cltvExpiry t.onion a,
    onUpdateAdd m t.luckB t.channelId b,[],[]⟩

def AddPasses (a b : Channel) : Prop :=
  (channelAddHtlc .offered (t.amountMsat/1000) t.paymentHash t.cltvExpiry t.luckA.growHtlcs
      t.luckA.draw a).2.isSome = true ∧
    (channelAddHtlc .received (t.amountMsat/1000) t.paymentHash t.cltvExpiry t.luckB.growHtlcs
      t.luckB.draw b).2.isSome = true

def HoldsSecret (a b : Channel) : Prop := ∃ secret,
  channelGetReceivedRevocation a (a.commitmentNumber-1) = some secret ∧
    channelGetPerCommitmentSecret b (a.commitmentNumber-1) = some secret

def Interlocks (a b : Channel) : Prop := ∃ a' b',
  Link.Run (addLink m t a b) ⟨.done (a',true),.done (b',true),[],[]⟩ ∧
    Mirror m a' b' ∧ HoldsSecret a' b' ∧ HoldsSecret b' a'

end

section

variable {m : Musig} {luck : Luck} {channelId : Blob 32} {ch : Channel}

def IsCommitmentSigned (msg : Bytes) : Prop := getU16 msg = bolt2CommitmentSigned

def WantsRevocation : PeerCall → Prop
  | .done r => r.2 = false
  | .send _ next => WantsRevocation (next true)
  | .recv next => ∀ got, (∀ msg, got = some msg → IsCommitmentSigned msg) →
    ∃ ch, next got = .done (ch,false)

theorem commitmentSigned_type (channelId : Blob 32) (sig64 : Bytes) :
    IsCommitmentSigned (commitmentSigned channelId sig64) := by
  have hhead : getU16 (commitmentSigned channelId sig64) = getU16 (putU16 bolt2CommitmentSigned) :=
    rfl
  rw [IsCommitmentSigned,hhead]
  decide

theorem commitmentRound_wants (ch : Channel) :
    WantsRevocation (commitmentRound m luck channelId ch) := by
  unfold commitmentRound sendCommitmentSignedForRemote
  cases channelCreateCommitmentPartialSig m ch with
  | mk ch' sig =>
    cases sig with
    | none => exact Eq.refl false
    | some =>
      intro got htype
      cases got with
      | none => exact ⟨ch',rfl⟩
      | some buf =>
        have hother : getU16 buf ≠ bolt2RevokeAndAck := by
          rw [htype buf rfl]
          decide
        refine ⟨ch',?_⟩
        dsimp only
        rw [if_pos hother]
        split_ifs <;> rfl

theorem addAndSign_wants (t : AddTerms) (a : Channel) :
    WantsRevocation (htlcCommitAddAndSign m t.luckA t.channelId t.amountMsat t.paymentHash
      t.cltvExpiry t.onion a) := by
  unfold htlcCommitAddAndSign
  cases channelAddHtlc .offered (t.amountMsat/1000) t.paymentHash t.cltvExpiry t.luckA.growHtlcs
    t.luckA.draw a with
  | mk a' id =>
    cases id with
    | none => exact Eq.refl false
    | some => exact commitmentRound_wants a'

theorem recvAndSign_sends (htlcId amountMsat : UInt64) (paymentHash : Blob 32)
    (cltvExpiry : UInt32) (ch : Channel) :
    (htlcCommitRecvAndSign m luck channelId htlcId amountMsat paymentHash cltvExpiry ch).NextSend
      IsCommitmentSigned := by
  unfold htlcCommitRecvAndSign
  cases channelAddHtlc .received (amountMsat/1000) paymentHash cltvExpiry luck.growHtlcs luck.draw
    ch with
  | mk ch' id =>
    cases id with
    | none => trivial
    | some =>
      dsimp only
      unfold commitmentRound sendCommitmentSignedForRemote
      cases channelCreateCommitmentPartialSig m (overrideLastId htlcId ch') with
      | mk _ sig =>
        cases sig with
        | none => trivial
        | some => exact commitmentSigned_type _ _

theorem onUpdateAdd_sends (ch : Channel) :
    (onUpdateAdd m luck channelId ch).NextSend IsCommitmentSigned := by
  intro got
  cases got with
  | none => trivial
  | some => exact recvAndSign_sends _ _ _ _ ch

def Crossed (l : Link Bytes (Channel × Bool) (Channel × Bool)) : Prop :=
  (WantsRevocation l.left ∧ ((l.toLeft = [] ∧ l.right.NextSend IsCommitmentSigned) ∨
      ∃ msg rest, l.toLeft = msg :: rest ∧ IsCommitmentSigned msg)) ∨
    ∃ ch, l.left = .done (ch,false)

theorem Crossed.step (l l' : Link Bytes (Channel × Bool) (Channel × Bool)) (h : Crossed l)
    (hstep : Link.Step l l') : Crossed l' := by
  cases hstep with
  | leftSend =>
    rcases h with ⟨hwants,hqueue⟩ | ⟨ch,hdone⟩
    · exact .inl ⟨hwants,hqueue⟩
    · cases hdone
  | rightSend _ msg _ _ toLeft =>
    rcases h with ⟨hwants,⟨hempty,hsends⟩ | ⟨first,rest,hqueue,htype⟩⟩ | hdone
    · refine .inl ⟨hwants,.inr ⟨msg,[],?_,hsends⟩⟩
      rw [show toLeft = [] from hempty]
      rfl
    · refine .inl ⟨hwants,.inr ⟨first,rest ++ [msg],?_,htype⟩⟩
      rw [show toLeft = first :: rest from hqueue]
      rfl
    · exact .inr hdone
  | leftRecv _ _ _ msg rest =>
    rcases h with ⟨hwants,⟨hempty,-⟩ | ⟨first,rest',hqueue,htype⟩⟩ | ⟨ch,hdone⟩
    · cases hempty
    · obtain ⟨rfl,rfl⟩ := List.cons.inj hqueue
      exact .inr (hwants (some msg) fun got hgot => Option.some.inj hgot ▸ htype)
    · cases hdone
  | rightRecv _ _ msg =>
    rcases h with ⟨hwants,⟨hempty,hsends⟩ | hqueue⟩ | hdone
    · exact .inl ⟨hwants,.inl ⟨hempty,hsends (some msg)⟩⟩
    · exact .inl ⟨hwants,.inr hqueue⟩
    · exact .inr hdone
  | leftClosed =>
    rcases h with ⟨hwants,-⟩ | ⟨ch,hdone⟩
    · exact .inr (hwants none nofun)
    · cases hdone
  | rightClosed =>
    rcases h with ⟨hwants,⟨hempty,hsends⟩ | hqueue⟩ | hdone
    · exact .inl ⟨hwants,.inl ⟨hempty,hsends none⟩⟩
    · exact .inl ⟨hwants,.inr hqueue⟩
    · exact .inr hdone

end

theorem add_never_interlocks (m : Musig) (t : AddTerms) (a b : Channel) :
    (Mirror m a b ∧ AddPasses t a b → Interlocks m t a b) ↔ ¬ (Mirror m a b ∧ AddPasses t a b) := by
  have hnever : ¬ Interlocks m t a b := by
    rintro ⟨a',b',hrun,-⟩
    have hstart : Crossed (addLink m t a b) :=
      .inl ⟨addAndSign_wants t a,.inl ⟨rfl,onUpdateAdd_sends b⟩⟩
    rcases hrun.invariant Crossed.step hstart with ⟨hwants,-⟩ | ⟨ch,hdone⟩
    · cases hwants
    · cases hdone
  exact ⟨fun h hpasses => hnever (h hpasses),fun h hpasses => absurd hpasses h⟩

def sampleTerms : AddTerms :=
  { channelId := Blob.zero 32
    amountMsat := 20000000
    paymentHash := Blob.zero 32
    cltvExpiry := 500
    onion := Blob.zero 1366
    luckA := luckyDraw
    luckB := luckyDraw }

def withPools (ch : Channel) : Channel :=
  channelSetRemotePubnonces [sampleNonce,sampleNonce]
    (channelInitNoncePool [(Blob.zero 132,Blob.zero 132),(Blob.zero 132,Blob.zero 132)] ch)

theorem add_crosses_signatures :
    Mirror Musig.sample (withPools mirrorLeft) (withPools mirrorRight) ∧
      AddPasses sampleTerms (withPools mirrorLeft) (withPools mirrorRight) ∧
      ∃ l, Link.Run (addLink Musig.sample sampleTerms (withPools mirrorLeft)
          (withPools mirrorRight)) l ∧
        l.results.map (fun r => (r.1.2,r.2.2)) = some (false,false) := by
  refine ⟨?_,?_,_,Link.run_schedule 12 _,?_⟩
  · exact ⟨rfl,fun side => by cases side <;> rfl,rfl,rfl,rfl,
      ⟨samplePoint,rfl,rfl⟩,⟨samplePoint,rfl,rfl⟩⟩
  · exact ⟨by decide +kernel,by decide +kernel⟩
  · decide +kernel

end SuperScalar
