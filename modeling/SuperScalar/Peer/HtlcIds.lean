import SuperScalar.Peer.HtlcCommit

namespace SuperScalar

open List Channel

inductive PeerOp where
  | dispatch (msg : Bytes)
  | addAndSign (amountMsat : UInt64) (paymentHash : Blob 32) (cltvExpiry : UInt32) (onion : Onion)
  | recvAndSign (htlcId amountMsat : UInt64) (paymentHash : Blob 32) (cltvExpiry : UInt32)
  | fulfill (htlcId : UInt64) (preimage : Blob 32)
  | fail (htlcId : UInt64) (reason : Bytes)

structure PeerStep where
  op : PeerOp
  luck : Luck
  oks : List Bool
  inbox : List (Option Bytes)

def peerStep (m : Musig) (channelId : Blob 32) (ch : Channel) (st : PeerStep) : Channel :=
  match st.op with
  | .dispatch msg => ((htlcCommitDispatch m st.luck channelId msg ch).play st.oks st.inbox).1
  | .addAndSign amountMsat paymentHash cltvExpiry onion =>
    ((htlcCommitAddAndSign m st.luck channelId amountMsat paymentHash cltvExpiry onion ch).play
      st.oks st.inbox).1
  | .recvAndSign htlcId amountMsat paymentHash cltvExpiry =>
    ((htlcCommitRecvAndSign m st.luck channelId htlcId amountMsat paymentHash cltvExpiry ch).play
      st.oks st.inbox).1
  | .fulfill htlcId preimage =>
    ((htlcCommitFulfill m st.luck channelId htlcId preimage ch).play st.oks st.inbox).1
  | .fail htlcId reason =>
    ((htlcCommitFail m st.luck channelId htlcId reason ch).play st.oks st.inbox).1

def messageId (msg : Bytes) : UInt64 := getU64 (msg.drop 34)

def IsAddition (msg : Bytes) : Prop := getU16 msg = bolt2UpdateAddHtlc

instance (msg : Bytes) : Decidable (IsAddition msg) := inferInstanceAs (Decidable (_ = _))

def IsResolution (msg : Bytes) : Prop :=
  getU16 msg = bolt2UpdateFulfillHtlc ∨ getU16 msg = bolt2UpdateFailHtlc ∨
    getU16 msg = bolt2UpdateFailMalformedHtlc

section

variable {m : Musig} {luck : Luck} {channelId : Blob 32} {ch ch' : Channel}

structure SameHtlcs (ch ch' : Channel) : Prop where
  htlcs : ch'.htlcs = ch.htlcs
  nextHtlcId : ch'.nextHtlcId = ch.nextHtlcId

theorem SameHtlcs.refl (ch : Channel) : SameHtlcs ch ch := ⟨rfl,rfl⟩

theorem SameHtlcs.trans {a b c : Channel} (h : SameHtlcs a b) (h' : SameHtlcs b c) :
    SameHtlcs a c := ⟨h'.htlcs.trans h.htlcs,h'.nextHtlcId.trans h.nextHtlcId⟩

def Channel.plain (ch : Channel) : Channel :=
  { ch with
    localNoncePool := MusigNoncePool.empty
    remoteNonceNext := 0
    receivedRevocations := []
    remotePcp0 := none
    remotePcp1 := none }

def SameFunds (ch ch' : Channel) : Prop := ch'.plain = ch.plain

theorem SameFunds.refl (ch : Channel) : SameFunds ch ch := rfl

section

variable (h : SameFunds ch ch')

include h

theorem SameFunds.trans {ch'' : Channel} (h' : SameFunds ch' ch'') :
    SameFunds ch ch'' := Eq.trans h' h

theorem SameFunds.htlcs : ch'.htlcs = ch.htlcs := by
  have heq := congrArg Channel.htlcs h
  exact heq

theorem SameFunds.localAmount : ch'.localAmount = ch.localAmount := by
  have heq := congrArg Channel.localAmount h
  exact heq

theorem SameFunds.remoteAmount : ch'.remoteAmount = ch.remoteAmount := by
  have heq := congrArg Channel.remoteAmount h
  exact heq

theorem SameFunds.nextHtlcId : ch'.nextHtlcId = ch.nextHtlcId := by
  have heq := congrArg Channel.nextHtlcId h
  exact heq

end

theorem Draw.sameFunds {built : Option (Bytes × Blob 32)}
    {finishes : Bytes → Secnonce → Pubnonce → Prop} (h : Draw ch built finishes ch') :
    SameFunds ch ch' := by
  cases h <;> rfl

theorem createSig_sameFunds (ch : Channel) :
    SameFunds ch (channelCreateCommitmentPartialSig m ch).1 := by
  unfold channelCreateCommitmentPartialSig
  dsimp only
  split_ifs
  · exact .refl ch
  · exact (drawNonce_draw _ _ _).sameFunds

theorem SameFunds.sameHtlcs (h : SameFunds ch ch') : SameHtlcs ch ch' := ⟨h.htlcs,h.nextHtlcId⟩

theorem acceptSig_sameFunds (sig64 : Bytes) (ch : Channel) :
    SameFunds ch (acceptCommitmentSig m sig64 ch).1 := (drawNonce_draw _ _ _).sameFunds

theorem receiveRevocation_eq (n : UInt64) (secret : Blob 32) (grow : Bool) (ch : Channel) :
    ∃ revocations, channelReceiveRevocationFlat n secret grow ch =
      { ch with receivedRevocations := revocations } := by
  unfold channelReceiveRevocationFlat channelEnsureRevocationsCap
  split_ifs
  · exact ⟨_,rfl⟩
  · exact ⟨_,rfl⟩
  · exact ⟨ch.receivedRevocations,rfl⟩

theorem setRemotePcp_eq (n : UInt64) (pcp : Pubkey) (ch : Channel) : ∃ first second,
    channelSetRemotePcp n pcp ch = { ch with remotePcp0 := first, remotePcp1 := second } := by
  unfold channelSetRemotePcp
  cases ch.remotePcp0 <;> cases ch.remotePcp1 <;> dsimp only <;> (try split_ifs) <;>
    exact ⟨_,_,rfl⟩

theorem storeRevocation_eq (peerPcs : Blob 32) (ch : Channel) : ∃ revocations,
    storeRevocation luck peerPcs ch = { ch with receivedRevocations := revocations } := by
  unfold storeRevocation
  split_ifs
  · exact receiveRevocation_eq _ _ _ _
  · exact ⟨ch.receivedRevocations,rfl⟩

theorem acceptRevocation_sameFunds (peerPcs : Blob 32) (nextPcpWire : Blob 33) (ch : Channel) :
    SameFunds ch (acceptRevocation m luck peerPcs nextPcpWire ch).1 := by
  obtain ⟨revocations,hstored⟩ := storeRevocation_eq peerPcs ch
  unfold acceptRevocation
  rw [hstored]
  cases m.ecPubkeyParse nextPcpWire with
  | none => rfl
  | some nextPcp =>
    obtain ⟨first,second,heq⟩ := setRemotePcp_eq (ch.commitmentNumber + 1) nextPcp
      { ch with receivedRevocations := revocations }
    dsimp only
    rw [heq]
    rfl

theorem andThen_always {P : Channel → Prop} {s : PeerCall} {next : Channel → PeerCall}
    (h : s.Always (fun r => P r.1)) (hnext : ∀ ch, P ch → (next ch).Always (fun r => P r.1)) :
    (s.andThen next).Always (fun r => P r.1) := by
  refine Script.Always.bind (h.mono fun r hr => ?_)
  split_ifs
  · exact hnext r.1 hr
  · exact hr

theorem createSig_always (ch : Channel) :
    (sendCommitmentSignedForRemote m channelId ch).Always (fun r => SameFunds ch r.1) := by
  have hsame := createSig_sameFunds (m := m) ch
  unfold sendCommitmentSignedForRemote
  cases hsig : channelCreateCommitmentPartialSig m ch with
  | mk _ sig =>
    rw [hsig] at hsame
    cases sig with
    | none => exact hsame
    | some => exact fun _ => hsame

theorem sendRevokeAndAck_same (ch : Channel) :
    (sendRevokeAndAckInternal m channelId ch).Always (fun r => r.1 = ch) := by
  unfold sendRevokeAndAckInternal
  split_ifs
  · exact Eq.refl ch
  · cases channelGetPerCommitmentSecret ch (ch.commitmentNumber-1) with
    | none => exact Eq.refl ch
    | some =>
      cases channelGetPerCommitmentPoint m ch (ch.commitmentNumber+1) with
      | none => exact Eq.refl ch
      | some => exact fun _ => Eq.refl ch

theorem sendRevokeAndAck_always (ch : Channel) :
    (sendRevokeAndAckInternal m channelId ch).Always (fun r => SameFunds ch r.1) :=
  (sendRevokeAndAck_same ch).mono fun r hr => by
    rw [hr]
    exact .refl ch

theorem recvRevokeAndAck_always (ch : Channel) :
    (recvRevokeAndAck m luck ch).Always (fun r => SameFunds ch r.1) := by
  intro got
  cases got with
  | none => exact SameFunds.refl ch
  | some =>
    dsimp only
    split_ifs
    · exact SameFunds.refl ch
    · exact SameFunds.refl ch
    · exact acceptRevocation_sameFunds _ _ ch

theorem recvCommitmentSigned_always (ch : Channel) :
    (recvCommitmentSigned m ch).Always (fun r => SameFunds ch r.1) := by
  intro got
  cases got with
  | none => exact SameFunds.refl ch
  | some =>
    dsimp only
    split_ifs
    · exact SameFunds.refl ch
    · exact SameFunds.refl ch
    · exact acceptSig_sameFunds _ ch

theorem commitmentRound_sameFunds (ch : Channel) :
    (commitmentRound m luck channelId ch).Always (fun r => SameFunds ch r.1) := by
  have hfrom (call : Channel → PeerCall)
      (hcall : ∀ ch, (call ch).Always (fun r => SameFunds ch r.1)) (ch' : Channel)
      (h : SameFunds ch ch') : (call ch').Always (fun r => SameFunds ch r.1) :=
    (hcall ch').mono fun _ hr => h.trans hr
  refine andThen_always (createSig_always ch) fun ch1 h1 => ?_
  refine andThen_always (hfrom _ recvRevokeAndAck_always ch1 h1) fun ch2 h2 => ?_
  exact andThen_always (hfrom _ recvCommitmentSigned_always ch2 h2)
    (hfrom _ sendRevokeAndAck_always)

theorem commitmentRound_always (ch : Channel) :
    (commitmentRound m luck channelId ch).Always (fun r => SameHtlcs ch r.1) :=
  (commitmentRound_sameFunds ch).mono fun _ h => h.sameHtlcs

end

section

variable {m : Musig} {luck : Luck} {channelId : Blob 32} {ch ch' : Channel}

structure Appended (ch ch' : Channel) (direction : HtlcDirection) (id : UInt64) : Prop where
  grown : ∃ h, h.direction = direction ∧ h.id = id ∧ h.isActive = true ∧
    ch'.htlcs = ch.htlcs ++ [h]
  counted : ch'.nextHtlcId = ch.nextHtlcId+1

structure Removed (ch ch' : Channel) (id : UInt64) : Prop where
  found : ∃ before h after, HtlcAt ch id before h after ∧
    ch'.htlcs = (before++after).filter Htlc.isActive
  counted : ch'.nextHtlcId = ch.nextHtlcId

variable {id : UInt64} {ch'' : Channel} {direction : HtlcDirection}

theorem Appended.same (h : Appended ch ch' direction id) (h' : SameHtlcs ch' ch'') :
    Appended ch ch'' direction id := by
  obtain ⟨e,hdirection,hid,hactive,hhtlcs⟩ := h.grown
  exact ⟨⟨e,hdirection,hid,hactive,h'.htlcs.trans hhtlcs⟩,h'.nextHtlcId.trans h.counted⟩

theorem Removed.same (h : Removed ch ch' id) (h' : SameHtlcs ch' ch'') : Removed ch ch'' id := by
  obtain ⟨before,e,after,hat,hhtlcs⟩ := h.found
  exact ⟨⟨before,e,after,hat,h'.htlcs.trans hhtlcs⟩,h'.nextHtlcId.trans h.counted⟩

theorem nextCommitment_sameHtlcs (ch : Channel) (draw : PcsDraw) :
    SameHtlcs ch (ch.nextCommitment draw) := by
  obtain ⟨pcs,count,heq⟩ := ch.nextCommitment_eq draw
  rw [heq]
  exact ⟨rfl,rfl⟩

theorem addHtlc_effect (direction : HtlcDirection) (amountSats : UInt64) (paymentHash : Blob 32)
    (cltvExpiry : UInt32) (grow : Bool) (draw : PcsDraw) (ch : Channel) : ∃ ch',
    (channelAddHtlc direction amountSats paymentHash cltvExpiry grow draw ch = (ch',none) ∧
        SameHtlcs ch ch') ∨
      (channelAddHtlc direction amountSats paymentHash cltvExpiry grow draw ch =
          (ch',some ch.nextHtlcId) ∧ Appended ch ch' direction ch.nextHtlcId) := by
  by_cases hadd : AddAccepted ch direction amountSats ∧ HasSlot grow ch
  · obtain ⟨cap,heq⟩ := channelAddHtlc_added hadd.1 hadd.2
    have happended : Appended ch ({ ch with htlcsCap := cap }.withHtlc
        (newHtlc direction amountSats paymentHash cltvExpiry ch)) direction ch.nextHtlcId :=
      ⟨⟨_,rfl,rfl,rfl,rfl⟩,rfl⟩
    exact ⟨_,.inr ⟨heq,happended.same (nextCommitment_sameHtlcs _ draw)⟩⟩
  · obtain ⟨cap,heq⟩ := channelAddHtlc_refused hadd
    exact ⟨_,.inl ⟨heq,rfl,rfl⟩⟩

theorem credit_sameId (ch : Channel) (side : Ledger.Side) (n : UInt64) :
    (ch.credit side n).nextHtlcId = ch.nextHtlcId := by
  cases side <;> rfl

theorem withoutHtlc_removed {before after : List Htlc} {h : Htlc}
    (hat : HtlcAt ch id before h after) (payee : Ledger.Side) (draw : PcsDraw) :
    Removed ch ((ch.withoutHtlc h payee (before++after)).nextCommitment draw) id := by
  have hremoved : Removed ch (ch.withoutHtlc h payee (before++after)) id :=
    ⟨⟨before,h,after,hat,rfl⟩,(credit_sameId _ _ _).trans (credit_sameId _ _ _)⟩
  exact hremoved.same (nextCommitment_sameHtlcs _ draw)

theorem fulfillHtlc_effect (secp : Secp) (id : UInt64) (preimage : Blob 32) (draw : PcsDraw)
    (ch : Channel) :
    channelFulfillHtlc secp id preimage draw ch = (ch,false) ∨
      ∃ ch', channelFulfillHtlc secp id preimage draw ch = (ch',true) ∧ Removed ch ch' id := by
  rcases channelFulfillHtlc_cases secp id preimage draw ch with
    ⟨heq,-⟩ | ⟨before,h,after,hat,-,heq⟩
  · exact .inl heq
  · exact .inr ⟨_,heq,withoutHtlc_removed hat _ draw⟩

theorem failHtlc_effect (id : UInt64) (draw : PcsDraw) (ch : Channel) :
    channelFailHtlc id draw ch = (ch,false) ∨
      ∃ ch', channelFailHtlc id draw ch = (ch',true) ∧ Removed ch ch' id := by
  rcases channelFailHtlc_cases id draw ch with ⟨-,heq⟩ | ⟨before,h,after,hat,heq⟩
  · exact .inl heq
  · exact .inr ⟨_,heq,withoutHtlc_removed hat _ draw⟩

theorem overrideLastId_appended (htlcId : UInt64) (h : Appended ch ch' direction id) :
    Appended ch (overrideLastId htlcId ch') direction htlcId := by
  obtain ⟨e,hdirection,-,hactive,hhtlcs⟩ := h.grown
  have hlast : ch'.htlcs.getLast? = some e := by
    rw [hhtlcs,getLast?_append,getLast?_singleton,Option.some_or]
  have heq : overrideLastId htlcId ch' = ch'.setHtlcs (ch.htlcs ++ [{ e with id := htlcId }]) := by
    unfold overrideLastId
    rw [hlast,hhtlcs]
    rw [dropLast_concat]
  rw [heq]
  exact ⟨⟨{ e with id := htlcId },hdirection,rfl,hactive,rfl⟩,h.counted⟩

theorem payload_id (msg : Bytes) : getU64 ((msg.drop 2).drop 32) = messageId msg := by
  rw [drop_drop]
  rfl

theorem dispatchAdd_effect (msg : Bytes) (ch : Channel) :
    (dispatchAdd luck (msg.drop 2) ch).Always (fun r => SameHtlcs ch r.1 ∨
      Appended ch r.1 .received (messageId msg)) := by
  unfold dispatchAdd
  split_ifs
  · exact .inl (.refl ch)
  · obtain ⟨ch',⟨heq,hsame⟩ | ⟨heq,happended⟩⟩ := addHtlc_effect .received
      (getU64 ((msg.drop 2).drop 40) / 1000) (copyBytes 32 ((msg.drop 2).drop 48))
      (getU32 ((msg.drop 2).drop 80)) luck.growHtlcs luck.draw ch
    · rw [heq]
      exact .inl hsame
    · rw [heq,payload_id]
      exact .inr (overrideLastId_appended (messageId msg) happended)

theorem resolved_effect {type : UInt16} {r : Channel × Bool}
    (h : r = (ch,false) ∨ ∃ ch', r = (ch',true) ∧ Removed ch ch' id) :
    (resolved type r).Always (fun r => SameHtlcs ch r.1 ∨ Removed ch r.1 id) := by
  rcases h with rfl | ⟨ch',rfl,hremoved⟩
  · exact .inl (.refl ch)
  · exact .inr hremoved

theorem dispatchFulfill_effect (msg : Bytes) (ch : Channel) :
    (dispatchFulfill m luck (msg.drop 2) ch).Always (fun r => SameHtlcs ch r.1 ∨
      Removed ch r.1 (messageId msg)) := by
  unfold dispatchFulfill
  split_ifs
  · exact .inl (.refl ch)
  · rw [payload_id]
    exact resolved_effect (fulfillHtlc_effect _ _ _ _ _)

theorem dispatchFail_effect (type : UInt16) (minLength : ℕ) (msg : Bytes) (ch : Channel) :
    (dispatchFail luck type minLength (msg.drop 2) ch).Always (fun r => SameHtlcs ch r.1 ∨
      Removed ch r.1 (messageId msg)) := by
  unfold dispatchFail
  split_ifs
  · exact .inl (.refl ch)
  · rw [payload_id]
    exact resolved_effect (failHtlc_effect _ _ _)

theorem dispatchCommitmentSigned_same (payload : Bytes) (ch : Channel) :
    (dispatchCommitmentSigned m channelId payload ch).Always (fun r => SameHtlcs ch r.1) := by
  unfold dispatchCommitmentSigned
  split_ifs
  · exact .refl ch
  · have hsame := (acceptSig_sameFunds (m := m) (payload.drop 32) ch).sameHtlcs
    cases hsig : acceptCommitmentSig m (payload.drop 32) ch with
    | mk ch' ok =>
      rw [hsig] at hsame
      cases ok with
      | false => exact hsame
      | true =>
        refine Script.Always.bind ((sendRevokeAndAck_always ch').mono fun r hr => ?_)
        exact hsame.trans hr.sameHtlcs

theorem dispatchUpdateFee_same (payload : Bytes) (ch : Channel) :
    (dispatchUpdateFee payload ch).Always (fun r => SameHtlcs ch r.1) := by
  unfold dispatchUpdateFee
  dsimp only
  split_ifs
  · exact SameHtlcs.refl ch
  · exact SameHtlcs.refl ch
  · exact ⟨rfl,rfl⟩

theorem dispatchRevokeAndAck_same (payload : Bytes) (ch : Channel) :
    (dispatchRevokeAndAck m luck payload ch).Always (fun r => SameHtlcs ch r.1) := by
  unfold dispatchRevokeAndAck
  split_ifs
  · exact SameHtlcs.refl ch
  · exact (acceptRevocation_sameFunds _ _ ch).sameHtlcs

theorem dispatch_effect (msg : Bytes) (ch : Channel) :
    (htlcCommitDispatch m luck channelId msg ch).Always (fun r => SameHtlcs ch r.1 ∨
      (IsAddition msg ∧ Appended ch r.1 .received (messageId msg)) ∨
      (IsResolution msg ∧ Removed ch r.1 (messageId msg))) := by
  unfold htlcCommitDispatch
  dsimp only
  split_ifs with hshort hadd hfulfill hfail hmalformed hsigned hrevoke hfee
  · exact .inl (.refl ch)
  · exact (dispatchAdd_effect msg ch).mono fun _ h => h.imp_right fun hr => .inl ⟨hadd,hr⟩
  · exact (dispatchFulfill_effect msg ch).mono fun _ h =>
      h.imp_right fun hr => .inr ⟨.inl hfulfill,hr⟩
  · exact (dispatchFail_effect _ 42 msg ch).mono fun _ h =>
      h.imp_right fun hr => .inr ⟨.inr (.inl hfail),hr⟩
  · exact (dispatchFail_effect _ 74 msg ch).mono fun _ h =>
      h.imp_right fun hr => .inr ⟨.inr (.inr hmalformed),hr⟩
  · exact (dispatchCommitmentSigned_same _ ch).mono fun _ h => .inl h
  · exact (dispatchRevokeAndAck_same _ ch).mono fun _ h => .inl h
  · exact (dispatchUpdateFee_same _ ch).mono fun _ h => .inl h
  · exact .inl (.refl ch)

theorem sendThenRound_always {P : Channel → Prop} (hP : ∀ a b, P a → SameHtlcs a b → P b)
    (msg : Bytes) (h : P ch) :
    ((sendOnce msg ch).andThen (commitmentRound m luck channelId)).Always (fun r => P r.1) :=
  andThen_always (fun _ => h) fun ch' h' =>
    (commitmentRound_always ch').mono fun _ hr => hP _ _ h' hr

theorem addAndSign_effect (amountMsat : UInt64) (paymentHash : Blob 32) (cltvExpiry : UInt32)
    (onion : Onion) (ch : Channel) :
    (htlcCommitAddAndSign m luck channelId amountMsat paymentHash cltvExpiry onion ch).Always
      (fun r => SameHtlcs ch r.1 ∨ Appended ch r.1 .offered ch.nextHtlcId) := by
  unfold htlcCommitAddAndSign
  obtain ⟨ch',⟨heq,hsame⟩ | ⟨heq,happended⟩⟩ := addHtlc_effect .offered (amountMsat / 1000)
    paymentHash cltvExpiry luck.growHtlcs luck.draw ch
  · rw [heq]
    exact .inl hsame
  · rw [heq]
    exact (sendThenRound_always (fun _ _ => Appended.same) _ happended).mono fun _ h => .inr h

theorem recvAndSign_effect (htlcId amountMsat : UInt64) (paymentHash : Blob 32)
    (cltvExpiry : UInt32) (ch : Channel) :
    (htlcCommitRecvAndSign m luck channelId htlcId amountMsat paymentHash cltvExpiry ch).Always
      (fun r => SameHtlcs ch r.1 ∨ Appended ch r.1 .received htlcId) := by
  unfold htlcCommitRecvAndSign
  obtain ⟨ch',⟨heq,hsame⟩ | ⟨heq,happended⟩⟩ := addHtlc_effect .received (amountMsat / 1000)
    paymentHash cltvExpiry luck.growHtlcs luck.draw ch
  · rw [heq]
    exact .inl hsame
  · rw [heq]
    exact (commitmentRound_always _).mono fun _ h =>
      .inr ((overrideLastId_appended htlcId happended).same h)

theorem fulfill_effect (htlcId : UInt64) (preimage : Blob 32) (ch : Channel) :
    (htlcCommitFulfill m luck channelId htlcId preimage ch).Always
      (fun r => SameHtlcs ch r.1 ∨ Removed ch r.1 htlcId) := by
  unfold htlcCommitFulfill
  rcases fulfillHtlc_effect m.toSecp htlcId preimage luck.draw ch with heq | ⟨ch',heq,hremoved⟩
  · rw [heq]
    exact .inl (.refl ch)
  · rw [heq]
    exact (sendThenRound_always (fun _ _ => Removed.same) _ hremoved).mono fun _ h => .inr h

theorem fail_effect (htlcId : UInt64) (reason : Bytes) (ch : Channel) :
    (htlcCommitFail m luck channelId htlcId reason ch).Always
      (fun r => SameHtlcs ch r.1 ∨ Removed ch r.1 htlcId) := by
  unfold htlcCommitFail
  rcases failHtlc_effect htlcId luck.draw ch with heq | ⟨ch',heq,hremoved⟩
  · rw [heq]
    exact .inl (.refl ch)
  · rw [heq]
    split_ifs
    · exact .inr hremoved
    · exact (sendThenRound_always (fun _ _ => Removed.same) _ hremoved).mono fun _ h => .inr h

end

section

variable {m : Musig} {channelId : Blob 32} {ch ch' : Channel} {st : PeerStep}

def Clash (x y : Htlc) : Prop :=
  x.isActive = true ∧ y.isActive = true ∧ x.direction = y.direction ∧ x.id = y.id

structure IdsApart (ch : Channel) : Prop where
  apart : ch.htlcs.Pairwise (fun x y => ¬ Clash x y)
  counted : ∀ h ∈ ch.htlcs, h.isActive = true → h.direction = .offered →
    h.id.toNat < ch.nextHtlcId.toNat

def NewReceivedId (ch : Channel) (id : UInt64) : Prop :=
  ∀ h ∈ ch.htlcs, h.isActive = true → h.direction = .received → h.id ≠ id

def IdsLeft (ch : Channel) : Prop := ch.nextHtlcId.toNat+1 < 2^64

instance (ch : Channel) : Decidable (IdsLeft ch) := inferInstanceAs (Decidable (_ < _))

def PeerOk (ch : Channel) (st : PeerStep) : Prop :=
  match st.op with
  | .dispatch msg =>
    (IsResolution msg → ∀ before h after, HtlcAt ch (messageId msg) before h after →
      h.direction = .offered) ∧
    (IsAddition msg → NewReceivedId ch (messageId msg) ∧ IdsLeft ch)
  | .addAndSign _ _ _ _ => IdsLeft ch
  | .recvAndSign htlcId _ _ _ => NewReceivedId ch htlcId ∧ IdsLeft ch
  | .fulfill _ _ => True
  | .fail _ _ => True

theorem IdsApart.same (h : IdsApart ch) (hsame : SameHtlcs ch ch') : IdsApart ch' := by
  refine ⟨?_,?_⟩
  · rw [hsame.htlcs]
    exact h.apart
  · rw [hsame.htlcs,hsame.nextHtlcId]
    exact h.counted

variable {id : UInt64}

theorem IdsApart.removed (h : IdsApart ch) (hremoved : Removed ch ch' id) : IdsApart ch' := by
  obtain ⟨before,e,after,hat,hhtlcs⟩ := hremoved.found
  have hsub : ((before++after).filter Htlc.isActive).Sublist ch.htlcs := by
    rw [hat.split]
    exact filter_sublist.trans (sublist_cons_self e after |>.append_left before)
  refine ⟨?_,?_⟩
  · rw [hhtlcs]
    exact h.apart.sublist hsub
  · rw [hhtlcs,hremoved.counted]
    exact fun x hx => h.counted x (hsub.subset hx)

theorem IdsApart.appended {direction : HtlcDirection} (h : IdsApart ch)
    (happended : Appended ch ch' direction id) (hleft : IdsLeft ch)
    (hnew : ∀ x ∈ ch.htlcs, x.isActive = true → x.direction = direction → x.id ≠ id)
    (hown : direction = .offered → id = ch.nextHtlcId) : IdsApart ch' := by
  obtain ⟨e,hdirection,hid,-,hhtlcs⟩ := happended.grown
  have hnext : ch'.nextHtlcId.toNat = ch.nextHtlcId.toNat+1 := by
    rw [happended.counted,UInt64.toNat_add,UInt64.toNat_one,Nat.mod_eq_of_lt hleft]
  refine ⟨?_,?_⟩
  · rw [hhtlcs,pairwise_append]
    refine ⟨h.apart,pairwise_singleton _ _,fun x hx y hy hclash => ?_⟩
    obtain rfl := mem_singleton.mp hy
    obtain ⟨hactive,-,hsame,hsameId⟩ := hclash
    exact hnew x hx hactive (hsame.trans hdirection) (hsameId.trans hid)
  · rw [hhtlcs,hnext]
    intro x hx hactive hoffered
    rcases mem_append.mp hx with hold | hlast
    · have hlt := h.counted x hold hactive hoffered
      omega
    · obtain rfl := mem_singleton.mp hlast
      rw [hid,hown (hdirection.symm.trans hoffered)]
      omega

theorem IdsApart.step (h : IdsApart ch) (hok : PeerOk ch st) :
    IdsApart (peerStep m channelId ch st) := by
  have hfresh (x : Htlc) (hx : x ∈ ch.htlcs) (hactive : x.isActive = true)
      (hoffered : x.direction = .offered) : x.id ≠ ch.nextHtlcId := by
    intro heq
    have hlt := h.counted x hx hactive hoffered
    rw [heq] at hlt
    omega
  obtain ⟨op,luck,oks,inbox⟩ := st
  cases op with
  | dispatch msg =>
    rcases (dispatch_effect msg ch).play oks inbox with hsame | ⟨hadd,happended⟩ | ⟨-,hremoved⟩
    · exact h.same hsame
    · obtain ⟨hnew,hleft⟩ := hok.2 hadd
      exact h.appended happended hleft hnew nofun
    · exact h.removed hremoved
  | addAndSign amountMsat paymentHash cltvExpiry onion =>
    rcases (addAndSign_effect amountMsat paymentHash cltvExpiry onion ch).play oks inbox with
      hsame | happended
    · exact h.same hsame
    · exact h.appended happended hok hfresh fun _ => rfl
  | recvAndSign htlcId amountMsat paymentHash cltvExpiry =>
    rcases (recvAndSign_effect htlcId amountMsat paymentHash cltvExpiry ch).play oks inbox with
      hsame | happended
    · exact h.same hsame
    · exact h.appended happended hok.2 hok.1 nofun
  | fulfill htlcId preimage =>
    rcases (fulfill_effect htlcId preimage ch).play oks inbox with hsame | hremoved
    · exact h.same hsame
    · exact h.removed hremoved
  | fail htlcId reason =>
    rcases (fail_effect htlcId reason ch).play oks inbox with hsame | hremoved
    · exact h.same hsame
    · exact h.removed hremoved

theorem removed_htlc {x : Htlc} (hremoved : Removed ch ch' id) (hx : x ∈ ch.htlcs)
    (hactive : x.isActive = true) (hgone : x ∉ ch'.htlcs) : ∃ before after,
    HtlcAt ch id before x after := by
  obtain ⟨before,e,after,hat,hhtlcs⟩ := hremoved.found
  rw [hhtlcs,mem_filter,not_and] at hgone
  rw [hat.split] at hx
  have hmem : x = e := by
    rcases mem_append.mp hx with hleft | hright
    · exact absurd hactive (hgone (mem_append_left _ hleft))
    · rcases mem_cons.mp hright with heq | hlater
      · exact heq
      · exact absurd hactive (hgone (mem_append_right _ hlater))
  exact ⟨before,after,hmem ▸ hat⟩

end

theorem peer_messages_respect_direction (m : Musig) (channelId : Blob 32) (start ch : Channel)
    (hstart : start.htlcs = []) (hrun : Runs.Reaches (peerStep m channelId) PeerOk start ch) :
    ch.htlcs.Pairwise (fun x y => ¬ Clash x y) ∧
      ∀ (msg : Bytes) (luck : Luck) (oks : List Bool) (inbox : List (Option Bytes)) (h : Htlc),
        PeerOk ch ⟨.dispatch msg,luck,oks,inbox⟩ → h ∈ ch.htlcs → h.isActive = true →
        h ∉ (peerStep m channelId ch ⟨.dispatch msg,luck,oks,inbox⟩).htlcs →
        IsResolution msg ∧ h.direction = .offered ∧ h.id = messageId msg := by
  have hnone : IdsApart start := by
    refine ⟨?_,fun h hh => ?_⟩
    · rw [hstart]
      exact .nil
    · rw [hstart] at hh
      cases hh
  have hids := hrun.invariant (fun _ _ h hok => IdsApart.step h hok) hnone
  refine ⟨hids.apart,fun msg luck oks inbox h hok hmem hactive hgone => ?_⟩
  rcases (dispatch_effect msg ch).play oks inbox with
    hsame | ⟨hadd,happended⟩ | ⟨hresolution,hremoved⟩
  · exact absurd (hsame.htlcs ▸ hmem) hgone
  · obtain ⟨e,-,-,-,hhtlcs⟩ := happended.grown
    exact absurd (hhtlcs ▸ mem_append_left _ hmem) hgone
  · obtain ⟨before,after,hat⟩ := removed_htlc hremoved hmem hactive hgone
    exact ⟨hresolution,hok.1 hresolution before h after hat,hat.named⟩

def luckyDraw : Luck := ⟨true,⟨true,none⟩,true⟩

def peerAdds : Bytes :=
  updateAddHtlc (Blob.zero 32) 0 20000000 (Blob.zero 32) 500 (Blob.zero 1366)

def peerFails : Bytes := updateFailHtlc (Blob.zero 32) 0 []

def offersHtlc : PeerStep :=
  ⟨.addAndSign 20000000 (Blob.zero 32) 500 (Blob.zero 1366),luckyDraw,[],[]⟩

def offeredHtlc : Htlc := newHtlc .offered 20000 (Blob.zero 32) 500 sample

theorem peer_messages_respect_direction_fail :
    Runs.Reaches (peerStep Musig.sample (Blob.zero 32)) PeerOk sample
        (peerStep Musig.sample (Blob.zero 32) sample offersHtlc) ∧
      offeredHtlc ∈ (peerStep Musig.sample (Blob.zero 32) sample offersHtlc).htlcs ∧
      offeredHtlc ∉ (peerStep Musig.sample (Blob.zero 32)
        (peerStep Musig.sample (Blob.zero 32) sample offersHtlc)
        ⟨.dispatch peerFails,luckyDraw,[],[]⟩).htlcs ∧
      offeredHtlc.direction = .offered ∧ offeredHtlc.id = messageId peerFails := by
  have hleft : PeerOk sample offersHtlc := by
    change IdsLeft sample
    decide +kernel
  have hrun : Runs.Reaches (peerStep Musig.sample (Blob.zero 32)) PeerOk sample
      (peerStep Musig.sample (Blob.zero 32) sample offersHtlc) :=
    .single ⟨offersHtlc,hleft,rfl⟩
  have hone : (peerStep Musig.sample (Blob.zero 32) sample offersHtlc).htlcs =
      [offeredHtlc] := by
    decide +kernel
  have hgone : offeredHtlc ∉ (peerStep Musig.sample (Blob.zero 32)
      (peerStep Musig.sample (Blob.zero 32) sample offersHtlc)
      ⟨.dispatch peerFails,luckyDraw,[],[]⟩).htlcs := by
    decide +kernel
  have hok : PeerOk (peerStep Musig.sample (Blob.zero 32) sample offersHtlc)
      ⟨.dispatch peerFails,luckyDraw,[],[]⟩ := by
    refine ⟨fun _ before h after hat => ?_,fun hadd => absurd hadd (by decide +kernel)⟩
    have hmem : h ∈ [offeredHtlc] := by
      rw [← hone,hat.split]
      exact mem_append_right _ (.head _)
    rw [mem_singleton.mp hmem]
    rfl
  have hmem := hone ▸ mem_singleton.mpr rfl
  have hresolved := (peer_messages_respect_direction Musig.sample (Blob.zero 32) sample _
    rfl hrun).2 peerFails luckyDraw [] [] offeredHtlc hok hmem rfl hgone
  exact ⟨hrun,hmem,hgone,hresolved.2⟩

theorem peer_takes_back_htlc :
    (peerStep Musig.sample (Blob.zero 32) sample
        ⟨.dispatch peerAdds,luckyDraw,[],[]⟩).htlcs.map Htlc.direction = [.received] ∧
      (peerStep Musig.sample (Blob.zero 32)
        (peerStep Musig.sample (Blob.zero 32) sample
          ⟨.dispatch peerAdds,luckyDraw,[],[]⟩)
        ⟨.dispatch peerFails,luckyDraw,[],[]⟩).htlcs = [] := by
  constructor
  · decide +kernel
  · decide +kernel

end SuperScalar
