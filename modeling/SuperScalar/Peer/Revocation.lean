import SuperScalar.Peer.HtlcIds

namespace SuperScalar

open List Option

section

variable (m : Musig)

def IsRevocation (msg : Bytes) : Prop := getU16 msg = bolt2RevokeAndAck

instance (msg : Bytes) : Decidable (IsRevocation msg) := inferInstanceAs (Decidable (_ = _))

def revokedSecret (msg : Bytes) : Blob 32 := copyBytes 32 (msg.drop 34)

def announcedPoint (msg : Bytes) : Option Pubkey := m.ecPubkeyParse (copyBytes 33 (msg.drop 66))

structure RevocationRun where
  channel : Channel
  registered : UInt64 → Option Pubkey

def RevocationRun.start (ch : Channel) : RevocationRun :=
  ⟨ch,fun n => (storedPcp n ch.remotePcp0).or (storedPcp n ch.remotePcp1)⟩

structure RevocationStep where
  msg : Bytes
  luck : Luck
  oks : List Bool

def RevocationStep.result (channelId : Blob 32) (ch : Channel) (st : RevocationStep) :
    Channel × Option UInt16 :=
  (htlcCommitDispatch m st.luck channelId st.msg ch).play st.oks []

def Complete (msg : Bytes) : Prop := IsRevocation msg ∧ 99 ≤ msg.length

instance (msg : Bytes) : Decidable (Complete msg) := inferInstanceAs (Decidable (_ ∧ _))

def registers (ch : Channel) (msg : Bytes) : Option (UInt64 × Pubkey) :=
  if Complete msg then (announcedPoint m msg).map (fun point => (ch.commitmentNumber+1,point))
  else none

def revocationStep (channelId : Blob 32) (s : RevocationRun) (st : RevocationStep) :
    RevocationRun :=
  { channel := (st.result m channelId s.channel).1
    registered := fun n =>
      match registers m s.channel st.msg with
      | some (k,point) => if n = k then some point else s.registered n
      | none => s.registered n }

structure RevocationSound (s : RevocationRun) (msg : Bytes) : Prop where
  point : announcedPoint m msg ≠ none ∨ s.channel.commitmentNumber = 0
  secret : s.channel.commitmentNumber > 0 → ∃ point,
    s.registered (s.channel.commitmentNumber-1) = some point ∧
      m.ecPubkeyCreate (revokedSecret msg) = some point
  again : ∀ point, announcedPoint m msg = some point →
    s.registered (s.channel.commitmentNumber+1) = none ∨
      s.registered (s.channel.commitmentNumber+1) = some point

def RevocationOk (s : RevocationRun) (st : RevocationStep) : Prop :=
  Complete st.msg → RevocationSound m s st.msg

end

section

variable {ch : Channel} {k n : UInt64} {secret x : Blob 32} {grow : Bool}

theorem getRevocation_some :
    channelGetReceivedRevocation ch n = some x ↔
      ch.receivedRevocations[n.toNat]? = some (some x) := by
  exact join_eq_some_iff

theorem ensureRevocations_get (needed : ℕ) :
    ∀ ch', channelEnsureRevocationsCap needed grow ch = some ch' →
      (channelGetReceivedRevocation ch' n = some x ↔
        channelGetReceivedRevocation ch n = some x) := by
  intro ch' hensure
  unfold channelEnsureRevocationsCap at hensure
  split_ifs at hensure
  · rw [some.inj hensure]
  · cases hensure
    simp only [getRevocation_some]
    refine ⟨fun h => ?_,growTo_get⟩
    rw [growTo,getElem?_append] at h
    split_ifs at h
    · exact h
    · obtain ⟨hlt,hreplicate⟩ := List.getElem?_eq_some_iff.mp h
      rw [getElem_replicate] at hreplicate
      cases hreplicate

theorem receiveRevocation_get
    (h : channelGetReceivedRevocation (channelReceiveRevocationFlat k secret grow ch) n = some x) :
    (n = k ∧ x = secret) ∨ channelGetReceivedRevocation ch n = some x := by
  unfold channelReceiveRevocationFlat at h
  cases hensure : channelEnsureRevocationsCap (k+1).toNat grow ch with
  | none =>
    rw [hensure] at h
    exact .inr h
  | some ch' =>
    rw [hensure,getRevocation_some] at h
    rw [getElem?_set] at h
    split_ifs at h with hindex hrange
    · exact .inl ⟨(UInt64.toNat_inj.mp hindex).symm,(some.inj (some.inj h)).symm⟩
    · exact .inr ((ensureRevocations_get _ ch' hensure).mp (getRevocation_some.mpr h))

theorem receiveRevocation_keeps (h : channelGetReceivedRevocation ch n = some x) :
    channelGetReceivedRevocation (channelReceiveRevocationFlat k secret grow ch) n = some x ∨
      (n = k ∧ channelGetReceivedRevocation (channelReceiveRevocationFlat k secret grow ch) n =
        some secret) := by
  unfold channelReceiveRevocationFlat
  cases hensure : channelEnsureRevocationsCap (k+1).toNat grow ch with
  | none => exact .inl h
  | some ch' =>
    have hkept := (ensureRevocations_get _ ch' hensure).mpr h
    rw [getRevocation_some] at hkept
    simp only [getRevocation_some]
    rw [getElem?_set]
    obtain ⟨hlt,-⟩ := List.getElem?_eq_some_iff.mp hkept
    split_ifs with hindex hrange
    · exact .inr ⟨(UInt64.toNat_inj.mp hindex).symm,rfl⟩
    · exact absurd (hindex ▸ hlt) hrange
    · exact .inl hkept

end

section

variable {m : Musig} {luck : Luck} {channelId : Blob 32} {ch ch' : Channel} {msg : Bytes}

structure SamePoints (ch ch' : Channel) : Prop where
  revocations : ch'.receivedRevocations = ch.receivedRevocations
  remotePcp0 : ch'.remotePcp0 = ch.remotePcp0
  remotePcp1 : ch'.remotePcp1 = ch.remotePcp1

theorem SamePoints.refl (ch : Channel) : SamePoints ch ch := ⟨rfl,rfl,rfl⟩

theorem SamePoints.of_fixed (h : ch'.fixed = ch.fixed) : SamePoints ch ch' := by
  have hrevocations := congrArg Channel.receivedRevocations h
  have hpcp0 := congrArg Channel.remotePcp0 h
  have hpcp1 := congrArg Channel.remotePcp1 h
  exact ⟨hrevocations,hpcp0,hpcp1⟩

theorem SamePoints.get (h : SamePoints ch ch') (n : UInt64) :
    channelGetReceivedRevocation ch' n = channelGetReceivedRevocation ch n := by
  unfold channelGetReceivedRevocation
  rw [h.revocations]

theorem Draw.samePoints {built : Option (Bytes × Blob 32)}
    {finishes : Bytes → Secnonce → Pubnonce → Prop} (h : Draw ch built finishes ch') :
    SamePoints ch ch' := by
  cases h <;> exact ⟨rfl,rfl,rfl⟩

theorem dispatchAdd_samePoints (secp : Secp) (payload : Bytes) (ch : Channel) :
    (dispatchAdd luck payload ch).Always (fun r => SamePoints ch r.1) := by
  have hadd := step_fixed secp ch (.addHtlc .received (getU64 (payload.drop 40) / 1000)
    (copyBytes 32 (payload.drop 48)) (getU32 (payload.drop 80)) luck.growHtlcs luck.draw)
  have hrenamed (id : UInt64) (ch : Channel) : (overrideLastId id ch).fixed = ch.fixed := by
    unfold overrideLastId
    cases ch.htlcs.getLast? <;> rfl
  rw [channelStep,ChannelOp.call] at hadd
  unfold dispatchAdd
  split_ifs
  · exact .refl ch
  · cases hr : channelAddHtlc .received (getU64 (payload.drop 40) / 1000)
      (copyBytes 32 (payload.drop 48)) (getU32 (payload.drop 80)) luck.growHtlcs luck.draw ch with
    | mk ch' id =>
      rw [hr] at hadd
      cases id with
      | none => exact .of_fixed hadd
      | some => exact .of_fixed ((hrenamed _ ch').trans hadd)

theorem dispatch_samePoints (h : ¬ Complete msg) :
    (htlcCommitDispatch m luck channelId msg ch).Always (fun r => SamePoints ch r.1) := by
  unfold htlcCommitDispatch
  dsimp only
  split_ifs with hshort hadd hfulfill hfail hmalformed hsigned hrevoke hfee
  · exact .refl ch
  · exact dispatchAdd_samePoints m.toSecp _ ch
  · unfold dispatchFulfill
    split_ifs
    · exact .refl ch
    · exact .of_fixed (step_fixed m.toSecp ch (.fulfillHtlc _ _ _))
  · unfold dispatchFail
    split_ifs
    · exact .refl ch
    · exact .of_fixed (step_fixed m.toSecp ch (.failHtlc _ _))
  · unfold dispatchFail
    split_ifs
    · exact .refl ch
    · exact .of_fixed (step_fixed m.toSecp ch (.failHtlc _ _))
  · unfold dispatchCommitmentSigned
    split_ifs
    · exact .refl ch
    · have hsame : SamePoints ch (acceptCommitmentSig m ((msg.drop 2).drop 32) ch).1 :=
        (drawNonce_draw _ _ _).samePoints
      cases hsig : acceptCommitmentSig m ((msg.drop 2).drop 32) ch with
      | mk ch' ok =>
        rw [hsig] at hsame
        cases ok with
        | false => exact hsame
        | true =>
          refine Script.Always.bind ((sendRevokeAndAck_same ch').mono fun r hr => ?_)
          rw [← hr] at hsame
          exact hsame
  · unfold dispatchRevokeAndAck
    split_ifs with hlength
    · exact SamePoints.refl ch
    · rw [length_drop] at hlength
      exact absurd ⟨hrevoke,by omega⟩ h
  · unfold dispatchUpdateFee
    dsimp only
    split_ifs
    · exact SamePoints.refl ch
    · exact SamePoints.refl ch
    · exact ⟨rfl,rfl,rfl⟩
  · exact .refl ch

theorem dispatch_complete (h : Complete msg) :
    htlcCommitDispatch m luck channelId msg ch =
      resolved bolt2RevokeAndAck
        (acceptRevocation m luck (revokedSecret msg) (copyBytes 33 (msg.drop 66)) ch) := by
  obtain ⟨htype,hlength⟩ := h
  have hpayload : ¬ (msg.drop 2).length < 97 := by
    rw [length_drop]
    omega
  unfold htlcCommitDispatch
  rw [if_neg (by omega)]
  rw [show getU16 msg = bolt2RevokeAndAck from htype]
  unfold dispatchRevokeAndAck
  rw [if_neg (by decide),if_neg (by decide),if_neg (by decide),if_neg (by decide),
    if_neg (by decide),if_pos rfl,if_neg hpayload,drop_drop,drop_drop]
  rfl

end

section

variable {m : Musig} {channelId : Blob 32} {s : RevocationRun} {st : RevocationStep}

def KeysInjective (m : Musig) : Prop := ∀ secret secret' point,
  m.ecPubkeyCreate secret = some point → m.ecPubkeyCreate secret' = some point → secret = secret'

def Opened (m : Musig) (s : RevocationRun) : Prop := ∀ n secret,
  channelGetReceivedRevocation s.channel n = some secret → ∃ point,
    s.registered n = some point ∧ m.ecPubkeyCreate secret = some point

theorem acceptRevocation_get (luck : Luck) (msg : Bytes) (wire : Blob 33) (ch : Channel)
    (n : UInt64) :
    channelGetReceivedRevocation (acceptRevocation m luck (revokedSecret msg) wire ch).1 n =
      channelGetReceivedRevocation (storeRevocation luck (revokedSecret msg) ch) n := by
  unfold acceptRevocation
  cases m.ecPubkeyParse wire with
  | none => rfl
  | some point =>
    obtain ⟨first,second,heq⟩ := setRemotePcp_eq (ch.commitmentNumber + 1) point
      (storeRevocation luck (revokedSecret msg) ch)
    dsimp only
    rw [heq]
    rfl

theorem step_complete (h : Complete st.msg) :
    (revocationStep m channelId s st).channel =
      (acceptRevocation m st.luck (revokedSecret st.msg) (copyBytes 33 (st.msg.drop 66))
        s.channel).1 := by
  change ((htlcCommitDispatch m st.luck channelId st.msg s.channel).play st.oks []).1 = _
  rw [dispatch_complete h]
  rfl

theorem step_incomplete (h : ¬ Complete st.msg) :
    SamePoints s.channel (revocationStep m channelId s st).channel :=
  (dispatch_samePoints h).play st.oks []

theorem registered_kept (hok : RevocationOk m s st) {n : UInt64} {point : Pubkey}
    (h : s.registered n = some point) :
    (revocationStep m channelId s st).registered n = some point := by
  change (match registers m s.channel st.msg with
    | some (k,point) => if n = k then some point else s.registered n
    | none => s.registered n) = some point
  unfold registers
  split_ifs with hcomplete
  · cases hpoint : announcedPoint m st.msg with
    | none => exact h
    | some announced =>
      rw [map_some]
      dsimp only
      split_ifs with hn
      · rcases (hok hcomplete).again announced hpoint with hnone | hsame
        · rw [← hn,h] at hnone
          cases hnone
        · rw [← hn,h] at hsame
          exact hsame.symm
      · exact h
  · exact h

theorem step_get (hok : RevocationOk m s st) {n : UInt64} {secret : Blob 32}
    (h : channelGetReceivedRevocation (revocationStep m channelId s st).channel n = some secret) :
    channelGetReceivedRevocation s.channel n = some secret ∨ ∃ point,
      s.registered n = some point ∧ m.ecPubkeyCreate secret = some point := by
  by_cases hcomplete : Complete st.msg
  · rw [step_complete hcomplete,acceptRevocation_get,storeRevocation] at h
    split_ifs at h with hpos
    · rcases receiveRevocation_get h with ⟨rfl,rfl⟩ | hold
      · exact .inr ((hok hcomplete).secret hpos)
      · exact .inl hold
    · exact .inl h
  · rw [(step_incomplete hcomplete).get] at h
    exact .inl h

theorem Opened.step (h : Opened m s) (hok : RevocationOk m s st) :
    Opened m (revocationStep m channelId s st) := by
  intro n secret hget
  rcases step_get hok hget with hold | ⟨point,hregistered,hcreate⟩
  · obtain ⟨point,hregistered,hcreate⟩ := h n secret hold
    exact ⟨point,registered_kept hok hregistered,hcreate⟩
  · exact ⟨point,registered_kept hok hregistered,hcreate⟩

theorem step_keeps (hinj : KeysInjective m) (h : Opened m s) (hok : RevocationOk m s st)
    {n : UInt64} {secret : Blob 32} (hget : channelGetReceivedRevocation s.channel n = some secret) :
    channelGetReceivedRevocation (revocationStep m channelId s st).channel n = some secret := by
  by_cases hcomplete : Complete st.msg
  · rw [step_complete hcomplete,acceptRevocation_get,storeRevocation]
    split_ifs with hpos
    · rcases receiveRevocation_keeps hget with hkept | ⟨hn,hnew⟩
      · exact hkept
      · obtain ⟨point,hregistered,hcreate⟩ := h n secret hget
        obtain ⟨point',hregistered',hcreate'⟩ := (hok hcomplete).secret hpos
        rw [← hn,hregistered] at hregistered'
        cases hregistered'
        rw [hinj secret (revokedSecret st.msg) point hcreate hcreate']
        exact hnew
    · exact hget
  · rw [(step_incomplete hcomplete).get]
    exact hget

theorem rejected_samePoints (hok : RevocationOk m s st)
    (hrejected : (st.result m channelId s.channel).2 = none) :
    SamePoints s.channel (st.result m channelId s.channel).1 := by
  by_cases hcomplete : Complete st.msg
  · unfold RevocationStep.result at hrejected ⊢
    rw [dispatch_complete hcomplete] at hrejected ⊢
    have hsound := hok hcomplete
    unfold acceptRevocation at hrejected ⊢
    cases hparse : m.ecPubkeyParse (copyBytes 33 (st.msg.drop 66)) with
    | none =>
      have hzero := hsound.point.resolve_left fun hne => hne hparse
      rw [storeRevocation,hzero]
      exact SamePoints.refl s.channel
    | some =>
      rw [hparse] at hrejected
      cases hrejected
  · exact step_incomplete hcomplete

end

theorem revocations_stay_open (m : Musig) (hinj : KeysInjective m) (channelId : Blob 32)
    (start : Channel) (hnone : ∀ n, channelGetReceivedRevocation start n = none)
    (s : RevocationRun)
    (hrun : Runs.Reaches (revocationStep m channelId) (RevocationOk m) (.start start) s) :
    (∀ n secret, channelGetReceivedRevocation s.channel n = some secret → ∃ point,
        s.registered n = some point ∧ m.ecPubkeyCreate secret = some point) ∧
      ∀ st : RevocationStep, RevocationOk m s st →
        (∀ n secret, channelGetReceivedRevocation s.channel n = some secret →
          channelGetReceivedRevocation (revocationStep m channelId s st).channel n =
            some secret) ∧
        (IsRevocation st.msg → (st.result m channelId s.channel).2 = none →
          SamePoints s.channel (st.result m channelId s.channel).1) := by
  have hstart : Opened m (.start start) := by
    intro n secret hget
    have hget' : channelGetReceivedRevocation start n = some secret := hget
    rw [hnone n] at hget'
    cases hget'
  have hopened := hrun.invariant (fun _ _ h hok => Opened.step h hok) hstart
  refine ⟨hopened,fun st hok => ⟨fun n secret hget => ?_,fun _ hrejected => ?_⟩⟩
  · exact step_keeps hinj hopened hok hget
  · exact rejected_samePoints hok hrejected

def openMusig : Musig :=
  { Musig.sample with
    ecPubkeyCreate := fun secret => some (secret.append (Blob.zero 32)) }

theorem openMusig_injective : KeysInjective openMusig := by
  intro secret secret' point h h'
  have heq : secret.val ++ replicate 32 0 = secret'.val ++ replicate 32 0 :=
    congrArg Subtype.val (some.inj (h.trans h'.symm))
  exact Subtype.ext (append_cancel_right heq)

def firstSecret : Blob 32 := Blob.fill 32 1

def otherSecret : Blob 32 := Blob.fill 32 2

def firstPoint : Pubkey := firstSecret.append (Blob.zero 32)

def revokedChannel : Channel :=
  { Channel.sample with
    commitmentNumber := 1
    receivedRevocations := [none,none]
    remotePcp0 := some ⟨0,firstPoint⟩
    remotePcp1 := some ⟨1,firstPoint⟩ }

def goodRevocation : RevocationStep :=
  ⟨revokeAndAck (Blob.zero 32) firstSecret (Blob.fill 33 2),luckyDraw,[]⟩

def badRevocation : RevocationStep :=
  ⟨revokeAndAck (Blob.zero 32) otherSecret (Blob.zero 33),luckyDraw,[]⟩

theorem revokedChannel_none (n : UInt64) :
    channelGetReceivedRevocation revokedChannel n = none := by
  change ([none,none][n.toNat]?).join = none
  rcases h : n.toNat with _ | _ | k <;> rfl

theorem goodRevocation_ok : RevocationOk openMusig (.start revokedChannel) goodRevocation := by
  intro _
  refine ⟨.inl (by decide +kernel),fun _ => ⟨firstPoint,rfl,by decide +kernel⟩,fun _ _ => ?_⟩
  exact .inl (by decide +kernel)

theorem revocations_stay_open_first :
    channelGetReceivedRevocation
        (revocationStep openMusig (Blob.zero 32) (.start revokedChannel) goodRevocation).channel 0 =
          some firstSecret ∧
      ∃ point, (revocationStep openMusig (Blob.zero 32) (.start revokedChannel)
          goodRevocation).registered 0 = some point ∧
        openMusig.ecPubkeyCreate firstSecret = some point := by
  have hrun : Runs.Reaches (revocationStep openMusig (Blob.zero 32)) (RevocationOk openMusig)
      (.start revokedChannel)
      (revocationStep openMusig (Blob.zero 32) (.start revokedChannel) goodRevocation) :=
    .single ⟨goodRevocation,goodRevocation_ok,rfl⟩
  have hstored : channelGetReceivedRevocation
      (revocationStep openMusig (Blob.zero 32) (.start revokedChannel) goodRevocation).channel 0 =
        some firstSecret := by
    decide +kernel
  refine ⟨hstored,?_⟩
  exact (revocations_stay_open openMusig openMusig_injective (Blob.zero 32) revokedChannel
    revokedChannel_none _ hrun).1 0 firstSecret hstored

theorem revocation_overwritten :
    channelGetReceivedRevocation
        (revocationStep openMusig (Blob.zero 32) (.start revokedChannel) goodRevocation).channel 0 =
          some firstSecret ∧
      (badRevocation.result openMusig (Blob.zero 32)
        (revocationStep openMusig (Blob.zero 32) (.start revokedChannel)
          goodRevocation).channel).2 = none ∧
      channelGetReceivedRevocation (badRevocation.result openMusig (Blob.zero 32)
        (revocationStep openMusig (Blob.zero 32) (.start revokedChannel)
          goodRevocation).channel).1 0 = some otherSecret := by
  refine ⟨?_,?_,?_⟩
  · decide +kernel
  · decide +kernel
  · decide +kernel

end SuperScalar
