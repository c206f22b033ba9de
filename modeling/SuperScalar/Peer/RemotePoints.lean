import SuperScalar.Peer.Revocation

namespace SuperScalar

open Channel Option

section

variable {m : Musig} {ch : Channel} {n k : UInt64} {point : Pubkey} {x : RemotePcp}

def Channel.slots (ch : Channel) : List RemotePcp := ch.remotePcp0.toList ++ ch.remotePcp1.toList

def Channel.SlotsApart (ch : Channel) : Prop := ch.slots.Pairwise (fun x y => x.num ≠ y.num)

structure SlotsAfterSet (n : UInt64) (point : Pubkey) (ch ch' : Channel) : Prop where
  stored : ⟨n,point⟩ ∈ ch'.slots
  apart : ch'.SlotsApart
  only : ∀ x ∈ ch'.slots, x = ⟨n,point⟩ ∨ (x ∈ ch.slots ∧ x.num ≠ n)
  lost : ∀ x ∈ ch.slots, x.num = n ∨ x ∈ ch'.slots ∨
    ∃ y ∈ ch.slots, y ∈ ch'.slots ∧ y.num ≠ n ∧ x.num < y.num

theorem setRemotePcp_slots (n : UInt64) (point : Pubkey) (h : ch.SlotsApart) :
    SlotsAfterSet n point ch (channelSetRemotePcp n point ch) := by
  unfold SlotsApart slots at h
  unfold channelSetRemotePcp
  cases hfirst : ch.remotePcp0 with
  | none =>
    cases hsecond : ch.remotePcp1 with
    | none => constructor <;> simp [SlotsApart,slots,hfirst,hsecond]
    | some b =>
      dsimp only
      split_ifs <;> constructor <;> simp_all [SlotsApart,slots,eq_comm]
  | some a =>
    cases hsecond : ch.remotePcp1 with
    | none =>
      dsimp only
      split_ifs <;> constructor <;> simp_all [SlotsApart,slots]
    | some b =>
      simp only [hfirst,hsecond,toList_some,List.singleton_append,List.pairwise_pair] at h
      dsimp only
      split_ifs with ha hb hle
      · constructor <;> simp [SlotsApart,slots,hsecond,hfirst] <;> grind
      · constructor <;> simp [SlotsApart,slots,hsecond,hfirst] <;> grind
      · have hlt := UInt64.lt_of_le_of_ne hle h
        constructor <;> simp [SlotsApart,slots,hsecond,hfirst] <;> grind
      · have hlt := UInt64.not_le.mp hle
        constructor <;> simp [SlotsApart,slots,hsecond,hfirst] <;> grind

theorem slot_point (h : ch.SlotsApart) (hx : x ∈ ch.slots) :
    channelGetRemotePcp m ch x.num = some x.point := by
  unfold SlotsApart slots at h
  unfold slots at hx
  unfold channelGetRemotePcp
  cases hfirst : ch.remotePcp0 <;> cases hsecond : ch.remotePcp1 <;>
    simp_all [storedPcp]
  grind

theorem storedPcp_none (h : ∀ x ∈ ch.slots, x.num ≠ n) :
    storedPcp n ch.remotePcp0 = none ∧ storedPcp n ch.remotePcp1 = none := by
  unfold slots at h
  cases hfirst : ch.remotePcp0 <;> cases hsecond : ch.remotePcp1 <;> simp_all [storedPcp]

theorem below_slots (hx : x ∈ ch.slots) (hlt : n < x.num) :
    n < max (slotNum ch.remotePcp0) (slotNum ch.remotePcp1) := by
  have hle : x.num ≤ max (slotNum ch.remotePcp0) (slotNum ch.remotePcp1) := by
    unfold slots at hx
    change x.num ≤ if _ ≤ _ then _ else _
    cases hfirst : ch.remotePcp0 <;> cases hsecond : ch.remotePcp1 <;> simp_all [slotNum] <;>
      grind
  exact UInt64.lt_of_lt_of_le hlt hle

theorem derived_point (h : ∀ x ∈ ch.slots, x.num ≠ n) (hx : x ∈ ch.slots) (hlt : n < x.num) :
    channelGetRemotePcp m ch n = (channelGetReceivedRevocation ch n).bind m.ecPubkeyCreate := by
  simp [channelGetRemotePcp,storedPcp_none h,below_slots hx hlt]

theorem receiveRevocation_slots (secret : Blob 32) (grow : Bool) :
    (channelReceiveRevocationFlat n secret grow ch).slots = ch.slots := by
  simp only [channelReceiveRevocationFlat,channelEnsureRevocationsCap]
  split_ifs <;> rfl

theorem setRemotePcp_revocation :
    channelGetReceivedRevocation (channelSetRemotePcp n point ch) k =
      channelGetReceivedRevocation ch k := by
  obtain ⟨first,second,heq⟩ := setRemotePcp_eq n point ch
  rw [heq]
  rfl

end

section

structure PointRun where
  channel : Channel
  history : List RemotePcp
deriving DecidableEq

def PointRun.point (s : PointRun) (n : UInt64) : Option Pubkey :=
  (s.history.find? (fun x => x.num = n)).map (·.point)

inductive PointCall
  | set (n : UInt64) (point : Pubkey)
  | receive (n : UInt64) (secret : Blob 32) (grow : Bool)

def pointStep (s : PointRun) : PointCall → PointRun
  | .set n point => ⟨channelSetRemotePcp n point s.channel,⟨n,point⟩ :: s.history⟩
  | .receive n secret grow =>
    { s with channel := channelReceiveRevocationFlat n secret grow s.channel }

def Revoked (ch : Channel) (n : UInt64) : Prop := channelGetReceivedRevocation ch n ≠ none

instance (ch : Channel) (n : UInt64) : Decidable (Revoked ch n) :=
  inferInstanceAs (Decidable (_ ≠ _))

def CallInOrder (m : Musig) (s : PointRun) : PointCall → Prop
  | .set n _ => ∀ x ∈ s.history, x.num ≤ n
  | .receive n secret _ => s.point n ≠ none ∧ m.ecPubkeyCreate secret = s.point n

def OldRevoked (s : PointRun) : PointCall → Prop
  | .set n point => (Revoked s.channel n → s.point n = some point) ∧
      ∀ x ∈ s.history, x.num < n →
        Revoked s.channel x.num ∨ ∀ y ∈ s.history, y.num < n → y.num ≤ x.num
  | .receive _ _ _ => True

instance (m : Musig) (s : PointRun) (c : PointCall) : Decidable (CallInOrder m s c) := by
  cases c <;> unfold CallInOrder <;> infer_instance

instance (s : PointRun) (c : PointCall) : Decidable (OldRevoked s c) := by
  cases c <;> unfold OldRevoked <;> infer_instance

structure PointsHeld (m : Musig) (s : PointRun) : Prop where
  slot : ∀ x ∈ s.channel.slots, s.point x.num = some x.point
  apart : s.channel.SlotsApart
  held : ∀ n, s.point n ≠ none →
    (∃ x ∈ s.channel.slots, x.num = n) ∨ (Revoked s.channel n ∧ ∃ x ∈ s.channel.slots, n < x.num)
  secret : ∀ n secret, channelGetReceivedRevocation s.channel n = some secret →
    s.point n ≠ none ∧ m.ecPubkeyCreate secret = s.point n

end

section

variable {m : Musig} {s : PointRun} {n k : UInt64} {point : Pubkey} {secret : Blob 32}

theorem point_set :
    (pointStep s (.set n point)).point k = if n = k then some point else s.point k := by
  by_cases h : n = k <;> simp [PointRun.point,pointStep,h]

theorem mem_history (h : s.point n ≠ none) : ∃ x ∈ s.history, x.num = n := by
  simpa [PointRun.point] using h

section

variable (h : PointsHeld m s)

include h

theorem PointsHeld.get (hn : s.point n = some point) :
    channelGetRemotePcp m s.channel n = some point := by
  by_cases hin : ∃ x ∈ s.channel.slots, x.num = n
  · obtain ⟨x,hx,rfl⟩ := hin
    rw [slot_point h.apart hx,← h.slot x hx,hn]
  · push Not at hin
    rcases h.held n (by simp [hn]) with ⟨x,hx,hnum⟩ | ⟨hrevoked,x,hx,hlt⟩
    · exact absurd hnum (hin x hx)
    · obtain ⟨secret,hsecret⟩ := ne_none_iff_exists'.mp hrevoked
      rw [derived_point hin hx hlt,hsecret,← hn]
      exact (h.secret n secret hsecret).2

section

variable (horder : CallInOrder m s (.set n point))

include horder

theorem PointsHeld.below
    {x : RemotePcp} (hx : x ∈ s.channel.slots) (hne : x.num ≠ n) :
    ∃ y ∈ s.history, y.num = x.num ∧ x.num < n := by
  obtain ⟨y,hy,hnum⟩ := mem_history (s := s) (n := x.num) (by simp [h.slot x hx])
  exact ⟨y,hy,hnum,UInt64.lt_of_le_of_ne (hnum ▸ horder y hy) hne⟩

theorem PointsHeld.revoked
    (hold : OldRevoked s (.set n point)) {x y : RemotePcp} (hx : x ∈ s.channel.slots)
    (hxn : x.num ≠ n) (hy : y ∈ s.channel.slots) (hyn : y.num ≠ n) (hlt : x.num < y.num) :
    Revoked s.channel x.num := by
  obtain ⟨x',hx',hxnum,hxlt⟩ := h.below horder hx hxn
  obtain ⟨y',hy',hynum,hylt⟩ := h.below horder hy hyn
  rcases hold.2 x' hx' (hxnum ▸ hxlt) with hrevoked | htop
  · exact hxnum ▸ hrevoked
  · have hle := htop y' hy' (hynum ▸ hylt)
    rw [hxnum,hynum] at hle
    exact absurd hlt (UInt64.not_lt.mpr hle)

theorem PointsHeld.set
    (hold : OldRevoked s (.set n point)) : PointsHeld m (pointStep s (.set n point)) := by
  have hset := setRemotePcp_slots n point h.apart
  refine ⟨fun x hx => ?_,hset.apart,fun k hk => ?_,fun k secret hk => ?_⟩
  · rw [point_set]
    rcases hset.only x hx with rfl | ⟨hmem,hne⟩
    · simp
    · simp [Ne.symm hne,h.slot x hmem]
  · by_cases hkn : n = k
    · exact .inl ⟨_,hset.stored,hkn⟩
    · rw [point_set,if_neg hkn] at hk
      simp only [pointStep,Revoked,setRemotePcp_revocation]
      rcases h.held k hk with ⟨x,hx,rfl⟩ | ⟨hrevoked,x,hx,hlt⟩
      · rcases hset.lost x hx with heq | hkept | ⟨y,hy,hkept,hne,hlt⟩
        · exact absurd heq.symm hkn
        · exact .inl ⟨x,hkept,rfl⟩
        · refine .inr ⟨?_,y,hkept,hlt⟩
          exact h.revoked horder hold hx (Ne.symm hkn) hy hne hlt
      · refine .inr ⟨hrevoked,?_⟩
        rcases hset.lost x hx with rfl | hkept | ⟨y,-,hkept,-,hless⟩
        · exact ⟨_,hset.stored,hlt⟩
        · exact ⟨x,hkept,hlt⟩
        · exact ⟨y,hkept,UInt64.lt_trans hlt hless⟩
  · rw [pointStep,setRemotePcp_revocation] at hk
    obtain ⟨hpoint,hcreate⟩ := h.secret k secret hk
    rw [point_set]
    split_ifs with hkn
    · subst hkn
      simp [hcreate,hold.1 (by simp [Revoked,hk])]
    · exact ⟨hpoint,hcreate⟩

end

theorem PointsHeld.receive {grow : Bool}
    (horder : CallInOrder m s (.receive n secret grow)) :
    PointsHeld m (pointStep s (.receive n secret grow)) := by
  have hslots : (pointStep s (.receive n secret grow)).channel.slots = s.channel.slots :=
    receiveRevocation_slots secret grow
  refine ⟨?_,?_,fun k hk => ?_,fun k x hk => ?_⟩
  · rw [hslots]
    exact h.slot
  · rw [SlotsApart,hslots]
    exact h.apart
  · rw [hslots]
    refine (h.held k hk).imp_right (And.imp_left fun hrevoked => ?_)
    obtain ⟨old,hgot⟩ := ne_none_iff_exists'.mp hrevoked
    rcases receiveRevocation_keeps hgot with hkept | ⟨-,hnew⟩
    · exact ne_none_iff_exists'.mpr ⟨old,hkept⟩
    · exact ne_none_iff_exists'.mpr ⟨secret,hnew⟩
  · rcases receiveRevocation_get hk with ⟨rfl,rfl⟩ | hgot
    · exact horder
    · exact h.secret k x hgot

end

theorem remote_points_known (m : Musig) (ch : Channel) (hempty : ch.slots = [])
    (hnone : ∀ n, ¬ Revoked ch n) {s : PointRun}
    (hrun : Runs.Reaches pointStep (fun s c => CallInOrder m s c ∧ OldRevoked s c) ⟨ch,[]⟩ s) :
    ∀ n, s.point n ≠ none ∨ Revoked s.channel n →
      s.point n ≠ none ∧ channelGetRemotePcp m s.channel n = s.point n := by
  have hheld : PointsHeld m s := by
    refine hrun.invariant (fun s c h hok => ?_) ?_
    · cases c with
      | set n point => exact h.set hok.1 hok.2
      | receive n secret grow => exact h.receive hok.1
    · constructor
      case secret =>
        intro n secret hget
        exact absurd (fun hnil => some_ne_none secret (hget.symm.trans hnil)) (hnone n)
      all_goals simp [SlotsApart,hempty,PointRun.point]
  intro n hn
  have hpoint : s.point n ≠ none := hn.elim id fun hrevoked => by
    obtain ⟨secret,hget⟩ := ne_none_iff_exists'.mp hrevoked
    exact (hheld.secret n secret hget).1
  obtain ⟨point,hsome⟩ := ne_none_iff_exists'.mp hpoint
  exact ⟨hpoint,by rw [hheld.get hsome,hsome]⟩

def threePoints : List PointCall := [.set 0 firstPoint,.set 1 firstPoint,.set 2 firstPoint]

def threeRevoked : List PointCall :=
  [.set 0 firstPoint,.set 1 firstPoint,.receive 0 firstSecret true,.set 2 firstPoint]

def PointRun.after (calls : List PointCall) : PointRun :=
  calls.foldl pointStep ⟨sample,[]⟩

theorem remote_points_known_third :
    channelGetRemotePcp openMusig (PointRun.after threeRevoked).channel 0 = some firstPoint :=
  (remote_points_known openMusig sample rfl (by simp [Revoked,sample,
    channelGetReceivedRevocation]) (Runs.reaches_of_play (show Runs.play _ _ _ threeRevoked = _ by
      decide +kernel)) 0 (.inl (by decide +kernel))).2

theorem third_point_evicts :
    Runs.Reaches pointStep (CallInOrder openMusig) ⟨sample,[]⟩ (.after threePoints) ∧
      (PointRun.after threePoints).point 0 = some firstPoint ∧
      channelGetRemotePcp openMusig (PointRun.after threePoints).channel 0 = none :=
  ⟨Runs.reaches_of_play (show Runs.play _ _ _ threePoints = _ by decide +kernel),
    by decide +kernel,by decide +kernel⟩

end

end SuperScalar
