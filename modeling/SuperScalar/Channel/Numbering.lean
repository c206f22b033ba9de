import SuperScalar.Channel.Commitment
import SuperScalar.Channel.Value

namespace SuperScalar

open Channel

open Ledger (Side)

theorem getLocalPcs_some {ch : Channel} {n : UInt64} {secret : Blob 32} :
    channelGetLocalPcs ch n = some secret ↔
      n.toNat < ch.nLocalPcs ∧ ch.localPcs[n.toNat]? = some secret := by
  unfold channelGetLocalPcs
  split_ifs with hge
  · exact ⟨nofun,fun h => absurd h.1 (Nat.not_lt.mpr hge)⟩
  · exact ⟨fun h => ⟨Nat.not_le.mp hge,h⟩,fun h => h.2⟩

theorem generate_keeps {ch : Channel} {k n : UInt64} {draw : PcsDraw} {secret : Blob 32}
    (hne : k.toNat ≠ n.toNat) (h : channelGetLocalPcs ch n = some secret) :
    channelGetLocalPcs (channelGenerateLocalPcs k draw ch) n = some secret := by
  obtain ⟨hlt,hget⟩ := getLocalPcs_some.mp h
  have hset (pcs : List (Blob 32)) (drawn : Blob 32) (hpcs : pcs[n.toNat]? = some secret) :
      (pcs.set k.toNat drawn)[n.toNat]? = some secret := by
    rw [List.getElem?_set_ne hne,hpcs]
  rw [getLocalPcs_some]
  unfold channelGenerateLocalPcs channelEnsurePcsCap
  split_ifs
  · cases draw.random with
    | none => exact ⟨hlt,hget⟩
    | some drawn => exact ⟨lt_max_of_lt_left hlt,hset _ drawn hget⟩
  · cases draw.random with
    | none => exact ⟨hlt,growTo_get hget⟩
    | some drawn => exact ⟨lt_max_of_lt_left hlt,hset _ drawn (growTo_get hget)⟩
  · exact ⟨hlt,hget⟩

def PcsAhead (ch : Channel) : Prop := ch.nLocalPcs ≤ ch.commitmentNumber.toNat+2

def PtlcsEmpty (ch : Channel) : Prop := ∀ p ∈ ch.ptlcs, p.isActive = true → p.amountSats = 0

structure Numbered (ch : Channel) : Prop where
  ahead : PcsAhead ch
  empty : PtlcsEmpty ch

structure Advances (m : Musig) (s t : Channel) : Prop where
  number : s.commitmentNumber.toNat ≤ t.commitmentNumber.toNat
  secrets : ∀ n secret, channelGetLocalPcs s n = some secret → channelGetLocalPcs t n = some secret
  same : s.commitmentNumber = t.commitmentNumber →
    channelBuildCommitmentTxImpl m s none = channelBuildCommitmentTxImpl m t none

namespace Advances

variable {m : Musig} {s t u : Channel}

theorem refl (s : Channel) : Advances m s s := ⟨Nat.le_refl _,fun _ _ h => h,fun _ => rfl⟩

theorem trans (h : Advances m s t) (h' : Advances m t u) : Advances m s u := by
  refine ⟨h.number.trans h'.number,fun n secret hs => h'.secrets n secret (h.secrets n secret hs),
    fun heq => ?_⟩
  have hnumber := h.number
  have hnumber' := h'.number
  have hst : s.commitmentNumber = t.commitmentNumber := by
    apply UInt64.toNat_inj.mp
    rw [heq] at hnumber ⊢
    omega
  exact (h.same hst).trans (h'.same (hst.symm.trans heq))

end Advances

section

variable {m : Musig} {ch ch' next : Channel} {draw : PcsDraw}

theorem still_advances (hview : ch.view = ch'.view)
    (hnumber : ch'.commitmentNumber = ch.commitmentNumber) (hpcs : ch'.localPcs = ch.localPcs)
    (hcount : ch'.nLocalPcs = ch.nLocalPcs) : Advances m ch ch' := by
  have hget (n : UInt64) : channelGetLocalPcs ch' n = channelGetLocalPcs ch n := by
    unfold channelGetLocalPcs
    rw [hpcs,hcount]
  refine ⟨by rw [hnumber],fun n secret h => (hget n).trans h,fun _ => impl_none_congr hview ?_⟩
  simp only [channelGetPerCommitmentPoint,hget,hnumber]

theorem next_advances (hnumber : next.commitmentNumber = ch.commitmentNumber)
    (hpcs : next.localPcs = ch.localPcs) (hcount : next.nLocalPcs = ch.nLocalPcs)
    (hahead : PcsAhead ch) (hroom : ch.commitmentNumber.toNat+3 < 2^64) :
    (next.nextCommitment draw).commitmentNumber.toNat = ch.commitmentNumber.toNat+1 ∧
      PcsAhead (next.nextCommitment draw) ∧ Advances m ch (next.nextCommitment draw) := by
  have hone : (next.commitmentNumber+1).toNat = ch.commitmentNumber.toNat+1 := by
    rw [UInt64.toNat_add,hnumber,UInt64.toNat_one,Nat.mod_eq_of_lt (by omega)]
  have htwo : (next.commitmentNumber+1+1).toNat = ch.commitmentNumber.toNat+2 := by
    rw [UInt64.toNat_add,hone,UInt64.toNat_one,Nat.mod_eq_of_lt (by omega)]
  have hthree : (next.commitmentNumber+1+1+1).toNat = ch.commitmentNumber.toNat+3 := by
    rw [UInt64.toNat_add,htwo,UInt64.toNat_one,Nat.mod_eq_of_lt (by omega)]
  let bumped : Channel := { next with commitmentNumber := next.commitmentNumber+1 }
  obtain ⟨pcs,count,hle,heq⟩ :=
    generate_eq (next.commitmentNumber+1+1) draw bumped
  have hnext : next.nextCommitment draw =
      channelGenerateLocalPcs (next.commitmentNumber+1+1) draw bumped := rfl
  have hbumped : bumped.nLocalPcs ≤ ch.commitmentNumber.toNat+2 := hcount.trans_le hahead
  have hsucc : (next.nextCommitment draw).commitmentNumber.toNat =
      ch.commitmentNumber.toNat + 1 := by
    rw [hnext,heq]
    exact hone
  refine ⟨hsucc,?_,⟨by omega,fun n secret hget => ?_,fun hsame => ?_⟩⟩
  · rw [hthree] at hle
    rw [PcsAhead,hsucc,hnext,heq]
    exact hle.trans (max_le (by omega) (by omega))
  · rw [getLocalPcs_some] at hget
    have hcounted : ch.nLocalPcs ≤ ch.commitmentNumber.toNat+2 := hahead
    -- The new secret's number is above every number in use.
    have hne : (next.commitmentNumber+1+1).toNat ≠ n.toNat := by
      rw [htwo]
      omega
    rw [hnext]
    apply generate_keeps hne
    rw [getLocalPcs_some]
    rw [hpcs,hcount]
    exact hget
  · rw [← hsame] at hsucc
    omega

theorem hasOutput_active {p : Ptlc} (h : p.hasOutput = true) :
    p.isActive = true ∧ channelDustLimitSats ≤ p.amountSats := by
  simpa [Ptlc.hasOutput,Ptlc.isActive] using h

theorem outputs_of_empty {ptlcs : List Ptlc}
    (hempty : ∀ p ∈ ptlcs, p.isActive = true → p.amountSats = 0) :
    ptlcs.filter Ptlc.hasOutput = [] := by
  rw [List.filter_eq_nil_iff]
  intro p hp hout
  obtain ⟨hactive,hdust⟩ := hasOutput_active hout
  rw [hempty p hp hactive] at hdust
  exact absurd hdust (by decide)

theorem PtlcsEmpty.move (hempty : PtlcsEmpty ch) (hmove : ChannelMove (· = 0) ch ch') :
    PtlcsEmpty ch' := by
  intro p hp hactive
  rcases hmove.ptlc_cases hp hactive with hold | ⟨dir,point,cltvExpiry,-,hzero⟩
  · exact hempty p hold hactive
  · exact hzero

theorem withBalance_numbers (ch : Channel) (side : Side) (n : UInt64) :
    (ch.withBalance side n).commitmentNumber = ch.commitmentNumber ∧
      (ch.withBalance side n).localPcs = ch.localPcs ∧
      (ch.withBalance side n).nLocalPcs = ch.nLocalPcs := by
  cases side <;> exact ⟨rfl,rfl,rfl⟩

theorem withHtlc_numbers (ch : Channel) (h : Htlc) :
    (ch.withHtlc h).commitmentNumber = ch.commitmentNumber ∧
      (ch.withHtlc h).localPcs = ch.localPcs ∧ (ch.withHtlc h).nLocalPcs = ch.nLocalPcs := by
  obtain ⟨hnumber,hpcs,hcount⟩ := withBalance_numbers
    (ch.debit h.direction.offerer h.amountSats) ch.funder
    ((ch.debit h.direction.offerer h.amountSats).balance ch.funder - h.feeAtAdd)
  obtain ⟨hnumber',hpcs',hcount'⟩ := withBalance_numbers ch h.direction.offerer
    (ch.balance h.direction.offerer - h.amountSats)
  exact ⟨hnumber.trans hnumber',hpcs.trans hpcs',hcount.trans hcount'⟩

theorem withoutHtlc_numbers (ch : Channel) (h : Htlc) (payee : Side) (rest : List Htlc) :
    (ch.withoutHtlc h payee rest).commitmentNumber = ch.commitmentNumber ∧
      (ch.withoutHtlc h payee rest).localPcs = ch.localPcs ∧
      (ch.withoutHtlc h payee rest).nLocalPcs = ch.nLocalPcs := by
  obtain ⟨hnumber,hpcs,hcount⟩ := withBalance_numbers (ch.credit payee h.amountSats) ch.funder
    ((ch.credit payee h.amountSats).balance ch.funder + h.feeAtAdd)
  obtain ⟨hnumber',hpcs',hcount'⟩ := withBalance_numbers ch payee
    (ch.balance payee + h.amountSats)
  exact ⟨hnumber.trans hnumber',hpcs.trans hpcs',hcount.trans hcount'⟩

theorem move_advances (hmove : ChannelMove (· = 0) ch ch') (hnumbered : Numbered ch)
    (hroom : ch.commitmentNumber.toNat+3 < 2^64) : PcsAhead ch' ∧ Advances m ch ch' := by
  have hempty' := hnumbered.empty.move hmove
  cases hmove with
  | idle => exact ⟨hnumbered.ahead,still_advances rfl rfl rfl rfl⟩
  | addHtlc direction amountSats paymentHash cltvExpiry =>
    obtain ⟨hnumber,hpcs,hcount⟩ :=
      withHtlc_numbers ch (newHtlc direction amountSats paymentHash cltvExpiry ch)
    exact (next_advances hnumber hpcs hcount hnumbered.ahead hroom).2
  | closeHtlc before after h payee =>
    obtain ⟨hnumber,hpcs,hcount⟩ := withoutHtlc_numbers ch h payee (before ++ after)
    exact (next_advances hnumber hpcs hcount hnumbered.ahead hroom).2
  | update deltaSats =>
    have hnumber : (ch.moved deltaSats).commitmentNumber = ch.commitmentNumber := rfl
    exact (next_advances hnumber rfl rfl hnumbered.ahead hroom).2
  | addPtlc _ dir amountSats point cltvExpiry _ bounded =>
    have hcharge : ch.chargePtlc dir amountSats = ch := by
      rw [chargePtlc,bounded]
      exact if_neg (by decide)
    rw [hcharge] at hempty' ⊢
    have hptlcs : ch.ptlcs.filter Ptlc.hasOutput =
        (ch.ptlcs ++ [newPtlc dir amountSats point cltvExpiry ch]).filter Ptlc.hasOutput := by
      rw [outputs_of_empty hnumbered.empty,outputs_of_empty hempty']
    refine ⟨hnumbered.ahead,still_advances ?_ rfl rfl rfl⟩
    unfold view
    rw [hptlcs]
  | closePtlc _ closed =>
    obtain ⟨before,after,p,closed,payee,hsplit,hactive,hinactive⟩ := closed
    have hzero := hnumbered.empty p (by rw [hsplit]; simp) hactive
    have hunpaid : ch.withoutPtlc p payee (before ++ closed :: after) =
        ch.setPtlcs (before ++ closed :: after) := by
      rw [withoutPtlc,hzero]
      exact congrArg (setPtlcs · _) (if_neg (by decide))
    rw [hunpaid] at hempty' ⊢
    have hptlcs : ch.ptlcs.filter Ptlc.hasOutput =
        (before ++ closed :: after).filter Ptlc.hasOutput := by
      rw [outputs_of_empty hnumbered.empty]
      exact (outputs_of_empty hempty').symm
    refine ⟨hnumbered.ahead,still_advances ?_ rfl rfl rfl⟩
    unfold view setPtlcs
    rw [hptlcs]

end

section

variable {m : Musig} {ch ch' : Channel}

def NumbersLeft (ch : Channel) : Prop :=
  ch.commitmentNumber.toNat + ch.htlcs.length+3 < 2^64

instance (ch : Channel) : Decidable (NumbersLeft ch) := inferInstanceAs (Decidable (_ < _))

theorem failHtlc_advances (id : UInt64) (draw : PcsDraw) (hnumbered : Numbered ch)
    (hleft : NumbersLeft ch) :
    Numbered (channelFailHtlc id draw ch).1 ∧ NumbersLeft (channelFailHtlc id draw ch).1 ∧
      Advances m ch (channelFailHtlc id draw ch).1 := by
  rcases channelFailHtlc_cases id draw ch with ⟨-,heq⟩ | ⟨before,h,after,hat,heq⟩
  · rw [heq]
    exact ⟨hnumbered,hleft,.refl ch⟩
  · rw [heq]
    have hmove : ChannelMove (· = 0) ch
        ((ch.withoutHtlc h h.direction.offerer (before++after)).nextCommitment draw) :=
      .closeHtlc before after h _ draw hat.split hat.active
    have hroom : ch.commitmentNumber.toNat+3 < 2^64 := by
      unfold NumbersLeft at hleft
      omega
    obtain ⟨hnumber,hpcs,hcount⟩ :=
      withoutHtlc_numbers ch h h.direction.offerer (before++after)
    obtain ⟨hsucc,hahead,hadvances⟩ := next_advances hnumber hpcs hcount hnumbered.ahead hroom
    refine ⟨⟨hahead,hnumbered.empty.move hmove⟩,?_,hadvances⟩
    have hlength : ((ch.withoutHtlc h h.direction.offerer (before++after)).nextCommitment
        draw).htlcs.length < ch.htlcs.length := by
      obtain ⟨pcs,count,hnext⟩ :=
        (ch.withoutHtlc h h.direction.offerer (before++after)).nextCommitment_eq draw
      have hfilter := List.length_filter_le Htlc.isActive (before++after)
      rw [hnext,hat.split]
      simp only [withoutHtlc,htlcs_setHtlcs,List.length_append,List.length_cons] at hfilter ⊢
      omega
    unfold NumbersLeft at hleft ⊢
    dsimp only
    omega

theorem timeoutLoop_advances (currentHeight : UInt32) (draws : ℕ → PcsDraw) (fuel i failed : ℕ)
    (hnumbered : Numbered ch) (hleft : NumbersLeft ch) :
    Numbered (timeoutLoop currentHeight draws fuel i failed ch).1 ∧
      Advances m ch (timeoutLoop currentHeight draws fuel i failed ch).1 := by
  induction fuel generalizing i failed ch with
  | zero => exact ⟨hnumbered,.refl ch⟩
  | succ _ ih =>
    rw [timeoutLoop]
    cases ch.htlcs[i]? with
    | none => exact ⟨hnumbered,.refl ch⟩
    | some h =>
      dsimp only
      split_ifs
      · obtain ⟨hnumbered',hleft',hfirst⟩ := failHtlc_advances h.id (draws i) hnumbered hleft
        obtain ⟨hlast,hrest⟩ := ih (i + 1) (failed + 1) hnumbered' hleft'
        exact ⟨hlast,hfirst.trans hrest⟩
      · exact ih (i+1) failed hnumbered hleft

theorem step_advances (op : ChannelOp) (hop : op.Allowed (· = 0)) (hnumbered : Numbered ch)
    (hleft : NumbersLeft ch) :
    Numbered (channelStep m.toSecp ch op) ∧ Advances m ch (channelStep m.toSecp ch op) := by
  by_cases hscan : ∃ height draws, op = .checkHtlcTimeouts height draws
  · obtain ⟨height,draws,rfl⟩ := hscan
    rw [channelStep,ChannelOp.call,channelCheckHtlcTimeouts]
    split_ifs
    · exact ⟨hnumbered,.refl ch⟩
    · have hstarted : Numbered { ch with lastHtlcCheckHeight := height } :=
        ⟨hnumbered.ahead,hnumbered.empty⟩
      have hfirst : Advances m ch { ch with lastHtlcCheckHeight := height } :=
        still_advances rfl rfl rfl rfl
      obtain ⟨hlast,hrun⟩ := timeoutLoop_advances height draws ch.htlcs.length 0 0 hstarted hleft
      exact ⟨hlast,hfirst.trans hrun⟩
  · have hother : ∀ height draws, op ≠ .checkHtlcTimeouts height draws :=
      fun height draws heq => hscan ⟨height,draws,heq⟩
    obtain ⟨cap,hstep⟩ := call_steps m.toSecp ch op hop rfl hother
    have hgrown : Numbered { ch with htlcsCap := cap } := ⟨hnumbered.ahead,hnumbered.empty⟩
    have hcap : Advances m ch { ch with htlcsCap := cap } := still_advances rfl rfl rfl rfl
    rcases hstep with heq | ⟨-,hmove⟩
    · rw [channelStep,heq]
      exact ⟨hgrown,hcap⟩
    · have hroom : ch.commitmentNumber.toNat+3 < 2^64 := by
        unfold NumbersLeft at hleft
        omega
      obtain ⟨hahead,hadvances⟩ := move_advances hmove hgrown hroom
      exact ⟨⟨hahead,hgrown.empty.move hmove⟩,hcap.trans hadvances⟩

def WithoutPtlcValue (ch : Channel) (op : ChannelOp) : Prop :=
  op.Allowed (· = 0) ∧ NumbersLeft ch

theorem run_advances (hrun : Runs.Reaches (channelStep m.toSecp) WithoutPtlcValue ch ch')
    (hnumbered : Numbered ch) : Numbered ch' ∧ Advances m ch ch' :=
  hrun.preserves Advances.refl (fun _ _ _ => Advances.trans)
    (fun _ op hs hguard => step_advances op hguard.1 hs hguard.2) hnumbered

end

theorem commitment_numbers_separate (m : Musig) (p : ChannelParams) (alloc : Bool)
    (draw0 draw1 : PcsDraw) (opened : Channel) (setup : ChannelSetup) (s t : Channel)
    (hinit : channelInit m p alloc draw0 draw1 = some opened)
    (hs : Runs.Reaches (channelStep m.toSecp) WithoutPtlcValue (opened.configure setup) s)
    (ht : Runs.Reaches (channelStep m.toSecp) WithoutPtlcValue s t) :
    (channelBuildCommitmentTxImpl m s none ≠ channelBuildCommitmentTxImpl m t none →
        s.commitmentNumber < t.commitmentNumber) ∧
      s.commitmentNumber ≤ t.commitmentNumber ∧
      (∀ n secret, channelGetPerCommitmentSecret s n = some secret →
        channelGetPerCommitmentSecret t n = some secret) ∧
      ∀ n < s.commitmentNumber, n ≠ t.commitmentNumber := by
  have hfresh := channelInit_fresh hinit
  have hstart : Numbered (opened.configure setup) := by
    refine ⟨?_,fun q hq => ?_⟩
    · have hcount : (opened.configure setup).nLocalPcs ≤ 2 := hfresh.nLocalPcs
      exact hcount.trans (Nat.le_add_left _ _)
    · have hptlcs : (opened.configure setup).ptlcs = [] := hfresh.ptlcs
      rw [hptlcs] at hq
      cases hq
  obtain ⟨-,hadvances⟩ := run_advances ht (run_advances hs hstart).1
  have hle := UInt64.le_iff_toNat_le.mpr hadvances.number
  refine ⟨fun hdiffer => ?_,hle,hadvances.secrets,fun n hn heq => ?_⟩
  · have hne : s.commitmentNumber ≠ t.commitmentNumber := fun heq => hdiffer (hadvances.same heq)
    exact UInt64.lt_of_le_of_ne hle hne
  · rw [heq] at hn
    exact UInt64.not_lt.mpr hle hn

instance (ch : Channel) (op : ChannelOp) : Decidable (WithoutPtlcValue ch op) :=
  inferInstanceAs (Decidable (_ ∧ _))

theorem commitment_numbers_separate_addHtlc : ∃ opened t,
    channelInit Musig.sample sampleParams true sampleDraw sampleDraw = some opened ∧
      Runs.Reaches (channelStep Musig.sample.toSecp) WithoutPtlcValue (opened.configure sampleSetup)
        t ∧
      (channelBuildCommitmentTxImpl Musig.sample t none).isSome = true ∧
      (opened.configure sampleSetup).commitmentNumber < t.commitmentNumber := by
  obtain ⟨start,hstart,t,hplayed,hdiffer,hbuilt⟩ : ∃ start, sampleChannel = some start ∧
      ∃ t, Runs.play (channelStep Musig.sample.toSecp) WithoutPtlcValue start
        [.addHtlc .received 50000 (Blob.zero 32) 500 true sampleDraw] = some t ∧
      channelBuildCommitmentTxImpl Musig.sample start none ≠
        channelBuildCommitmentTxImpl Musig.sample t none ∧
      (channelBuildCommitmentTxImpl Musig.sample t none).isSome = true := by
    decide +kernel
  obtain ⟨opened,hopened,rfl⟩ := sampleChannel_some hstart
  have hreach := Runs.reaches_of_play hplayed
  refine ⟨opened,t,hopened,hreach,hbuilt,?_⟩
  exact (commitment_numbers_separate Musig.sample sampleParams true sampleDraw sampleDraw opened
    sampleSetup _ t hopened .refl hreach).1 hdiffer

theorem commitment_numbers_addPtlc : ∃ opened,
    channelInit Musig.sample sampleParams true sampleDraw sampleDraw = some opened ∧
      channelBuildCommitmentTxImpl Musig.sample (opened.configure sampleSetup) none ≠
        channelBuildCommitmentTxImpl Musig.sample
          (channelStep Musig.sample.toSecp (opened.configure sampleSetup)
            (.addPtlc true .offered 1000 none 500 true)) none ∧
      (channelStep Musig.sample.toSecp (opened.configure sampleSetup)
        (.addPtlc true .offered 1000 none 500 true)).commitmentNumber =
          (opened.configure sampleSetup).commitmentNumber := by
  decide +kernel

end SuperScalar
