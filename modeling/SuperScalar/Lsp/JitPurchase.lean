import SuperScalar.Channel.Value
import SuperScalar.Lsp.Liquidity

namespace SuperScalar

open Option UInt64

section

def activeJit (mgr : LspMgr) (clientIdx : ℕ) : Option JitChannel :=
  ((jitChannelFind mgr clientIdx).bind (fun i => mgr.jitChannels[i]?)).filter
    (fun jit => jit.state = .opened)

structure FundingOutput where
  txid : Blob 32
  vout : UInt32
  amount : UInt64

structure JitWorld where
  capacity : ℕ
  connected : Bool
  lspSeckey : Blob 32
  offerSent : Bool
  accept : Option Pubkey
  chain : Bool
  fundingSpk : Option Bytes
  fund : Bytes → UInt64 → Option FundingOutput
  confirmed : Bool
  alloc : Bool
  draw0 : PcsDraw
  draw1 : PcsDraw
  setup : Option ChannelSetup
  persisted : Bool

def jitChannelIdBase : UInt32 := 0x8000

def channelDefaultCsvDelay : UInt32 := 144

variable (m : Musig) (w : JitWorld)

def LspMgr.jitSplit (mgr : LspMgr) (amount : UInt64) : UInt64 × UInt64 :=
  let usable := if amount > mgr.commitFee then amount-mgr.commitFee else 0
  let localAmount := usable/2
  (localAmount,usable-localAmount)

def jitParams (fundingAmount : UInt64) (mgr : LspMgr) : Option ChannelParams := do
  let lspPubkey ← m.ecPubkeyCreate w.lspSeckey
  guard w.offerSent
  let clientPubkey ← w.accept
  guard w.chain
  let spk ← w.fundingSpk
  let out ← w.fund spk fundingAmount
  guard (w.confirmed ∧ out.amount ≠ 0)
  some
    { localFundingSecret := w.lspSeckey
      localFundingPubkey := lspPubkey
      remoteFundingPubkey := clientPubkey
      fundingTxid := out.txid
      fundingVout := out.vout
      fundingAmount := out.amount
      fundingSpk := spk
      localAmount := (mgr.jitSplit out.amount).1
      remoteAmount := (mgr.jitSplit out.amount).2
      toSelfDelay := channelDefaultCsvDelay }

def openJit (clientIdx : ℕ) (fundingAmount : UInt64) (mgr : LspMgr) : Option JitChannel := do
  let params ← jitParams m w fundingAmount mgr
  let ch ← channelInit m params w.alloc w.draw0 w.draw1
  let setup ← w.setup
  some
    { clientIdx := clientIdx
      state := .opened
      jitChannelId := jitChannelIdBase ||| UInt32.ofNat clientIdx
      channel :=
        { ch.configure setup with
          funderIsLocal := true
          feeRateSatPerKvb := mgr.feeRateSatPerKvb.getD 1000 } }

inductive JitOpening where
  | reused (jit : JitChannel)
  | opened (jit : JitChannel)

def JitOpening.channel : JitOpening → Channel
  | .reused jit => jit.channel
  | .opened jit => jit.channel

def jitChannelCreate (clientIdx : ℕ) (fundingAmount : UInt64) (mgr : LspMgr) :
    LspMgr × Option JitOpening :=
  if clientIdx ≥ mgr.entries.length then (mgr,none)
  else if !w.connected then (mgr,none)
  else if mgr.jitChannels.length ≥ w.capacity then (mgr,none)
  else
    match activeJit mgr clientIdx with
    | some jit => (mgr,some (.reused jit))
    | none =>
      match openJit m w clientIdx fundingAmount mgr with
      | none => (mgr,none)
      | some jit =>
        ({ mgr with jitChannels := mgr.jitChannels ++ [jit] },
          if w.persisted then some (.opened jit) else none)

variable {m w} {clientIdx : ℕ} {fundingAmount : UInt64} {mgr mgr' : LspMgr} {o : JitOpening}

theorem jitParams_split {params : ChannelParams} (h : jitParams m w fundingAmount mgr = some params) :
    (params.localAmount,params.remoteAmount) = mgr.jitSplit params.fundingAmount := by
  obtain ⟨lspPubkey,-,h⟩ := bind_eq_some_iff.mp h
  obtain ⟨-,-,h⟩ := bind_eq_some_iff.mp h
  obtain ⟨clientPubkey,-,h⟩ := bind_eq_some_iff.mp h
  obtain ⟨-,-,h⟩ := bind_eq_some_iff.mp h
  obtain ⟨spk,-,h⟩ := bind_eq_some_iff.mp h
  obtain ⟨out,-,h⟩ := bind_eq_some_iff.mp h
  obtain ⟨-,-,h⟩ := bind_eq_some_iff.mp h
  cases h
  rfl

theorem openJit_split {jit : JitChannel} (h : openJit m w clientIdx fundingAmount mgr = some jit) :
    ∃ amount, (jit.channel.localAmount,jit.channel.remoteAmount) = mgr.jitSplit amount := by
  obtain ⟨params,hparams,h⟩ := bind_eq_some_iff.mp h
  obtain ⟨ch,hinit,h⟩ := bind_eq_some_iff.mp h
  obtain ⟨setup,-,h⟩ := bind_eq_some_iff.mp h
  cases h
  have hfresh := channelInit_fresh hinit
  refine ⟨params.fundingAmount,?_⟩
  rw [← jitParams_split hparams,← hfresh.localAmount,← hfresh.remoteAmount]
  rfl

theorem jitChannelCreate_cases (h : jitChannelCreate m w clientIdx fundingAmount mgr =
    (mgr',some o)) :
    (∃ jit, activeJit mgr clientIdx = some jit ∧ o = .reused jit) ∨
      activeJit mgr clientIdx = none ∧
        ∃ jit, openJit m w clientIdx fundingAmount mgr = some jit ∧ o = .opened jit := by
  unfold jitChannelCreate at h
  split at h
  · cases h
  split at h
  · cases h
  split at h
  · cases h
  cases hactive : activeJit mgr clientIdx with
  | some jit =>
    rw [hactive] at h
    exact .inl ⟨jit,rfl,(some.inj (Prod.mk.inj h).2).symm⟩
  | none =>
    rw [hactive] at h
    cases hopen : openJit m w clientIdx fundingAmount mgr with
    | none =>
      rw [hopen] at h
      cases h
    | some jit =>
      simp only [hopen,Prod.mk.injEq,ite_none_right_eq_some,some.injEq] at h
      exact .inr ⟨rfl,jit,rfl,h.2.2.symm⟩

end

section

structure Lsps2FeeParams where
  minFeeMsat : UInt64
  feePpm : UInt32
  minChannelBalanceMsat : UInt64
  maxChannelBalanceMsat : UInt64

def lsps2Info : Lsps2FeeParams := ⟨1000,100,1000000,100000000000⟩

-- The fields of the request that are read, each when it has the right JSON type: the minimum fee
-- inside the object `opening_fee_params`, and the payment size.
structure BuyParams where
  openingFeeParams : Option (Option UInt64)
  paymentSizeMsat : Option UInt64

def lsps2ParseBuy (params : BuyParams) : Option (UInt64 × UInt64) :=
  params.openingFeeParams.map (fun minFee => (params.paymentSizeMsat.getD 0,minFee.getD 0))

def lspsErrInvalidParams : ℤ := -32602

def lspsErrInternalError : ℤ := -32603

def buyFundingSats (amountMsat feeMsat : UInt64) : UInt64 :=
  let fundingSats := (amountMsat + feeMsat+999)/1000
  if fundingSats < 20000 then 20000 else fundingSats

def jitScid (clientIdx : ℕ) : String := "800000x" ++ toString (clientIdx+1) ++ "x0"

-- The branch lsps2.buy of `lsps_handle_request`; a success names the channel it stands for.
def lsps2Buy (m : Musig) (w : JitWorld) (ctx : Option ℕ) (params : Option BuyParams)
    (mgr : LspMgr) : LspMgr × Except (ℤ × String) (String × JitOpening) :=
  match params.bind lsps2ParseBuy with
  | none => (mgr,.error (lspsErrInvalidParams, "invalid params"))
  | some (amountMsat,feeMsat) =>
    match ctx with
    | none => (mgr,.error (lspsErrInternalError, "no channel context"))
    | some clientIdx =>
      match jitChannelCreate m w clientIdx (buyFundingSats amountMsat feeMsat) mgr with
      | (mgr,none) => (mgr,.error (lspsErrInternalError, "jit_channel_create failed"))
      | (mgr,some opening) => (mgr,.ok (jitScid clientIdx,opening))

-- The proportional fee rounded up, and at least the minimum.
def advertisedFee (amountMsat : ℕ) : ℕ :=
  max lsps2Info.minFeeMsat.toNat ((amountMsat*lsps2Info.feePpm.toNat+999999)/1000000)

def WithinLimits (amountMsat : UInt64) : Prop :=
  lsps2Info.minChannelBalanceMsat ≤ amountMsat ∧ amountMsat ≤ lsps2Info.maxChannelBalanceMsat

instance (amountMsat : UInt64) : Decidable (WithinLimits amountMsat) :=
  inferInstanceAs (Decidable (_ ∧ _))

def Forwards (amountMsat feeMsat : UInt64) (ch : Channel) : Prop :=
  amountMsat.toNat - feeMsat.toNat ≤ ch.localAmount.toNat*1000

instance (amountMsat feeMsat : UInt64) (ch : Channel) :
    Decidable (Forwards amountMsat feeMsat ch) :=
  inferInstanceAs (Decidable (_ ≤ _))

structure SoundPurchase (amountMsat feeMsat : UInt64) (opening : JitOpening) : Prop where
  limits : WithinLimits amountMsat
  fee : feeMsat.toNat = advertisedFee amountMsat.toNat
  forwards : Forwards amountMsat feeMsat opening.channel
  unpaid : ∀ jit, opening = .opened jit → jit.channel.remoteAmount = 0

def CoveredBy (mgr : LspMgr) (clientIdx : ℕ) (amountMsat feeMsat : UInt64) : Prop :=
  WithinLimits amountMsat ∧ feeMsat.toNat = advertisedFee amountMsat.toNat ∧
    ∃ jit, activeJit mgr clientIdx = some jit ∧ Forwards amountMsat feeMsat jit.channel

variable {m : Musig} {w : JitWorld} {clientIdx : ℕ} {mgr mgr' : LspMgr}
variable {amountMsat feeMsat : UInt64} {params : BuyParams} {scid : String} {opening : JitOpening}

theorem lsps2Buy_creates (hparse : lsps2ParseBuy params = some (amountMsat,feeMsat))
    (h : lsps2Buy m w (some clientIdx) (some params) mgr = (mgr',.ok (scid,opening))) :
    jitChannelCreate m w clientIdx (buyFundingSats amountMsat feeMsat) mgr =
      (mgr',some opening) := by
  rw [lsps2Buy,bind_some,hparse] at h
  dsimp only at h
  split at h
  · cases h
  · rename_i mgr'' opening' hcreate
    obtain ⟨rfl,hok⟩ := Prod.mk.inj h
    obtain ⟨-,rfl⟩ := Prod.mk.inj (Except.ok.inj hok)
    exact hcreate

theorem advertisedFee_lt (h : WithinLimits amountMsat) :
    advertisedFee amountMsat.toNat < amountMsat.toNat := by
  have hmin : 1000000 ≤ amountMsat.toNat := le_iff_toNat_le.mp h.1
  change max 1000 ((amountMsat.toNat*100+999999)/1000000) < amountMsat.toNat
  omega

theorem halves_zero {usable : UInt64} (h : 0 = usable-usable/2) : usable/2 = 0 := by
  have hle : usable/2 ≤ usable :=
    UInt64.le_iff_toNat_le.mpr (by rw [UInt64.toNat_div]; exact Nat.div_le_self _ _)
  have hnat := congrArg UInt64.toNat h
  rw [UInt64.toNat_sub_of_le _ _ hle,UInt64.toNat_div] at hnat
  refine UInt64.toNat_inj.mp ?_
  rw [UInt64.toNat_div]
  change 0 = usable.toNat-usable.toNat/2 at hnat
  change usable.toNat/2 = 0
  omega

theorem opened_unsound {jit : JitChannel} {amount : UInt64}
    (hsplit : (jit.channel.localAmount,jit.channel.remoteAmount) = mgr.jitSplit amount) :
    ¬ SoundPurchase amountMsat feeMsat (.opened jit) := by
  intro hsound
  have hremote := hsound.unpaid jit rfl
  have hforwards := hsound.forwards
  have hfee := advertisedFee_lt hsound.limits
  rw [← hsound.fee] at hfee
  obtain ⟨hlocal,hrest⟩ := Prod.mk.inj hsplit
  rw [hremote] at hrest
  have hzero : jit.channel.localAmount = 0 := hlocal.trans (halves_zero hrest)
  rw [Forwards,JitOpening.channel,hzero,UInt64.toNat_zero] at hforwards
  omega

end

def jitWorld : JitWorld where
  capacity := 16
  connected := true
  lspSeckey := Blob.zero 32
  offerSent := true
  accept := some (Blob.zero 64)
  chain := true
  fundingSpk := some []
  fund _ amount := some ⟨Blob.zero 32,0,amount⟩
  confirmed := true
  alloc := true
  draw0 := sampleDraw
  draw1 := sampleDraw
  setup := some sampleSetup
  persisted := true

def jitMgr : LspMgr :=
  { LspMgr.sample [Channel.sample] with
    jitChannels := [⟨0,.opened,jitChannelIdBase,Channel.sample⟩] }

def buyFiftyThousandSats : BuyParams := ⟨some (some 5000),some 50000000⟩

end SuperScalar
