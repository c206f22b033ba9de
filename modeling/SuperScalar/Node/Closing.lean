import SuperScalar.Peer.HtlcCommit

namespace SuperScalar

open Bitcoin Option UInt64

def bolt2ClosingSigned : UInt16 := 39

def chanCloseMaxSpkLen : ℕ := 34

abbrev CloseSpk := {spk : Bytes // spk.length ≤ chanCloseMaxSpkLen}

def chanCloseBuildClosingSigned (channelId : Blob 32) (feeSatoshis : UInt64) (sig64 : Blob 64) :
    Bytes :=
  putU16 bolt2ClosingSigned ++ channelId.val ++ putU64 feeSatoshis ++ sig64.val

def chanCloseRecvClosingSigned (msg : Bytes) : Option (Blob 32 × UInt64 × Blob 64) :=
  if msg.length < 106 ∨ getU16 msg ≠ bolt2ClosingSigned then none
  else some (copyBytes 32 (msg.drop 2),getU64 (msg.drop 34),copyBytes 64 (msg.drop 42))

section

-- The channel with the fields of its cooperative close; `closeState` has bit 1 once a shutdown is
-- sent and bit 2 once one is received, then 4 while fees are negotiated and 5 at the end.
structure ClosingChannel where
  channel : Channel
  closeState : UInt32
  closeOurSpk : CloseSpk
  closeTheirSpk : CloseSpk
  closeOurFeeSat : UInt64
  closeTheirFeeSat : UInt64
  closeRemoteSig : Blob 64

def ClosingChannel.bothShutdown (c : ClosingChannel) : Prop := c.closeState &&& 3 = 3

instance (c : ClosingChannel) : Decidable c.bothShutdown := inferInstanceAs (Decidable (_ = _))

structure ClosingRun where
  channel : ClosingChannel
  sends : List Bytes
  broadcast : Option Bytes
  type : Option UInt16

-- `sign` is what `musig_sign_taproot` returns for a sighash.
variable (m : Musig) (sign : Blob 32 → Option (Blob 64))

def channelBuildCooperativeCloseTx (ch : Channel) (outputs : List TxOut) : Option Bytes :=
  let unsignedTx := (buildUnsignedTx m.toSecp ch.fundingTxid ch.fundingVout 0xFFFFFFFE outputs).1
  (sign (computeTaprootSighash m unsignedTx 0 ch.fundingSpk ch.fundingAmount 0xFFFFFFFE)).map
    (finalizeSignedTx unsignedTx)

def chanCloseNegotiateFee (ourFee theirFee : UInt64) : UInt64 :=
  if ourFee = theirFee then ourFee else (ourFee+theirFee)/2

def closingOutputs (c : ClosingChannel) (agreedFee : UInt64) : List TxOut :=
  [⟨if c.channel.localAmount > agreedFee*1000 then
      (c.channel.localAmount-agreedFee*1000) / 1000 else 0,c.closeOurSpk.val⟩,
    ⟨c.channel.remoteAmount/1000,c.closeTheirSpk.val⟩]

-- `broadcasts` says whether the node has a callback for transactions.
def processClosingSigned (broadcasts : Bool) (msg : Bytes) (c : ClosingChannel) : ClosingRun :=
  match chanCloseRecvClosingSigned msg with
  | none => ⟨c,[],none,none⟩
  | some (cid,theirFee,sig) =>
    if c.bothShutdown then
      let ourFee := if c.closeOurFeeSat = 0 then theirFee else c.closeOurFeeSat
      let counter := chanCloseNegotiateFee ourFee theirFee
      let c := { c with closeOurFeeSat := ourFee, closeTheirFeeSat := theirFee }
      if counter = theirFee then
        ⟨{ c with closeState := 5, closeRemoteSig := sig },[],
          if broadcasts ∧ c.channel.fundingSpk ≠ [] ∧ c.closeOurSpk.val ≠ [] ∧
              c.closeTheirSpk.val ≠ [] then
            channelBuildCooperativeCloseTx m sign c.channel (closingOutputs c theirFee)
          else none,some bolt2ClosingSigned⟩
      else
        ⟨{ c with closeOurFeeSat := counter, closeState := 4 },
          [chanCloseBuildClosingSigned cid counter (Blob.zero 64)],none,some bolt2ClosingSigned⟩
    else ⟨c,[],none,some bolt2ClosingSigned⟩

end

structure PaysBalances (c : ClosingChannel) (fee : UInt64) (bytes : Bytes) : Prop where
  outputs : ∃ t ours theirs, parseSegwitTx bytes = some t ∧ t.base.outputs = [ours,theirs] ∧
    ours.script = c.closeOurSpk.val ∧ theirs.script = c.closeTheirSpk.val ∧
    ours.amount.toNat + fee.toNat = c.channel.localAmount.toNat ∧
    theirs.amount = c.channel.remoteAmount ∧
    ours.amount.toNat + theirs.amount.toNat + fee.toNat =
      c.channel.localAmount.toNat + c.channel.remoteAmount.toNat
  proposed : fee ≤ c.closeOurFeeSat
  afforded : fee ≤ c.channel.localAmount

-- The peer has nothing and the fee takes all we have, up to a product that wraps around; and the
-- node had a fee of its own.
structure ClosesEven (c : ClosingChannel) (fee : UInt64) : Prop where
  remote : c.channel.remoteAmount = 0
  taken : fee.toNat*1000 % 2 ^ 64 < c.channel.localAmount.toNat ∧
      (c.channel.localAmount.toNat-fee.toNat*1000 % 2 ^ 64) / 1000 + fee.toNat =
        c.channel.localAmount.toNat ∨
    c.channel.localAmount.toNat ≤ fee.toNat*1000 % 2 ^ 64 ∧ fee = c.channel.localAmount
  own : c.closeOurFeeSat = 0 → fee = 0

section

variable {m : Musig} {sign : Blob 32 → Option (Blob 64)} {c : ClosingChannel} {bytes msg : Bytes}
  {broadcasts : Bool}

theorem cooperativeClose_parses {ch : Channel} {outputs : List TxOut}
    (hlength : outputs.length < 256^8) (hscripts : ∀ o ∈ outputs, o.script.length < 256^8)
    (h : channelBuildCooperativeCloseTx m sign ch outputs = some bytes) :
    ∃ t, parseSegwitTx bytes = some t ∧ t.base.outputs = outputs := by
  obtain ⟨sig,-,rfl⟩ := map_eq_some_iff.mp h
  unfold buildUnsignedTx buildUnsignedTxWithLocktime
  rw [txBufWriteTx_eq _ _ _ _ (by norm_num) hlength hscripts,finalizeSignedTx_serialize]
  refine ⟨_,parseSegwitTx_serialize _ ?_ ?_ rfl,rfl⟩
  · rw [Tx.ok_iff]
    refine ⟨⟨by norm_num,fun i hi => ?_⟩,hlength,hscripts⟩
    obtain rfl := List.mem_singleton.mp hi
    norm_num [TxInput.toTxIn]
  · intro w hw
    obtain rfl := List.mem_singleton.mp hw
    simp [Wire.counted,Wire.bytes]

theorem negotiateFee_accepts {ourFee theirFee : UInt64}
    (h : chanCloseNegotiateFee ourFee theirFee = theirFee) : theirFee ≤ ourFee := by
  unfold chanCloseNegotiateFee at h
  split at h
  · exact UInt64.le_of_eq h.symm
  · have hsum := congrArg toNat h
    rw [UInt64.toNat_div,UInt64.toNat_add] at hsum
    change (ourFee.toNat+theirFee.toNat) % 2 ^ 64 / 2 = theirFee.toNat at hsum
    rw [le_iff_toNat_le]
    have hours := ourFee.toNat_lt
    have htheirs := theirFee.toNat_lt
    omega

theorem processClosingSigned_broadcast
    (h : (processClosingSigned m sign broadcasts msg c).broadcast = some bytes) :
    channelBuildCooperativeCloseTx m sign c.channel (closingOutputs c (getU64 (msg.drop 34))) =
      some bytes ∧ (c.closeOurFeeSat ≠ 0 → getU64 (msg.drop 34) ≤ c.closeOurFeeSat) := by
  unfold processClosingSigned at h
  cases hmsg : chanCloseRecvClosingSigned msg with
  | none =>
    rw [hmsg] at h
    cases h
  | some parsed =>
    obtain ⟨cid,theirFee,sig⟩ := parsed
    obtain rfl : getU64 (msg.drop 34) = theirFee := by
      unfold chanCloseRecvClosingSigned at hmsg
      split at hmsg
      · cases hmsg
      · exact (Prod.mk.inj (Prod.mk.inj (some.inj hmsg)).2).1
    rw [hmsg] at h
    dsimp only at h
    by_cases hboth : c.bothShutdown
    · rw [if_pos hboth] at h
      generalize hours : (if c.closeOurFeeSat = 0 then _ else _) = ourFee at h
      by_cases hagreed : chanCloseNegotiateFee ourFee (getU64 (msg.drop 34)) = getU64 (msg.drop 34)
      · rw [if_pos hagreed] at h
        split at h
        · refine ⟨h,fun hown => ?_⟩
          rw [if_neg hown] at hours
          exact hours ▸ negotiateFee_accepts hagreed
        · cases h
      · rw [if_neg hagreed] at h
        cases h
    · rw [if_neg hboth] at h
      cases h

theorem closingOutputs_scripts (fee : UInt64) :
    ∀ o ∈ closingOutputs c fee, o.script.length < 256^8 := by
  have hbound (spk : CloseSpk) : spk.val.length < 256^8 :=
    spk.property.trans_lt (by norm_num [chanCloseMaxSpkLen])
  intro o ho
  rcases List.mem_cons.mp ho with rfl | ho
  · exact hbound c.closeOurSpk
  · obtain rfl := List.mem_singleton.mp ho
    exact hbound c.closeTheirSpk

theorem ours_toNat (c : ClosingChannel) (fee : UInt64) :
    (if c.channel.localAmount > fee*1000 then (c.channel.localAmount-fee*1000)/1000
      else (0 : UInt64)).toNat =
    if fee.toNat*1000 % 2 ^ 64 < c.channel.localAmount.toNat then
      (c.channel.localAmount.toNat-fee.toNat*1000 % 2 ^ 64) / 1000 else 0 := by
  have hfee : (fee*1000).toNat = fee.toNat*1000 % 2 ^ 64 := by
    rw [UInt64.toNat_mul]
    rfl
  by_cases hlt : c.channel.localAmount > fee*1000
  · have hnat := lt_iff_toNat_lt.mp hlt
    rw [if_pos hlt,UInt64.toNat_div,UInt64.toNat_sub_of_le _ _ (UInt64.le_of_lt hlt)]
    rw [hfee] at hnat ⊢
    rw [if_pos hnat]
    rfl
  · have hnat : ¬fee.toNat*1000 % 2 ^ 64 < c.channel.localAmount.toNat := by
      rw [← hfee]
      exact fun h => hlt (lt_iff_toNat_lt.mpr h)
    rw [if_neg hlt,if_neg hnat]
    rfl

theorem div_thousand_eq_self {a : UInt64} : a/1000 = a ↔ a = 0 := by
  simp only [← UInt64.toNat_inj,UInt64.toNat_div]
  change a.toNat/1000 = a.toNat ↔ a.toNat = 0
  omega

theorem closing_pays_balances_iff (m : Musig) (sign : Blob 32 → Option (Blob 64))
    (broadcasts : Bool) (msg bytes : Bytes) (c : ClosingChannel)
    (hbytes : (processClosingSigned m sign broadcasts msg c).broadcast = some bytes) :
    PaysBalances c (getU64 (msg.drop 34)) bytes ↔ ClosesEven c (getU64 (msg.drop 34)) := by
  obtain ⟨hbuilt,hown⟩ := processClosingSigned_broadcast hbytes
  generalize getU64 (msg.drop 34) = fee at hbuilt hown ⊢
  obtain ⟨t,hparse,houts⟩ :=
    cooperativeClose_parses (by norm_num [closingOutputs]) (closingOutputs_scripts fee) hbuilt
  have hours := ours_toNat c fee
  constructor
  · rintro ⟨⟨t',ours,theirs,hparse',houts',-,-,hlocal,hremote,-⟩,hproposed,hafforded⟩
    obtain rfl := Option.mem_unique hparse hparse'
    obtain ⟨rfl,htail⟩ := List.cons.inj (houts.symm.trans houts')
    obtain ⟨rfl,-⟩ := List.cons.inj htail
    refine ⟨div_thousand_eq_self.mp hremote,?_,fun hzero => ?_⟩
    · rw [hours] at hlocal
      split at hlocal
      next hlt => exact .inl ⟨hlt,hlocal⟩
      next hle =>
        refine .inr ⟨Nat.not_lt.mp hle,UInt64.toNat_inj.mp ?_⟩
        rw [← hlocal,Nat.zero_add]
    · rw [hzero] at hproposed
      exact UInt64.le_zero_iff.mp hproposed
  · rintro ⟨hremote,htaken,hzero⟩
    have hlocal : (if c.channel.localAmount > fee*1000 then
        (c.channel.localAmount-fee*1000) / 1000 else (0 : UInt64)).toNat + fee.toNat =
        c.channel.localAmount.toNat := by
      rw [hours]
      rcases htaken with ⟨hlt,heq⟩ | ⟨hle,rfl⟩
      · rw [if_pos hlt,heq]
      · rw [if_neg (Nat.not_lt.mpr hle),Nat.zero_add]
    refine ⟨⟨t,_,_,hparse,houts,rfl,rfl,hlocal,?_,?_⟩,?_,?_⟩
    · exact div_thousand_eq_self.mpr hremote
    · rw [hremote]
      change _+0 + fee.toNat = _+0
      simp only [Nat.add_zero,hlocal]
    · by_cases hfee : c.closeOurFeeSat = 0
      · rw [hzero hfee]
        exact UInt64.zero_le
      · exact hown hfee
    · rw [UInt64.le_iff_toNat_le]
      omega

end

def closingSigned (fee : UInt64) : Bytes :=
  chanCloseBuildClosingSigned (Blob.zero 32) fee (Blob.zero 64)

def sampleSpk : CloseSpk := ⟨[0x51,0x20],by decide⟩

def ClosingChannel.sample (localAmount remoteAmount ourFee : UInt64) : ClosingChannel where
  channel := { Channel.sample with
    fundingSpk := [0x51]
    localAmount := localAmount
    remoteAmount := remoteAmount }
  closeState := 3
  closeOurSpk := sampleSpk
  closeTheirSpk := sampleSpk
  closeOurFeeSat := ourFee
  closeTheirFeeSat := 0
  closeRemoteSig := Blob.zero 64

def closingRun (c : ClosingChannel) (fee : UInt64) : ClosingRun :=
  processClosingSigned Musig.sample (fun _ => some (Blob.zero 64)) true (closingSigned fee) c

theorem closing_even : ∃ bytes,
    (closingRun (.sample 500 0 500) 500).broadcast = some bytes ∧
      PaysBalances (.sample 500 0 500) (getU64 ((closingSigned 500).drop 34)) bytes := by
  have hsome : (closingRun (.sample 500 0 500) 500).broadcast.isSome = true := by decide +kernel
  obtain ⟨bytes,hbytes⟩ := isSome_iff_exists.mp hsome
  refine ⟨bytes,hbytes,(closing_pays_balances_iff _ _ _ _ _ _ hbytes).mpr ?_⟩
  have hfee : getU64 ((closingSigned 500).drop 34) = 500 := by decide
  rw [hfee]
  exact ⟨by decide,.inr (by decide),by decide⟩

theorem closing_loses_balances : ∃ bytes bytes',
    (closingRun (.sample 600000 400000 1000) 1000).broadcast = some bytes ∧
      (parseSegwitTx bytes).map (fun t => t.base.outputs.map TxOut.amount) = some [0,400] ∧
      ¬PaysBalances (.sample 600000 400000 1000) (getU64 ((closingSigned 1000).drop 34)) bytes ∧
      (closingRun (.sample 600000 400000 0) 700000).broadcast = some bytes' ∧
      ¬getU64 ((closingSigned 700000).drop 34) ≤
        (ClosingChannel.sample 600000 400000 0).channel.localAmount := by
  obtain ⟨bytes,hbytes,hamounts⟩ : ∃ bytes,
      (closingRun (.sample 600000 400000 1000) 1000).broadcast = some bytes ∧
        (parseSegwitTx bytes).map (fun t => t.base.outputs.map TxOut.amount) = some [0,400] := by
    decide +kernel
  have hsome' : (closingRun (.sample 600000 400000 0) 700000).broadcast.isSome = true := by
    decide +kernel
  obtain ⟨bytes',hbytes'⟩ := isSome_iff_exists.mp hsome'
  refine ⟨bytes,bytes',hbytes,hamounts,?_,hbytes',by decide⟩
  rintro ⟨⟨t,ours,theirs,hparse,houts,-,-,-,hremote,-⟩,-,-⟩
  rw [hparse,map_some,houts] at hamounts
  have htheirs : some theirs.amount = some (400 : UInt64) :=
    congrArg (fun xs : List UInt64 => xs[1]?) (some.inj hamounts)
  rw [some.inj htheirs] at hremote
  exact absurd hremote (by decide)

end SuperScalar
