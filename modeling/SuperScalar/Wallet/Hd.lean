import SuperScalar.Foundation.Runs
import SuperScalar.Foundation.Transaction

namespace SuperScalar

open Bitcoin List UInt64

structure HdUtxo where
  coin : OutPoint
  amountSats : UInt64
  keyIndex : UInt32
  spent : Bool
  reserved : Bool
deriving DecidableEq

def persistSaveHdUtxo (coin : OutPoint) (amountSats : UInt64) (keyIndex : UInt32)
    (rows : List HdUtxo) : List HdUtxo :=
  if rows.any (fun r => r.coin = coin) then rows
  else rows ++ [⟨coin,amountSats,keyIndex,false,false⟩]

def persistMarkHdUtxoSpent (coin : OutPoint) (rows : List HdUtxo) : List HdUtxo :=
  rows.map (fun r => if r.coin = coin then { r with spent := true } else r)

def persistReserveHdUtxo (coin : OutPoint) (rows : List HdUtxo) : List HdUtxo :=
  rows.map (fun r => if r.coin = coin then { r with reserved := true } else r)

def persistUnreserveHdUtxo (coin : OutPoint) (rows : List HdUtxo) : List HdUtxo :=
  rows.map (fun r => if r.coin = coin ∧ !r.spent then { r with reserved := false } else r)

def persistClearHdReserved (rows : List HdUtxo) : List HdUtxo :=
  rows.map (fun r => if !r.spent then { r with reserved := false } else r)

def smallestUtxo : List HdUtxo → Option HdUtxo
  | [] => none
  | r :: rs =>
    match smallestUtxo rs with
    | none => some r
    | some best => if r.amountSats.toInt64 ≤ best.amountSats.toInt64 then some r else some best

def HdUtxo.serves (minSats : UInt64) (r : HdUtxo) : Bool :=
  !r.spent && !r.reserved && minSats.toInt64 ≤ r.amountSats.toInt64

def persistGetHdUtxo (minSats : UInt64) (rows : List HdUtxo) : List HdUtxo × Option HdUtxo :=
  match smallestUtxo (rows.filter (HdUtxo.serves minSats)) with
  | none => (rows,none)
  | some r => (persistReserveHdUtxo r.coin rows,some r)

theorem smallestUtxo_mem {rows : List HdUtxo} {r : HdUtxo} (h : smallestUtxo rows = some r) :
    r ∈ rows := by
  induction rows generalizing r with
  | nil => cases h
  | cons _ _ ih =>
    rw [smallestUtxo] at h
    split at h
    · cases h
      exact mem_cons_self
    · rename_i best hbest
      split at h
      · cases h
        exact mem_cons_self
      · cases h
        exact mem_cons_of_mem _ (ih hbest)

theorem persistGetHdUtxo_serves {minSats : UInt64} {rows rows' : List HdUtxo} {r : HdUtxo}
    (h : persistGetHdUtxo minSats rows = (rows',some r)) : r ∈ rows ∧ r.serves minSats = true := by
  unfold persistGetHdUtxo at h
  split at h
  · cases h
  · rename_i q hq
    obtain rfl := Option.some.inj (Prod.mk.inj h).2
    exact mem_filter.mp (smallestUtxo_mem hq)

structure FundRequest where
  targetSpk : Bytes
  amountSats : UInt64
  feeRateKvb : UInt64

-- The answers of the key derivation, of the chain and of the system; `crashed` before the broadcast
-- and `crashedSent` after it are the end of the process.
structure FundWorld where
  script : Bool
  change : Option Bytes
  sign : Bool
  memory : Bool
  crashed : Bool
  broadcast : Bool
  crashedSent : Bool

structure FundTx where
  tx : Tx
  feeSats : UInt64

structure Funding where
  input : HdUtxo
  feeRateKvb : UInt64
  built : Option FundTx
  sent : Bool

structure HdWallet where
  rows : List HdUtxo
  fundings : List Funding

def fundRate (feeRateKvb : UInt64) : UInt64 := if feeRateKvb = 0 then 110 else feeRateKvb

def fundFee (feeRateKvb : UInt64) : UInt64 :=
  let feeSats := (200 * fundRate feeRateKvb + 999)/1000
  if feeSats < 1 then 1 else feeSats

def lspFundBuildUnsignedTx (coin : OutPoint) (outputs : List TxOut) : Tx where
  version := 2
  inputs := [⟨coin,[],0xFFFFFFFD⟩]
  outputs := outputs
  locktime := 0

def fundChange (input : HdUtxo) (req : FundRequest) : UInt64 :=
  input.amountSats - req.amountSats - fundFee req.feeRateKvb

def fundTx (w : FundWorld) (input : HdUtxo) (req : FundRequest) : Option FundTx :=
  if fundChange input req ≥ 546 then
    w.change.map (fun spk => ⟨lspFundBuildUnsignedTx input.coin
      [⟨req.amountSats,req.targetSpk⟩,⟨fundChange input req,spk⟩],fundFee req.feeRateKvb⟩)
  else
    some ⟨lspFundBuildUnsignedTx input.coin [⟨req.amountSats,req.targetSpk⟩],
      fundFee req.feeRateKvb + fundChange input req⟩

def FundWorld.sends (w : FundWorld) : Bool := w.sign && w.memory && !w.crashed && w.broadcast

def FundWorld.releases (w : FundWorld) (built : Option FundTx) : Bool :=
  w.script && (built.isNone || !(w.sign && w.memory) || !w.crashed && !w.crashedSent)

def lspFundSpk (w : FundWorld) (req : FundRequest) (wallet : HdWallet) : HdWallet × Bool :=
  if req.targetSpk = [] ∨ req.amountSats = 0 then (wallet,false)
  else
    match persistGetHdUtxo (req.amountSats + fundFee req.feeRateKvb) wallet.rows with
    | (_,none) => (wallet,false)
    | (rows,some input) =>
      let built := if w.script then fundTx w input req else none
      let sent := built.isSome && w.sends
      ({ rows := if w.releases built then persistUnreserveHdUtxo input.coin rows else rows
         fundings := wallet.fundings ++ [⟨input,req.feeRateKvb,built,sent⟩] },
        sent && !w.crashedSent)

inductive WalletEvent where
  | fund (w : FundWorld) (req : FundRequest)
  | utxoFound (coin : OutPoint) (amountSats : UInt64) (keyIndex : Option UInt32)
  | utxoSpent (coin : OutPoint)
  | restart

def HdWallet.step (wallet : HdWallet) : WalletEvent → HdWallet
  | .fund w req => (lspFundSpk w req wallet).1
  | .utxoFound coin amountSats keyIndex =>
    match keyIndex with
    | none => wallet
    | some i => { wallet with rows := persistSaveHdUtxo coin amountSats i wallet.rows }
  | .utxoSpent coin => { wallet with rows := persistMarkHdUtxoSpent coin wallet.rows }
  | .restart => { wallet with rows := persistClearHdReserved wallet.rows }

section

def naturalFee (feeRateKvb : UInt64) : ℕ := max 1 ((200*(fundRate feeRateKvb).toNat+999)/1000)

def FundTx.outputSats (t : FundTx) : ℕ := (t.tx.outputs.map (fun o => o.amount.toNat)).sum

structure Funding.Balanced (f : Funding) (t : FundTx) : Prop where
  total : f.input.amountSats.toNat = t.outputSats + t.feeSats.toNat
  fee : t.feeSats.toNat = naturalFee f.feeRateKvb ∨ t.tx.outputs.length = 1 ∧
    naturalFee f.feeRateKvb ≤ t.feeSats.toNat ∧ t.feeSats.toNat < naturalFee f.feeRateKvb + 546

structure HdWallet.Law (wallet : HdWallet) : Prop where
  spentOnce : wallet.fundings.Pairwise (fun a b => a.sent = true → b.sent = true →
    a.input.coin ≠ b.input.coin)
  takenAgain : wallet.fundings.Pairwise (fun a b => a.input.coin = b.input.coin → a.sent = false)
  balanced : ∀ f ∈ wallet.fundings, ∀ t, f.built = some t → f.Balanced t

def FundRequest.Settled (req : FundRequest) (wallet : HdWallet) : Prop :=
  (∀ f ∈ wallet.fundings, f.sent = true → ∀ r ∈ wallet.rows, r.coin = f.input.coin →
    r.spent = true) ∧
  200 * (fundRate req.feeRateKvb).toNat + 999 < 2^64 ∧
  req.amountSats.toNat + naturalFee req.feeRateKvb < 2^63

def HdWallet.Waits (wallet : HdWallet) : WalletEvent → Prop
  | .fund _ req => req.Settled wallet
  | _ => True

variable {wallet : HdWallet} {req : FundRequest} {w : FundWorld} {input : HdUtxo}

theorem fundFee_natural (h : 200*(fundRate req.feeRateKvb).toNat+999 < 2^64) :
    (fundFee req.feeRateKvb).toNat = naturalFee req.feeRateKvb := by
  have hsum : ((200 * fundRate req.feeRateKvb + 999)/1000).toNat =
      (200*(fundRate req.feeRateKvb).toNat+999) / 1000 := by
    rw [UInt64.toNat_div,UInt64.toNat_add,UInt64.toNat_mul]
    change ((200*(fundRate req.feeRateKvb).toNat) % 2 ^ 64 + 999) % 2 ^ 64 / 1000 = _
    rw [Nat.mod_eq_of_lt (by omega : 200*(fundRate req.feeRateKvb).toNat < 2^64),Nat.mod_eq_of_lt h]
  rw [fundFee,naturalFee]
  split
  · rename_i hlt
    have hlt' := lt_iff_toNat_lt.mp hlt
    rw [hsum] at hlt'
    change _ < 1 at hlt'
    change 1 = _
    omega
  · rename_i hge
    have hge' := UInt64.le_iff_toNat_le.mp (UInt64.not_lt.mp hge)
    rw [hsum] at hge' ⊢
    change 1 ≤ _ at hge'
    omega

theorem toInt_toInt64 (a : UInt64) :
    a.toInt64.toInt = if 2*a.toNat < 2^64 then (a.toNat : ℤ) else a.toNat-(2^64 : ℕ) := by
  rw [← Int64.toInt_toBitVec,toBitVec_toInt64,BitVec.toInt_eq_toNat_cond,toNat_toBitVec]

theorem le_of_toInt64_le {a b : UInt64} (ha : a.toNat < 2^63) (h : a.toInt64 ≤ b.toInt64) :
    a.toNat ≤ b.toNat := by
  have hb := b.toNat_lt
  simp only [Int64.le_iff_toInt_le,toInt_toInt64] at h
  split at h <;> omega

theorem fundChange_natural (hreq : req.Settled wallet)
    (hserves : input.serves (req.amountSats + fundFee req.feeRateKvb) = true) :
    input.amountSats.toNat = req.amountSats.toNat + naturalFee req.feeRateKvb +
      (fundChange input req).toNat := by
  have hfee := fundFee_natural hreq.2.1
  have hroom := hreq.2.2
  have hsum : (req.amountSats + fundFee req.feeRateKvb).toNat =
      req.amountSats.toNat + naturalFee req.feeRateKvb := by
    rw [UInt64.toNat_add,hfee]
    exact Nat.mod_eq_of_lt (by omega)
  rw [HdUtxo.serves,Bool.and_eq_true,decide_eq_true_eq] at hserves
  have hle := le_of_toInt64_le (by rw [hsum]; exact hroom) hserves.2
  rw [hsum] at hle
  have hfirst : (input.amountSats-req.amountSats).toNat =
      input.amountSats.toNat - req.amountSats.toNat :=
    UInt64.toNat_sub_of_le _ _ (UInt64.le_iff_toNat_le.mpr (by omega))
  have hsecond : (fundChange input req).toNat =
      (input.amountSats-req.amountSats).toNat - (fundFee req.feeRateKvb).toNat :=
    UInt64.toNat_sub_of_le _ _ (UInt64.le_iff_toNat_le.mpr (by rw [hfirst,hfee]; omega))
  rw [hsecond,hfirst,hfee]
  omega

theorem fundTx_balanced (hreq : req.Settled wallet)
    (hserves : input.serves (req.amountSats + fundFee req.feeRateKvb) = true) {t : FundTx}
    (ht : fundTx w input req = some t) (built : Option FundTx) (sent : Bool) :
    Funding.Balanced ⟨input,req.feeRateKvb,built,sent⟩ t := by
  have hfee := fundFee_natural hreq.2.1
  have hchange := fundChange_natural hreq hserves
  unfold fundTx at ht
  split at ht
  · obtain ⟨spk,-,rfl⟩ := Option.map_eq_some_iff.mp ht
    refine ⟨?_,.inl hfee⟩
    simp only [FundTx.outputSats,lspFundBuildUnsignedTx,map_cons,map_nil,sum_cons,sum_nil,hfee]
    omega
  · rename_i hdust
    cases ht
    have hlt : (fundChange input req).toNat < 546 :=
      UInt64.lt_iff_toNat_lt.mp (UInt64.not_le.mp hdust)
    have hroom := input.amountSats.toNat_lt
    have hsum : (fundFee req.feeRateKvb + fundChange input req).toNat =
        naturalFee req.feeRateKvb + (fundChange input req).toNat := by
      rw [UInt64.toNat_add,hfee]
      exact Nat.mod_eq_of_lt (by omega)
    refine ⟨?_,.inr ⟨rfl,?_⟩⟩
    · simp only [FundTx.outputSats,lspFundBuildUnsignedTx,map_cons,map_nil,sum_cons,sum_nil,hsum]
      omega
    · exact ⟨hsum ▸ Nat.le_add_right _ _,hsum ▸ Nat.add_lt_add_left hlt _⟩

theorem lspFundSpk_cases (w : FundWorld) (req : FundRequest) (wallet : HdWallet) :
    (lspFundSpk w req wallet).1 = wallet ∨ ∃ input rows' built sent,
      input ∈ wallet.rows ∧ input.serves (req.amountSats + fundFee req.feeRateKvb) = true ∧
      (∀ t, built = some t → fundTx w input req = some t) ∧
      (lspFundSpk w req wallet).1 =
        ⟨rows',wallet.fundings ++ [⟨input,req.feeRateKvb,built,sent⟩]⟩ := by
  unfold lspFundSpk
  split
  · exact .inl rfl
  · split
    · exact .inl rfl
    · rename_i rows input hget
      obtain ⟨hmem,hserves⟩ := persistGetHdUtxo_serves hget
      refine .inr ⟨input,_,_,_,hmem,hserves,?_,rfl⟩
      intro t ht
      split at ht
      · exact ht
      · cases ht

theorem HdWallet.Law.fund (h : wallet.Law) (hreq : req.Settled wallet) (w : FundWorld) :
    (lspFundSpk w req wallet).1.Law := by
  rcases lspFundSpk_cases w req wallet with hsame | ⟨input,rows,built,sent,hmem,hserves,hbuilt,heq⟩
  · rwa [hsame]
  · have hfresh : ∀ f ∈ wallet.fundings, f.input.coin = input.coin → f.sent = false := by
      intro f hf hcoin
      simp only [HdUtxo.serves,Bool.and_eq_true] at hserves
      by_contra hsent
      have hspent := hreq.1 f hf (by simpa using hsent) input hmem hcoin.symm
      rw [hspent] at hserves
      exact absurd hserves.1.1 (by decide)
    rw [heq]
    refine ⟨?_,?_,?_⟩
    · refine pairwise_append.mpr ⟨h.spentOnce,pairwise_singleton _ _,?_⟩
      intro a ha b hb hsent _ hcoin
      obtain rfl := mem_singleton.mp hb
      rw [hfresh a ha hcoin] at hsent
      cases hsent
    · refine pairwise_append.mpr ⟨h.takenAgain,pairwise_singleton _ _,?_⟩
      intro a ha b hb hcoin
      obtain rfl := mem_singleton.mp hb
      exact hfresh a ha hcoin
    · intro f hf t ht
      rcases mem_append.mp hf with hold | hnew
      · exact h.balanced f hold t ht
      · obtain rfl := mem_singleton.mp hnew
        exact fundTx_balanced hreq hserves (hbuilt t ht) _ _

theorem HdWallet.Law.step (h : wallet.Law) {event : WalletEvent} (hg : wallet.Waits event) :
    (wallet.step event).Law := by
  cases event with
  | fund w => exact h.fund hg w
  | utxoFound _ _ keyIndex =>
    cases keyIndex with
    | none => exact h
    | some => exact ⟨h.spentOnce,h.takenAgain,h.balanced⟩
  | utxoSpent => exact ⟨h.spentOnce,h.takenAgain,h.balanced⟩
  | restart => exact ⟨h.spentOnce,h.takenAgain,h.balanced⟩

end

def sampleCoin : OutPoint := ⟨Blob.zero 32,0⟩

def sampleRow : HdUtxo := ⟨sampleCoin,100000,0,false,false⟩

def fundAccepted : FundWorld := ⟨true,some [],true,true,false,true,false⟩

def tenThousandSats : FundRequest := ⟨[81],10000,1000⟩

end SuperScalar
