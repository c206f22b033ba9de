import SuperScalar.Lsp.Liquidity
import Mathlib.Algebra.Order.Floor.Div

namespace SuperScalar

open UInt64

inductive FeeTarget where
  | urgent | normal | economy | minimum

-- `none` is a missing estimator or one without `get_rate`.
abbrev FeeEstimator := Option (FeeTarget → UInt64)

def FeeEstimator.fee (fe : FeeEstimator) (target : FeeTarget) (vsize : UInt64) : UInt64 :=
  match fe with
  | none => 0
  | some getRate => computeFee (getRate target) vsize

def feeForPenaltyTx (fe : FeeEstimator) : UInt64 := fe.fee .urgent 165

def feeForHtlcTx (fe : FeeEstimator) : UInt64 := fe.fee .urgent 180

def feeForCpfpChild (fe : FeeEstimator) : UInt64 := fe.fee .urgent 264

def feeForCommitment (fe : FeeEstimator) (nHtlcs : ℕ) : UInt64 :=
  fe.fee .normal (154 + 43 * ofNat nHtlcs)

def feeForFactoryTx (fe : FeeEstimator) (nOutputs : ℕ) : UInt64 :=
  fe.fee .normal (68 + 43 * ofNat nOutputs)

def exactFee (rate vsize : UInt64) : ℕ := (rate.toNat*vsize.toNat) ⌈/⌉ 1000

-- The size 2^64-1 makes the divisor of the guard zero.
def FeeExact (rate vsize : UInt64) : Prop :=
  (rate ≠ 0 → vsize+1 ≠ 0) ∧ (computeFee rate vsize).toNat = min (exactFee rate vsize) 100000000

def FeeMono (fee : FeeEstimator → ℕ → UInt64) (bound : ℕ) : Prop :=
  ∀ rate rate' m n, (∀ target, rate target ≤ rate' target) → m ≤ n → n ≤ bound →
    fee (some rate) m ≤ fee (some rate') n

theorem exactFee_eq (rate vsize : UInt64) :
    exactFee rate vsize = (rate.toNat*vsize.toNat+999)/1000 :=
  Nat.ceilDiv_eq_add_pred_div _ _

section

variable {rate rate' vsize vsize' : UInt64}

theorem guard_toNat (hv : vsize.toNat+1 < 2^64) :
    rate > 100000000/(vsize+1) ↔ 100000000/(vsize.toNat+1) < rate.toNat := by
  rw [gt_iff_lt,UInt64.lt_iff_toNat_lt,UInt64.toNat_div,UInt64.toNat_add,
    show (1 : UInt64).toNat = 1 from rfl,Nat.mod_eq_of_lt hv]
  rfl

theorem product_small {r v : ℕ} (h : r ≤ 100000000/(v+1)) : r*v ≤ 100000000 :=
  calc r*v ≤ r*(v+1) := Nat.mul_le_mul_left r (Nat.le_succ v)
    _ ≤ 100000000 := (Nat.le_div_iff_mul_le (Nat.succ_pos v)).mp h

theorem computeFee_toNat (hv : vsize.toNat+1 < 2^64) :
    (computeFee rate vsize).toNat = if 100000000/(vsize.toNat+1) < rate.toNat then 100000000
      else (rate.toNat*vsize.toNat+999)/1000 := by
  simp only [computeFee,guard_toNat hv]
  split_ifs with hzero hcap hcap
  · simp [hzero] at hcap
  · simp [hzero]
  · rfl
  · have hsmall := product_small (not_lt.mp hcap)
    rw [UInt64.toNat_div,UInt64.toNat_add,UInt64.toNat_mul,show (999 : UInt64).toNat = 999 from rfl,
      Nat.mod_eq_of_lt (by omega : rate.toNat*vsize.toNat < 2^64),Nat.mod_eq_of_lt (by omega)]
    rfl

theorem feeExact_iff (rate vsize : UInt64) : FeeExact rate vsize ↔ rate = 0 ∨ vsize+1 ≠ 0 ∧
    (rate ≤ 100000000/(vsize+1) ∨ 100000000 ≤ exactFee rate vsize) := by
  by_cases hrate : rate = 0
  · simp [FeeExact,hrate,computeFee,exactFee]
  by_cases hdiv : vsize+1 = 0
  · simp [FeeExact,hrate,hdiv]
  have hv : vsize.toNat+1 < 2^64 := by
    by_contra hlt
    have hlast : vsize.toNat+1 = 2^64 := by have := vsize.toNat_lt; omega
    refine hdiv (UInt64.toNat_inj.mp ?_)
    rw [UInt64.toNat_add,show (1 : UInt64).toNat = 1 from rfl,hlast]
    rfl
  have hguard : rate ≤ 100000000/(vsize+1) ↔ rate.toNat ≤ 100000000/(vsize.toNat+1) := by
    rw [← UInt64.not_lt,← not_lt]
    exact not_congr (guard_toNat hv)
  simp only [FeeExact,hrate,hdiv,hguard,computeFee_toNat hv,exactFee_eq,ne_eq,not_false_eq_true,
    imp_self,true_and,false_or]
  split_ifs with hcap
  · omega
  · have hsmall := product_small (not_lt.mp hcap)
    omega

theorem computeFee_mono (hrate : rate ≤ rate') (hsize : vsize.toNat ≤ vsize'.toNat)
    (hv : vsize'.toNat+1 < 2^64) : computeFee rate vsize ≤ computeFee rate' vsize' := by
  rw [le_iff_toNat_le] at hrate ⊢
  rw [computeFee_toNat hv,computeFee_toNat (by omega)]
  have hguard : 100000000/(vsize'.toNat+1) ≤ 100000000/(vsize.toNat+1) :=
    Nat.div_le_div_left (by omega) (Nat.succ_pos _)
  split_ifs with hcap hcap' hcap'
  · exact le_rfl
  · omega
  · have hsmall := product_small (not_lt.mp hcap)
    omega
  · gcongr

end

section

variable {base bound : ℕ}

theorem vsize_toNat {n : ℕ} (h : base+43*n < 2^64) :
    (ofNat base + 43 * ofNat n).toNat = base+43*n := by
  simp [UInt64.toNat_add,UInt64.toNat_mul]
  omega

theorem feeMono_of_fits (base : ℕ) (target : FeeTarget) (h : base+43*bound+1 < 2^64) :
    FeeMono (fun fe n => fe.fee target (ofNat base + 43 * ofNat n)) bound := by
  intro rate rate' m n hrate hmn hn
  refine computeFee_mono (hrate target) ?_ ?_
  · rw [vsize_toNat (by omega),vsize_toNat (by omega)]
    omega
  · rw [vsize_toNat (by omega)]
    omega

theorem feeForCommitment_mono_iff : FeeMono feeForCommitment bound ↔ 154+43*bound < 2^64 := by
  refine ⟨fun h => ?_,fun h => feeMono_of_fits 154 .normal (by omega)⟩
  by_contra hwrap
  have hdrop := h (fun _ => 1) (fun _ => 1) 428994048225803522 428994048225803523
    (fun _ => by decide) (by decide) (by omega)
  exact absurd hdrop (by decide)

theorem feeForFactoryTx_mono_iff : FeeMono feeForFactoryTx bound ↔ 68+43*bound < 2^64 := by
  refine ⟨fun h => ?_,fun h => feeMono_of_fits 68 .normal (by omega)⟩
  by_contra hwrap
  have hdrop := h (fun _ => 1) (fun _ => 1) 428994048225803524 428994048225803525
    (fun _ => by decide) (by decide) (by omega)
  exact absurd hdrop (by decide)

theorem fixed_mono (target : FeeTarget) {vsize : UInt64} (hv : vsize.toNat+1 < 2^64) :
    FeeMono (fun fe _ => fe.fee target vsize) bound :=
  fun _ _ _ _ hrate _ _ => computeFee_mono (hrate target) le_rfl hv

end

theorem compute_fee_exact_iff (rate vsize : UInt64) (bound : ℕ) :
    (FeeExact rate vsize ↔ rate = 0 ∨ vsize+1 ≠ 0 ∧
      (rate ≤ 100000000/(vsize+1) ∨ 100000000 ≤ exactFee rate vsize)) ∧
    FeeMono (fun fe _ => feeForPenaltyTx fe) bound ∧ FeeMono (fun fe _ => feeForHtlcTx fe) bound ∧
      FeeMono (fun fe _ => feeForCpfpChild fe) bound ∧
      (FeeMono feeForCommitment bound ↔ 154+43*bound < 2^64) ∧
      (FeeMono feeForFactoryTx bound ↔ 68+43*bound < 2^64) :=
  ⟨feeExact_iff rate vsize,fixed_mono .urgent (by decide),fixed_mono .urgent (by decide),
    fixed_mono .urgent (by decide),feeForCommitment_mono_iff,feeForFactoryTx_mono_iff⟩

theorem cap_below_exact : computeFee 1000000 165 = 100000000 ∧ exactFee 1000000 165 = 165000 ∧
    ¬ FeeExact 1000000 165 := by
  refine ⟨by decide,by rw [exactFee_eq]; decide,fun h => ?_⟩
  have hfee := h.2
  rw [exactFee_eq] at hfee
  exact absurd hfee (by decide)

end SuperScalar
