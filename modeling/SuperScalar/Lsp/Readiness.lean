import SuperScalar.Foundation.Runs
import SuperScalar.Foundation.Wire
import Mathlib.Data.Nat.Bitwise

namespace SuperScalar

open List UInt64 Nat

-- `1ULL << i`, whose value C leaves open from 64 on.
def clientBit (wide : ℕ → UInt64) (i : ℕ) : UInt64 :=
  if i < 64 then 1 <<< ofNat i else wide i

structure ReadinessTracker where
  nClients : ℕ
  isConnected : ℕ → Bool
  readyBitmap : UInt64

def readinessInit (nClients : ℕ) : ReadinessTracker := ⟨min nClients 128,fun _ => false,0⟩

def readinessSetReady (wide : ℕ → UInt64) (rt : ReadinessTracker) (i : ℕ) : ReadinessTracker :=
  if i ≥ rt.nClients then rt
  else if !rt.isConnected i then rt
  else { rt with readyBitmap := rt.readyBitmap ||| clientBit wide i }

-- `readiness_clear` is the call with `connected = 0`.
def readinessSetConnected (wide : ℕ → UInt64) (rt : ReadinessTracker) (i : ℕ) (connected : Bool) :
    ReadinessTracker :=
  if i ≥ rt.nClients then rt
  else if connected then { rt with isConnected := Function.update rt.isConnected i true }
  else { rt with
    isConnected := Function.update rt.isConnected i false
    readyBitmap := rt.readyBitmap &&& ~~~clientBit wide i }

def readinessReset (rt : ReadinessTracker) : ReadinessTracker :=
  { rt with isConnected := fun _ => false, readyBitmap := 0 }

def fullMask (n : ℕ) : UInt64 := if n ≥ 64 then 0xFFFFFFFFFFFFFFFF else (1 <<< ofNat n) - 1

def readinessAllReady (rt : ReadinessTracker) : Bool :=
  rt.nClients ≠ 0 && rt.readyBitmap &&& fullMask rt.nClients = fullMask rt.nClients

def readinessGetMissing (wide : ℕ → UInt64) (rt : ReadinessTracker) (max : ℕ) : List ℕ :=
  ((range rt.nClients).filter fun i => rt.readyBitmap &&& clientBit wide i = 0).take max

def popcount64 : ℕ → UInt64 → ℕ
  | 0, _ => 0
  | fuel+1, x => if x = 0 then 0 else (x &&& 1).toNat + popcount64 fuel (x >>> 1)

inductive ReadinessEvent where
  | connect (i : ℕ) | disconnect (i : ℕ) | ready (i : ℕ) | reset
  | check | expired

-- The events so far, the latest first; a rotation resets the tracker.
structure ReadinessRun where
  tracker : ReadinessTracker
  history : List ReadinessEvent

def rotates (rt : ReadinessTracker) : ReadinessEvent → Bool
  | .check => readinessAllReady rt
  | .expired => 2 ≤ popcount64 64 rt.readyBitmap && popcount64 64 rt.readyBitmap < rt.nClients
  | _ => false

def readinessStep (wide : ℕ → UInt64) (s : ReadinessRun) (e : ReadinessEvent) : ReadinessRun :=
  match e with
  | .connect i => ⟨readinessSetConnected wide s.tracker i true,e :: s.history⟩
  | .disconnect i => ⟨readinessSetConnected wide s.tracker i false,e :: s.history⟩
  | .ready i => ⟨readinessSetReady wide s.tracker i,e :: s.history⟩
  | .check => if rotates s.tracker e then ⟨readinessReset s.tracker,.reset :: s.history⟩ else s
  | .reset | .expired => ⟨readinessReset s.tracker,.reset :: s.history⟩

def connectedIn : List ReadinessEvent → ℕ → Bool
  | [], _ => false
  | .connect j :: h, i => i = j || connectedIn h i
  | .disconnect j :: h, i => i ≠ j && connectedIn h i
  | _ :: h, i => connectedIn h i

def signalledIn : List ReadinessEvent → ℕ → Bool
  | [], _ => false
  | .ready j :: h, i => i = j || signalledIn h i
  | .disconnect j :: h, i => i ≠ j && signalledIn h i
  | .reset :: _, _ => false
  | _ :: h, i => signalledIn h i

def ReadinessRun.present (s : ReadinessRun) (i : ℕ) : Bool :=
  connectedIn s.history i && signalledIn s.history i

def EventInOrder (s : ReadinessRun) : ReadinessEvent → Prop
  | .ready i => i < s.tracker.nClients → s.tracker.isConnected i = true
  | .expired => rotates s.tracker .expired = false
  | _ => True

structure ReadinessRight (wide : ℕ → UInt64) (s : ReadinessRun) : Prop where
  all : readinessAllReady s.tracker = true ↔ ∀ i < s.tracker.nClients, s.present i = true
  missing : ∀ max, readinessGetMissing wide s.tracker max =
    ((range s.tracker.nClients).filter fun i => !s.present i).take max
  rotation : ∀ e, EventInOrder s e → rotates s.tracker e = true →
    ∀ i < s.tracker.nClients, s.present i = true

section

variable {x : UInt64} {b k n : ℕ} {wide : ℕ → UInt64}

theorem clientBit_toNat (hk : k < 64) : (clientBit wide k).toNat = 2^k := by
  have hlt : 2^k < 2^64 := Nat.pow_lt_pow_right (by decide) hk
  simpa [clientBit,hk,UInt64.toNat_shiftLeft,Nat.mod_eq_of_lt hk,Nat.shiftLeft_eq] using hlt

theorem set_testBit (hk : k < 64) :
    (x ||| clientBit wide k).toNat.testBit b = (x.toNat.testBit b || decide (k = b)) := by
  rw [UInt64.toNat_or,clientBit_toNat hk,Nat.testBit_or,Nat.testBit_two_pow]

theorem clear_testBit (hk : k < 64) (hb : b < 64) :
    (x &&& ~~~clientBit wide k).toNat.testBit b = (x.toNat.testBit b && decide (k ≠ b)) := by
  have hlt : 2^k < 2^64 := Nat.pow_lt_pow_right (by decide) hk
  rw [UInt64.toNat_and,UInt64.toNat_not,clientBit_toNat hk,Nat.testBit_and,Nat.sub_sub,Nat.add_comm 1,
    Nat.testBit_two_pow_sub_succ hlt,Nat.testBit_two_pow]
  simp [hb]

theorem test_eq_zero (hk : k < 64) : x &&& clientBit wide k = 0 ↔ x.toNat.testBit k = false := by
  rw [← UInt64.toNat_inj,UInt64.toNat_and,clientBit_toNat hk,Nat.and_two_pow]
  cases x.toNat.testBit k <;> simp

theorem fullMask_toNat (n : ℕ) : (fullMask n).toNat = 2^(min n 64)-1 := by
  rw [fullMask]
  split_ifs with h
  · rw [min_eq_right h]
    rfl
  · have hn : n < 64 := by omega
    have hbit : (1 <<< ofNat n : UInt64).toNat = 2^n := by
      simpa [clientBit,hn] using @clientBit_toNat n (fun _ => 0) hn
    have hone : (1 : UInt64) ≤ 1 <<< ofNat n := by
      rw [le_iff_toNat_le,hbit]
      exact Nat.one_le_two_pow
    rw [UInt64.toNat_sub_of_le _ _ hone,hbit,min_eq_left (by omega)]
    rfl

theorem allReady_iff {rt : ReadinessTracker} : readinessAllReady rt = true ↔
    rt.nClients ≠ 0 ∧ ∀ i < min rt.nClients 64, rt.readyBitmap.toNat.testBit i = true := by
  simp only [readinessAllReady,Bool.and_eq_true,decide_eq_true_eq,← UInt64.toNat_inj,
    UInt64.toNat_and,fullMask_toNat]
  refine and_congr_right fun _ => ⟨fun h i hi => ?_,fun h => Nat.eq_of_testBit_eq fun i => ?_⟩
  · have hbit := congrArg (fun m => m.testBit i) h
    simpa [testBit_two_pow_sub_one,hi] using hbit
  · by_cases hi : i < min rt.nClients 64
    · simp [testBit_two_pow_sub_one,h i hi]
    · simp [testBit_two_pow_sub_one,hi]

end

section

variable {wide : ℕ → UInt64} {s : ReadinessRun} {e : ReadinessEvent} {n : ℕ}

structure ClientKept (s : ReadinessRun) (i : ℕ) : Prop where
  bit : s.tracker.readyBitmap.toNat.testBit i = signalledIn s.history i
  live : s.tracker.isConnected i = true → connectedIn s.history i = true
  signalled : signalledIn s.history i = true → connectedIn s.history i = true

theorem step_nClients : (readinessStep wide s e).tracker.nClients = s.tracker.nClients := by
  cases e <;> simp only [readinessStep,readinessSetConnected,readinessSetReady,readinessReset] <;>
    split_ifs <;> rfl

theorem ClientKept.reset {i : ℕ} : ClientKept ⟨readinessReset s.tracker,.reset :: s.history⟩ i := by
  constructor <;> simp [readinessReset,signalledIn]

theorem ClientKept.step {i : ℕ} (h : ClientKept s i) (hi : i < s.tracker.nClients)
    (hn : s.tracker.nClients ≤ 64) (hguard : EventInOrder s e) :
    ClientKept (readinessStep wide s e) i := by
  obtain ⟨hbit,hlive,hsig⟩ := h
  cases e with
  | connect j =>
    simp only [readinessStep,readinessSetConnected]
    split_ifs <;> constructor <;> simp [connectedIn,signalledIn,Function.update_apply] <;> grind
  | disconnect j =>
    simp only [readinessStep,readinessSetConnected,Bool.false_eq_true,if_false]
    split_ifs with hj
    · constructor <;> simp [connectedIn,signalledIn] <;> grind
    · have hclear := @clear_testBit s.tracker.readyBitmap i j wide (by omega) (by omega)
      constructor <;> simp only [connectedIn,signalledIn,hclear,Function.update_apply] <;> grind
  | ready j =>
    simp only [readinessStep,readinessSetReady]
    split_ifs with hj hoff
    · constructor <;> simp [connectedIn,signalledIn] <;> grind
    · simp [hguard (not_le.mp hj)] at hoff
    · have hset := @set_testBit s.tracker.readyBitmap i j wide (by omega)
      have hown := hguard (not_le.mp hj)
      constructor <;> simp only [connectedIn,signalledIn,hset] <;> grind
  | check =>
    rw [readinessStep]
    split_ifs
    · exact .reset
    · exact ⟨hbit,hlive,hsig⟩
  | reset | expired => exact .reset

theorem right_of_kept (h : ∀ i < s.tracker.nClients, ClientKept s i) (hpos : s.tracker.nClients ≠ 0)
    (hn : s.tracker.nClients ≤ 64) : ReadinessRight wide s := by
  have hpresent : ∀ i < s.tracker.nClients, s.present i = s.tracker.readyBitmap.toNat.testBit i := by
    intro i hi
    have hsig := (h i hi).signalled
    rw [ReadinessRun.present,(h i hi).bit,Bool.and_eq_right_iff_imp]
    exact hsig
  have hall : readinessAllReady s.tracker = true ↔ ∀ i < s.tracker.nClients, s.present i = true := by
    rw [allReady_iff,min_eq_left hn,and_iff_right hpos]
    exact forall₂_congr fun i hi => by rw [hpresent i hi]
  refine ⟨hall,fun max => congrArg (take max) (filter_congr fun i hi => ?_),fun e hguard hrotates => ?_⟩
  · have hi := mem_range.mp hi
    rw [Bool.eq_iff_iff,decide_eq_true_eq,test_eq_zero (by omega),hpresent i hi,Bool.not_eq_true']
  · cases e with
    | check => exact hall.mp hrotates
    | expired => cases hguard.symm.trans hrotates
    | _ => cases hrotates

theorem filled_run (wide : ℕ → UInt64) (hn : 64 ≤ n) {k : ℕ} (hk : k ≤ 64) :
    ∃ s, Runs.Reaches (readinessStep wide) EventInOrder ⟨readinessInit n,[]⟩ s ∧
      s.tracker.nClients = min n 128 ∧
      (∀ i < k, s.tracker.readyBitmap.toNat.testBit i = true) ∧ connectedIn s.history 64 = false := by
  induction k with
  | zero => exact ⟨_,.refl,rfl,fun i hi => absurd hi (not_lt_zero i),rfl⟩
  | succ k ih =>
    obtain ⟨s,hrun,hclients,hbits,hnot⟩ := ih (by omega)
    have hlt : k < s.tracker.nClients := by omega
    refine ⟨readinessStep wide (readinessStep wide s (.connect k)) (.ready k),
      (hrun.tail ⟨.connect k,trivial,rfl⟩).tail ⟨.ready k,fun _ => ?_,rfl⟩,?_,fun i hi => ?_,?_⟩
    · simp [readinessStep,readinessSetConnected,not_le.mpr hlt]
    · rw [step_nClients,step_nClients,hclients]
    · simp only [readinessStep,readinessSetConnected,readinessSetReady,not_le.mpr hlt,
        if_true,if_false,Function.update_self,Bool.not_true,Bool.false_eq_true]
      rw [set_testBit (by omega)]
      rcases Nat.lt_succ_iff_lt_or_eq.mp hi with hlt | rfl
      · simp [hbits i hlt]
      · simp
    · simp [readinessStep,connectedIn,hnot]
      omega

end

theorem readiness_right_iff (wide : ℕ → UInt64) (n : ℕ) :
    (∀ s, Runs.Reaches (readinessStep wide) EventInOrder ⟨readinessInit n,[]⟩ s →
      ReadinessRight wide s) ↔ 1 ≤ n ∧ n ≤ 64 := by
  refine ⟨fun h => ⟨?_,?_⟩,fun hn s hrun => ?_⟩
  · by_contra hzero
    obtain rfl : n = 0 := by omega
    have hall := (h _ .refl).all.mpr fun i hi => absurd hi (not_lt_zero i)
    exact absurd hall (by decide)
  · by_contra hmany
    obtain ⟨s,hrun,hclients,hbits,hnot⟩ := @filled_run n wide (by omega) 64 le_rfl
    have hready := allReady_iff.mpr ⟨by omega,fun i hi => hbits i (by omega)⟩
    have hall := (h s hrun).all.mp hready 64 (by omega)
    simp [ReadinessRun.present,hnot] at hall
  · have hinit : (readinessInit n).nClients = n := min_eq_left (by omega)
    have hkept : s.tracker.nClients = n ∧ ∀ i < n, ClientKept s i := by
      refine hrun.invariant (I := fun t => t.tracker.nClients = n ∧ ∀ i < n, ClientKept t i)
        (fun t e ht hguard => ?_) ⟨hinit,fun i _ => ⟨by simp [readinessInit,signalledIn],nofun,nofun⟩⟩
      exact ⟨step_nClients.trans ht.1,fun i hi => (ht.2 i hi).step (by omega) (by omega) hguard⟩
    exact right_of_kept (hkept.1 ▸ hkept.2) (by omega) (by omega)

theorem sixty_five_clients :
    (∃ s, Runs.Reaches (readinessStep fun _ => 0) EventInOrder ⟨readinessInit 65,[]⟩ s ∧
      rotates s.tracker .check = true ∧ s.present 64 = false) ∧
    ∃ s, [ReadinessEvent.connect 0,.reset,.ready 0].foldl (readinessStep fun _ => 0)
      ⟨readinessInit 1,[]⟩ = s ∧ s.present 0 = true ∧ readinessAllReady s.tracker = false := by
  obtain ⟨s,hrun,hclients,hbits,hnot⟩ := @filled_run 65 (fun _ => 0) (by decide) 64 le_rfl
  refine ⟨⟨s,hrun,allReady_iff.mpr ⟨by omega,fun i hi => hbits i (by omega)⟩,?_⟩,_,rfl,by decide⟩
  simp [ReadinessRun.present,hnot]

end SuperScalar
