import SuperScalar.Dw.Order

namespace SuperScalar

open List UInt32 Nat

def advanceLayers : List DwLayer → List DwLayer × Bool
  | [] => ([],false)
  | layer :: inner =>
    match advanceLayers inner with
    | (inner',true) => (layer :: inner',true)
    | (inner',false) =>
      match dwAdvance layer with
      | some layer' => (layer' :: inner'.map DwLayer.reset,true)
      | none => (layer :: inner',false)

def dwCounterAdvanceInPlace (ctr : DwCounter) : DwCounter × Bool :=
  if ctr.currentEpoch ≥ ctr.totalStates-1 then (ctr,false)
  else
    match advanceLayers ctr.layers with
    | (layers,true) => ({ ctr with layers := layers, currentEpoch := ctr.currentEpoch+1 },true)
    | (layers,false) => ({ ctr with layers := layers },false)

theorem advanceLayers_odometer (layers : List DwLayer) :
    advanceLayers layers =
      match odometer layers with
      | some layers' => (layers',true)
      | none => (layers,false) := by
  induction layers with
  | nil => rfl
  | cons layer inner ih =>
    rw [advanceLayers,ih,odometer]
    cases odometer inner with
    | some => rfl
    | none => cases dwAdvance layer <;> rfl

theorem advanceInPlace_eq (ctr : DwCounter) :
    dwCounterAdvanceInPlace ctr =
      match dwCounterAdvance ctr with
      | some ctr' => (ctr',true)
      | none => (ctr,false) := by
  rw [dwCounterAdvanceInPlace,dwCounterAdvance,advanceLayers_odometer]
  split_ifs
  · rfl
  · cases odometer ctr.layers <;> rfl

section

variable {s : UInt16} {k : UInt32} {layer : DwLayer} {layers layers' : List DwLayer}

def odometerValue (base : ℕ) : List DwLayer → ℕ
  | [] => 0
  | layer :: inner => layer.currentState.toNat*base^inner.length + odometerValue base inner

def nSequences (ctr : DwCounter) : List UInt32 := ctr.layers.map dwCurrentNsequence

theorem odometerValue_reset (base : ℕ) (layers : List DwLayer) :
    odometerValue base (layers.map DwLayer.reset) = 0 := by
  induction layers with
  | nil => rfl
  | cons _ _ ih =>
    simp [odometerValue,ih,DwLayer.reset]

theorem exhausted_toNat (hk : 1 ≤ k.toNat) (hof : layer.Of s k) (h : dwAdvance layer = none) :
    layer.currentState.toNat + 1 = k.toNat := by
  have hle := of_decide_eq_true (dwAdvance_none h)
  rw [hof.states,ge_iff_le,le_iff_toNat_le,last_state_toNat hk] at hle
  have hbound := hof.bound
  omega

theorem odometer_counts (hk : 1 ≤ k.toNat) (hof : ∀ l ∈ layers, l.Of s k) :
    match odometer layers with
    | some layers' => (∀ l ∈ layers', l.Of s k) ∧ layers'.length = layers.length ∧
        odometerValue k.toNat layers' = odometerValue k.toNat layers + 1
    | none => odometerValue k.toNat layers + 1 = k.toNat^layers.length := by
  induction layers with
  | nil => rfl
  | cons layer inner ih =>
    obtain ⟨hlayer,hinner⟩ := forall_mem_cons.mp hof
    have hrest := ih hinner
    rw [odometer]
    cases hodo : odometer inner with
    | some =>
      rw [hodo] at hrest
      obtain ⟨hof',hlen,hvalue⟩ := hrest
      refine ⟨forall_mem_cons.mpr ⟨hlayer,hof'⟩,congrArg (· + 1) hlen,?_⟩
      simp only [odometerValue,hlen,hvalue,add_assoc]
    | none =>
      rw [hodo] at hrest
      cases hadv : dwAdvance layer with
      | none =>
        have hlast := exhausted_toNat hk hlayer hadv
        dsimp only [Option.map_none]
        rw [odometerValue,add_assoc,hrest,length_cons,pow_succ',← hlast]
        ring
      | some =>
        obtain ⟨hof',hnext⟩ := dwAdvance_toNat hk hlayer hadv
        refine ⟨forall_mem_cons.mpr ⟨hof',?_⟩,by simp,?_⟩
        · simpa using fun l hl => (hinner l hl).reset
        · simp only [odometerValue,odometerValue_reset,add_assoc,hrest,hnext,length_map]
          ring

theorem odometer_lowers (hfit : DelaysFit s k) (hs : s ≠ 0) (hof : ∀ l ∈ layers, l.Of s k)
    (h : odometer layers = some layers') :
    layers'.map dwCurrentNsequence < layers.map dwCurrentNsequence := by
  induction layers generalizing layers' with
  | nil => cases h
  | cons _ _ ih =>
    obtain ⟨hlayer,hinner⟩ := forall_mem_cons.mp hof
    rw [odometer] at h
    split at h
    next inner' hodo =>
      cases h
      exact cons_lt_cons_iff.mpr (.inr ⟨rfl,ih hinner hodo⟩)
    next =>
      obtain ⟨layer',hadv,rfl⟩ := Option.map_eq_some_iff.mp h
      obtain ⟨hof',hnext⟩ := dwAdvance_toNat hfit.1 hlayer hadv
      refine List.cons_lt_cons_iff.mpr (.inl (UInt32.lt_of_le_of_ne ?_ fun heq => hs ?_))
      · exact nsequence_antitone hfit hlayer hof' (by omega)
      · exact step_zero_of_advance hfit hlayer hadv heq

end

section

def dwAdvances : ℕ → DwCounter → Option DwCounter
  | 0, ctr => some ctr
  | m+1, ctr => (dwAdvances m ctr).bind (fun ctr =>
      match dwCounterAdvanceInPlace ctr with
      | (ctr',true) => some ctr'
      | (_,false) => none)

structure AtCount (n : ℕ) (s : UInt16) (k : UInt32) (m : ℕ) (ctr : DwCounter) : Prop where
  layers : ∀ l ∈ ctr.layers, l.Of s k
  length : ctr.layers.length = n
  value : odometerValue k.toNat ctr.layers = m
  epoch : ctr.currentEpoch.toNat = m
  total : ctr.totalStates.toNat = k.toNat^n

variable {n m : ℕ} {s : UInt16} {k : UInt32} {ctr ctr' : DwCounter}

theorem pow_toNat (k : UInt32) (n : ℕ) : (k^n).toNat = k.toNat^n % 2 ^ 32 := by
  induction n with
  | zero => rfl
  | succ _ ih =>
    rw [UInt32.pow_succ,UInt32.toNat_mul,ih,Nat.mod_mul_mod,← pow_succ]

theorem counted_init (hpow : k.toNat^n < 2^32) : AtCount n s k 0 (dwCounterInit n s k) where
  layers l hl := by
    obtain rfl := eq_of_mem_replicate hl
    exact DwLayer.of_init
  length := length_replicate
  value := by
    have hreset := odometerValue_reset k.toNat (replicate n (dwLayerInit s k))
    rwa [map_replicate] at hreset
  epoch := rfl
  total := by
    change (k^n).toNat = _
    rw [pow_toNat,mod_eq_of_lt hpow]

theorem AtCount.advance (hk : 1 ≤ k.toNat) (h : AtCount n s k m ctr) :
    match dwCounterAdvance ctr with
    | some ctr' => m+1 < k.toNat^n ∧ AtCount n s k (m+1) ctr' ∧
        odometer ctr.layers = some ctr'.layers
    | none => k.toNat^n ≤ m+1 := by
  have hcounts := odometer_counts hk h.layers
  have hpos : 0 < k.toNat^n := Nat.pow_pos hk
  have hlast : (ctr.totalStates-1).toNat = k.toNat^n-1 := by
    rw [last_state_toNat (h.total ▸ hpos),h.total]
  have hsize := h.total ▸ ctr.totalStates.toNat_lt
  have hsmall : ctr.currentEpoch ≥ ctr.totalStates-1 ↔ k.toNat^n ≤ m+1 := by
    rw [ge_iff_le,le_iff_toNat_le,hlast,h.epoch]
    omega
  rw [dwCounterAdvance]
  by_cases hend : k.toNat^n ≤ m+1
  · rw [if_pos (hsmall.mpr hend)]
    exact hend
  · rw [if_neg fun hle => hend (hsmall.mp hle)]
    cases hodo : odometer ctr.layers with
    | none =>
      rw [hodo,h.value,h.length] at hcounts
      exact hcounts.ge
    | some =>
      rw [hodo,h.value] at hcounts
      obtain ⟨hof,hlen,hvalue⟩ := hcounts
      refine ⟨not_le.mp hend,⟨hof,hlen.trans h.length,hvalue,?_,h.total⟩,rfl⟩
      rw [UInt32.toNat_add,h.epoch]
      exact mod_eq_of_lt (show m+1 < 2^32 by omega)

end

end SuperScalar
