import SuperScalar.Dw.State

namespace SuperScalar

-- Every delay of the layers fits the 16 bits it is returned in.
def DelaysFit (stepBlocks : UInt16) (maxStates : UInt32) : Prop :=
  1 ≤ maxStates.toNat ∧ stepBlocks.toNat*(maxStates.toNat-1) < 2^16

instance (stepBlocks : UInt16) (maxStates : UInt32) : Decidable (DelaysFit stepBlocks maxStates) :=
  inferInstanceAs (Decidable (_ ∧ _))

structure DwLayer.Of (stepBlocks : UInt16) (maxStates : UInt32) (layer : DwLayer) : Prop where
  step : layer.stepBlocks = stepBlocks
  states : layer.maxStates = maxStates
  bound : layer.currentState.toNat ≤ maxStates.toNat-1

section

variable {stepBlocks : UInt16} {maxStates : UInt32} {layer layer' : DwLayer}

theorem DwLayer.of_init : DwLayer.Of stepBlocks maxStates (dwLayerInit stepBlocks maxStates) :=
  ⟨rfl,rfl,Nat.zero_le _⟩

theorem DwLayer.Of.reset (h : layer.Of stepBlocks maxStates) :
    layer.reset.Of stepBlocks maxStates := ⟨h.step,h.states,Nat.zero_le _⟩

theorem last_state_toNat (h : 1 ≤ maxStates.toNat) : (maxStates-1).toNat = maxStates.toNat-1 :=
  UInt32.toNat_sub_of_le _ _ (UInt32.le_iff_toNat_le.mpr h)

theorem dwAdvance_cases (h : dwAdvance layer = some layer') :
    layer.currentState < layer.maxStates-1 ∧
      layer' = { layer with currentState := layer.currentState+1 } := by
  rw [dwAdvance] at h
  split at h
  · cases h
  next hlt => exact ⟨UInt32.not_le.mp hlt,(Option.some.inj h).symm⟩

theorem dwAdvance_some (h : dwAdvance layer = some layer') : dwIsExhausted layer = false := by
  rw [dwAdvance] at h
  split at h
  · cases h
  next hlt => exact decide_eq_false hlt

theorem dwAdvance_none (h : dwAdvance layer = none) : dwIsExhausted layer = true := by
  rw [dwAdvance] at h
  split at h
  next hle => exact decide_eq_true hle
  next => cases h

theorem dwAdvance_toNat (hfit : 1 ≤ maxStates.toNat) (hof : layer.Of stepBlocks maxStates)
    (h : dwAdvance layer = some layer') : layer'.Of stepBlocks maxStates ∧
      layer'.currentState.toNat = layer.currentState.toNat+1 := by
  obtain ⟨hlt,rfl⟩ := dwAdvance_cases h
  rw [hof.states,UInt32.lt_iff_toNat_lt,last_state_toNat hfit] at hlt
  have hsize := maxStates.toNat_lt
  have hnext : (layer.currentState+1).toNat = layer.currentState.toNat+1 := by
    rw [UInt32.toNat_add]
    exact Nat.mod_eq_of_lt (by simp; omega)
  exact ⟨⟨hof.step,hof.states,by rw [hnext]; omega⟩,hnext⟩

theorem nsequence_toNat (hfit : DelaysFit stepBlocks maxStates)
    (hof : layer.Of stepBlocks maxStates) : (dwCurrentNsequence layer).toNat =
      stepBlocks.toNat * (maxStates.toNat-1-layer.currentState.toNat) := by
  have hdiff : (maxStates-1-layer.currentState).toNat =
      maxStates.toNat - 1 - layer.currentState.toNat := by
    rw [UInt32.toNat_sub_of_le,last_state_toNat hfit.1]
    rw [UInt32.le_iff_toNat_le,last_state_toNat hfit.1]
    exact hof.bound
  have hle : stepBlocks.toNat*(maxStates.toNat-1-layer.currentState.toNat) ≤
      stepBlocks.toNat * (maxStates.toNat-1) := Nat.mul_le_mul_left _ (Nat.sub_le _ _)
  have hlt := hfit.2
  rw [dwCurrentNsequence,dwNsequenceForState,dwDelayForState,hof.step,hof.states,
    UInt16.toNat_toUInt32,UInt32.toNat_toUInt16,UInt32.toNat_mul,UInt16.toNat_toUInt32,hdiff,
    Nat.mod_eq_of_lt (by omega),Nat.mod_eq_of_lt (by omega)]

theorem nsequence_antitone (hfit : DelaysFit stepBlocks maxStates)
    (hof : layer.Of stepBlocks maxStates) (hof' : layer'.Of stepBlocks maxStates)
    (h : layer.currentState.toNat ≤ layer'.currentState.toNat) :
    dwCurrentNsequence layer' ≤ dwCurrentNsequence layer := by
  rw [UInt32.le_iff_toNat_le,nsequence_toNat hfit hof,nsequence_toNat hfit hof']
  exact Nat.mul_le_mul_left _ (by omega)

theorem nsequence_start (hof : layer.Of stepBlocks maxStates) (hstart : layer.currentState = 0) :
    dwCurrentNsequence layer = dwCurrentNsequence (dwLayerInit stepBlocks maxStates) := by
  rw [dwCurrentNsequence,hof.step,hof.states,hstart]
  rfl

theorem nsequence_zero_step (hfit : DelaysFit 0 maxStates) (hof : layer.Of 0 maxStates) :
    dwCurrentNsequence layer = 0 := by
  rw [← UInt32.toNat_inj,nsequence_toNat hfit hof]
  simp

theorem step_zero_of_advance (hfit : DelaysFit stepBlocks maxStates)
    (hof : layer.Of stepBlocks maxStates) (h : dwAdvance layer = some layer')
    (hsame : dwCurrentNsequence layer' = dwCurrentNsequence layer) : stepBlocks = 0 := by
  obtain ⟨hof',hnext⟩ := dwAdvance_toNat hfit.1 hof h
  have hbound := hof'.bound
  have htoNat := congrArg UInt32.toNat hsame
  rw [nsequence_toNat hfit hof,nsequence_toNat hfit hof'] at htoNat
  rw [← UInt16.toNat_inj]
  rcases Nat.eq_zero_or_pos stepBlocks.toNat with hzero | hpos
  · simpa using hzero
  · have := Nat.eq_of_mul_eq_mul_left hpos htoNat
    omega

end

section

variable {stepBlocks : UInt16} {maxStates : UInt32}

structure Turned (layers layers' : List DwLayer) (k : ℕ) : Prop where
  outer : ∀ j < k, layers'[j]? = layers[j]?
  wheel : ∃ layer layer', layers[k]? = some layer ∧ layers'[k]? = some layer' ∧
    dwAdvance layer = some layer'
  inner : ∀ j, k < j → layers'[j]? = layers[j]?.map DwLayer.reset

theorem odometer_turned {layers layers' : List DwLayer} (h : odometer layers = some layers') :
    ∃ k, Turned layers layers' k := by
  induction layers generalizing layers' with
  | nil => cases h
  | cons layer inner ih =>
    rw [odometer] at h
    split at h
    next inner' hinner =>
      cases h
      obtain ⟨k,hk⟩ := ih hinner
      refine ⟨k+1,?_,hk.wheel,?_⟩
      · intro j hj
        cases j with
        | zero => rfl
        | succ j => exact hk.outer j (by omega)
      · intro j hj
        cases j with
        | zero => omega
        | succ j => exact hk.inner j (by omega)
    next =>
      obtain ⟨layer',hlayer,rfl⟩ := Option.map_eq_some_iff.mp h
      refine ⟨0,?_,⟨layer,layer',rfl,rfl,hlayer⟩,?_⟩
      · intro j hj
        omega
      · intro j hj
        cases j with
        | zero => omega
        | succ => simp

end

end SuperScalar
