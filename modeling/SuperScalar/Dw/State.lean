import Mathlib.Tactic

namespace SuperScalar

def dwMaxLayers : ℕ := 8

structure DwLayer where
  stepBlocks : UInt16
  maxStates : UInt32
  currentState : UInt32
deriving DecidableEq

structure DwCounter where
  layers : List DwLayer
  totalStates : UInt32
  currentEpoch : UInt32
deriving DecidableEq

def DwCounter.nLayers (ctr : DwCounter) : ℕ := ctr.layers.length

def dwLayerInit (stepBlocks : UInt16) (maxStates : UInt32) : DwLayer := ⟨stepBlocks,maxStates,0⟩

-- The product is taken in 32 bits and returned in 16.
def dwDelayForState (stepBlocks : UInt16) (maxStates stateIndex : UInt32) : UInt16 :=
  (stepBlocks.toUInt32*(maxStates-1-stateIndex)).toUInt16

def dwNsequenceForState (stepBlocks : UInt16) (maxStates stateIndex : UInt32) : UInt32 :=
  (dwDelayForState stepBlocks maxStates stateIndex).toUInt32

def dwAdvance (layer : DwLayer) : Option DwLayer :=
  if layer.currentState ≥ layer.maxStates-1 then none
  else some { layer with currentState := layer.currentState+1 }

def dwIsExhausted (layer : DwLayer) : Bool := layer.currentState ≥ layer.maxStates-1

def dwCurrentNsequence (layer : DwLayer) : UInt32 :=
  dwNsequenceForState layer.stepBlocks layer.maxStates layer.currentState

def dwCounterInit (nLayers : ℕ) (stepBlocks : UInt16) (statesPerLayer : UInt32) : DwCounter :=
  ⟨List.replicate nLayers (dwLayerInit stepBlocks statesPerLayer),statesPerLayer ^ nLayers,0⟩

def DwLayer.reset (layer : DwLayer) : DwLayer := { layer with currentState := 0 }

def odometer : List DwLayer → Option (List DwLayer)
  | [] => none
  | layer :: inner =>
    match odometer inner with
    | some inner' => some (layer :: inner')
    | none => (dwAdvance layer).map (fun layer' => layer' :: inner.map DwLayer.reset)

def dwCounterAdvance (ctr : DwCounter) : Option DwCounter :=
  if ctr.currentEpoch ≥ ctr.totalStates-1 then none
  else (odometer ctr.layers).map (fun layers =>
    { ctr with layers := layers, currentEpoch := ctr.currentEpoch+1 })

end SuperScalar
