import SuperScalar.Factory.Node

namespace SuperScalar

def arityAtDepth (f : Factory) (depth : ℕ) : ℕ :=
  if f.levelArity = [] then f.leafArity
  else if depth < f.levelArity.length then f.levelArity.getD depth 0
  else f.levelArity.getLastD 0

def psLeafCapacity (f : Factory) : ℕ :=
  if f.psSubfactoryArity ≤ 1 then 1 else f.psSubfactoryArity*f.psSubfactoryArity

def subtreeIsLeaf (f : Factory) (a nc : ℕ) : Bool :=
  if a = 1 then nc ≤ 1
  else if a = factoryArityPs then nc ≤ psLeafCapacity f
  else nc ≤ a

def splitEvenly : ℕ → ℕ → List ℕ × ℕ
  | 0, remaining => ([],remaining)
  | childrenLeft+1, remaining =>
    if remaining = 0 then ([],0)
    else
      let thisChild := min ((remaining + (childrenLeft+1)-1)/(childrenLeft+1)) remaining
      let (rest,left) := splitEvenly childrenLeft (remaining-thisChild)
      (thisChild :: rest,left)

def splitClientsForArity (a nc : ℕ) : List ℕ :=
  if a = 1 ∨ a = factoryArityPs then [nc/2,nc-nc/2]
  else if a = 2 then
    let totalLeavesEst := (nc+1)/2
    let leftN := min (totalLeavesEst/2*2) nc
    [leftN,nc-leftN]
  else
    let (out,remaining) := splitEvenly a nc
    if remaining > 0 ∧ out.length > 0 then out.dropLast ++ [out.getLastD 0 + remaining] else out

def pushFrames (depth : ℕ) : List ℕ → List (ℕ × ℕ) → List (ℕ × ℕ)
  | [], stack => stack
  | part :: parts, stack =>
    if stack.length+1 > factoryMaxNodes then stack
    else pushFrames depth parts ((part,depth) :: stack)

def simulateLoop (f : Factory) : ℕ → List (ℕ × ℕ) → ℕ → ℕ → ℕ × ℕ
  | 0, _, maxDepth, leaves => (maxDepth,leaves)
  | _+1, [], maxDepth, leaves => (maxDepth,leaves)
  | fuel+1, (nc,d) :: stack, maxDepth, leaves =>
    if nc = 0 then simulateLoop f fuel stack maxDepth leaves
    else
      let maxDepth := max maxDepth d
      let a := arityAtDepth f d
      if subtreeIsLeaf f a nc then simulateLoop f fuel stack maxDepth (leaves+1)
      else simulateLoop f fuel (pushFrames (d+1) (splitClientsForArity a nc) stack)
        maxDepth leaves

def simulateTree (f : Factory) (nClients : ℕ) : ℕ × ℕ :=
  simulateLoop f (2*nClients+1) [(nClients,0)] 0 0

def bitLength : ℕ → ℕ → ℕ
  | 0, _ => 0
  | fuel+1, v => if v = 0 then 0 else bitLength fuel (v/2) + 1

def computeLeafCountPsk (nClients arity psLeafCap : ℕ) : ℕ :=
  if arity = factoryArity1 then nClients
  else if arity = factoryArityPs then
    let psLeafCap := max psLeafCap 1
    (nClients + psLeafCap-1) / psLeafCap
  else (nClients+1)/2

def computeTreeDepthPsk (nClients arity psLeafCap : ℕ) : ℕ :=
  let nLeaves := computeLeafCountPsk nClients arity psLeafCap
  if nLeaves ≤ 1 then 0 else bitLength nLeaves (nLeaves-1)

def staticThreshold (f : Factory) : Int := f.staticThresholdDepth.toInt32.toInt

def dwNLayersFor (treeDepth : ℕ) (staticThreshold : Int) : ℕ :=
  let t := min (max staticThreshold 0) (treeDepth+1)
  let n := max (treeDepth-t+1) 1
  (min n dwMaxLayers).toNat

def treeMetrics (f : Factory) (nClients : ℕ) : ℕ × ℕ :=
  if f.levelArity = [] then
    (computeTreeDepthPsk nClients f.leafArity (psLeafCapacity f),
      computeLeafCountPsk nClients f.leafArity (psLeafCapacity f))
  else simulateTree f nClients

end SuperScalar
