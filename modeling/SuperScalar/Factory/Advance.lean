import SuperScalar.Factory.Build

namespace SuperScalar

open Bitcoin

section

variable (env : Env) (f : Factory)

def setLastScript (outputs : List TxOut) (script : Bytes) : List TxOut :=
  outputs.dropLast ++ (outputs.getLast?.map (fun o => { o with script := script })).toList

def updateLStock (node : FactoryNode) : Option FactoryNode :=
  if node.type ≠ .state ∨ node.childIndices ≠ [] ∨ node.outputs.length < 2 then some node
  else (buildLStockSpk env f node.keyagg).map (fun spk =>
    { node with outputs := setLastScript node.outputs spk.val })

def updateLStocks : List FactoryNode → List FactoryNode × Bool
  | [] => ([],true)
  | node :: rest =>
    match updateLStock env f node with
    | none => (node :: rest,false)
    | some node' =>
      let (rest',ok) := updateLStocks rest
      (node' :: rest',ok)

def updateLStockOutputs : Factory × Bool :=
  if f.hasShachain then
    let (nodes,ok) := updateLStocks env f f.nodes
    ({ f with nodes := nodes },ok)
  else (f,true)

def Factory.modifyNode (i : ℕ) (change : FactoryNode → FactoryNode) : Factory :=
  { f with nodes := f.nodes.modify i change }

def updateLStockForLeaf (i : ℕ) : Factory × Bool :=
  if f.hasShachain then
    match (f.nodes[i]?).bind (updateLStock env f) with
    | none => (f,false)
    | some node => (f.modifyNode i (fun _ => node),true)
  else (f,true)

-- The outputs are updated and the whole tree rebuilt; `signed` is what `factory_sign_all` returns.
def refreshTree (code : Int) : Factory × Int :=
  match updateLStockOutputs env f with
  | (f',false) => (f',0)
  | (f',true) => (buildAllUnsignedTxs env f',code)

def signedCode (signed : Bool) : Int := if signed then 1 else 0

def factoryAdvance (signed : Bool) : Factory × Int :=
  match dwCounterAdvance f.counter with
  | none => (f,0)
  | some counter => refreshTree env { f with counter := counter } (signedCode signed)

def chainInputs (node : FactoryNode) (nsequence : UInt32) : List TxInput :=
  if node.type = .psSubfactory ∧ node.psNPrevOutputs > 1 then
    (List.range node.psNPrevOutputs).map (fun i => ⟨node.psPrevTxid,UInt32.ofNat i,nsequence⟩)
  else
    let vout := if node.type = .psSubfactory then node.outputs.length-1 else 0
    [⟨node.psPrevTxid,UInt32.ofNat vout,nsequence⟩]

def rebuiltNode (nodeIdx : ℕ) (node : FactoryNode) : FactoryNode :=
  let nsequence := nodeNsequence env f nodeIdx node
  let input := parentOutpoint f f.nodes node
  finishNodeTx env node nsequence
    (if node.isPsLeaf ∧ node.psChainLen > 0 then chainInputs node nsequence
     else [⟨input.txid,input.vout,nsequence⟩])

def rebuildNodeTx (nodeIdx : ℕ) : Factory := f.modifyNode nodeIdx (rebuiltNode env f nodeIdx)

def sumAmounts (amounts : List UInt64) : UInt64 := amounts.foldl (· + ·) 0

def factorySetLeafAmounts (leafSide : ℕ) (amounts : List UInt64) : Factory × Int :=
  if leafSide ≥ f.nLeafNodes then (f,0)
  else
    match f.nodes[f.leafNode leafSide]? with
    | none => (f,0)
    | some node =>
      if amounts.length ≠ node.outputs.length then (f,0)
      else if amounts.any (· < channelDustLimitSats) then (f,0)
      else if sumAmounts amounts ≠ sumAmounts (node.outputs.map TxOut.amount) then (f,0)
      else
        let outputs := List.zipWith (fun o a => { o with amount := a }) node.outputs amounts
        let f := f.modifyNode (f.leafNode leafSide) (fun n => { n with outputs := outputs })
        (rebuildNodeTx env f (f.leafNode leafSide),1)

def psChainStep (node : FactoryNode) : FactoryNode :=
  { node with
    psPrevTxid := node.txid
    psPrevChanAmount := (node.outputs.head?.map TxOut.amount).getD 0
    psChainLen := node.psChainLen+1 }

def psExtendChain (nodeIdx : ℕ) (node : FactoryNode) : Factory × Bool :=
  let f := f.modifyNode nodeIdx (fun _ => node)
  let outTotal := node.psPrevChanAmount-f.feePerTx
  if node.psPrevChanAmount ≤ f.feePerTx ∨ outTotal < channelDustLimitSats then (f,false)
  else
    let outputs := (node.outputs.take 1).map (fun o => { o with amount := outTotal })
    (rebuildNodeTx env (f.modifyNode nodeIdx (fun n => { n with outputs := outputs })) nodeIdx,true)

def advanceRoot : Option Factory :=
  match f.counter.layers with
  | [] => none
  | layer :: inner => (dwAdvance layer).map (fun layer' =>
    { f with counter := { f.counter with layers := layer' :: inner } })

def bumpEpoch : Factory :=
  { f with counter := { f.counter with currentEpoch := f.counter.currentEpoch+1 } }

def resetLeafLayers : Factory :=
  { f with leafLayers := f.leafLayers.map (fun _ => dwLayerInit f.stepBlocks f.statesPerLayer) }

def advanceDwLeaf (leafSide : ℕ) (afterLeaf afterTree : Int) : Factory × Int :=
  let f := { f with perLeafEnabled := true }
  match dwAdvance (f.leafLayer leafSide) with
  | none =>
    match advanceRoot f with
    | none => (f,0)
    | some f => refreshTree env (resetLeafLayers (bumpEpoch f)) afterTree
  | some layer =>
    let f := { f with leafLayers := f.leafLayers.set leafSide layer }
    match updateLStockForLeaf env f (f.leafNode leafSide) with
    | (f,false) => (f,0)
    | (f,true) => (rebuildNodeTx env f (f.leafNode leafSide),afterLeaf)

def factoryAdvanceLeaf (leafSide : ℕ) (signed : Bool) : Factory × Int :=
  if leafSide ≥ f.nLeafNodes then (f,0)
  else
    match f.nodes[f.leafNode leafSide]? with
    | none => (f,0)
    | some node =>
      if node.isPsLeaf then
        let (f,ok) := psExtendChain env f (f.leafNode leafSide) (psChainStep node)
        (f,if ok then signedCode signed else 0)
      else advanceDwLeaf env f leafSide (signedCode signed) (signedCode signed)

def resetPsChains : Factory :=
  { f with nodes := f.nodes.mapIdx (fun i node =>
      if node.isPsLeaf ∧ (List.range f.nLeafNodes).any (fun l => f.leafNode l = i) then
        { node with psChainLen := 0 }
      else node) }

def factoryAdvanceLeafUnsigned (leafSide : ℕ) : Factory × Int :=
  if leafSide ≥ f.nLeafNodes then (f,0)
  else
    match f.nodes[f.leafNode leafSide]? with
    | none => (f,0)
    | some node =>
      if node.isPsLeaf then
        let node := psChainStep node
        if UInt32.ofNat node.psChainLen > f.statesPerLayer then
          let f := f.modifyNode (f.leafNode leafSide) (fun _ => node)
          match advanceRoot f with
          | none => (f,0)
          | some f => refreshTree env (resetPsChains (bumpEpoch f)) (-1)
        else
          let (f,ok) := psExtendChain env f (f.leafNode leafSide) node
          (f,if ok then 1 else 0)
      else advanceDwLeaf env f leafSide 1 (-1)

def resetSubfactoryChain (node : FactoryNode) : FactoryNode :=
  { node with
    psChainLen := 0
    psNPrevOutputs := 0
    psPrevTxid := Blob.zero 32
    psChainConfirmedHeight := 0 }

def resetSubfactoryChains (keep : FactoryNode → Bool) : Factory :=
  { f with nodes := f.nodes.map (fun node =>
      if node.type = .psSubfactory ∧ node.psChainLen ≠ 0 ∧ keep node = false then
        resetSubfactoryChain node
      else node) }

def factoryResetAllSubfactoryChains : Factory := resetSubfactoryChains f (fun _ => false)

def factoryResetSubfactoryChainsAboveHeight (reorgMaxSafeHeight : UInt32) : Factory :=
  resetSubfactoryChains f (fun node =>
    node.psChainConfirmedHeight > 0 && node.psChainConfirmedHeight ≤ reorgMaxSafeHeight)

def factorySetSubfactoryChainConfirmedHeight (nodeIdx : ℕ) (confirmedHeight : UInt32) : Factory :=
  f.modifyNode nodeIdx (fun node =>
    if node.type = .psSubfactory ∧ node.psChainLen ≠ 0 then
      { node with psChainConfirmedHeight := confirmedHeight }
    else node)

def factoryTickRoot : Factory × Int :=
  match advanceRoot f with
  | some f => (f,0)
  | none =>
    let f := { f with counter := { f.counter with
      layers := f.counter.layers.map DwLayer.reset } }
    refreshTree env (factoryResetAllSubfactoryChains (resetPsChains (bumpEpoch f))) (-1)

def subChainStep (sub : FactoryNode) (channelIdx : ℕ) (delta sstock : UInt64) : FactoryNode :=
  { sub with
    psPrevTxid := sub.txid
    psPrevChanAmount := sstock
    psChainLen := sub.psChainLen+1
    psNPrevOutputs := sub.outputs.length
    psPrevOutputs := sub.outputs
    outputs := (sub.outputs.modify channelIdx (fun o => { o with amount := o.amount + delta })).modify
      (sub.outputs.length-1) (fun o => { o with amount := sstock-delta-f.feePerTx }) }

def factorySubfactoryChainAdvanceUnsigned (leafSide subIdx channelIdx : ℕ) (delta : UInt64) :
    Factory × Int :=
  if leafSide ≥ f.nLeafNodes then (f,0)
  else
    match (f.nodes[f.leafNode leafSide]?).bind (fun leaf => leaf.subfactoryNodeIndices[subIdx]?) with
    | none => (f,0)
    | some subNode =>
      match f.nodes[subNode]? with
      | none => (f,0)
      | some sub =>
        let sstock := (sub.outputs.getLast?.map TxOut.amount).getD 0
        if sub.type ≠ .psSubfactory ∨ sub.isPsLeaf = false ∨ sub.outputs.length < 2 ∨
            channelIdx ≥ sub.outputs.length-1 ∨ delta = 0 ∨
            sstock < delta + f.feePerTx + channelDustLimitSats then (f,0)
        else
          let f := f.modifyNode subNode (fun sub => subChainStep f sub channelIdx delta sstock)
          (rebuildNodeTx env f subNode,1)

def factoryFindLeafForClient (clientIdx : ℕ) : Option ℕ :=
  if clientIdx = 0 then none
  else ((List.range f.nLeafNodes).map f.leafNode).find? (fun ni =>
    ((f.nodes[ni]?).map (fun node => node.signerIndices.contains clientIdx)).getD false)

def findSigner (clientIdx : ℕ) : List ℕ → Option (ℕ × ℕ)
  | [] => none
  | ni :: rest =>
    match ((f.nodes[ni]?).map (fun node => node.signerIndices.tail)).getD [] |>.idxOf?
        (clientIdx+1) with
    | some s => some (ni,s)
    | none => findSigner clientIdx rest

def factoryClientToLeaf (clientIdx : ℕ) : Option (ℕ × ℕ) :=
  if f.levelArity ≠ [] then findSigner f clientIdx ((List.range f.nLeafNodes).map f.leafNode)
  else if f.leafArity = factoryArityPs ∧ f.psSubfactoryArity > 1 then
    let k := f.psSubfactoryArity
    let cap := k*k
    let leafIdx := clientIdx/cap
    if leafIdx ≥ f.nLeafNodes then none
    else
      ((f.nodes[f.leafNode leafIdx]?).bind (fun leaf =>
        leaf.subfactoryNodeIndices[clientIdx % cap / k]?)).map (fun sub => (sub,clientIdx % k))
  else if f.leafArity = factoryArity1 ∨ f.leafArity = factoryArityPs then
    if clientIdx ≥ f.nLeafNodes then none else some (f.leafNode clientIdx,0)
  else
    if clientIdx/2 ≥ f.nLeafNodes then none
    else some (f.leafNode (clientIdx/2),clientIdx % 2)

end

section

variable {env : Env} {f f' : Factory} {leafSide : ℕ} {code : Int}

theorem atLeaf_cases {act : FactoryNode → Factory × Int}
    (h : (if leafSide ≥ f.nLeafNodes then (f,0) else
      match f.nodes[f.leafNode leafSide]? with
      | none => (f,0)
      | some node => act node) = (f',code)) :
    (f' = f ∧ code = 0 ∧ ∀ n, leafSide < f.nLeafNodes → f.nodes[f.leafNode leafSide]? ≠ some n) ∨
    ∃ n, leafSide < f.nLeafNodes ∧ f.nodes[f.leafNode leafSide]? = some n ∧ act n = (f',code) := by
  by_cases hside : leafSide ≥ f.nLeafNodes
  · rw [if_pos hside] at h
    obtain ⟨rfl,rfl⟩ := Prod.mk.inj h
    exact .inl ⟨rfl,rfl,fun _ hlt => absurd hside (Nat.not_le.mpr hlt)⟩
  rw [if_neg hside] at h
  cases hnode : f.nodes[f.leafNode leafSide]? with
  | none =>
    rw [hnode] at h
    obtain ⟨rfl,rfl⟩ := Prod.mk.inj h
    exact .inl ⟨rfl,rfl,fun _ _ => nofun⟩
  | some n =>
    rw [hnode] at h
    exact .inr ⟨n,Nat.not_le.mp hside,rfl,h⟩

theorem setLeafAmounts_cases {amounts : List UInt64}
    (h : factorySetLeafAmounts env f leafSide amounts = (f',code)) :
    (f' = f ∧ code = 0) ∨ ∃ n, leafSide < f.nLeafNodes ∧ f.nodes[f.leafNode leafSide]? = some n ∧
      amounts.length = n.outputs.length ∧
      sumAmounts amounts = sumAmounts (n.outputs.map TxOut.amount) ∧ code = 1 ∧
      f' = rebuildNodeTx env (f.modifyNode (f.leafNode leafSide) fun m => { m with
        outputs := List.zipWith (fun o a => { o with amount := a }) n.outputs amounts })
        (f.leafNode leafSide) := by
  obtain ⟨rfl,rfl,-⟩ | ⟨n,hside,hnode,h⟩ := atLeaf_cases h
  · exact .inl ⟨rfl,rfl⟩
  split_ifs at h with hlength hdust htotal
  · exact .inl ((Prod.mk.inj h).imp .symm .symm)
  · exact .inl ((Prod.mk.inj h).imp .symm .symm)
  · exact .inl ((Prod.mk.inj h).imp .symm .symm)
  · obtain ⟨rfl,rfl⟩ := Prod.mk.inj h
    exact .inr ⟨n,hside,hnode,not_not.mp hlength,not_not.mp htotal,rfl,rfl⟩

theorem subfactoryChainAdvance_cases {subIdx channelIdx : ℕ} {delta : UInt64}
    (h : factorySubfactoryChainAdvanceUnsigned env f leafSide subIdx channelIdx delta = (f',code)) :
    (f' = f ∧ code = 0) ∨ ∃ i sub, f.nodes[i]? = some sub ∧ sub.type = .psSubfactory ∧
      sub.isPsLeaf = true ∧ 2 ≤ sub.outputs.length ∧ channelIdx < sub.outputs.length-1 ∧
      delta + f.feePerTx + channelDustLimitSats ≤ (sub.outputs.getLast?.map TxOut.amount).getD 0 ∧
      code = 1 ∧ f' = rebuildNodeTx env (f.modifyNode i fun sub' =>
        subChainStep f sub' channelIdx delta ((sub.outputs.getLast?.map TxOut.amount).getD 0)) i := by
  unfold factorySubfactoryChainAdvanceUnsigned at h
  split at h
  · exact .inl ((Prod.mk.inj h).imp .symm .symm)
  split at h
  · exact .inl ((Prod.mk.inj h).imp .symm .symm)
  split at h
  · exact .inl ((Prod.mk.inj h).imp .symm .symm)
  rename_i i _ _ sub hsub
  dsimp only at h
  split_ifs at h with hbad
  · exact .inl ((Prod.mk.inj h).imp .symm .symm)
  · simp only [not_or,not_not,Bool.not_eq_false,Nat.not_lt,Nat.not_le,UInt64.not_lt] at hbad
    obtain ⟨htype,hps,hlength,hchannel,-,hstock⟩ := hbad
    obtain ⟨rfl,rfl⟩ := Prod.mk.inj h
    exact .inr ⟨i,sub,hsub,htype,hps,hlength,hchannel,hstock,rfl,rfl⟩

end

end SuperScalar
