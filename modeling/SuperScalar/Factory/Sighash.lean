import SuperScalar.Factory.Steps

namespace SuperScalar

open Bitcoin

structure SpentOutput where
  script : Bytes
  amount : UInt64
  nsequence : UInt32
deriving DecidableEq

-- What is handed to `compute_taproot_sighash` or `compute_taproot_sighash_multi` next to the
-- transaction itself.
structure SighashArgs where
  inputIndex : ℕ
  spent : List SpentOutput
deriving DecidableEq

section

variable (f : Factory) (node : FactoryNode)

-- `none` where the code reads past `n_outputs`.
def nodePrevOutput : Option TxOut :=
  if node.isPsLeaf ∧ node.psChainLen > 0 then
    let prev := if node.type = .psSubfactory then node.outputs.getLast? else node.outputs.head?
    prev.map (fun o => { o with amount := node.psPrevChanAmount })
  else
    match node.parentIndex with
    | none => some ⟨f.fundingAmountSats,f.fundingSpk⟩
    | some p => (f.nodes[p]?).bind (fun parent => parent.outputs[node.parentVout]?)

def computeNodeSighash : Option SighashArgs :=
  (nodePrevOutput f node).map (fun o => ⟨0,[⟨o.script,o.amount,node.nsequence⟩]⟩)

def computeNodeSighashInput (inputIdx : ℕ) : Option SighashArgs :=
  if node.isPsLeaf ∧ node.psChainLen > 0 ∧ node.type = .psSubfactory ∧ node.psNPrevOutputs > 1 then
    if inputIdx ≥ node.psNPrevOutputs then none
    else some ⟨inputIdx,(node.psPrevOutputs.take node.psNPrevOutputs).map (fun o =>
      ⟨o.script,o.amount,node.nsequence⟩)⟩
  else if inputIdx ≠ 0 then none
  else computeNodeSighash f node

end

section

variable (env : Env) (f : Factory)

def walkUp : ℕ → ℕ → List ℕ
  | 0, _ => []
  | fuel+1, idx =>
    match (f.nodes[idx]?).bind FactoryNode.parentIndex with
    | none => [idx]
    | some p => idx :: walkUp fuel p

def factoryCollectPathToRoot (startIdx : ℕ) : List ℕ :=
  if startIdx ≥ f.nodes.length then [] else (walkUp f factoryMaxNodes startIdx).reverse

def rebuildPathNode (f : Factory) (i : ℕ) : Factory :=
  f.modifyNode i (fun node => { buildNodeTx env f f.nodes i node with isBuilt := node.isBuilt })

def factoryRebuildPathUnsigned (leafNodeIdx : ℕ) : Factory × Int :=
  let path := factoryCollectPathToRoot f leafNodeIdx
  if path = [] then (f,0) else (path.foldl (rebuildPathNode env) f,1)

end

inductive TreeCall where
  | apply (op : FactoryOp)
  | rebuildPath (leafNodeIdx : ℕ)
deriving DecidableEq

def TreeCall.run (env : Env) (f : Factory) : TreeCall → Factory × Int
  | .apply op => op.run env f
  | .rebuildPath leafNodeIdx => factoryRebuildPathUnsigned env f leafNodeIdx

section

def Chained (n : FactoryNode) : Prop := n.isPsLeaf = true ∧ n.psChainLen > 0

instance (n : FactoryNode) : Decidable (Chained n) := inferInstanceAs (Decidable (_ ∧ _))

inductive Meant (past : List Factory) (h : Factory) (i : ℕ) (n : FactoryNode) :
    OutPoint → TxOut → Prop
  | funding (hfree : ¬Chained n) (hroot : n.parentIndex = none) :
      Meant past h i n ⟨h.fundingTxid,h.fundingVout⟩ ⟨h.fundingAmountSats,h.fundingSpk⟩
  | parent {p : ℕ} {parent : FactoryNode} {out : TxOut} (hfree : ¬Chained n)
      (hparent : n.parentIndex = some p) (hp : h.NodeAt p parent)
      (hout : parent.unsignedTx.outputs[n.parentVout]? = some out) :
      Meant past h i n ⟨parent.txid,UInt32.ofNat n.parentVout⟩ out
  | chain {k : ℕ} {old : Factory} {m : FactoryNode} {out : TxOut} (hchained : Chained n)
      (hold : old ∈ past) (hm : old.NodeAt i m) (hprev : m.txid = n.psPrevTxid)
      (hout : m.unsignedTx.outputs[k]? = some out) :
      Meant past h i n ⟨m.txid,UInt32.ofNat k⟩ out

def Commits (past : List Factory) (h : Factory) (i : ℕ) (n : FactoryNode) (args : SighashArgs) :
    Prop :=
  List.Forall₂ (fun input spent => Meant past h i n input.prevout ⟨spent.amount,spent.script⟩ ∧
    spent.nsequence = input.sequence) n.unsignedTx.inputs args.spent

structure SignsWhatItSpends (past : List Factory) (h : Factory) (i : ℕ) (n : FactoryNode) :
    Prop where
  inputs : ∀ j < n.unsignedTx.inputs.length, ∃ args, computeNodeSighashInput h n j = some args ∧
    args.inputIndex = j ∧ Commits past h i n args
  single : (∃ args, computeNodeSighash h n = some args ∧ Commits past h i n args) ↔
    n.unsignedTx.inputs.length = 1

variable (env : Env) (f : Factory)

def pathFits : Bool → List ℕ → Prop
  | _, [] => True
  | moved, p :: rest => ∀ n, f.NodeAt p n → ¬Chained n ∧
      ((moved = true ∨ n.nsequence ≠ nodeNsequence env f p n) →
        ∀ j m, f.NodeAt j m → m.parentIndex = some p → j ∉ rest → Chained m) ∧
      pathFits (moved || decide (n.nsequence ≠ nodeNsequence env f p n)) rest

def Factory.leafFits (leafSide : ℕ) (ok : FactoryNode → Prop) : Prop :=
  leafSide < f.nLeafNodes → ∀ n, f.NodeAt (f.leafNode leafSide) n → n.isPsLeaf = true → ok n

def opFits : FactoryOp → Prop
  | .advanceLeaf leafSide _ => f.leafFits leafSide fun n => n.childIndices = [] ∧ affordsStep f n
  | .advanceLeafUnsigned leafSide => f.leafFits leafSide fun n =>
      if rebuildsTree f (.advanceLeafUnsigned leafSide) then advanceRoot f ≠ none
      else n.childIndices = [] ∧ affordsStep f n
  | .setLeafAmounts leafSide _ => f.leafFits leafSide fun n => n.childIndices = []
  | .resetAllSubfactoryChains =>
    ∀ n ∈ f.nodes, FactoryOp.resets n .resetAllSubfactoryChains = false
  | .resetSubfactoryChainsAboveHeight height =>
    ∀ n ∈ f.nodes, FactoryOp.resets n (.resetSubfactoryChainsAboveHeight height) = false
  | _ => True

def LinksGuarded : TreeCall → Prop
  | .apply op => opFits f op ∧ (rebuildsTree f op = true →
      ∀ i n, f.NodeAt i n → Chained n → op.putsBack f i n = true)
  | .rebuildPath leafNodeIdx => pathFits env f false (factoryCollectPathToRoot f leafNodeIdx)

inductive CallTrace (g : Factory) : List Factory → Factory → Prop
  | built : CallTrace g [g] g
  | call {past : List Factory} {f : Factory} (trace : CallTrace g past f) (call : TreeCall)
      (hguard : LinksGuarded env f call) :
      CallTrace g ((call.run env f).1 :: past) (call.run env f).1

instance nodeAtDecidable (i : ℕ) (P : FactoryNode → Prop) [DecidablePred P] :
    Decidable (∀ n, f.NodeAt i n → P n) :=
  decidable_of_iff (∀ n ∈ (f.nodes[i]?).toList, P n) (by
    simp only [Option.mem_toList]
    rfl)

instance nodesDecidable (P : ℕ → FactoryNode → Prop) [∀ i n, Decidable (P i n)] :
    Decidable (∀ i n, f.NodeAt i n → P i n) :=
  decidable_of_iff (∀ i < f.nodes.length, ∀ n, f.NodeAt i n → P i n)
    ⟨fun h i n hn => h i (List.getElem?_eq_some_iff.mp hn).1 n hn,fun h i _ n hn => h i n hn⟩

instance pathFitsDecidable : (moved : Bool) → (path : List ℕ) → Decidable (pathFits env f moved path)
  | _, [] => isTrue trivial
  | _, p :: rest =>
    have := fun moved => pathFitsDecidable moved rest
    inferInstanceAs (Decidable (∀ n, f.NodeAt p n → _ ∧ (_ → ∀ j m, f.NodeAt j m → _) ∧ _))

instance (leafSide : ℕ) (ok : FactoryNode → Prop) [DecidablePred ok] :
    Decidable (f.leafFits leafSide ok) :=
  inferInstanceAs (Decidable (_ → ∀ n, f.NodeAt (f.leafNode leafSide) n → _ → ok n))

instance : (op : FactoryOp) → Decidable (opFits f op)
  | .advanceLeaf _ _ => inferInstanceAs (Decidable (f.leafFits _ fun _ => _ ∧ _))
  | .advanceLeafUnsigned leafSide =>
    inferInstanceAs (Decidable (f.leafFits leafSide fun n =>
      if rebuildsTree f (.advanceLeafUnsigned leafSide) then advanceRoot f ≠ none
      else n.childIndices = [] ∧ affordsStep f n))
  | .setLeafAmounts _ _ => inferInstanceAs (Decidable (f.leafFits _ fun _ => _ = _))
  | .resetAllSubfactoryChains => inferInstanceAs (Decidable (∀ n ∈ f.nodes, _ = _))
  | .resetSubfactoryChainsAboveHeight _ => inferInstanceAs (Decidable (∀ n ∈ f.nodes, _ = _))
  | .advance _ | .tickRoot | .subfactoryChainAdvance _ _ _ _
  | .setSubfactoryChainConfirmedHeight _ _ => isTrue trivial

instance : (call : TreeCall) → Decidable (LinksGuarded env f call)
  | .apply _ => inferInstanceAs (Decidable (_ ∧ (_ → ∀ i n, f.NodeAt i n → _ → _)))
  | .rebuildPath _ => inferInstanceAs (Decidable (pathFits env f false _))

end

section

variable (env : Env)

def playCalls (past : List Factory) (f : Factory) : List TreeCall → Option (List Factory × Factory)
  | [] => some (past,f)
  | call :: calls =>
    if LinksGuarded env f call then
      playCalls ((call.run env f).1 :: past) (call.run env f).1 calls
    else none

theorem playCalls_trace {g f h : Factory} {past past' : List Factory} {calls : List TreeCall}
    (htrace : CallTrace env g past f) (hplay : playCalls env past f calls = some (past',h)) :
    CallTrace env g past' h := by
  induction calls generalizing past f with
  | nil =>
    obtain ⟨rfl,rfl⟩ := Prod.mk.inj (Option.some.inj hplay)
    exact htrace
  | cons call _ ih =>
    rw [playCalls] at hplay
    split at hplay
    · rename_i hguard
      exact ih (htrace.call call hguard) hplay
    · cases hplay

end

end SuperScalar
