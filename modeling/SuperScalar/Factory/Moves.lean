import SuperScalar.Factory.Advance
import SuperScalar.Factory.Skeleton

namespace SuperScalar

open Bitcoin List Option

inductive FactoryOp where
  | advance (signed : Bool)
  | advanceLeaf (leafSide : ℕ) (signed : Bool)
  | advanceLeafUnsigned (leafSide : ℕ)
  | tickRoot
  | setLeafAmounts (leafSide : ℕ) (amounts : List UInt64)
  | subfactoryChainAdvance (leafSide subIdx channelIdx : ℕ) (delta : UInt64)
  | resetAllSubfactoryChains
  | resetSubfactoryChainsAboveHeight (reorgMaxSafeHeight : UInt32)
  | setSubfactoryChainConfirmedHeight (nodeIdx : ℕ) (confirmedHeight : UInt32)
deriving DecidableEq

def FactoryOp.run (env : Env) (f : Factory) : FactoryOp → Factory × Int
  | .advance signed => factoryAdvance env f signed
  | .advanceLeaf leafSide signed => factoryAdvanceLeaf env f leafSide signed
  | .advanceLeafUnsigned leafSide => factoryAdvanceLeafUnsigned env f leafSide
  | .tickRoot => factoryTickRoot env f
  | .setLeafAmounts leafSide amounts => factorySetLeafAmounts env f leafSide amounts
  | .subfactoryChainAdvance leafSide subIdx channelIdx delta =>
    factorySubfactoryChainAdvanceUnsigned env f leafSide subIdx channelIdx delta
  | .resetAllSubfactoryChains => (factoryResetAllSubfactoryChains f,1)
  | .resetSubfactoryChainsAboveHeight height => (factoryResetSubfactoryChainsAboveHeight f height,1)
  | .setSubfactoryChainConfirmedHeight nodeIdx height =>
    (factorySetSubfactoryChainConfirmedHeight f nodeIdx height,1)

def FactoryOp.Succeeds (op : FactoryOp) (code : Int) : Prop := code ≠ 0 ∨ op = .tickRoot

def FactoryStep (env : Env) (allowed : Factory → FactoryOp → Prop) (f f' : Factory) : Prop :=
  ∃ op code, allowed f op ∧ op.run env f = (f',code) ∧ op.Succeeds code

def FactoryRun (env : Env) (allowed : Factory → FactoryOp → Prop) : Factory → Factory → Prop :=
  Relation.ReflTransGen (FactoryStep env allowed)

instance (op : FactoryOp) (code : Int) : Decidable (op.Succeeds code) :=
  inferInstanceAs (Decidable (_ ∨ _))

section

variable (env : Env) (allowed : Factory → FactoryOp → Prop) [∀ f op, Decidable (allowed f op)]

def playOps (f : Factory) : List FactoryOp → Option Factory
  | [] => some f
  | op :: ops =>
    if allowed f op ∧ op.Succeeds (op.run env f).2 then playOps (op.run env f).1 ops else none

def playTwice (f : Factory) (first later : List FactoryOp) :
    Option (Factory × Factory × Factory) := do
  let g ← factoryBuildTree env f
  let old ← playOps env allowed g first
  let new ← playOps env allowed old later
  some (g,old,new)

variable {env allowed} {f f' : Factory}

theorem playOps_run {ops : List FactoryOp} (h : playOps env allowed f ops = some f') :
    FactoryRun env allowed f f' := by
  induction ops generalizing f with
  | nil =>
    cases h
    exact .refl
  | cons op _ ih =>
    rw [playOps] at h
    split at h
    next hok => exact .head ⟨op,(op.run env f).2,hok.1,rfl,hok.2⟩ (ih h)
    next => cases h

theorem playTwice_runs {first later : List FactoryOp} {g old new : Factory}
    (h : playTwice env allowed f first later = some (g,old,new)) :
    factoryBuildTree env f = some g ∧ FactoryRun env allowed g old ∧
      FactoryRun env allowed old new := by
  simp only [playTwice,bind_eq_bind,bind_eq_some_iff,some.injEq,Prod.mk.injEq] at h
  obtain ⟨_,hg,_,hold,_,hnew,rfl,rfl,rfl⟩ := h
  exact ⟨hg,playOps_run hold,playOps_run hnew⟩

end

def FactoryOp.isAdvance : FactoryOp → Bool
  | .advance _ => true
  | .advanceLeaf _ _ => true
  | .advanceLeafUnsigned _ => true
  | _ => false

def FactoryOp.leafSide : FactoryOp → Option ℕ
  | .advanceLeaf leafSide _ => some leafSide
  | .advanceLeafUnsigned leafSide => some leafSide
  | _ => none

def Factory.clocks (f : Factory) : DwCounter × List DwLayer × Bool :=
  (f.counter,f.leafLayers,f.perLeafEnabled)

section

variable {h : Factory} {ctr : DwCounter} {ls : List DwLayer} {b : Bool}
  (hclocks : h.clocks = (ctr,ls,b))

include hclocks

theorem clocks_counter : h.counter = ctr := congrArg Prod.fst hclocks

theorem clocks_leafLayers : h.leafLayers = ls := congrArg (fun c => c.2.1) hclocks

theorem clocks_perLeaf : h.perLeafEnabled = b := congrArg (fun c => c.2.2) hclocks

end

theorem modifyNode_get (f : Factory) (i : ℕ) (change : FactoryNode → FactoryNode) (j : ℕ) :
    (f.modifyNode i change).nodes[j]? =
      (f.nodes[j]?).map (fun n => if i = j then change n else n) := by
  rw [Factory.modifyNode,getElem?_modify]
  by_cases hj : i = j <;> simp [hj]

variable {f : Factory}

theorem SameTree.modified {i : ℕ} {change : FactoryNode → FactoryNode}
    (hlinks : ∀ n, f.NodeAt i n → (change n).links = n.links) :
    SameTree f (f.modifyNode i change) := by
  refine ⟨rfl,?_⟩
  apply ext_getElem?
  intro j
  simp only [getElem?_map,modifyNode_get]
  cases hn : f.nodes[j]? with
  | none => rfl
  | some n =>
    simp only [map_some]
    split
    next hj => exact congrArg some (hlinks n (hj ▸ hn))
    next => rfl

structure Kept (f h : Factory) : Prop extends SameTree f h where
  dw : ∀ i n, f.NodeAt i n → n.isPsLeaf = false → h.NodeAt i n

namespace Kept

variable {f g h : Factory}

theorem refl (f : Factory) : Kept f f := ⟨.refl f,fun _ _ hn _ => hn⟩

theorem trans (hfirst : Kept f g) (hlater : Kept g h) : Kept f h :=
  ⟨hfirst.toSameTree.trans hlater.toSameTree,
    fun i n hn hps => hlater.dw i n (hfirst.dw i n hn hps) hps⟩

theorem of_nodes (hbase : h.base = f.base) (hnodes : h.nodes = f.nodes) : Kept f h := by
  refine ⟨⟨hbase,by rw [hnodes]⟩,?_⟩
  intro i n hn _
  rw [Factory.NodeAt,hnodes]
  exact hn

theorem mapped {c : ℕ → FactoryNode → FactoryNode} (hbase : h.base = f.base)
    (hnodes : h.nodes = f.nodes.mapIdx c) (hlinks : ∀ i n, (c i n).links = n.links)
    (hdw : ∀ i n, f.NodeAt i n → n.isPsLeaf = false → c i n = n) : Kept f h := by
  refine ⟨⟨hbase,?_⟩,?_⟩
  · rw [hnodes]
    apply ext_getElem?
    intro i
    simp only [getElem?_map,getElem?_mapIdx]
    cases f.nodes[i]? with
    | none => rfl
    | some n => exact congrArg some (hlinks i n)
  · intro i n hn hps
    rw [Factory.NodeAt,hnodes,getElem?_mapIdx,show f.nodes[i]? = some n from hn]
    exact congrArg some (hdw i n hn hps)

theorem modified {i : ℕ} {change : FactoryNode → FactoryNode}
    (hlinks : ∀ n, f.NodeAt i n → (change n).links = n.links)
    (hdw : ∀ n, f.NodeAt i n → n.isPsLeaf = false → change n = n) :
    Kept f (f.modifyNode i change) := by
  refine ⟨.modified hlinks,?_⟩
  intro j n hn hps
  rw [Factory.NodeAt,modifyNode_get,show f.nodes[j]? = some n from hn,map_some]
  split
  next hj => rw [hdw n (hj ▸ hn) hps]
  next => rfl

end Kept

structure Settled (env : Env) (f : Factory) : Prop where
  sub : ∀ i n, f.NodeAt i n → n.type = .psSubfactory → n.isPsLeaf = true
  lStock : ∀ i n, f.NodeAt i n → n.type = .state → n.childIndices = [] →
    ∃ spk, buildLStockSpk env f n.keyagg = some spk ∧
      (n.isPsLeaf = false → ∃ front last, n.outputs = front ++ [⟨last,spk.val⟩])

theorem Settled.kept {env : Env} {h : Factory} (hset : Settled env f) (hkept : Kept f h) :
    Settled env h := by
  constructor
  · intro i n hn htype
    obtain ⟨m,hm,heq⟩ := hkept.symm.node hn
    have htype' := links_type heq
    have hps := links_ps heq
    exact hps ▸ hset.sub i m hm (htype'.trans htype)
  · intro i n hn htype hchildren
    obtain ⟨m,hm,heq⟩ := hkept.symm.node hn
    have htype' := links_type heq
    have hchildren' := links_children heq
    have hkeyagg := links_keyagg heq
    have hps := links_ps heq
    obtain ⟨spk,hspk,houts⟩ :=
      hset.lStock i m hm (htype'.trans htype) (hchildren'.trans hchildren)
    refine ⟨spk,?_,?_⟩
    · rw [hkept.lStockSpk,← hkeyagg]
      exact hspk
    · intro hnot
      have hsame := hkept.dw i m hm (hps.trans hnot)
      rw [mem_unique hn hsame]
      exact houts (hps.trans hnot)

section

variable {env : Env} {f : Factory}

theorem setLastScript_snoc (front : List TxOut) (last : TxOut) (script : Bytes) :
    setLastScript (front ++ [last]) script = front ++ [{ last with script := script }] := by
  simp [setLastScript]

variable {n : FactoryNode} {i : ℕ}

theorem updateLStock_links {n' : FactoryNode} (h : updateLStock env f n = some n') :
    n'.links = n.links := by
  rw [updateLStock] at h
  split at h
  · cases h
    rfl
  · obtain ⟨spk,-,rfl⟩ := map_eq_some_iff.mp h
    rfl

theorem updateLStock_dw {spk : Blob 34} {front : List TxOut} {last : UInt64}
    (hspk : buildLStockSpk env f n.keyagg = some spk)
    (houts : n.outputs = front ++ [⟨last,spk.val⟩]) : updateLStock env f n = some n := by
  have hsame : setLastScript n.outputs spk.val = n.outputs := by
    rw [houts,setLastScript_snoc]
  rw [updateLStock]
  split
  · rfl
  · rw [hspk,map_some,hsame]

theorem Settled.update (hset : Settled env f) (hn : f.NodeAt i n) :
    ∃ n', updateLStock env f n = some n' ∧ (n.isPsLeaf = false → n' = n) := by
  by_cases htip : n.type = .state ∧ n.childIndices = []
  · obtain ⟨spk,hspk,houts⟩ := hset.lStock i n hn htip.1 htip.2
    cases hps : n.isPsLeaf with
    | false =>
      obtain ⟨front,last,heq⟩ := houts hps
      exact ⟨n,updateLStock_dw hspk heq,fun _ => rfl⟩
    | true =>
      rw [updateLStock]
      split
      · exact ⟨n,rfl,fun _ => rfl⟩
      · rw [hspk]
        exact ⟨_,rfl,fun h => absurd h (by simp)⟩
  · rw [updateLStock,if_pos (by
      by_cases htype : n.type = .state
      · exact Or.inr (Or.inl (fun hnil => htip ⟨htype,hnil⟩))
      · exact Or.inl htype)]
    exact ⟨n,rfl,fun _ => rfl⟩

theorem updateLStocks_all {nodes : List FactoryNode}
    (h : ∀ n ∈ nodes, ∃ n', updateLStock env f n = some n') : updateLStocks env f nodes =
      (nodes.map (fun n => (updateLStock env f n).getD n),true) := by
  induction nodes with
  | nil => rfl
  | cons n _ ih =>
    obtain ⟨n',hn'⟩ := h n (by simp)
    rw [updateLStocks,hn',ih (fun m hm => h m (by simp [hm])),map_cons,hn']
    rfl

theorem Settled.updateOutputs (hset : Settled env f) : ∃ h, Kept f h ∧ h.clocks = f.clocks ∧
    updateLStockOutputs env f = (h,true) := by
  rw [updateLStockOutputs]
  split
  · have hall : ∀ n ∈ f.nodes, ∃ n', updateLStock env f n = some n' := by
      intro n hn
      obtain ⟨i,hi⟩ := mem_iff_getElem?.mp hn
      obtain ⟨n',hn',-⟩ := hset.update hi
      exact ⟨n',hn'⟩
    rw [updateLStocks_all hall]
    refine ⟨{ f with nodes := f.nodes.map (fun n => (updateLStock env f n).getD n) },?_,rfl,rfl⟩
    refine Kept.mapped rfl (c := fun _ n => (updateLStock env f n).getD n) ?_ ?_ ?_
    · apply ext_getElem?
      intro i
      rw [getElem?_map,getElem?_mapIdx]
    · intro _ n
      cases hn : updateLStock env f n with
      | none => rfl
      | some => exact updateLStock_links hn
    · intro i n hn hps
      obtain ⟨n',hn',hsame⟩ := hset.update hn
      rw [hn']
      exact hsame hps
  · exact ⟨f,.refl f,rfl,rfl⟩

theorem Settled.updateForLeaf (hset : Settled env f) (hn : f.NodeAt i n) (hps : n.isPsLeaf = false)
    : ∃ h, Kept f h ∧ h.clocks = f.clocks ∧ updateLStockForLeaf env f i = (h,true) := by
  rw [updateLStockForLeaf]
  split
  · obtain ⟨n',hn',hsame⟩ := hset.update hn
    obtain rfl := hsame hps
    rw [show f.nodes[i]? = some n' from hn,bind_some,hn']
    refine ⟨f.modifyNode i (fun _ => n'),Kept.modified ?_ ?_,rfl,rfl⟩
    · intro m hm
      rw [mem_unique hm hn]
    · intro m hm _
      exact mem_unique hn hm
  · exact ⟨f,.refl f,rfl,rfl⟩

theorem Settled.refresh (hset : Settled env f) (code : Int) : ∃ h, Kept f h ∧ h.clocks = f.clocks ∧
    refreshTree env f code = (buildAllUnsignedTxs env h,code) := by
  obtain ⟨h,hkept,hclocks,heq⟩ := hset.updateOutputs
  refine ⟨h,hkept,hclocks,?_⟩
  rw [refreshTree,heq]

end

section

variable {env : Env} {f f' : Factory}

def Factory.PsAt (f : Factory) (i : ℕ) : Prop := ∀ n, f.NodeAt i n → n.isPsLeaf = true

variable {i l : ℕ} {code : Int} {signed : Bool} {node : FactoryNode}

theorem Kept.psAt {h : Factory} (hkept : Kept f h) (hps : f.PsAt i) : h.PsAt i := by
  intro m hm
  obtain ⟨n,hn,heq⟩ := hkept.symm.node hm
  have hsame := links_ps heq
  exact hsame ▸ hps n hn

theorem Kept.modified_ps {c : FactoryNode → FactoryNode} (hps : f.PsAt i)
    (hlinks : ∀ n, f.NodeAt i n → (c n).links = n.links) : Kept f (f.modifyNode i c) := by
  refine .modified hlinks ?_
  intro n hn hnot
  exact absurd (hnot.symm.trans (hps n hn)) (by decide)

theorem Kept.resetPsChains (f : Factory) : Kept f (resetPsChains f) := by
  refine .mapped (h := SuperScalar.resetPsChains f) rfl rfl ?_ ?_
  · intro i n
    split <;> rfl
  · intro i n _ hnot
    rw [if_neg]
    rintro ⟨hps,-⟩
    exact absurd (hnot.symm.trans hps) (by decide)

theorem Settled.resetSubfactoryChains (hset : Settled env f) (keep : FactoryNode → Bool) :
    Kept f (resetSubfactoryChains f keep) := by
  refine .mapped (c := fun _ node => if node.type = .psSubfactory ∧ node.psChainLen ≠ 0 ∧
    keep node = false then resetSubfactoryChain node else node) rfl ?_ ?_ ?_
  · apply ext_getElem?
    intro i
    rw [SuperScalar.resetSubfactoryChains,getElem?_map,getElem?_mapIdx]
  · intro i n
    split <;> rfl
  · intro i n hn hnot
    rw [if_neg]
    rintro ⟨htype,-⟩
    exact absurd (hnot.symm.trans (hset.sub i n hn htype)) (by decide)

def RootTurn (ctr ctr' : DwCounter) : Prop :=
  ∃ layer layer' inner, ctr.layers = layer :: inner ∧ dwAdvance layer = some layer' ∧
    ctr'.layers = layer' :: inner

theorem RootTurn.bump {ctr ctr' : DwCounter} (h : RootTurn ctr ctr') :
    RootTurn ctr { ctr' with currentEpoch := ctr'.currentEpoch+1 } := h

inductive DwMove (env : Env) (f : Factory) (side : Option ℕ) : Factory → Prop
  | odometer {h : Factory} {ctr : DwCounter} (turn : dwCounterAdvance f.counter = some ctr)
      (kept : Kept f h) (clocks : h.clocks = (ctr,f.leafLayers,f.perLeafEnabled)) :
      DwMove env f side (buildAllUnsignedTxs env h)
  | leaf {h : Factory} {l : ℕ} {n : FactoryNode} {layer : DwLayer} (called : side = some l)
      (bound : l < f.nLeafNodes) (node : f.NodeAt (f.leafNode l) n)
      (moving : n.isPsLeaf = false) (turn : dwAdvance (f.leafLayer l) = some layer)
      (kept : Kept f h) (clocks : h.clocks = (f.counter,f.leafLayers.set l layer,true)) :
      DwMove env f side (rebuildNodeTx env h (f.leafNode l))
  | carry {h : Factory} {l : ℕ} {n : FactoryNode} {ctr : DwCounter} (called : side = some l)
      (bound : l < f.nLeafNodes) (node : f.NodeAt (f.leafNode l) n) (moving : n.isPsLeaf = false)
      (exhausted : dwAdvance (f.leafLayer l) = none) (turn : RootTurn f.counter ctr)
      (kept : Kept f h) (clocks : h.clocks = (ctr,
        f.leafLayers.map (fun _ => dwLayerInit f.stepBlocks f.statesPerLayer),true)) :
      DwMove env f side (buildAllUnsignedTxs env h)
  | root {h : Factory} {ctr : DwCounter} (turn : RootTurn f.counter ctr) (kept : Kept f h)
      (clocks : h.clocks = (ctr,f.leafLayers,f.perLeafEnabled)) :
      DwMove env f side (buildAllUnsignedTxs env h)
  | chain {h : Factory} (kept : Kept f h) (clocks : h.clocks = f.clocks) : DwMove env f side h

theorem factoryAdvance_move (hset : Settled env f) (h : factoryAdvance env f signed = (f',code))
    (hcode : code ≠ 0) (side : Option ℕ) : DwMove env f side f' := by
  rw [factoryAdvance] at h
  split at h
  · obtain ⟨-,rfl⟩ := Prod.mk.inj h
    exact absurd rfl hcode
  next ctr hturn =>
    have hkept : Kept f { f with counter := ctr } := .of_nodes rfl rfl
    obtain ⟨h',hkept',hclocks,heq⟩ := (hset.kept hkept).refresh (signedCode signed)
    rw [heq] at h
    obtain ⟨rfl,-⟩ := Prod.mk.inj h
    exact .odometer hturn (hkept.trans hkept') hclocks

theorem advanceRoot_turn (h : advanceRoot f = some f') :
    ∃ ctr, RootTurn f.counter ctr ∧ f' = { f with counter := ctr } := by
  rw [advanceRoot] at h
  split at h
  · cases h
  next layer inner hlayers =>
    obtain ⟨layer',hlayer,rfl⟩ := map_eq_some_iff.mp h
    exact ⟨_,⟨layer,layer',inner,hlayers,hlayer,rfl⟩,rfl⟩

theorem advanceDwLeaf_move (hset : Settled env f) (hl : l < f.nLeafNodes)
    (hnode : f.NodeAt (f.leafNode l) node) (hps : node.isPsLeaf = false) {afterLeaf afterTree : Int}
    (h : advanceDwLeaf env f l afterLeaf afterTree = (f',code)) (hcode : code ≠ 0) :
    DwMove env f (some l) f' := by
  rw [advanceDwLeaf] at h
  dsimp only at h
  split at h
  next hnone =>
    split at h
    · obtain ⟨-,rfl⟩ := Prod.mk.inj h
      exact absurd rfl hcode
    next k hroot =>
      obtain ⟨ctr,hturn,rfl⟩ := advanceRoot_turn hroot
      have hkept : Kept f (resetLeafLayers
          (bumpEpoch { { f with perLeafEnabled := true } with counter := ctr })) := .of_nodes rfl rfl
      obtain ⟨h',hkept',hclocks,heq⟩ := (hset.kept hkept).refresh afterTree
      rw [heq] at h
      obtain ⟨rfl,-⟩ := Prod.mk.inj h
      exact .carry rfl hl hnode hps hnone hturn.bump (hkept.trans hkept') hclocks
  next layer hlayer =>
    have hkept : Kept f { f with perLeafEnabled := true, leafLayers := f.leafLayers.set l layer } :=
      .of_nodes rfl rfl
    obtain ⟨h',hkept',hclocks,heq⟩ :=
      (hset.kept hkept).updateForLeaf (hkept.dw _ _ hnode hps) hps
    split at h
    next hfail => exact absurd (congrArg Prod.snd (heq.symm.trans hfail)) (by simp)
    next k hdone =>
      obtain rfl : h' = k := (congrArg Prod.fst (heq.symm.trans hdone) :)
      obtain ⟨rfl,-⟩ := Prod.mk.inj h
      rw [show h'.leafNode l = f.leafNode l from (hkept.trans hkept').leafNode l]
      exact .leaf rfl hl hnode hps hlayer (hkept.trans hkept') hclocks

theorem psExtendChain_kept (hps : f.PsAt i) (hlinks : ∀ n, f.NodeAt i n → node.links = n.links)
    (h : psExtendChain env f i node = (f',true)) : Kept f f' ∧ f'.clocks = f.clocks := by
  rw [psExtendChain] at h
  split at h
  · cases h
  · obtain ⟨rfl,-⟩ := Prod.mk.inj h
    have hfirst : Kept f (f.modifyNode i (fun _ => node)) := .modified_ps hps hlinks
    have hsecond := Kept.modified_ps (hfirst.psAt hps) (c := fun n => { n with
      outputs := (node.outputs.take 1).map (fun o =>
        { o with amount := node.psPrevChanAmount-f.feePerTx }) }) (fun _ _ => rfl)
    have hboth := hfirst.trans hsecond
    exact ⟨hboth.trans (.modified_ps (hboth.psAt hps) (fun _ _ => rfl)),rfl⟩

theorem factoryAdvanceLeaf_move (hset : Settled env f)
    (h : factoryAdvanceLeaf env f l signed = (f',code)) (hcode : code ≠ 0) :
    DwMove env f (some l) f' := by
  obtain ⟨-,hfail,-⟩ | ⟨node,hl,hnode,h⟩ := atLeaf_cases h
  · exact absurd hfail hcode
  split at h
  next hps =>
    rcases hextend : psExtendChain env f (f.leafNode l) (psChainStep node) with ⟨k,ok⟩
    rw [hextend] at h
    obtain ⟨rfl,rfl⟩ := Prod.mk.inj h
    cases ok with
    | false => exact absurd rfl hcode
    | true =>
      obtain ⟨hkept,hclocks⟩ := psExtendChain_kept
        (fun n hn => by rwa [mem_unique hn hnode])
        (fun n hn => by rw [mem_unique hn hnode]; rfl) hextend
      exact .chain hkept hclocks
  next hps =>
    exact advanceDwLeaf_move hset hl hnode (Bool.eq_false_of_not_eq_true hps) h hcode

theorem factoryAdvanceLeafUnsigned_move (hset : Settled env f)
    (h : factoryAdvanceLeafUnsigned env f l = (f',code)) (hcode : code ≠ 0) :
    DwMove env f (some l) f' := by
  obtain ⟨-,hfail,-⟩ | ⟨node,hl,hnode,h⟩ := atLeaf_cases h
  · exact absurd hfail hcode
  split at h
  next hps =>
    have hpsAt : f.PsAt (f.leafNode l) :=
      fun n hn => by rwa [mem_unique hn hnode]
    have hlinks : ∀ n, f.NodeAt (f.leafNode l) n → (psChainStep node).links = n.links :=
      fun n hn => by rw [mem_unique hn hnode]; rfl
    dsimp only at h
    split at h
    · split at h
      · obtain ⟨-,rfl⟩ := Prod.mk.inj h
        exact absurd rfl hcode
      next k hroot =>
        obtain ⟨ctr,hturn,rfl⟩ := advanceRoot_turn hroot
        have hfirst : Kept f (f.modifyNode (f.leafNode l) (fun _ => psChainStep node)) :=
          .modified_ps hpsAt hlinks
        have hkept := (hfirst.trans (.of_nodes
          (h := bumpEpoch { f.modifyNode (f.leafNode l) (fun _ => psChainStep node) with
            counter := ctr }) rfl rfl)).trans (.resetPsChains _)
        obtain ⟨h',hkept',hclocks,heq⟩ := (hset.kept hkept).refresh (-1)
        rw [heq] at h
        obtain ⟨rfl,-⟩ := Prod.mk.inj h
        exact .root hturn.bump (hkept.trans hkept') hclocks
    · rcases hextend : psExtendChain env f (f.leafNode l) (psChainStep node) with ⟨k,ok⟩
      rw [hextend] at h
      obtain ⟨rfl,rfl⟩ := Prod.mk.inj h
      cases ok with
      | false => exact absurd rfl hcode
      | true =>
        obtain ⟨hkept,hclocks⟩ := psExtendChain_kept hpsAt hlinks hextend
        exact .chain hkept hclocks
  next hps =>
    exact advanceDwLeaf_move hset hl hnode (Bool.eq_false_of_not_eq_true hps) h hcode

theorem advance_move (hset : Settled env f) {op : FactoryOp} (hop : op.isAdvance = true)
    (h : op.run env f = (f',code)) (hcode : op.Succeeds code) : DwMove env f op.leafSide f' := by
  have hne : code ≠ 0 := hcode.resolve_right (by rintro rfl; cases hop)
  cases op with
  | advance signed => exact factoryAdvance_move hset h hne _
  | advanceLeaf l signed => exact factoryAdvanceLeaf_move hset h hne
  | advanceLeafUnsigned l => exact factoryAdvanceLeafUnsigned_move hset h hne
  | tickRoot => cases hop
  | setLeafAmounts _ _ => cases hop
  | subfactoryChainAdvance _ _ _ _ => cases hop
  | resetAllSubfactoryChains => cases hop
  | resetSubfactoryChainsAboveHeight _ => cases hop
  | setSubfactoryChainConfirmedHeight _ _ => cases hop

inductive TickMove (env : Env) (f : Factory) : Factory → Int → Prop
  | count {ctr : DwCounter} (turn : RootTurn f.counter ctr) :
      TickMove env f { f with counter := ctr } 0
  | roll {h : Factory} {ctr : DwCounter} (full : advanceRoot f = none) (kept : Kept f h)
      (reset : ctr.layers = f.counter.layers.map DwLayer.reset)
      (clocks : h.clocks = (ctr,f.leafLayers,f.perLeafEnabled)) :
      TickMove env f (buildAllUnsignedTxs env h) (-1)

theorem factoryTickRoot_move (hset : Settled env f) (h : factoryTickRoot env f = (f',code)) :
    TickMove env f f' code := by
  rw [factoryTickRoot] at h
  split at h
  next k hroot =>
    obtain ⟨ctr,hturn,rfl⟩ := advanceRoot_turn hroot
    obtain ⟨rfl,rfl⟩ := Prod.mk.inj h
    exact .count hturn
  next hroot =>
    dsimp only at h
    have hreset : Kept f (bumpEpoch { f with counter := { f.counter with
        layers := f.counter.layers.map DwLayer.reset } }) := .of_nodes rfl rfl
    have hfirst := hreset.trans (.resetPsChains _)
    have hkept := hfirst.trans ((hset.kept hfirst).resetSubfactoryChains (fun _ => false))
    obtain ⟨h',hkept',hclocks,heq⟩ := (hset.kept hkept).refresh (-1)
    rw [factoryResetAllSubfactoryChains,heq] at h
    obtain ⟨rfl,rfl⟩ := Prod.mk.inj h
    refine .roll hroot (hkept.trans hkept') ?_ hclocks
    rfl

end

end SuperScalar
