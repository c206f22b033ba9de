import SuperScalar.Factory.Coins

namespace SuperScalar

open Bitcoin List Option Factory

structure SameTx (n n' : FactoryNode) : Prop where
  links : n'.links = n.links
  outputs : n'.outputs = n.outputs
  tx : n'.unsignedTx = n.unsignedTx
  txid : n'.txid = n.txid
  chain : n.type ≠ .psSubfactory → n' = n

theorem SameTx.refl (n : FactoryNode) : SameTx n n := ⟨rfl,rfl,rfl,rfl,fun _ => rfl⟩

def FactoryOp.resets (n : FactoryNode) : FactoryOp → Bool
  | .resetAllSubfactoryChains => n.type = .psSubfactory ∧ n.psChainLen ≠ 0
  | .resetSubfactoryChainsAboveHeight height => n.type = .psSubfactory ∧ n.psChainLen ≠ 0 ∧
      (n.psChainConfirmedHeight > 0 && n.psChainConfirmedHeight ≤ height) = false
  | _ => false

inductive Restamp (op : FactoryOp) (n : FactoryNode) : FactoryNode → Prop
  | same : Restamp op n n
  | confirmed (height : UInt32) (hsub : n.type = .psSubfactory) :
      Restamp op n { n with psChainConfirmedHeight := height }
  | reset (hsub : n.type = .psSubfactory) (hreset : op.resets n = true) :
      Restamp op n (resetSubfactoryChain n)

theorem Restamp.sameTx {op : FactoryOp} {n n' : FactoryNode} (h : Restamp op n n') :
    SameTx n n' := by
  cases h with
  | same => exact .refl n
  | confirmed _ hsub => exact ⟨rfl,rfl,rfl,rfl,fun hnot => absurd hsub hnot⟩
  | reset hsub => exact ⟨rfl,rfl,rfl,rfl,fun hnot => absurd hsub hnot⟩

structure Restamped (op : FactoryOp) (f f' : Factory) : Prop where
  base : f'.base = f.base
  nodes : ∀ i : ℕ, Rel (Restamp op) (f.nodes[i]?) (f'.nodes[i]?)

section

variable (f : Factory)

inductive NodeStep : FactoryOp → ℕ → FactoryNode → FactoryNode → Prop
  | restock {op : FactoryOp} {leafSide : ℕ} {n m : FactoryNode} (hside : leafSide < f.nLeafNodes)
      (hdw : n.isPsLeaf = false) (hcoins : SameCoins n m) :
      NodeStep op (f.leafNode leafSide) n m
  | reprice {leafSide : ℕ} {amounts : List UInt64} {n : FactoryNode}
      (hside : leafSide < f.nLeafNodes) (hlength : amounts.length = n.outputs.length)
      (htotal : sumAmounts amounts = sumAmounts (n.outputs.map TxOut.amount)) :
      NodeStep (.setLeafAmounts leafSide amounts) (f.leafNode leafSide) n { n with
        outputs := zipWith (fun o a => { o with amount := a }) n.outputs amounts }
  | extend {op : FactoryOp} {leafSide : ℕ} {n : FactoryNode} {o : TxOut} {rest : List TxOut}
      (hside : leafSide < f.nLeafNodes) (hps : n.isPsLeaf = true) (houts : n.outputs = o :: rest)
      (hfee : f.feePerTx < o.amount)
      (hop : op = .advanceLeafUnsigned leafSide ∨ ∃ signed, op = .advanceLeaf leafSide signed)
      (hkeeps : rebuildsTree f op = false) :
      NodeStep op (f.leafNode leafSide) n { psChainStep n with
        outputs := [{ o with amount := o.amount-f.feePerTx }] }
  | sell {leafSide subIdx channelIdx i : ℕ} {delta : UInt64} {n : FactoryNode}
      (htype : n.type = .psSubfactory) (hps : n.isPsLeaf = true) (hlength : 2 ≤ n.outputs.length)
      (hchannel : channelIdx < n.outputs.length-1)
      (hstock : delta + f.feePerTx + channelDustLimitSats ≤
        (n.outputs.getLast?.map TxOut.amount).getD 0) :
      NodeStep (.subfactoryChainAdvance leafSide subIdx channelIdx delta) i n
        (subChainStep f n channelIdx delta ((n.outputs.getLast?.map TxOut.amount).getD 0))

end

def Factory.listsLeaf (f : Factory) (i : ℕ) : Bool :=
  (range f.nLeafNodes).any (fun l => f.leafNode l = i)

def FactoryOp.putsBack (f : Factory) (i : ℕ) (n : FactoryNode) : FactoryOp → Bool
  | .advanceLeafUnsigned leafSide =>
    (f.nodes[f.leafNode leafSide]?).any FactoryNode.isPsLeaf && (n.isPsLeaf && f.listsLeaf i)
  | .tickRoot => n.type = .psSubfactory || (n.isPsLeaf && f.listsLeaf i)
  | _ => false

def affordsStep (f : Factory) (n : FactoryNode) : Prop :=
  f.feePerTx < (psChainStep n).psPrevChanAmount ∧
    channelDustLimitSats ≤ (psChainStep n).psPrevChanAmount-f.feePerTx

instance (f : Factory) (n : FactoryNode) : Decidable (affordsStep f n) :=
  inferInstanceAs (Decidable (_ ∧ _))

-- All a call can do, with its return code; a call that is `halted` has moved the chain of a leaf on
-- and left its transaction behind.
inductive StepOutcome (env : Env) (f : Factory) (op : FactoryOp) : Factory → Int → Prop
  | still {f' : Factory} {code : Int} (h : Restamped op f f') : StepOutcome env f op f' code
  | rebuilt {k : Factory} {code : Int} (hop : rebuildsTree f op = true) (hk : Redrawn f k)
      (hback : ∀ i n m, f.NodeAt i n → k.NodeAt i m → op.putsBack f i n = true → m.psChainLen = 0) :
      StepOutcome env f op (buildAllUnsignedTxs env k) code
  | single {k : Factory} {code : Int} {i : ℕ} {n m : FactoryNode} (hn : f.NodeAt i n)
      (hbase : k.base = f.base) (hnodes : k.nodes = f.nodes.set i m) (hm : NodeStep f op i n m) :
      StepOutcome env f op (rebuildNodeTx env k i) code
  | halted {leafSide : ℕ} {n : FactoryNode} (hside : leafSide < f.nLeafNodes)
      (hn : f.NodeAt (f.leafNode leafSide) n) (hps : n.isPsLeaf = true)
      (hop : op = .advanceLeafUnsigned leafSide ∨ ∃ signed, op = .advanceLeaf leafSide signed)
      (hpoor : rebuildsTree f op = true ∧ advanceRoot f = none ∨ rebuildsTree f op = false ∧
        ¬affordsStep f n) :
      StepOutcome env f op (f.modifyNode (f.leafNode leafSide) fun _ => psChainStep n) 0

section

variable {env : Env} {g h : Factory} {l p : ℕ} {n m : FactoryNode}

variable (hsk : Skeleton env g)

include hsk

variable (hsame : SameTree g h)

include hsame

theorem Skeleton.leaf_state (hl : l < g.nLeafNodes)
    (hn : h.NodeAt (g.leafNode l) n) : n.type = .state := by
  obtain ⟨tip,htip,htype,-⟩ := hsk.tips hl
  rw [links_type (hsame.links_eq htip hn)]
  exact htype

theorem Skeleton.leaf_parent (hl : l < g.nLeafNodes)
    (hn : h.NodeAt (g.leafNode l) n) (hp : n.parentIndex = some p) (hm : h.NodeAt p m) :
    m.isPsLeaf = false ∧ m.childIndices ≠ [] := by
  have htype := hsk.leaf_state hsame hl hn
  obtain ⟨parent,hparent,-,hne,hdw⟩ := hsk.parent_below hsame hn hp
  obtain rfl := mem_unique hparent hm
  refine ⟨hdw (.inr ?_),hne⟩
  rw [htype]
  decide

theorem Skeleton.dw_childless (hl : l < g.nLeafNodes)
    (hn : h.NodeAt (g.leafNode l) n) (hdw : n.isPsLeaf = false) : n.childIndices = [] := by
  obtain ⟨tip,htip,htype,hsubs⟩ := hsk.tips hl
  have hlinks := hsame.links_eq htip hn
  have hps := (links_ps hlinks).symm.trans hdw
  rw [links_children hlinks]
  cases (hsk.ok _ tip htip).kind with
  | kickoff type => exact absurd (type.symm.trans htype) (by decide)
  | inner _ _ _ subs children => exact absurd (hsubs.trans subs) children
  | leaf _ _ direct => exact direct hps
  | sub type => exact absurd (type.symm.trans htype) (by decide)

theorem Skeleton.sub_childless {i : ℕ}
    (hn : h.NodeAt i n) (htype : n.type = .psSubfactory) : n.childIndices = [] := by
  obtain ⟨x,hx,hlinks⟩ := hsame.symm.node hn
  have htype' := (links_type hlinks).trans htype
  rw [← links_children hlinks]
  cases (hsk.ok i x hx).kind with
  | kickoff type => exact absurd (type.symm.trans htype') (by decide)
  | inner type => exact absurd (type.symm.trans htype') (by decide)
  | leaf tip => exact absurd (tip.1.symm.trans htype') (by decide)
  | sub _ _ _ _ children => exact children

end

section

variable {env : Env} {f k : Factory} {i : ℕ} {n m : FactoryNode} (hn : f.NodeAt i n)
  (hbase : k.base = f.base) (hnodes : k.nodes = f.nodes.set i m)

include hnodes in
theorem single_other {j : ℕ} (hj : i ≠ j) : (rebuildNodeTx env k i).nodes[j]? = f.nodes[j]? := by
  rw [rebuildNodeTx,modifyNode_get,hnodes,getElem?_set_ne hj]
  simp [hj]

include hn hnodes in
theorem single_node : (rebuildNodeTx env k i).nodes[i]? = some (rebuiltNode env k i m) := by
  obtain ⟨hlt,-⟩ := List.getElem?_eq_some_iff.mp hn
  rw [rebuildNodeTx,modifyNode_get,hnodes,getElem?_set_self hlt,map_some,if_pos rfl]

include hn hbase hnodes in
theorem single_sameTree (env : Env) (hlinks : m.links = n.links) : SameTree f (rebuildNodeTx env k i) := by
  refine ⟨hbase,ext_getElem? fun j => ?_⟩
  simp only [getElem?_map]
  by_cases hj : i = j
  · subst hj
    rw [single_node hn hnodes,show f.nodes[i]? = some n from hn,map_some,map_some]
    exact congrArg some hlinks
  · rw [single_other hnodes hj]

end

section

variable {env : Env} {f f' : Factory} {op : FactoryOp} {code : Int} {leafSide : ℕ}

variable {i : ℕ} {n m y : FactoryNode} {g k turned t : Factory} {signed : Bool}

theorem modifyNode_at (hn : f.NodeAt i n) (change : FactoryNode → FactoryNode) :
    (f.modifyNode i change).nodes = f.nodes.set i (change n) := by
  obtain ⟨hlt,-⟩ := List.getElem?_eq_some_iff.mp hn
  apply ext_getElem?
  intro j
  rw [modifyNode_get,getElem?_set,if_pos hlt]
  by_cases hj : i = j
  · subst hj
    rw [show f.nodes[i]? = some n from hn,map_some,if_pos rfl,if_pos rfl]
  · simp [hj]

theorem resetSubfactoryChains_restamped (f : Factory) {keep : FactoryNode → Bool}
    (hkeep : ∀ n : FactoryNode, n.type = .psSubfactory → n.psChainLen ≠ 0 → keep n = false →
      op.resets n = true) : Restamped op f (resetSubfactoryChains f keep) := by
  refine ⟨rfl,fun i => ?_⟩
  unfold resetSubfactoryChains
  rw [getElem?_map]
  refine rel_mapped fun n _ => ?_
  split_ifs with hsub
  · exact .reset hsub.1 (hkeep n hsub.1 hsub.2.1 hsub.2.2)
  · exact .same

theorem setConfirmedHeight_restamped (f : Factory) (i : ℕ) (height : UInt32) :
    Restamped op f (factorySetSubfactoryChainConfirmedHeight f i height) := by
  refine ⟨rfl,fun j => ?_⟩
  unfold factorySetSubfactoryChainConfirmedHeight
  rw [modifyNode_get]
  refine rel_mapped fun n _ => ?_
  split_ifs with hj hsub
  · exact .confirmed height hsub.1
  · exact .same
  · exact .same

theorem Restamped.of_nodes (hbase : f'.base = f.base) (hnodes : f'.nodes = f.nodes) :
    Restamped op f f' :=
  ⟨hbase,fun i => rel_of_eq (by rw [hnodes]) fun _ => .same⟩

theorem Restamped.before (h : Restamped op f f') {n' : FactoryNode} (hn' : f'.NodeAt i n') :
    ∃ n, f.NodeAt i n ∧ SameTx n n' := by
  obtain ⟨n,hn,hstamp⟩ := rel_before (h.nodes i) hn'
  exact ⟨n,hn,hstamp.sameTx⟩

theorem Restamped.sameTree (h : Restamped op f f') : SameTree f f' := by
  refine ⟨h.base,ext_getElem? fun i => ?_⟩
  simp only [getElem?_map]
  exact map_eq_of_rel (h.nodes i) fun _ _ hab => hab.sameTx.links

theorem Restamped.txids (h : Restamped op f f') (i : ℕ) :
    (f'.nodes[i]?).map FactoryNode.txid = (f.nodes[i]?).map FactoryNode.txid :=
  map_eq_of_rel (h.nodes i) fun _ _ hab => hab.sameTx.txid

theorem StepOutcome.unchanged : StepOutcome env f op f code := .still (.of_nodes rfl rfl)

theorem updateLStock_some (hsk : Skeleton env g) (hsame : SameTree g f) (hn : f.NodeAt i n) :
    ∃ n', updateLStock env f n = some n' := by
  obtain ⟨m,hm,hlinks⟩ := hsame.symm.node hn
  unfold updateLStock
  split_ifs with hskip
  · exact ⟨n,rfl⟩
  · have htype : m.type = .state := by
      rw [links_type hlinks]
      exact not_not.mp (not_or.mp hskip).1
    have hchildren : m.childIndices = [] := by
      rw [links_children hlinks]
      exact not_not.mp (not_or.mp (not_or.mp hskip).2).1
    rw [hsame.lStockSpk,← links_keyagg hlinks]
    cases (hsk.ok i m hm).kind with
    | kickoff type => exact absurd (type.symm.trans htype) (by decide)
    | inner _ _ _ _ children => exact absurd hchildren children
    | leaf _ _ _ lStock =>
      obtain ⟨front,last,spk,hspk,-⟩ := lStock
      rw [hspk]
      exact ⟨_,rfl⟩
    | sub type => exact absurd (type.symm.trans htype) (by decide)

theorem refreshTree_rebuilt (hsk : Skeleton env g) (hsame : SameTree g f) {turned : Int}
    (h : refreshTree env f turned = (f',code)) :
    ∃ k, Redrawn f k ∧ f' = buildAllUnsignedTxs env k := by
  have hall : ∀ n ∈ f.nodes, ∃ n', updateLStock env f n = some n' := by
    intro n hn
    obtain ⟨i,hi⟩ := mem_iff_getElem?.mp hn
    exact updateLStock_some hsk hsame hi
  unfold refreshTree at h
  cases hupdated : updateLStockOutputs env f with
  | mk k ok =>
    have hok : ok = true := by
      have hflag := congrArg Prod.snd hupdated
      unfold updateLStockOutputs at hflag
      split_ifs at hflag with hshachain
      · rw [updateLStocks_all hall] at hflag
        exact hflag.symm
      · exact hflag.symm
    subst hok
    rw [hupdated] at h
    exact ⟨k,updateLStockOutputs_redrawn hupdated,(Prod.mk.inj h).1.symm⟩

theorem advance_outcome (hsk : Skeleton env g) (hsame : SameTree g f)
    (h : factoryAdvance env f signed = (f',code)) :
    StepOutcome env f (.advance signed) f' code := by
  unfold factoryAdvance at h
  split at h
  · obtain rfl := (Prod.mk.inj h).1
    exact .unchanged
  · rename_i counter hcounter
    have hclocks : Redrawn f { f with counter := counter } := .of_nodes rfl rfl
    obtain ⟨k,hk,rfl⟩ := refreshTree_rebuilt hsk (hsame.trans hclocks.sameTree) h
    exact .rebuilt rfl (hclocks.trans hk) fun _ _ _ _ _ hput => by cases hput

theorem updateLStockForLeaf_some (h : updateLStockForLeaf env f i = (f',true)) (hn : f.NodeAt i n) :
    ∃ m, SameCoins n m ∧ f'.base = f.base ∧ f'.nodes = f.nodes.set i m := by
  unfold updateLStockForLeaf at h
  split_ifs at h with hshachain
  · split at h
    · cases (Prod.mk.inj h).2
    · rename_i m hm
      obtain ⟨n',hn',hupdated⟩ := bind_eq_some_iff.mp hm
      obtain rfl : n' = n := mem_unique hn' hn
      obtain rfl := (Prod.mk.inj h).1
      exact ⟨m,updateLStock_coins hupdated,rfl,modifyNode_at hn _⟩
  · obtain rfl := (Prod.mk.inj h).1
    obtain ⟨hlt,rfl⟩ := List.getElem?_eq_some_iff.mp hn
    exact ⟨_,.refl _,rfl,(set_getElem_self hlt).symm⟩

theorem updateLStockForLeaf_none (h : updateLStockForLeaf env f i = (f',false)) :
    f'.base = f.base ∧ f'.nodes = f.nodes := by
  unfold updateLStockForLeaf at h
  split_ifs at h with hshachain
  · split at h
    · obtain rfl := (Prod.mk.inj h).1
      exact ⟨rfl,rfl⟩
    · cases (Prod.mk.inj h).2
  · cases (Prod.mk.inj h).2

theorem advanceRoot_eq (f : Factory) : advanceRoot f =
    (f.counter.layers.head?.bind dwAdvance).map (fun layer => { f with
      counter := { f.counter with layers := layer :: f.counter.layers.tail } }) := by
  unfold advanceRoot
  cases f.counter.layers <;> rfl

theorem advanceRoot_none_congr (hcounter : k.counter = f.counter) (h : advanceRoot f = none) :
    advanceRoot k = none := by
  rw [advanceRoot_eq,map_eq_none_iff] at h ⊢
  rw [hcounter]
  exact h

theorem advanceRoot_nodes (h : advanceRoot f = some f') : f'.base = f.base ∧ f'.nodes = f.nodes := by
  unfold advanceRoot at h
  split at h
  · cases h
  · obtain ⟨layer,-,rfl⟩ := map_eq_some_iff.mp h
    exact ⟨rfl,rfl⟩

theorem advanceDwLeaf_outcome (hsk : Skeleton env g) (hsame : SameTree g f)
    {afterLeaf afterTree : Int} (h : advanceDwLeaf env f leafSide afterLeaf afterTree = (f',code))
    (hside : leafSide < f.nLeafNodes) (hn : f.NodeAt (f.leafNode leafSide) n)
    (hdw : n.isPsLeaf = false)
    (hop : (dwAdvance (f.leafLayer leafSide)).isNone = true → rebuildsTree f op = true)
    (hback : ∀ i n, op.putsBack f i n = false) : StepOutcome env f op f' code := by
  unfold advanceDwLeaf at h
  dsimp only at h
  split at h
  · rename_i hlayer
    have hexhausted : dwAdvance (f.leafLayer leafSide) = none := hlayer
    split at h
    · obtain rfl := (Prod.mk.inj h).1
      exact .still (.of_nodes rfl rfl)
    · rename_i turned hturned
      obtain ⟨hbase,hnodes⟩ := advanceRoot_nodes hturned
      have hclocks : Redrawn f (resetLeafLayers (bumpEpoch turned)) := .of_nodes hbase hnodes
      obtain ⟨k,hk,rfl⟩ := refreshTree_rebuilt hsk (hsame.trans hclocks.sameTree) h
      refine .rebuilt (hop (by rw [hexhausted]; rfl)) (hclocks.trans hk) fun i n _ _ _ hput => ?_
      rw [hback] at hput
      cases hput
  · split at h
    · rename_i layer hlayer k hk
      obtain rfl := (Prod.mk.inj h).1
      obtain ⟨hbase,hnodes⟩ := updateLStockForLeaf_none hk
      exact .still (.of_nodes hbase hnodes)
    · rename_i layer hlayer k hk
      obtain rfl := (Prod.mk.inj h).1
      obtain ⟨m,hcoins,hbase,hnodes⟩ := updateLStockForLeaf_some hk hn
      have hleaf : k.leafNode = f.leafNode := by
        have hindices : k.leafNodeIndices = f.leafNodeIndices :=
          (congrArg leafNodeIndices hbase :)
        unfold leafNode
        rw [hindices]
      rw [hleaf]
      exact .single hn hbase hnodes (.restock hside hdw hcoins)

theorem psExtendChain_done (hn : f.NodeAt i n)
    (hok : (psExtendChain env f i (psChainStep n)).2 = true) :
    ∃ o rest k, n.outputs = o :: rest ∧ f.feePerTx < o.amount ∧ k.base = f.base ∧
      k.nodes = f.nodes.set i { psChainStep n with
        outputs := [{ o with amount := o.amount-f.feePerTx }] } ∧
      (psExtendChain env f i (psChainStep n)).1 = rebuildNodeTx env k i := by
  unfold psExtendChain at hok ⊢
  dsimp only at hok ⊢
  split at hok
  · cases hok
  rename_i hpoor
  rw [if_neg hpoor]
  have hrich := (not_or.mp hpoor).1
  cases houts : n.outputs with
  | nil =>
    refine absurd ?_ hrich
    change (n.outputs.head?.map TxOut.amount).getD 0 ≤ f.feePerTx
    rw [houts]
    exact UInt64.le_iff_toNat_le.mpr (Nat.zero_le _)
  | cons o rest =>
    have hfee : f.feePerTx < o.amount := by
      have hnot : ¬(n.outputs.head?.map TxOut.amount).getD 0 ≤ f.feePerTx := hrich
      rw [houts] at hnot
      exact UInt64.not_le.mp hnot
    have houtputs : ((psChainStep n).outputs.take 1).map (fun x => { x with
        amount := (psChainStep n).psPrevChanAmount-f.feePerTx }) =
        [{ o with amount := o.amount-f.feePerTx }] := by
      change (n.outputs.take 1).map (fun x => { x with
        amount := (n.outputs.head?.map TxOut.amount).getD 0 - f.feePerTx }) = _
      rw [houts]
      rfl
    refine ⟨o,rest,_,rfl,hfee,?_,?_,rfl⟩
    · rfl
    have hstep : (f.modifyNode i fun _ => psChainStep n).NodeAt i (psChainStep n) := by
      rw [NodeAt,modifyNode_get,show f.nodes[_]? = some n from hn,map_some,if_pos rfl]
    rw [modifyNode_at hstep,modifyNode_at hn,set_set,← houtputs]
    rfl

theorem psExtendChain_outcome (hside : leafSide < f.nLeafNodes)
    (hn : f.NodeAt (f.leafNode leafSide) n) (hps : n.isPsLeaf = true)
    (hop : op = .advanceLeafUnsigned leafSide ∨ ∃ signed, op = .advanceLeaf leafSide signed)
    (hkeeps : rebuildsTree f op = false) (done : Int) :
    StepOutcome env f op (psExtendChain env f (f.leafNode leafSide) (psChainStep n)).1
      (if (psExtendChain env f (f.leafNode leafSide) (psChainStep n)).2 then done else 0) := by
  by_cases hok : (psExtendChain env f (f.leafNode leafSide) (psChainStep n)).2 = true
  · obtain ⟨o,rest,k,houts,hfee,hbase,hnodes,hmoved⟩ := psExtendChain_done hn hok
    rw [hmoved]
    exact .single hn hbase hnodes (.extend hside hps houts hfee hop hkeeps)
  unfold psExtendChain at hok ⊢
  dsimp only at hok ⊢
  split at hok
  · rename_i hpoor
    rw [if_pos hpoor]
    refine .halted hside hn hps hop (.inr ⟨hkeeps,fun hafford => ?_⟩)
    rcases hpoor with hfee | hdust
    · exact absurd hafford.1 (UInt64.not_lt.mpr hfee)
    · exact absurd hafford.2 (UInt64.not_le.mpr hdust)
  · exact absurd rfl hok

theorem advanceLeaf_outcome (hsk : Skeleton env g) (hsame : SameTree g f)
    (h : factoryAdvanceLeaf env f leafSide signed = (f',code)) :
    StepOutcome env f (.advanceLeaf leafSide signed) f' code := by
  obtain ⟨rfl,rfl,-⟩ | ⟨n,hside,hnode,h⟩ := atLeaf_cases h
  · exact .unchanged
  by_cases hps : n.isPsLeaf = true
  · rw [if_pos hps] at h
    obtain ⟨rfl,rfl⟩ := Prod.mk.inj h
    refine psExtendChain_outcome hside hnode hps (.inr ⟨signed,rfl⟩) ?_ _
    change (f.nodes[f.leafNode leafSide]?).any _ = false
    rw [hnode,any_some,hps]
    rfl
  · rw [if_neg hps] at h
    have hdw := Bool.eq_false_of_not_eq_true hps
    refine advanceDwLeaf_outcome hsk hsame h hside hnode hdw (fun hexhausted => ?_) fun _ _ => rfl
    change (f.nodes[f.leafNode leafSide]?).any _ = true
    rw [hnode,any_some,hdw,hexhausted]
    rfl

theorem leafNode_listed (hside : leafSide < f.nLeafNodes) :
    (range f.nLeafNodes).any (fun l => f.leafNode l = f.leafNode leafSide) = true :=
  any_eq_true.mpr ⟨leafSide,mem_range.mpr hside,decide_eq_true rfl⟩

theorem psTurn_redrawn (hside : leafSide < f.nLeafNodes) (hn : f.NodeAt (f.leafNode leafSide) n)
    (hps : n.isPsLeaf = true) (hbase : turned.base = f.base)
    (hnodes : turned.nodes = (f.modifyNode (f.leafNode leafSide) fun _ => psChainStep n).nodes) :
    Redrawn f (resetPsChains (bumpEpoch turned)) := by
  have hcount : turned.nLeafNodes = f.nLeafNodes := (congrArg nLeafNodes hbase :)
  have hindices : turned.leafNodeIndices = f.leafNodeIndices :=
    (congrArg leafNodeIndices hbase :)
  have hleaf : turned.leafNode = f.leafNode := by
    unfold leafNode
    rw [hindices]
  refine ⟨hbase,fun i => ?_⟩
  change Option.Rel SameCoins _ ((turned.nodes.mapIdx _)[i]?)
  rw [List.getElem?_mapIdx,hnodes,modifyNode_get,Option.map_map]
  refine rel_mapped fun x hi => ?_
  dsimp only [Function.comp_apply]
  by_cases hsame : f.leafNode leafSide = i
  · obtain rfl : n = x := Option.mem_unique hn (hsame ▸ hi)
    have hlisted := leafNode_listed hside
    rw [hsame] at hlisted
    rw [if_pos hsame,if_pos]
    · exact ⟨rfl,rfl,.inl rfl⟩
    · change (psChainStep n).isPsLeaf = true ∧
        (List.range turned.nLeafNodes).any (fun l => turned.leafNode l = i) = true
      rw [hcount,hleaf]
      exact ⟨hps,hlisted⟩
  · split_ifs
    · exact ⟨rfl,rfl,.inl rfl⟩
    · exact .refl x

theorem Redrawn.chain_zero (h : Redrawn t k) (hy : t.NodeAt i y) (hm : k.NodeAt i m)
    (hzero : y.psChainLen = 0) : m.psChainLen = 0 := by
  obtain ⟨x,hx,hcoins⟩ := rel_before (h.nodes i) hm
  obtain rfl : y = x := mem_unique hy hx
  rcases hcoins.chain with hnone | ⟨hlen,-⟩
  · exact hnone
  · rw [hlen,hzero]

theorem resetPsChains_back (hy : t.NodeAt i y) (hps : y.isPsLeaf = true)
    (hlisted : t.listsLeaf i = true) : ∃ x, (resetPsChains t).NodeAt i x ∧ x.psChainLen = 0 := by
  refine ⟨{ y with psChainLen := 0 },?_,rfl⟩
  unfold NodeAt resetPsChains
  rw [getElem?_mapIdx,show t.nodes[i]? = some y from hy,map_some,if_pos ⟨hps,hlisted⟩]

theorem listsLeaf_congr (hbase : t.base = f.base) (i : ℕ) : t.listsLeaf i = f.listsLeaf i := by
  have hcount : t.nLeafNodes = f.nLeafNodes := (congrArg nLeafNodes hbase :)
  have hindices : t.leafNodeIndices = f.leafNodeIndices :=
    (congrArg leafNodeIndices hbase :)
  unfold listsLeaf leafNode
  rw [hcount,hindices]

theorem psTurn_back {x : FactoryNode} (hps : n.isPsLeaf = true) (hbase : turned.base = f.base)
    (hnodes : turned.nodes = (f.modifyNode (f.leafNode leafSide) fun _ => psChainStep n).nodes)
    (hk : Redrawn (resetPsChains (bumpEpoch turned)) k) (hx : f.NodeAt i x) (hm : k.NodeAt i m)
    (hleaf : x.isPsLeaf = true) (hlisted : f.listsLeaf i = true) : m.psChainLen = 0 := by
  have hy : ∃ y, (bumpEpoch turned).NodeAt i y ∧ y.isPsLeaf = true := by
    change ∃ y, turned.nodes[i]? = some y ∧ _
    rw [hnodes,modifyNode_get,show f.nodes[i]? = some x from hx,map_some]
    by_cases hi : f.leafNode leafSide = i
    · exact ⟨_,rfl,by rw [if_pos hi]; exact hps⟩
    · exact ⟨_,rfl,by rw [if_neg hi]; exact hleaf⟩
  obtain ⟨y,hy,hyps⟩ := hy
  have hlisted' := (listsLeaf_congr hbase i).trans hlisted
  obtain ⟨z,hz,hzero⟩ := resetPsChains_back hy hyps hlisted'
  exact hk.chain_zero hz hm hzero

theorem advanceLeafUnsigned_outcome (hsk : Skeleton env g) (hsame : SameTree g f)
    (h : factoryAdvanceLeafUnsigned env f leafSide = (f',code)) :
    StepOutcome env f (.advanceLeafUnsigned leafSide) f' code := by
  obtain ⟨rfl,rfl,-⟩ | ⟨n,hside,hnode,h⟩ := atLeaf_cases h
  · exact .unchanged
  have hturns : rebuildsTree f (.advanceLeafUnsigned leafSide) = if n.isPsLeaf then
      decide (UInt32.ofNat (n.psChainLen+1) > f.statesPerLayer)
      else (dwAdvance (f.leafLayer leafSide)).isNone := by
    change (f.nodes[f.leafNode leafSide]?).any _ = _
    rw [hnode,any_some]
  by_cases hps : n.isPsLeaf = true
  · rw [if_pos hps] at h hturns
    by_cases hlong : UInt32.ofNat (psChainStep n).psChainLen > f.statesPerLayer
    · rw [if_pos hlong] at h
      dsimp only at h
      have hturned := hturns.trans (decide_eq_true hlong)
      have hcounter : f.counter =
          (f.modifyNode (f.leafNode leafSide) fun _ => psChainStep n).counter := rfl
      cases hroot : advanceRoot (f.modifyNode (f.leafNode leafSide) fun _ => psChainStep n) with
      | none =>
        rw [hroot] at h
        obtain ⟨rfl,rfl⟩ := Prod.mk.inj h
        exact .halted hside hnode hps (.inl rfl)
          (.inl ⟨hturned,advanceRoot_none_congr hcounter hroot⟩)
      | some turned =>
        rw [hroot] at h
        obtain ⟨hstep,hnodes⟩ := advanceRoot_nodes hroot
        have hbase : turned.base = f.base := hstep
        have hreset := psTurn_redrawn hside hnode hps hbase hnodes
        obtain ⟨k,hk,rfl⟩ := refreshTree_rebuilt hsk (hsame.trans hreset.sameTree) h
        refine .rebuilt hturned (hreset.trans hk) fun i x m hx hm hput => ?_
        simp only [FactoryOp.putsBack,Bool.and_eq_true] at hput
        exact psTurn_back hps hbase hnodes hk hx hm hput.2.1 hput.2.2
    · rw [if_neg hlong] at h
      obtain ⟨rfl,rfl⟩ := Prod.mk.inj h
      exact psExtendChain_outcome hside hnode hps (.inl rfl)
        (hturns.trans (decide_eq_false hlong)) _
  · rw [if_neg hps] at h
    rw [if_neg hps] at hturns
    have hdw := Bool.eq_false_of_not_eq_true hps
    refine advanceDwLeaf_outcome hsk hsame h hside hnode hdw hturns.trans fun i x => ?_
    change ((f.nodes[f.leafNode leafSide]?).any FactoryNode.isPsLeaf && _) = false
    rw [hnode,any_some,hdw,Bool.false_and]

theorem tick_back (hbase : t.base = f.base) (hnodes : t.nodes = f.nodes)
    (hk : Redrawn (factoryResetAllSubfactoryChains (resetPsChains t)) k) (hn : f.NodeAt i n)
    (hm : k.NodeAt i m) (hput : FactoryOp.putsBack f i n .tickRoot = true) : m.psChainLen = 0 := by
  have hy : t.NodeAt i n := by
    rw [NodeAt,hnodes]
    exact hn
  simp only [FactoryOp.putsBack,Bool.or_eq_true,Bool.and_eq_true,decide_eq_true_eq] at hput
  have hsub : ∃ x, (factoryResetAllSubfactoryChains (resetPsChains t)).NodeAt i x ∧
      x.psChainLen = 0 := by
    obtain ⟨x,hx,hcoins⟩ := rel_after ((resetPsChains_redrawn t).nodes i) hy
    unfold factoryResetAllSubfactoryChains resetSubfactoryChains NodeAt
    rw [getElem?_map,hx,map_some]
    by_cases hsub : x.type = .psSubfactory ∧ x.psChainLen ≠ 0
    · exact ⟨_,rfl,by rw [if_pos ⟨hsub.1,hsub.2,rfl⟩]; rfl⟩
    · refine ⟨_,rfl,?_⟩
      rw [if_neg fun h => hsub ⟨h.1,h.2.1⟩]
      rcases hput with htype | ⟨hps,hlisted⟩
      · by_contra hne
        exact hsub ⟨(links_type hcoins.links).trans htype,hne⟩
      · obtain ⟨z,hz,hzero⟩ := resetPsChains_back hy hps ((listsLeaf_congr hbase i).trans hlisted)
        rw [mem_unique hx hz]
        exact hzero
  obtain ⟨x,hx,hzero⟩ := hsub
  exact hk.chain_zero hx hm hzero

theorem tickRoot_rebuilt (hsk : Skeleton env g) (hsame : SameTree g f)
    (h : factoryTickRoot env f = (f',code)) (hnone : advanceRoot f = none) :
    ∃ k, Redrawn f k ∧ f' = buildAllUnsignedTxs env k ∧ ∀ i n m, f.NodeAt i n → k.NodeAt i m →
      FactoryOp.putsBack f i n .tickRoot = true → m.psChainLen = 0 := by
  unfold factoryTickRoot at h
  rw [hnone] at h
  have hreset : ∀ t : Factory, t.base = f.base → t.nodes = f.nodes →
      Redrawn f (factoryResetAllSubfactoryChains (resetPsChains t)) := fun t hbase hnodes =>
    (Redrawn.of_nodes hbase hnodes).trans
      ((resetPsChains_redrawn t).trans (resetSubfactoryChains_redrawn _ _))
  have hredrawn := hreset (bumpEpoch { f with counter := { f.counter with
    layers := f.counter.layers.map DwLayer.reset } }) rfl rfl
  obtain ⟨k,hk,rfl⟩ := refreshTree_rebuilt hsk (hsame.trans hredrawn.sameTree) h
  refine ⟨k,hredrawn.trans hk,rfl,fun i n m hn hm hput => ?_⟩
  exact tick_back rfl rfl hk hn hm hput

theorem tickRoot_outcome (hsk : Skeleton env g) (hsame : SameTree g f)
    (h : factoryTickRoot env f = (f',code)) : StepOutcome env f .tickRoot f' code := by
  cases hroot : advanceRoot f with
  | none =>
    obtain ⟨k,hk,rfl,hback⟩ := tickRoot_rebuilt hsk hsame h hroot
    exact .rebuilt (by rw [rebuildsTree,hroot]; rfl) hk hback
  | some =>
    unfold factoryTickRoot at h
    rw [hroot] at h
    obtain ⟨hbase,hnodes⟩ := advanceRoot_nodes hroot
    obtain rfl := (Prod.mk.inj h).1
    exact .still (.of_nodes hbase hnodes)

theorem setLeafAmounts_outcome {amounts : List UInt64}
    (h : factorySetLeafAmounts env f leafSide amounts = (f',code)) :
    StepOutcome env f (.setLeafAmounts leafSide amounts) f' code := by
  obtain ⟨rfl,rfl⟩ | ⟨n,hside,hnode,hlength,htotal,-,rfl⟩ := setLeafAmounts_cases h
  · exact .unchanged
  · refine .single hnode rfl ?_ (.reprice hside hlength htotal)
    exact modifyNode_at hnode _

theorem subfactoryChainAdvance_outcome {subIdx channelIdx : ℕ} {delta : UInt64}
    (h : factorySubfactoryChainAdvanceUnsigned env f leafSide subIdx channelIdx delta = (f',code)) :
    StepOutcome env f (.subfactoryChainAdvance leafSide subIdx channelIdx delta) f' code := by
  obtain ⟨rfl,rfl⟩ | ⟨i,sub,hsub,htype,hps,hlength,hchannel,hstock,-,rfl⟩ :=
    subfactoryChainAdvance_cases h
  · exact .unchanged
  · exact .single hsub rfl (modifyNode_at hsub _) (.sell htype hps hlength hchannel hstock)

theorem step_outcome (hsk : Skeleton env g) (hsame : SameTree g f) (h : op.run env f = (f',code)) :
    StepOutcome env f op f' code := by
  cases op with
  | advance => exact advance_outcome hsk hsame h
  | advanceLeaf => exact advanceLeaf_outcome hsk hsame h
  | advanceLeafUnsigned => exact advanceLeafUnsigned_outcome hsk hsame h
  | tickRoot => exact tickRoot_outcome hsk hsame h
  | setLeafAmounts => exact setLeafAmounts_outcome h
  | subfactoryChainAdvance =>
    exact subfactoryChainAdvance_outcome h
  | resetAllSubfactoryChains =>
    obtain rfl := (Prod.mk.inj h).1
    exact .still (resetSubfactoryChains_restamped f fun _ htype hlen _ =>
      decide_eq_true ⟨htype,hlen⟩)
  | resetSubfactoryChainsAboveHeight =>
    obtain rfl := (Prod.mk.inj h).1
    exact .still (resetSubfactoryChains_restamped f fun _ htype hlen hkeep =>
      decide_eq_true ⟨htype,hlen,hkeep⟩)
  | setSubfactoryChainConfirmedHeight i height =>
    obtain rfl := (Prod.mk.inj h).1
    exact .still (setConfirmedHeight_restamped f i height)

end

end SuperScalar
