import SuperScalar.Factory.Steps

namespace SuperScalar

open Bitcoin Option FactoryOp Factory

section

variable (env : Env)

def FactoryNode.position (n : FactoryNode) : List TxOut × ℕ × Blob 32 × UInt64 × Tx × Blob 32 :=
  (n.outputs,n.psChainLen,n.psPrevTxid,n.psPrevChanAmount,n.unsignedTx,n.txid)

structure Untouched (f f' : Factory) : Prop where
  counter : f'.counter = f.counter
  leafLayers : f'.leafLayers = f.leafLayers
  perLeaf : f'.perLeafEnabled = f.perLeafEnabled
  nodes : f'.nodes.map FactoryNode.position = f.nodes.map FactoryNode.position

def FactoryOp.onLeaf : FactoryOp → Bool
  | .advanceLeaf _ _ => true
  | .advanceLeafUnsigned _ => true
  | .setLeafAmounts _ _ => true
  | .subfactoryChainAdvance _ _ _ _ => true
  | _ => false

def FactoryCall (f f' : Factory) : Prop := ∃ op : FactoryOp, (op.run env f).1 = f'

def LeafSpent (f : Factory) (leafSide : ℕ) : Prop :=
  dwAdvance (f.leafLayer leafSide) = none ∧ advanceRoot f = none ∧ f.perLeafEnabled = true

def FailsClean (f : Factory) : FactoryOp → Prop
  | .advanceLeaf leafSide _ | .advanceLeafUnsigned leafSide =>
    leafSide < f.nLeafNodes → ∀ n, f.NodeAt (f.leafNode leafSide) n →
      n.isPsLeaf = false ∧ LeafSpent f leafSide
  | _ => True

end

section

variable {env : Env} {f f' g : Factory}

theorem Untouched.refl (f : Factory) : Untouched f f := ⟨rfl,rfl,rfl,rfl⟩

theorem refreshTree_frame (env : Env) (f : Factory) (code : Int) :
    ∃ nodes, (refreshTree env f code).1 = { f with nodes := nodes } := by
  unfold refreshTree updateLStockOutputs
  split_ifs with hshachain
  · cases hok : (updateLStocks env f f.nodes).2 with
    | false => simp only [hok]; exact ⟨_,rfl⟩
    | true => simp only [hok]; exact ⟨_,rfl⟩
  · exact ⟨_,rfl⟩

theorem refreshTree_clocks (code : Int) : (refreshTree env f code).1.clocks = f.clocks := by
  obtain ⟨nodes,h⟩ := refreshTree_frame env f code
  rw [h]
  rfl

theorem updateLStockForLeaf_clocks (i : ℕ) : (updateLStockForLeaf env f i).1.clocks = f.clocks := by
  unfold updateLStockForLeaf
  split_ifs with hshachain
  · split <;> rfl
  · rfl

def Factory.size (f : Factory) : ℕ × ℕ := (f.nLeafNodes,f.leafLayers.length)

theorem refreshTree_size (code : Int) : (refreshTree env f code).1.size = f.size := by
  obtain ⟨nodes,h⟩ := refreshTree_frame env f code
  rw [h]
  rfl

theorem advanceRoot_size (h : advanceRoot f = some f') : f'.size = f.size := by
  rw [advanceRoot_eq] at h
  obtain ⟨layer,-,rfl⟩ := map_eq_some_iff.mp h
  rfl

theorem advanceRoot_epoch (h : advanceRoot f = some f') :
    f'.counter.currentEpoch = f.counter.currentEpoch := by
  rw [advanceRoot_eq] at h
  obtain ⟨layer,-,rfl⟩ := map_eq_some_iff.mp h
  rfl

theorem advanceDwLeaf_size (leafSide : ℕ) (afterLeaf afterTree : Int) :
    (advanceDwLeaf env f leafSide afterLeaf afterTree).1.size = f.size := by
  unfold advanceDwLeaf
  dsimp only
  split
  · split
    · rfl
    · rename_i turned hturned
      have hsize : turned.size = f.size := (advanceRoot_size hturned :)
      have hreset : (resetLeafLayers (bumpEpoch turned)).size = turned.size := by
        unfold size resetLeafLayers
        rw [List.length_map]
        rfl
      rw [refreshTree_size,hreset,hsize]
  · rename_i layer hlayer
    have hset : ({ f with perLeafEnabled := true, leafLayers := f.leafLayers.set leafSide layer } :
        Factory).size = f.size := by
      unfold size
      rw [List.length_set]
    rw [← hset]
    unfold updateLStockForLeaf
    split_ifs with hshachain
    · cases hstock : Option.bind _ _ with
      | none => rfl
      | some => rfl
    · rfl

theorem psExtendChain_size (i : ℕ) (n : FactoryNode) : (psExtendChain env f i n).1.size = f.size := by
  unfold psExtendChain
  dsimp only
  split_ifs <;> rfl

theorem run_size {op : FactoryOp} {code : Int} (h : op.run env f = (f',code)) :
    f'.size = f.size := by
  cases op with
  | advance signed =>
    obtain rfl := congrArg Prod.fst h
    change (factoryAdvance env f signed).1.size = _
    unfold factoryAdvance
    split
    · rfl
    · exact refreshTree_size _
  | advanceLeaf =>
    obtain ⟨rfl,-⟩ | ⟨n,-,-,h⟩ := atLeaf_cases h
    · rfl
    split_ifs at h with hps
    · obtain rfl := (Prod.mk.inj h).1
      exact psExtendChain_size _ _
    · obtain rfl := congrArg Prod.fst h
      exact advanceDwLeaf_size _ _ _
  | advanceLeafUnsigned =>
    obtain ⟨rfl,-⟩ | ⟨n,-,-,h⟩ := atLeaf_cases h
    · rfl
    by_cases hps : n.isPsLeaf = true
    · rw [if_pos hps] at h
      obtain rfl := congrArg Prod.fst h
      dsimp only
      split
      · split
        · rfl
        · rename_i turned hturned
          exact (refreshTree_size _).trans (advanceRoot_size hturned :)
      · exact psExtendChain_size _ _
    · rw [if_neg hps] at h
      obtain rfl := congrArg Prod.fst h
      exact advanceDwLeaf_size _ _ _
  | tickRoot =>
    obtain rfl := congrArg Prod.fst h
    change (factoryTickRoot env f).1.size = _
    unfold factoryTickRoot
    split
    · rename_i turned hturned
      exact advanceRoot_size hturned
    · exact refreshTree_size _
  | setLeafAmounts =>
    obtain ⟨rfl,-⟩ | ⟨n,-,-,-,-,-,rfl⟩ := setLeafAmounts_cases h <;> rfl
  | subfactoryChainAdvance =>
    obtain ⟨rfl,-⟩ | ⟨i,n,-,-,-,-,-,-,-,rfl⟩ := subfactoryChainAdvance_cases h <;> rfl
  | resetAllSubfactoryChains | resetSubfactoryChainsAboveHeight height
  | setSubfactoryChainConfirmedHeight =>
    obtain rfl := congrArg Prod.fst h
    rfl

end

section

variable {env : Env} {f : Factory} {leafSide : ℕ}

variable {layer : DwLayer} {f' : Factory} {afterLeaf afterTree : Int} {n : FactoryNode} {i : ℕ}

theorem dwAdvance_ne {layer' : DwLayer} (h : dwAdvance layer = some layer') : layer' ≠ layer := by
  unfold dwAdvance at h
  split_ifs at h with hlast
  cases h
  intro heq
  have hstate : layer.currentState+1 = layer.currentState := congrArg DwLayer.currentState heq
  have hnat := congrArg UInt32.toNat hstate
  rw [UInt32.toNat_add] at hnat
  have hlt := layer.currentState.toNat_lt
  have hone : (1 : UInt32).toNat = 1 := rfl
  omega

theorem turned_touched {k turned : Factory} (hturned : advanceRoot k = some turned)
    (hcounter : k.counter = f.counter) (hbumped : f'.counter = (bumpEpoch turned).counter) :
    ¬Untouched f f' := by
  intro h
  have hepoch := congrArg DwCounter.currentEpoch (hbumped.symm.trans h.counter)
  have hbefore := advanceRoot_epoch hturned
  rw [hcounter] at hbefore
  have hnat : (turned.counter.currentEpoch+1).toNat = f.counter.currentEpoch.toNat :=
    congrArg UInt32.toNat hepoch
  rw [hbefore,UInt32.toNat_add] at hnat
  have hlt := f.counter.currentEpoch.toNat_lt
  have hone : (1 : UInt32).toNat = 1 := rfl
  omega

theorem advanceDwLeaf_layers (hlayer : dwAdvance (f.leafLayer leafSide) = some layer) :
    (advanceDwLeaf env f leafSide afterLeaf afterTree).1.leafLayers =
      f.leafLayers.set leafSide layer := by
  have hadvanced : dwAdvance (({ f with perLeafEnabled := true } : Factory).leafLayer leafSide) =
      some layer := hlayer
  unfold advanceDwLeaf
  dsimp only
  rw [hadvanced]
  dsimp only
  generalize hk : ({ f with
    perLeafEnabled := true, leafLayers := f.leafLayers.set leafSide layer } : Factory) = k
  have hlayers : k.leafLayers = f.leafLayers.set leafSide layer := by rw [← hk]
  have hframe : (updateLStockForLeaf env k (k.leafNode leafSide)).1.clocks = k.clocks :=
    updateLStockForLeaf_clocks _
  have hclocks := congrArg (fun c => c.2.1) hframe
  rw [← hlayers]
  cases hupdated : updateLStockForLeaf env k (k.leafNode leafSide) with
  | mk _ ok =>
    rw [hupdated] at hclocks
    cases ok <;> exact hclocks

theorem advanceDwLeaf_untouched (hside : leafSide < f.leafLayers.length) :
    Untouched f (advanceDwLeaf env f leafSide afterLeaf afterTree).1 ↔ LeafSpent f leafSide := by
  unfold LeafSpent
  cases hlayer : dwAdvance (f.leafLayer leafSide) with
  | none =>
    have hexhausted : dwAdvance (({ f with perLeafEnabled := true } : Factory).leafLayer leafSide) =
        none := hlayer
    have hctr : ({ f with perLeafEnabled := true } : Factory).counter = f.counter := rfl
    unfold advanceDwLeaf
    dsimp only
    rw [hexhausted]
    cases hroot : advanceRoot { f with perLeafEnabled := true } with
    | none =>
      have hspent := advanceRoot_none_congr hctr.symm hroot
      constructor
      · exact fun h => ⟨rfl,hspent,h.perLeaf.symm⟩
      · rintro ⟨-,-,hmode⟩
        exact ⟨rfl,rfl,hmode.symm,rfl⟩
    | some turned =>
      have hcounter : (refreshTree env (resetLeafLayers (bumpEpoch turned)) afterTree).1.counter =
          (bumpEpoch turned).counter := congrArg Prod.fst (refreshTree_clocks afterTree)
      have htouched := turned_touched hroot hctr hcounter
      refine iff_of_false htouched ?_
      rintro ⟨-,hspent,-⟩
      rw [advanceRoot_none_congr hctr hspent] at hroot
      cases hroot
  | some layer =>
    refine iff_of_false (fun h => ?_) fun hspent => by cases hspent.1
    have hlayers := h.leafLayers
    rw [advanceDwLeaf_layers hlayer] at hlayers
    have hget := congrArg (·[leafSide]?) hlayers
    simp only [List.getElem?_set_self hside] at hget
    have hsame : f.leafLayer leafSide = layer := by
      unfold leafLayer
      rw [List.getD_eq_getElem?_getD,← hget,getD_some]
    exact dwAdvance_ne hlayer hsame.symm

theorem psChainStep_touched {m : FactoryNode} (hn : f.NodeAt i n) (hm : f'.NodeAt i m)
    (hlen : m.psChainLen = n.psChainLen+1) : ¬Untouched f f' := by
  intro h
  have hget := congrArg (·[i]?) h.nodes
  simp only [List.getElem?_map] at hget
  rw [show f.nodes[i]? = some n from hn,show f'.nodes[i]? = some m from hm] at hget
  have hsame : m.psChainLen = n.psChainLen := congrArg (fun x => x.2.1) (some.inj hget)
  omega

theorem modifyNode_node (hn : f.NodeAt i n) (change : FactoryNode → FactoryNode) :
    (f.modifyNode i change).NodeAt i (change n) := by
  rw [NodeAt,modifyNode_get,show f.nodes[i]? = some n from hn,map_some,if_pos rfl]

theorem psExtendChain_touched (hn : f.NodeAt i n) :
    ¬Untouched f (psExtendChain env f i (psChainStep n)).1 := by
  have hstep := modifyNode_node hn fun _ => psChainStep n
  unfold psExtendChain
  dsimp only
  split_ifs with hpoor
  · exact psChainStep_touched hn hstep rfl
  · exact psChainStep_touched hn (modifyNode_node (modifyNode_node hstep _) _) rfl

section

variable (hsize : f.nLeafNodes ≤ f.leafLayers.length)

include hsize

theorem leaf_untouched {act : FactoryNode → Factory × Int} {code : Int}
    (h : (if leafSide ≥ f.nLeafNodes then (f,0) else
      match f.nodes[f.leafNode leafSide]? with
      | none => (f,0)
      | some node => if node.isPsLeaf then act node
        else advanceDwLeaf env f leafSide afterLeaf afterTree) = (f',code))
    (htouched : ∀ n, f.NodeAt (f.leafNode leafSide) n → ¬Untouched f (act n).1) :
    Untouched f f' ↔ leafSide < f.nLeafNodes → ∀ n, f.NodeAt (f.leafNode leafSide) n →
      n.isPsLeaf = false ∧ LeafSpent f leafSide := by
  obtain ⟨rfl,-,hnone⟩ | ⟨n,hlt,hnode,h⟩ := atLeaf_cases h
  · exact iff_of_true (.refl f') fun hlt n hn => absurd hn (hnone n hlt)
  cases hps : n.isPsLeaf with
  | true =>
    rw [if_pos hps] at h
    obtain rfl := congrArg Prod.fst h
    refine iff_of_false (htouched n hnode) fun hclean => ?_
    rw [(hclean hlt n hnode).1] at hps
    cases hps
  | false =>
    rw [if_neg (Bool.eq_false_iff.mp hps)] at h
    obtain rfl := congrArg Prod.fst h
    refine (advanceDwLeaf_untouched (hlt.trans_le hsize)).trans ⟨fun hspent _ m hm => ?_,
      fun hclean => (hclean hlt n hnode).2⟩
    obtain rfl : n = m := mem_unique hnode hm
    exact ⟨hps,hspent⟩

theorem advanceLeaf_untouched {signed : Bool} :
    Untouched f (factoryAdvanceLeaf env f leafSide signed).1 ↔
      FailsClean f (.advanceLeaf leafSide signed) := by
  exact leaf_untouched hsize rfl fun n hnode => psExtendChain_touched hnode

theorem advanceLeafUnsigned_untouched :
    Untouched f (factoryAdvanceLeafUnsigned env f leafSide).1 ↔
      FailsClean f (.advanceLeafUnsigned leafSide) := by
  refine leaf_untouched hsize rfl fun n hnode => ?_
  dsimp only
  split
  · cases hroot : advanceRoot (f.modifyNode (f.leafNode leafSide) fun _ => psChainStep n) with
    | none =>
      exact psChainStep_touched hnode (modifyNode_node hnode _) rfl
    | some turned =>
      have hcounter : (refreshTree env (resetPsChains (bumpEpoch turned)) (-1)).1.counter =
          (bumpEpoch turned).counter := congrArg Prod.fst (refreshTree_clocks (-1))
      have hctr : (f.modifyNode (f.leafNode leafSide) fun _ => psChainStep n).counter =
          f.counter := rfl
      exact turned_touched hroot hctr hcounter
  · exact psExtendChain_touched hnode

end

theorem setLeafAmounts_failed {amounts : List UInt64}
    (h : factorySetLeafAmounts env f leafSide amounts = (f',0)) : f' = f := by
  obtain ⟨rfl,-⟩ | ⟨n,-,-,-,-,hcode,-⟩ := setLeafAmounts_cases h
  · rfl
  · exact absurd hcode (by decide)

theorem subfactoryChainAdvance_failed {subIdx channelIdx : ℕ} {delta : UInt64}
    (h : factorySubfactoryChainAdvanceUnsigned env f leafSide subIdx channelIdx delta = (f',0)) :
    f' = f := by
  obtain ⟨rfl,-⟩ | ⟨i,n,-,-,-,-,-,-,hcode,-⟩ := subfactoryChainAdvance_cases h
  · rfl
  · exact absurd hcode (by decide)

end

variable {env : Env} {g : Factory}

theorem buildTree_size {f : Factory} (h : factoryBuildTree env f = some g) :
    g.nLeafNodes = g.leafLayers.length := by
  obtain ⟨b,hb⟩ := factoryBuildTree_spec h
  rw [hb.result]
  exact List.length_replicate.symm

theorem reached_size {h : Factory} (hreach : Relation.ReflTransGen (FactoryCall env) g h) :
    h.size = g.size := by
  induction hreach with
  | refl => rfl
  | tail _ hlast ih =>
    obtain ⟨op,rfl⟩ := hlast
    exact (run_size rfl).trans ih

theorem failed_call_clean_iff (env : Env) (f g h : Factory) (op : FactoryOp)
    (hbuild : factoryBuildTree env f = some g)
    (hreach : Relation.ReflTransGen (FactoryCall env) g h) (hop : op.onLeaf = true)
    (hfail : (op.run env h).2 = 0) : Untouched h (op.run env h).1 ↔ FailsClean h op := by
  have hsize : h.nLeafNodes ≤ h.leafLayers.length := by
    obtain ⟨hleaves,hlayers⟩ := Prod.mk.inj (reached_size hreach)
    rw [hleaves,hlayers,buildTree_size hbuild]
  cases op with
  | advanceLeaf => exact advanceLeaf_untouched hsize
  | advanceLeafUnsigned => exact advanceLeafUnsigned_untouched hsize
  | setLeafAmounts leafSide amounts =>
    have hsame : (run env h (.setLeafAmounts leafSide amounts)).1 = h :=
      setLeafAmounts_failed (Prod.ext rfl hfail)
    rw [hsame]
    exact iff_of_true (.refl h) trivial
  | subfactoryChainAdvance leafSide subIdx channelIdx delta =>
    have hsame : (run env h
        (.subfactoryChainAdvance leafSide subIdx channelIdx delta)).1 = h :=
      subfactoryChainAdvance_failed (Prod.ext rfl hfail)
    rw [hsame]
    exact iff_of_true (.refl h) trivial
  | advance | tickRoot | resetAllSubfactoryChains | resetSubfactoryChainsAboveHeight
  | setSubfactoryChainConfirmedHeight => cases hop

theorem failed_set_amounts_clean : ∃ g,
    factoryBuildTree Env.sample (sample 2 3 1) = some g ∧
    ((setLeafAmounts 0 [545,498855]).run Env.sample g).2 = 0 ∧
    Untouched g ((setLeafAmounts 0 [545,498855]).run Env.sample g).1 := by
  obtain ⟨g,hg,hfail⟩ : ∃ g, factoryBuildTree Env.sample (sample 2 3 1) = some g ∧
      ((setLeafAmounts 0 [545,498855]).run Env.sample g).2 = 0 := by
    decide +kernel
  exact ⟨g,hg,hfail,(failed_call_clean_iff Env.sample _ g g _ hg .refl rfl hfail).mpr trivial⟩

def dearFactory : Factory := { sample 2 3 1 with feePerTx := 100000 }

theorem failed_advance_moves_chain : ∃ g n m,
    factoryBuildTree Env.sample dearFactory = some g ∧
    ((advanceLeafUnsigned 0).run Env.sample g).2 = 0 ∧
    g.NodeAt 3 n ∧ n.psChainLen = 0 ∧
    ((advanceLeafUnsigned 0).run Env.sample g).1.NodeAt 3 m ∧ m.psChainLen = 1 ∧
    m.psPrevTxid = n.txid ∧ ¬Untouched g ((advanceLeafUnsigned 0).run Env.sample g).1 := by
  obtain ⟨g,hg,n,hn,m,hm,hfail,hzero,hone,hprev⟩ :
      ∃ g, factoryBuildTree Env.sample dearFactory = some g ∧ ∃ n, g.nodes[3]? = some n ∧
        ∃ m, (((advanceLeafUnsigned 0).run Env.sample g).1.nodes)[3]? = some m ∧
          ((advanceLeafUnsigned 0).run Env.sample g).2 = 0 ∧ n.psChainLen = 0 ∧
            m.psChainLen = 1 ∧ m.psPrevTxid = n.txid := by
    decide +kernel
  exact ⟨g,n,m,hg,hfail,hn,hzero,hm,hone,hprev,psChainStep_touched hn hm (by rw [hone,hzero])⟩

end SuperScalar
