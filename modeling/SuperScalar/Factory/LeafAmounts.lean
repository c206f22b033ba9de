import SuperScalar.Factory.Versions

namespace SuperScalar

open Bitcoin Option

variable {env : Env} {f f' : Factory} {leafSide : ℕ} {amounts : List UInt64} {code : Int}

theorem SameTree.of_nodes (hbase : f'.base = f.base) (hnodes : f'.nodes = f.nodes) :
    SameTree f f' := ⟨hbase,by rw [hnodes]⟩

theorem updateLStockForLeaf_sameTree {i : ℕ} {ok : Bool}
    (h : updateLStockForLeaf env f i = (f',ok)) : SameTree f f' := by
  unfold updateLStockForLeaf at h
  split_ifs at h with hshachain
  · split at h
    · obtain rfl := (Prod.mk.inj h).1
      exact .refl f
    · rename_i node hnode
      obtain ⟨n,hn,hupdated⟩ := bind_eq_some_iff.mp hnode
      obtain rfl := (Prod.mk.inj h).1
      refine .modified fun n' hn' => ?_
      obtain rfl : n = n' := mem_unique hn hn'
      exact updateLStock_links hupdated
  · obtain rfl := (Prod.mk.inj h).1
    exact .refl f

theorem refreshTree_code {turned : Int} (h : refreshTree env f turned = (f',code)) :
    code = 0 ∨ code = turned := by
  unfold refreshTree at h
  split at h
  · exact .inl (Prod.mk.inj h).2.symm
  · exact .inr (Prod.mk.inj h).2.symm

theorem advanceDwLeaf_sameTree (h : advanceDwLeaf env f leafSide 1 (-1) = (f',code))
    (hcode : code ≠ 0) (hturn : code ≠ -1) : SameTree f f' := by
  unfold advanceDwLeaf at h
  dsimp only at h
  split at h
  · split at h
    · exact absurd (Prod.mk.inj h).2.symm hcode
    · rcases refreshTree_code h with hfail | hroot
      · exact absurd hfail hcode
      · exact absurd hroot hturn
  · rename_i layer hlayer
    split at h
    · exact absurd (Prod.mk.inj h).2.symm hcode
    · rename_i g hupdated
      obtain rfl := (Prod.mk.inj h).1
      have hclocks : SameTree f { f with
          perLeafEnabled := true
          leafLayers := f.leafLayers.set leafSide layer } := .of_nodes rfl rfl
      exact (hclocks.trans (updateLStockForLeaf_sameTree hupdated)).trans
        (Version.sameTree_rebuildNode env g _)

theorem psExtendChain_sameTree {i : ℕ} {old node : FactoryNode} (hold : f.NodeAt i old)
    (hlinks : node.links = old.links) : SameTree f (psExtendChain env f i node).1 := by
  have hstep : SameTree f (f.modifyNode i fun _ => node) := by
    refine .modified fun n hn => ?_
    obtain rfl : old = n := mem_unique hold hn
    exact hlinks
  unfold psExtendChain
  dsimp only
  split_ifs with hpoor
  · exact hstep
  · have houtputs (g : Factory) (outputs : List TxOut) :
        SameTree g (g.modifyNode i fun n => { n with outputs := outputs }) :=
      .modified fun _ _ => rfl
    exact (hstep.trans (houtputs _ _)).trans (Version.sameTree_rebuildNode env _ _)

theorem advanceLeafUnsigned_sameTree (h : factoryAdvanceLeafUnsigned env f leafSide = (f',code))
    (hcode : code ≠ 0) (hturn : code ≠ -1) : SameTree f f' := by
  obtain ⟨-,hfail,-⟩ | ⟨node,-,hnode,h⟩ := atLeaf_cases h
  · exact absurd hfail hcode
  by_cases hps : node.isPsLeaf = true
  · rw [if_pos hps] at h
    by_cases hlong : UInt32.ofNat (psChainStep node).psChainLen > f.statesPerLayer
    · rw [if_pos hlong] at h
      dsimp only at h
      split at h
      · exact absurd (Prod.mk.inj h).2.symm hcode
      · rcases refreshTree_code h with hfail | hroot
        · exact absurd hfail hcode
        · exact absurd hroot hturn
    · rw [if_neg hlong] at h
      obtain rfl := (Prod.mk.inj h).1
      exact psExtendChain_sameTree hnode rfl
  · rw [if_neg hps] at h
    exact advanceDwLeaf_sameTree h hcode hturn

theorem modifyNode_self {i : ℕ} {n : FactoryNode} (hn : f.nodes[i]? = some n)
    (change : FactoryNode → FactoryNode) : (f.modifyNode i change).nodes[i]? = some (change n) := by
  rw [modifyNode_get,hn,map_some,if_pos rfl]

theorem rebuildNodeTx_node {i : ℕ} {n : FactoryNode} (env : Env) (hn : f.nodes[i]? = some n) :
    ∃ n', (rebuildNodeTx env f i).nodes[i]? = some n' ∧ n'.outputs = n.outputs :=
  ⟨_,modifyNode_self hn _,rfl⟩

theorem amounts_zipWith {outputs : List TxOut} (h : amounts.length = outputs.length) :
    (List.zipWith (fun o a => { o with amount := a }) outputs amounts).map TxOut.amount =
      amounts := by
  induction outputs generalizing amounts with
  | nil => rw [List.length_eq_zero_iff.mp h]; rfl
  | cons _ _ ih =>
    cases amounts with
    | nil => cases h
    | cons =>
      rw [List.zipWith_cons_cons,List.map_cons,ih (Nat.succ.inj h)]

theorem setLeafAmounts_node (h : factorySetLeafAmounts env f leafSide amounts = (f',code))
    (hcode : code ≠ 0) : SameTree f f' ∧ ∃ node, f'.nodes[f.leafNode leafSide]? = some node ∧
      node.outputs.map TxOut.amount = amounts := by
  obtain ⟨-,hfail⟩ | ⟨node,-,hnode,hlength,-,-,rfl⟩ := setLeafAmounts_cases h
  · exact absurd hfail hcode
  · have houtputs (g : Factory) (i : ℕ) (outputs : List TxOut) :
        SameTree g (g.modifyNode i fun n => { n with outputs := outputs }) :=
      .modified fun _ _ => rfl
    refine ⟨(houtputs _ _ _).trans (Version.sameTree_rebuildNode env _ _),?_⟩
    obtain ⟨n,hn,houts⟩ := rebuildNodeTx_node env (modifyNode_self hnode fun n =>
      { n with outputs := List.zipWith (fun o a => { o with amount := a }) node.outputs amounts })
    exact ⟨n,hn,by rw [houts,amounts_zipWith hlength]⟩

theorem SameTree.signers (hs : SameTree f f') (i : ℕ) :
    (f'.nodes[i]?).map (fun n => (n.signerIndices,n.subfactoryNodeIndices)) =
      (f.nodes[i]?).map (fun n => (n.signerIndices,n.subfactoryNodeIndices)) := by
  have hget := congrArg (fun ns => (ns[i]?).map (fun n : FactoryNode =>
    (n.signerIndices,n.subfactoryNodeIndices))) hs.links
  simp only [List.getElem?_map,map_map] at hget
  exact hget

theorem SameTree.findSigner (hs : SameTree f f') (c : ℕ) (leaves : List ℕ) :
    findSigner f' c leaves = findSigner f c leaves := by
  induction leaves with
  | nil => rfl
  | cons ni _ ih =>
    have hsigners := congrArg (Option.map Prod.fst) (hs.signers ni)
    rw [map_map,map_map] at hsigners
    have htail : (f'.nodes[ni]?).map (fun n => n.signerIndices.tail) =
        (f.nodes[ni]?).map (fun n => n.signerIndices.tail) := by
      have hmapped := congrArg (Option.map List.tail) hsigners
      rw [map_map,map_map] at hmapped
      exact hmapped
    unfold SuperScalar.findSigner
    rw [htail,ih]

theorem SameTree.clientToLeaf (hs : SameTree f f') (c : ℕ) :
    factoryClientToLeaf f' c = factoryClientToLeaf f c := by
  have hleaf : f'.leafNode = f.leafNode := funext hs.leafNode
  have hlevels : f'.levelArity = f.levelArity := (congrArg Factory.levelArity hs.base :)
  have harity : f'.leafArity = f.leafArity := (congrArg Factory.leafArity hs.base :)
  have hps : f'.psSubfactoryArity = f.psSubfactoryArity :=
    (congrArg Factory.psSubfactoryArity hs.base :)
  have hsubs (i k : ℕ) : (f'.nodes[i]?).bind (fun n => n.subfactoryNodeIndices[k]?) =
      (f.nodes[i]?).bind (fun n => n.subfactoryNodeIndices[k]?) := by
    have hmapped := congrArg (fun o => o.bind (fun p => p.2[k]?)) (hs.signers i)
    simp only [bind_map] at hmapped
    exact hmapped
  unfold factoryClientToLeaf
  rw [hlevels,harity,hps,hs.nLeafNodes,hleaf,hs.findSigner]
  dsimp only
  rw [hsubs]

end SuperScalar
