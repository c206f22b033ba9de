import SuperScalar.Factory.Moves

namespace SuperScalar

open Bitcoin Option

def nodeInput (h : Factory) (n : FactoryNode) : TxInput :=
  ⟨(parentOutpoint h h.nodes n).txid,(parentOutpoint h h.nodes n).vout,n.nsequence⟩

-- One version of the tree built as `g`: the transactions follow from the nSequence values.
structure Version (env : Env) (g h : Factory) : Prop where
  same : SameTree g h
  outputs : ∀ i m n, g.NodeAt i m → h.NodeAt i n → m.isPsLeaf = false → n.outputs = m.outputs
  built : ∀ i n, h.NodeAt i n → n.isPsLeaf = false →
    n = finishNodeTx env n n.nsequence [nodeInput h n]

def Current (env : Env) (h : Factory) : Prop :=
  ∀ i n, h.NodeAt i n → n.isPsLeaf = false → n.nsequence = nodeNsequence env h i n

section

variable {env : Env} {f g h : Factory} {i : ℕ} {n : FactoryNode}

theorem Kept.dw_node (hkept : Kept f h) (hn : h.NodeAt i n) (hps : n.isPsLeaf = false) :
    f.NodeAt i n := by
  obtain ⟨m,hm,heq⟩ := hkept.symm.node hn
  have hsame := links_ps heq
  have hm' := hkept.dw i m hm (hsame.trans hps)
  rwa [mem_unique hn hm']

theorem Skeleton.parent_below (hsk : Skeleton env g) (hsame : SameTree g h) (hn : h.NodeAt i n)
    {p : ℕ} (hp : n.parentIndex = some p) : ∃ parent, h.NodeAt p parent ∧ p < i ∧
      parent.childIndices ≠ [] ∧
      (n.isPsLeaf = false ∨ n.type ≠ .psSubfactory → parent.isPsLeaf = false) := by
  obtain ⟨m,hm,heq⟩ := hsame.symm.node hn
  obtain ⟨parent,hparent,hlt,hchild,-,hbelow⟩ := hsk.up i m p hm ((links_parent heq).trans hp)
  obtain ⟨parent',hparent',heq'⟩ := hsame.node hparent
  refine ⟨parent',hparent',hlt,?_,?_⟩
  · rw [links_children heq']
    rintro hnil
    rw [hnil] at hchild
    cases hchild
  · intro hdw
    rw [links_ps heq',← Bool.not_eq_true]
    intro htrue
    obtain ⟨hps,htype⟩ := hbelow htrue
    rw [links_ps heq] at hps
    rw [links_type heq] at htype
    rcases hdw with hnot | hnot
    · exact absurd (hnot.symm.trans hps) (by decide)
    · exact hnot htype

theorem parentOutpoint_congr (hbase : h.base = f.base)
    (htxid : ∀ p, n.parentIndex = some p →
      (h.nodes[p]?).map FactoryNode.txid = (f.nodes[p]?).map FactoryNode.txid) :
    parentOutpoint h h.nodes n = parentOutpoint f f.nodes n := by
  have hfund : h.fundingTxid = f.fundingTxid := (congrArg Factory.fundingTxid hbase :)
  have hvout : h.fundingVout = f.fundingVout := (congrArg Factory.fundingVout hbase :)
  unfold parentOutpoint
  cases hp : n.parentIndex with
  | none => simp only [hfund,hvout]
  | some p => simp only [htxid p hp]

theorem nodeNsequence_links {m : FactoryNode} (heq : n.links = m.links) :
    nodeNsequence env h i n = nodeNsequence env h i m := by
  have hstatic := links_static heq
  have htype := links_type heq
  have hps := links_ps heq
  have hlayer := links_layer heq
  simp only [nodeNsequence,hstatic,htype,hps,hlayer]

end

namespace Version

variable {env : Env} {f g h : Factory}

theorem settled (hsk : Skeleton env g) (hv : Version env g h) : Settled env h := by
  constructor
  · intro i n hn htype
    obtain ⟨m,hm,heq⟩ := hv.same.symm.node hn
    have htype' := links_type heq
    have hps := links_ps heq
    rw [htype] at htype'
    rw [← hps]
    cases (hsk.ok i m hm).kind with
    | kickoff type => exact absurd (type.symm.trans htype') (by decide)
    | inner type => exact absurd (type.symm.trans htype') (by decide)
    | leaf tip => exact absurd (tip.1.symm.trans htype') (by decide)
    | sub _ ps => exact ps
  · intro i n hn htype hchildren
    obtain ⟨m,hm,heq⟩ := hv.same.symm.node hn
    have htype' := links_type heq
    have hchildren' := links_children heq
    have hkeyagg := links_keyagg heq
    have hps := links_ps heq
    rw [htype] at htype'
    rw [hchildren] at hchildren'
    rw [hv.same.lStockSpk,← hkeyagg]
    cases (hsk.ok i m hm).kind with
    | kickoff type => exact absurd (type.symm.trans htype') (by decide)
    | inner _ _ _ _ children => exact absurd hchildren' children
    | leaf _ _ _ lStock =>
      obtain ⟨front,last,spk,hspk,houts,-⟩ := lStock
      refine ⟨spk,hspk,?_⟩
      intro hnot
      exact ⟨front,last,(hv.outputs i m n hm hn (hps.trans hnot)).trans houts⟩
    | sub type => exact absurd (type.symm.trans htype') (by decide)

theorem kept (hsk : Skeleton env g) (hv : Version env g f) (hkept : Kept f h) :
    Version env g h := by
  have hsame := hv.same.trans hkept.toSameTree
  refine ⟨hsame,?_,?_⟩
  · intro i m n hm hn hps
    have hlinks := links_ps (hsame.links_eq hm hn)
    exact hv.outputs i m n hm (hkept.dw_node hn (hlinks.trans hps)) hps
  · intro i n hn hps
    have hn' := hkept.dw_node hn hps
    have hinput : nodeInput h n = nodeInput f n := by
      rw [nodeInput,nodeInput,parentOutpoint_congr hkept.base]
      intro p hp
      obtain ⟨parent,hparent,-,-,hdw⟩ := hsk.parent_below hv.same hn' hp
      rw [show h.nodes[p]? = some parent from hkept.dw p parent hparent (hdw (Or.inl hps)),
        show f.nodes[p]? = some parent from hparent]
    rw [hinput]
    exact hv.built i n hn' hps

variable {i : ℕ} {n' n : FactoryNode}

theorem rebuilt_node (hsk : Skeleton env g) (hsame : SameTree g f)
    (hn' : (buildAllUnsignedTxs env f).NodeAt i n') : ∃ n, f.NodeAt i n ∧
      n' = buildNodeTx env f (buildAllUnsignedTxs env f).nodes i n := by
  have hmap := congrArg (·[i]?) (buildAllUnsignedTxs_blank env f)
  simp only [List.getElem?_map] at hmap
  rw [show (buildAllUnsignedTxs env f).nodes[i]? = some n' from hn'] at hmap
  obtain ⟨n,hn,-⟩ := map_eq_some_iff.mp hmap.symm
  refine ⟨n,hn,?_⟩
  have hget : (buildAllUnsignedTxs env f).nodes[i]? =
      some (buildNodeTx env f (buildAllUnsignedTxs env f).nodes i n) := by
    refine buildAllUnsignedTxs_get hn fun p hp => ?_
    obtain ⟨-,-,hlt,-⟩ := hsk.parent_below hsame hn hp
    exact hlt
  exact mem_unique hn' hget

theorem sameTree_rebuild (env : Env) (f : Factory) : SameTree f (buildAllUnsignedTxs env f) := by
  refine ⟨rfl,?_⟩
  have hmap := congrArg (List.map FactoryNode.links) (buildAllUnsignedTxs_blank env f)
  simp only [List.map_map] at hmap
  exact hmap

theorem rebuilt_current (hsk : Skeleton env g) (hsame : SameTree g f)
    (hn : (buildAllUnsignedTxs env f).NodeAt i n) :
    n = finishNodeTx env n n.nsequence [nodeInput (buildAllUnsignedTxs env f) n] ∧
      n.nsequence = nodeNsequence env (buildAllUnsignedTxs env f) i n := by
  obtain ⟨m,-,rfl⟩ := rebuilt_node hsk hsame hn
  exact ⟨rfl,rfl⟩

theorem rebuild (hsk : Skeleton env g) (hv : Version env g f) :
    Version env g (buildAllUnsignedTxs env f) ∧ Current env (buildAllUnsignedTxs env f) := by
  refine ⟨⟨hv.same.trans (sameTree_rebuild env f),?_,?_⟩,?_⟩
  · intro i m n' hm hn' hps
    obtain ⟨n,hn,rfl⟩ := rebuilt_node hsk hv.same hn'
    exact hv.outputs i m n hm hn hps
  · intro i n hn _
    exact (rebuilt_current hsk hv.same hn).1
  · intro i n hn _
    exact (rebuilt_current hsk hv.same hn).2

theorem sameTree_rebuildNode (env : Env) (f : Factory) (i : ℕ) :
    SameTree f (rebuildNodeTx env f i) := .modified (fun _ _ => rfl)

theorem rebuildNode_get {j : ℕ} (hn' : (rebuildNodeTx env f i).NodeAt j n') :
    ∃ n, f.NodeAt j n ∧ (i = j ∧ n' = rebuiltNode env f i n ∨ i ≠ j ∧ n' = n) := by
  rw [Factory.NodeAt,rebuildNodeTx,modifyNode_get] at hn'
  obtain ⟨n,hn,heq⟩ := map_eq_some_iff.mp hn'
  refine ⟨n,hn,?_⟩
  by_cases hj : i = j
  · exact Or.inl ⟨hj,by rw [← heq,if_pos hj]⟩
  · exact Or.inr ⟨hj,by rw [← heq,if_neg hj]⟩

theorem rebuiltNode_dw (hps : n.isPsLeaf = false) :
    rebuiltNode env f i n = buildNodeTx env f f.nodes i n := by
  simp [rebuiltNode,buildNodeTx,hps]

theorem rebuildNode (hsk : Skeleton env g) (hv : Version env g f)
    (hleaf : ∀ n, f.NodeAt i n → n.isPsLeaf = false ∧ n.childIndices = []) :
    Version env g (rebuildNodeTx env f i) := by
  have hstep := sameTree_rebuildNode env f i
  have hsame := hv.same.trans hstep
  have hinput : ∀ j n, f.NodeAt j n →
      parentOutpoint (rebuildNodeTx env f i) (rebuildNodeTx env f i).nodes n =
        parentOutpoint f f.nodes n := by
    intro j n hn
    refine parentOutpoint_congr hstep.base ?_
    intro p hp
    obtain ⟨parent,hparent,-,hne,-⟩ := hsk.parent_below hv.same hn hp
    have hother : i ≠ p := by
      rintro rfl
      exact hne (hleaf parent hparent).2
    rw [rebuildNodeTx,Factory.modifyNode,List.getElem?_modify_ne _ _ hother]
  refine ⟨hsame,?_,?_⟩
  · intro j m n' hm hn' hps
    obtain ⟨n,hn,⟨rfl,rfl⟩ | ⟨-,rfl⟩⟩ := rebuildNode_get hn'
    · rw [rebuiltNode_dw (hleaf n hn).1]
      exact hv.outputs i m n hm hn hps
    · exact hv.outputs j m n' hm hn hps
  · intro j n' hn' hps
    obtain ⟨n,hn,⟨rfl,rfl⟩ | ⟨-,rfl⟩⟩ := rebuildNode_get hn'
    · rw [rebuiltNode_dw (hleaf n hn).1]
      have hin : nodeInput (rebuildNodeTx env f i) (buildNodeTx env f f.nodes i n) =
          ⟨(parentOutpoint f f.nodes n).txid,(parentOutpoint f f.nodes n).vout,
            nodeNsequence env f i n⟩ := by
        rw [← hinput i n hn]
        rfl
      rw [hin]
      rfl
    · have hin : nodeInput (rebuildNodeTx env f i) n' = nodeInput f n' := by
        simp only [nodeInput,hinput j n' hn]
      rw [hin]
      exact hv.built j n' hn hps

theorem of_built {b : Block} {k : Factory} (hsk : Skeleton env g) (h : BuiltFrom env k g b) :
    Version env g g ∧ Current env g := by
  obtain rfl := h.result
  have hsame := (sameTree_rebuild env (b.installed k.prepared)).symm
  refine ⟨⟨.refl _,?_,?_⟩,?_⟩
  · intro i m n hm hn _
    rw [mem_unique hm hn]
  · intro i n hn _
    exact (rebuilt_current hsk hsame hn).1
  · intro i n hn _
    exact (rebuilt_current hsk hsame hn).2

end Version

section

variable {env : Env} {g h h' : Factory}

variable {i : ℕ} {n n' : FactoryNode}

theorem Version.tx_of_outpoint (hv : Version env g h) (hv' : Version env g h') (hn : h.NodeAt i n)
    (hn' : h'.NodeAt i n') (hps : n.isPsLeaf = false) (hseq : n'.nsequence = n.nsequence)
    (hout : parentOutpoint h' h'.nodes n' = parentOutpoint h h.nodes n) :
    n'.unsignedTx = n.unsignedTx ∧ n'.txid = n.txid := by
  have hps' := (links_ps ((hv.same.symm.trans hv'.same).links_eq hn hn')).trans hps
  obtain ⟨m,hm,hlinks⟩ := hv.same.symm.node hn
  have hmps := (links_ps hlinks).trans hps
  have htx : unsignedTx [nodeInput h' n'] n'.outputs = unsignedTx [nodeInput h n] n.outputs := by
    simp only [nodeInput,hout,hseq,hv.outputs i m n hm hn hmps,hv'.outputs i m n' hm hn' hmps]
  rw [hv.built i n hn hps,hv'.built i n' hn' hps']
  exact ⟨htx,congrArg (Tx.txid env.secp.sha256) htx⟩

theorem Version.same_outpoint (hsk : Skeleton env g) (hv : Version env g h) (hv' : Version env g h')
    (hn : h.NodeAt i n) (hn' : h'.NodeAt i n') (hdw : n.isPsLeaf = false ∨ n.type ≠ .psSubfactory)
    (habove : ∀ a m m', g.Above a i → h.NodeAt a m → h'.NodeAt a m' → m.isPsLeaf = false →
      m'.nsequence = m.nsequence) :
    parentOutpoint h' h'.nodes n' = parentOutpoint h h.nodes n := by
  induction i using Nat.strong_induction_on generalizing n n' with
  | h i ih =>
    have hsame := hv.same.symm.trans hv'.same
    have hlinks := hsame.links_eq hn hn'
    obtain ⟨m,hm,hmlinks⟩ := hv.same.symm.node hn
    have hcongr := parentOutpoint_congr hsame.base (fun p hp => by
      obtain ⟨parent,hparent,hlt,-,hbelow⟩ := hsk.parent_below hv.same hn hp
      obtain ⟨parent',hparent',-⟩ := hsame.node hparent
      have hps := hbelow hdw
      have hstep : g.IsParent p i := ⟨m,hm,(links_parent hmlinks).trans hp⟩
      have hout := ih p hlt hparent hparent' (Or.inl hps)
        (fun a x x' ha => habove a x x' (ha.tail hstep))
      have hseq := habove p parent parent' (.single hstep) hparent hparent' hps
      rw [show h'.nodes[p]? = some parent' from hparent',
        show h.nodes[p]? = some parent from hparent,map_some,map_some,
        (hv.tx_of_outpoint hv' hparent hparent' hps hseq hout).2])
    rw [← hcongr,parentOutpoint,parentOutpoint,links_parent hlinks,links_vout hlinks]

theorem Version.same_tx (hsk : Skeleton env g) (hv : Version env g h) (hv' : Version env g h')
    (hn : h.NodeAt i n) (hn' : h'.NodeAt i n') (hps : n.isPsLeaf = false)
    (hseq : n'.nsequence = n.nsequence)
    (habove : ∀ a m m', g.Above a i → h.NodeAt a m → h'.NodeAt a m' → m.isPsLeaf = false →
      m'.nsequence = m.nsequence) : n'.unsignedTx = n.unsignedTx :=
  (hv.tx_of_outpoint hv' hn hn' hps hseq
    (hv.same_outpoint hsk hv' hn hn' (Or.inl hps) habove)).1

end

end SuperScalar
