import SuperScalar.Factory.Sighash

namespace SuperScalar

open Bitcoin List Option Nat Factory

inductive SpendLink (past : List Factory) (h : Factory) (i : ℕ) (n : FactoryNode) : Prop
  | onParent (hfree : ¬Chained n) (hinputs : n.unsignedTx.inputs = [(nodeInput h n).toTxIn])
  | onChannel {old : Factory} {m : FactoryNode} {out : TxOut} (hchained : Chained n)
      (htype : n.type ≠ .psSubfactory) (hold : old ∈ past) (hm : old.NodeAt i m)
      (hprev : m.txid = n.psPrevTxid) (hout : m.unsignedTx.outputs[0]? = some out)
      (hamount : out.amount = n.psPrevChanAmount)
      (hscript : n.outputs.head?.map TxOut.script = some out.script)
      (hinputs : n.unsignedTx.inputs = [⟨⟨n.psPrevTxid,0⟩,[],n.nsequence⟩])
  | onStock {old : Factory} {m : FactoryNode} (hchained : Chained n)
      (htype : n.type = .psSubfactory) (hold : old ∈ past) (hm : old.NodeAt i m)
      (hprev : m.txid = n.psPrevTxid) (houts : m.unsignedTx.outputs = n.psPrevOutputs)
      (hcount : n.psNPrevOutputs = n.psPrevOutputs.length) (hmany : 1 < n.psPrevOutputs.length)
      (hinputs : n.unsignedTx.inputs = (chainInputs n n.nsequence).map TxInput.toTxIn)

structure Made (env : Env) (n : FactoryNode) : Prop where
  tx : ∃ inputs, n.unsignedTx = unsignedTx inputs n.outputs
  txid : n.txid = n.unsignedTx.txid env.secp.sha256

structure LinkState (env : Env) (g : Factory) (past : List Factory) (h : Factory) : Prop where
  tree : SameTree g h
  here : h ∈ past
  made : ∀ i n, h.NodeAt i n → Made env n
  slots : ∀ i n p parent, h.NodeAt i n → n.parentIndex = some p → h.NodeAt p parent →
    n.parentVout < parent.outputs.length
  listed : ∀ i n, h.NodeAt i n → Chained n → n.type ≠ .psSubfactory → h.listsLeaf i = true
  link : ∀ i n, h.NodeAt i n → SpendLink past h i n

section

variable {env : Env} {g h h' : Factory} {past past' : List Factory} {i : ℕ} {n : FactoryNode}

theorem Made.outputs (h : Made env n) : n.unsignedTx.outputs = n.outputs := by
  obtain ⟨inputs,htx⟩ := h.tx
  rw [htx]
  rfl

theorem SpendLink.move (hlink : SpendLink past h i n) (hpast : past ⊆ past')
    (hparent : parentOutpoint h' h'.nodes n = parentOutpoint h h.nodes n) : SpendLink past' h' i n := by
  cases hlink with
  | onParent hfree hinputs =>
    refine .onParent hfree ?_
    simp only [hinputs,nodeInput,hparent]
  | onChannel hchained htype hold hm hprev hout hamount hscript hinputs =>
    exact .onChannel hchained htype (hpast hold) hm hprev hout hamount hscript hinputs
  | onStock hchained htype hold hm hprev houts hcount hmany hinputs =>
    exact .onStock hchained htype (hpast hold) hm hprev houts hcount hmany hinputs

theorem SpendLink.of_chained (hlink : SpendLink past h i n) (hpast : past ⊆ past') (hchained : Chained n) :
    SpendLink past' h' i n := by
  cases hlink with
  | onParent hfree => exact absurd hchained hfree
  | onChannel _ htype hold hm hprev hout hamount hscript hinputs =>
    exact .onChannel hchained htype (hpast hold) hm hprev hout hamount hscript hinputs
  | onStock _ htype hold hm hprev houts hcount hmany hinputs =>
    exact .onStock hchained htype (hpast hold) hm hprev houts hcount hmany hinputs

theorem SpendLink.confirm (hlink : SpendLink past h i n) (height : UInt32) :
    SpendLink past h i { n with psChainConfirmedHeight := height } := by
  cases hlink with
  | onParent hfree hinputs => exact .onParent hfree hinputs
  | onChannel hchained htype hold hm hprev hout hamount hscript hinputs =>
    exact .onChannel hchained htype hold hm hprev hout hamount hscript hinputs
  | onStock hchained htype hold hm hprev houts hcount hmany hinputs =>
    exact .onStock hchained htype hold hm hprev houts hcount hmany hinputs

theorem forall₂_range {α : Type} (xs : List α) :
    Forall₂ (fun k x => xs[k]? = some x) (range xs.length) xs := by
  refine forall₂_iff_get.mpr ⟨length_range,fun k hk hk' => ?_⟩
  simp only [get_eq_getElem,getElem_range]
  exact getElem?_eq_getElem hk'

theorem nodePrevOutput_free (hfree : ¬Chained n) : nodePrevOutput h n =
    match n.parentIndex with
    | none => some ⟨h.fundingAmountSats,h.fundingSpk⟩
    | some p => (h.nodes[p]?).bind (fun parent => parent.outputs[n.parentVout]?) := if_neg hfree

theorem onParent_meant (hsk : Skeleton env g) (hs : LinkState env g past h) (hn : h.NodeAt i n)
    (hfree : ¬Chained n) : ∃ out, nodePrevOutput h n = some out ∧
      Meant past h i n (parentOutpoint h h.nodes n) out := by
  rw [nodePrevOutput_free hfree,parentOutpoint]
  cases hp : n.parentIndex with
  | none => exact ⟨_,rfl,.funding hfree hp⟩
  | some p =>
    obtain ⟨parent,hparent,-⟩ := hsk.parent_below hs.tree hn hp
    have hlt := hs.slots i n p parent hn hp hparent
    have hget := getElem?_eq_getElem hlt
    refine ⟨parent.outputs[n.parentVout],?_,?_⟩
    · dsimp only
      rw [show h.nodes[p]? = some parent from hparent]
      exact hget
    · dsimp only
      rw [show h.nodes[p]? = some parent from hparent]
      refine .parent hfree hp hparent ?_
      rw [(hs.made p parent hparent).outputs]
      exact hget

theorem onChannel_meant {old : Factory} {m : FactoryNode} {out : TxOut} (hchained : Chained n)
    (htype : n.type ≠ .psSubfactory) (hold : old ∈ past) (hm : old.NodeAt i m)
    (hprev : m.txid = n.psPrevTxid) (hout : m.unsignedTx.outputs[0]? = some out)
    (hamount : out.amount = n.psPrevChanAmount)
    (hscript : n.outputs.head?.map TxOut.script = some out.script) :
    nodePrevOutput h n = some out ∧ Meant past h i n ⟨n.psPrevTxid,0⟩ out := by
  obtain ⟨first,hfirst,hsame⟩ := map_eq_some_iff.mp hscript
  constructor
  · have hget : nodePrevOutput h n =
        (if n.type = .psSubfactory then n.outputs.getLast? else n.outputs.head?).map
          (fun o => { o with amount := n.psPrevChanAmount }) := if_pos hchained
    rw [hget,if_neg htype,hfirst,map_some,← hamount,hsame]
  · rw [← hprev]
    exact .chain hchained hold hm hprev hout

theorem single_signs {o : OutPoint} {out : TxOut}
    (hinputs : n.unsignedTx.inputs = [⟨o,[],n.nsequence⟩])
    (hsingle : ¬(n.isPsLeaf = true ∧ n.psChainLen > 0 ∧ n.type = .psSubfactory ∧
      n.psNPrevOutputs > 1))
    (hout : nodePrevOutput h n = some out) (hmeant : Meant past h i n o out) :
    SignsWhatItSpends past h i n := by
  have hsighash : computeNodeSighash h n = some ⟨0,[⟨out.script,out.amount,n.nsequence⟩]⟩ := by
    rw [computeNodeSighash,hout,map_some]
  have hcommits : Commits past h i n ⟨0,[⟨out.script,out.amount,n.nsequence⟩]⟩ := by
    rw [Commits,hinputs]
    exact .cons ⟨hmeant,rfl⟩ .nil
  constructor
  · intro j hj
    rw [hinputs,length_singleton,lt_one_iff] at hj
    subst hj
    refine ⟨_,?_,rfl,hcommits⟩
    rw [computeNodeSighashInput,if_neg hsingle,if_neg (fun hne => hne rfl),hsighash]
  · rw [hinputs]
    exact iff_of_true ⟨_,hsighash,hcommits⟩ rfl

theorem stock_signs {old : Factory} {m : FactoryNode} (hchained : Chained n)
    (htype : n.type = .psSubfactory) (hold : old ∈ past) (hm : old.NodeAt i m)
    (hprev : m.txid = n.psPrevTxid) (houts : m.unsignedTx.outputs = n.psPrevOutputs)
    (hcount : n.psNPrevOutputs = n.psPrevOutputs.length) (hmany : 1 < n.psPrevOutputs.length)
    (hinputs : n.unsignedTx.inputs = (chainInputs n n.nsequence).map TxInput.toTxIn) :
    SignsWhatItSpends past h i n := by
  have hseveral := hcount ▸ hmany
  have hins : n.unsignedTx.inputs = (range n.psPrevOutputs.length).map (fun k =>
      (⟨⟨n.psPrevTxid,UInt32.ofNat k⟩,[],n.nsequence⟩ : TxIn)) := by
    rw [hinputs,chainInputs,if_pos ⟨htype,hseveral⟩,List.map_map,hcount]
    rfl
  have hlength : n.unsignedTx.inputs.length = n.psPrevOutputs.length := by
    rw [hins,length_map,length_range]
  constructor
  · intro j hj
    refine ⟨⟨j,n.psPrevOutputs.map fun o => ⟨o.script,o.amount,n.nsequence⟩⟩,?_,rfl,?_⟩
    · rw [computeNodeSighashInput,if_pos ⟨hchained.1,hchained.2,htype,hseveral⟩,hcount,
        if_neg (not_le.mpr (hlength ▸ hj)),take_length]
    · rw [Commits,hins,forall₂_map_left_iff,forall₂_map_right_iff]
      refine (forall₂_range n.psPrevOutputs).imp fun k o ho => ⟨?_,rfl⟩
      rw [← hprev]
      exact .chain hchained hold hm hprev (houts ▸ ho)
  · refine iff_of_false ?_ (by omega)
    rintro ⟨args,hsighash,hcommits⟩
    obtain ⟨out,-,rfl⟩ := map_eq_some_iff.mp hsighash
    have hone := Forall₂.length_eq hcommits
    rw [hlength,length_singleton] at hone
    omega

theorem LinkState.signs (hsk : Skeleton env g) (hs : LinkState env g past h) (hn : h.NodeAt i n) :
    SignsWhatItSpends past h i n := by
  cases hs.link i n hn with
  | onParent hfree hinputs =>
    obtain ⟨out,hout,hmeant⟩ := onParent_meant hsk hs hn hfree
    exact single_signs hinputs (fun hmany => hfree ⟨hmany.1,hmany.2.1⟩) hout hmeant
  | onChannel hchained htype hold hm hprev hout hamount hscript hinputs =>
    obtain ⟨hget,hmeant⟩ := onChannel_meant hchained htype hold hm hprev hout hamount hscript
    exact single_signs hinputs (fun hmany => htype hmany.2.2.1) hget hmeant
  | onStock hchained htype hold hm hprev houts hcount hmany hinputs =>
    exact stock_signs hchained htype hold hm hprev houts hcount hmany hinputs

end

section

variable {env : Env} {g f : Factory} {past : List Factory} {op : FactoryOp}

theorem opFits_resets (h : opFits f op) {n : FactoryNode} (hn : n ∈ f.nodes) :
    op.resets n = false := by
  cases op with
  | resetAllSubfactoryChains => exact h n hn
  | resetSubfactoryChainsAboveHeight => exact h n hn
  | _ => rfl

theorem LinkState.still (hs : LinkState env g past f) (hfits : opFits f op) {f' : Factory}
    (h : Restamped op f f') : LinkState env g (f' :: past) f' := by
  have hbefore : ∀ {i : ℕ} {n' : FactoryNode}, f'.NodeAt i n' → ∃ n, f.NodeAt i n ∧
      (n' = n ∨ ∃ height, n' = { n with psChainConfirmedHeight := height }) := by
    intro i n' hn'
    obtain ⟨n,hn,hstamp⟩ := rel_before (h.nodes i) hn'
    refine ⟨n,hn,?_⟩
    cases hstamp with
    | same => exact .inl rfl
    | confirmed height => exact .inr ⟨height,rfl⟩
    | reset _ hreset =>
      rw [opFits_resets hfits (mem_of_getElem? hn)] at hreset
      cases hreset
  refine ⟨hs.tree.trans h.sameTree,mem_cons_self,?_,?_,?_,?_⟩
  · intro i n' hn'
    obtain ⟨n,hn,rfl | ⟨height,rfl⟩⟩ := hbefore hn'
    · exact hs.made i n' hn
    · exact ⟨(hs.made i n hn).tx,(hs.made i n hn).txid⟩
  · intro i n' p parent' hn' hp hparent'
    obtain ⟨parent,hparent,hsame⟩ := h.before hparent'
    rw [hsame.outputs]
    obtain ⟨n,hn,rfl | ⟨height,rfl⟩⟩ := hbefore hn'
    · exact hs.slots i n' p parent hn hp hparent
    · exact hs.slots i n p parent hn hp hparent
  · intro i n' hn' hchained htype
    rw [listsLeaf_congr h.base]
    obtain ⟨n,hn,rfl | ⟨height,rfl⟩⟩ := hbefore hn'
    · exact hs.listed i n' hn hchained htype
    · exact hs.listed i n hn hchained htype
  · intro i n' hn'
    have hparent : ∀ n, parentOutpoint f' f'.nodes n = parentOutpoint f f.nodes n :=
      fun n => parentOutpoint_congr h.base fun p _ => h.txids p
    obtain ⟨n,hn,rfl | ⟨height,rfl⟩⟩ := hbefore hn'
    · exact (hs.link i n' hn).move (subset_cons_self _ _) (hparent n')
    · exact ((hs.link i n hn).move (subset_cons_self _ _) (hparent n)).confirm height

theorem made_finish (n : FactoryNode) (s : UInt32) (inputs : List TxInput) :
    Made env (finishNodeTx env n s inputs) := ⟨⟨inputs,rfl⟩,rfl⟩

theorem sameCoins_length {n m : FactoryNode} (h : SameCoins n m) :
    m.outputs.length = n.outputs.length := by
  have hlength := congrArg length h.amounts
  rwa [length_map,length_map] at hlength

theorem LinkState.rebuilt {k : Factory} (hsk : Skeleton env g) (htree : SameTree g k)
    (hfree : ∀ i m, k.NodeAt i m → ¬Chained m)
    (hslots : ∀ i n p parent, k.NodeAt i n → n.parentIndex = some p → k.NodeAt p parent →
      n.parentVout < parent.outputs.length) :
    LinkState env g (buildAllUnsignedTxs env k :: past) (buildAllUnsignedTxs env k) := by
  refine ⟨htree.trans (Version.sameTree_rebuild env k),mem_cons_self,?_,?_,?_,?_⟩
  · intro i n' hn'
    obtain ⟨m,-,rfl⟩ := Version.rebuilt_node hsk htree hn'
    exact made_finish _ _ _
  · intro i n' p parent' hn' hp hparent'
    obtain ⟨m,hm,rfl⟩ := Version.rebuilt_node hsk htree hn'
    obtain ⟨parent,hparent,rfl⟩ := Version.rebuilt_node hsk htree hparent'
    exact hslots i m p parent hm hp hparent
  · intro i n' hn' hchained
    obtain ⟨m,hm,rfl⟩ := Version.rebuilt_node hsk htree hn'
    exact absurd hchained (hfree i m hm)
  · intro i n' hn'
    have hcurrent := (Version.rebuilt_current hsk htree hn').1
    obtain ⟨m,hm,rfl⟩ := Version.rebuilt_node hsk htree hn'
    exact .onParent (hfree i m hm) (congrArg (fun x => x.unsignedTx.inputs) hcurrent)

theorem LinkState.redrawn {k : Factory} (hsk : Skeleton env g) (hs : LinkState env g past f)
    (hchains : ∀ i n, f.NodeAt i n → Chained n → op.putsBack f i n = true) (hk : Redrawn f k)
    (hback : ∀ i n m, f.NodeAt i n → k.NodeAt i m → op.putsBack f i n = true → m.psChainLen = 0) :
    LinkState env g (buildAllUnsignedTxs env k :: past) (buildAllUnsignedTxs env k) := by
  refine .rebuilt hsk (hs.tree.trans hk.sameTree) ?_ ?_
  · rintro i m hm ⟨hps,hlen⟩
    obtain ⟨n,hn,hcoins⟩ := rel_before (hk.nodes i) hm
    obtain ⟨hsame,-⟩ := hcoins.chain.resolve_left (ne_of_gt hlen)
    have hchained : Chained n := ⟨(links_ps hcoins.links).symm.trans hps,hsame ▸ hlen⟩
    exact ne_of_gt hlen (hback i n m hn hm (hchains i n hn hchained))
  · intro i m p parent' hm hp hparent'
    obtain ⟨n,hn,hcoins⟩ := rel_before (hk.nodes i) hm
    obtain ⟨parent,hparent,hcoins'⟩ := rel_before (hk.nodes p) hparent'
    rw [sameCoins_length hcoins',links_vout hcoins.links]
    exact hs.slots i n p parent hn ((links_parent hcoins.links).symm.trans hp) hparent

theorem zipWith_head_script {outs : List TxOut} {amounts : List UInt64}
    (h : amounts.length = outs.length) :
    (zipWith (fun (o : TxOut) a => { o with amount := a }) outs amounts).head?.map
      TxOut.script = outs.head?.map TxOut.script := by
  cases outs with
  | nil => rfl
  | cons =>
    cases amounts with
    | nil => cases h
    | cons => rfl

section

variable {k : Factory} {i : ℕ} {n m : FactoryNode} (hsk : Skeleton env g)
  (hs : LinkState env g past f) (hn : f.NodeAt i n) (hbase : k.base = f.base)
  (hnodes : k.nodes = f.nodes.set i m)

include hsk hs hn in
theorem childless_parent (hnone : n.childIndices = []) {j p : ℕ} {x : FactoryNode}
    (hx : f.NodeAt j x) (hp : x.parentIndex = some p) : i ≠ p := by
  rintro rfl
  obtain ⟨parent,hparent,-,hne,-⟩ := hsk.parent_below hs.tree hx hp
  obtain rfl := mem_unique hparent hn
  exact hne hnone

include hsk hs hn hbase hnodes in
theorem single_outpoint (hnone : n.childIndices = []) {j : ℕ} {x : FactoryNode}
    (hx : f.NodeAt j x) :
    parentOutpoint (rebuildNodeTx env k i) (rebuildNodeTx env k i).nodes x =
      parentOutpoint f f.nodes x := by
  refine parentOutpoint_congr hbase fun p hp => ?_
  rw [single_other hnodes (childless_parent hsk hs hn hnone hx hp)]

include hsk hs hn hbase hnodes in
theorem LinkState.single (hlinks : m.links = n.links) (hnone : n.childIndices = [])
    (hlisted : Chained m → m.type ≠ .psSubfactory → f.listsLeaf i = true)
    (hlink : SpendLink (rebuildNodeTx env k i :: past) (rebuildNodeTx env k i) i
      (rebuiltNode env k i m)) :
    LinkState env g (rebuildNodeTx env k i :: past) (rebuildNodeTx env k i) := by
  have hself : (rebuildNodeTx env k i).nodes[i]? = some (rebuiltNode env k i m) :=
    single_node hn hnodes
  have hcases : ∀ {j : ℕ} {x : FactoryNode}, (rebuildNodeTx env k i).NodeAt j x →
      (i = j ∧ x = rebuiltNode env k i m) ∨ (i ≠ j ∧ f.NodeAt j x) := by
    intro j x hx
    by_cases hj : i = j
    · subst hj
      exact .inl ⟨rfl,mem_unique hx hself⟩
    · exact .inr ⟨hj,(single_other hnodes hj).symm.trans hx⟩
  refine ⟨hs.tree.trans (single_sameTree hn hbase hnodes env hlinks),mem_cons_self,?_,?_,?_,?_⟩
  · intro j x hx
    obtain ⟨rfl,rfl⟩ | ⟨-,hx⟩ := hcases hx
    · exact made_finish _ _ _
    · exact hs.made j x hx
  · intro j x p parent hx hp hparent
    obtain ⟨y,hy,hyp,hyv⟩ : ∃ y, f.NodeAt j y ∧ y.parentIndex = some p ∧
        y.parentVout = x.parentVout := by
      obtain ⟨rfl,rfl⟩ | ⟨-,hx⟩ := hcases hx
      · exact ⟨n,hn,(links_parent hlinks).symm.trans hp,(links_vout hlinks).symm⟩
      · exact ⟨x,hx,hp,rfl⟩
    have hother := childless_parent hsk hs hn hnone hy hyp
    obtain ⟨heq,-⟩ | ⟨-,hparent⟩ := hcases hparent
    · exact absurd heq hother
    · rw [← hyv]
      exact hs.slots j y p parent hy hyp hparent
  · intro j x hx hchained htype
    rw [listsLeaf_congr (show (rebuildNodeTx env k i).base = f.base from hbase)]
    obtain ⟨rfl,rfl⟩ | ⟨-,hx⟩ := hcases hx
    · exact hlisted hchained htype
    · exact hs.listed j x hx hchained htype
  · intro j x hx
    obtain ⟨rfl,rfl⟩ | ⟨-,hx⟩ := hcases hx
    · exact hlink
    · exact (hs.link j x hx).move (subset_cons_self _ _)
        (single_outpoint hsk hs hn hbase hnodes hnone hx)

include hsk hs hn hnodes in
theorem rebuilt_onParent (hlinks : m.links = n.links) (hnone : n.childIndices = [])
    (hfree : ¬Chained m) : SpendLink (rebuildNodeTx env k i :: past) (rebuildNodeTx env k i) i
      (rebuiltNode env k i m) := by
  refine .onParent hfree ?_
  have hinputs : (rebuiltNode env k i m).unsignedTx.inputs =
      [⟨parentOutpoint k k.nodes m,[],nodeNsequence env k i m⟩] := by
    exact congrArg (map TxInput.toTxIn) (if_neg hfree)
  have hsame : parentOutpoint (rebuildNodeTx env k i) (rebuildNodeTx env k i).nodes m =
      parentOutpoint k k.nodes m := by
    refine parentOutpoint_congr rfl fun p hp => ?_
    have hother := childless_parent hsk hs hn hnone hn ((links_parent hlinks).symm.trans hp)
    rw [single_other hnodes hother,hnodes,getElem?_set_ne hother]
  rw [hinputs,← hsame]
  rfl

theorem rebuilt_chain (hchained : Chained m) : (rebuiltNode env k i m).unsignedTx.inputs =
    (chainInputs m (nodeNsequence env k i m)).map TxInput.toTxIn :=
  congrArg (map TxInput.toTxIn) (if_pos hchained)

theorem rebuilt_channel (hchained : Chained m) (htype : m.type ≠ .psSubfactory) :
    (rebuiltNode env k i m).unsignedTx.inputs =
      [⟨⟨m.psPrevTxid,0⟩,[],nodeNsequence env k i m⟩] := by
  rw [rebuilt_chain hchained,chainInputs,if_neg fun h => htype h.1,if_neg htype]
  rfl

include hsk hs hn hbase hnodes in
theorem LinkState.nodeStep (hm : NodeStep f op i n m) (hfits : opFits f op) :
    LinkState env g (rebuildNodeTx env k i :: past) (rebuildNodeTx env k i) := by
  have hcount := hs.tree.nLeafNodes
  cases hm with
  | @restock _ l _ _ hside hdw hcoins =>
    have hi := hs.tree.leafNode l
    have hnone := hsk.dw_childless hs.tree (hcount ▸ hside) (hi ▸ hn) hdw
    have hfree : ¬Chained m := fun hchained =>
      absurd (hdw.symm.trans ((links_ps hcoins.links).symm.trans hchained.1)) (by decide)
    exact hs.single hsk hn hbase hnodes hcoins.links hnone (fun hchained => absurd hchained hfree)
      (rebuilt_onParent hsk hs hn hnodes hcoins.links hnone hfree)
  | @reprice l _ _ hside hlength =>
    have hi := hs.tree.leafNode l
    have htype := hsk.leaf_state hs.tree (hcount ▸ hside) (hi ▸ hn)
    have hnot : n.type ≠ .psSubfactory := by
      rw [htype]
      decide
    have hnone : n.childIndices = [] := by
      cases hps : n.isPsLeaf with
      | true => exact hfits hside n hn hps
      | false => exact hsk.dw_childless hs.tree (hcount ▸ hside) (hi ▸ hn) hps
    have hlisted := leafNode_listed hside
    refine hs.single hsk hn hbase hnodes rfl hnone (fun _ _ => hlisted) ?_
    by_cases hchained : Chained n
    · cases hs.link _ n hn with
      | onParent hfree => exact absurd hchained hfree
      | onStock _ hsub => exact absurd hsub hnot
      | onChannel _ _ hold hm hprev hout hamount hscript =>
        refine .onChannel hchained hnot (mem_cons_of_mem _ hold) hm hprev hout hamount ?_
          (rebuilt_channel hchained hnot)
        rw [← hscript]
        exact zipWith_head_script hlength
    · exact rebuilt_onParent hsk hs hn hnodes rfl hnone hchained
  | @extend _ l _ o _ hside hps houts _ hop hkeeps =>
    have hi := hs.tree.leafNode l
    have htype := hsk.leaf_state hs.tree (hcount ▸ hside) (hi ▸ hn)
    have hnot : n.type ≠ .psSubfactory := by
      rw [htype]
      decide
    have hnone : n.childIndices = [] := by
      rcases hop with rfl | ⟨signed,rfl⟩
      · have hfit := hfits hside n hn hps
        rw [hkeeps] at hfit
        exact hfit.1
      · exact (hfits hside n hn hps).1
    have hlisted := leafNode_listed hside
    have hchained : Chained { psChainStep n with
        outputs := [{ o with amount := o.amount-f.feePerTx }] } := ⟨hps,succ_pos _⟩
    refine hs.single hsk hn hbase hnodes rfl hnone (fun _ _ => hlisted) ?_
    have hout : n.unsignedTx.outputs[0]? = some o := by
      rw [(hs.made _ n hn).outputs,houts]
      rfl
    refine .onChannel hchained hnot (mem_cons_of_mem _ hs.here) hn rfl hout ?_ rfl
      (rebuilt_channel hchained hnot)
    change o.amount = (n.outputs.head?.map TxOut.amount).getD 0
    rw [houts]
    rfl
  | @sell _ _ channelIdx _ delta _ htype hps hlength =>
    have hnone := hsk.sub_childless hs.tree hn htype
    have hchained : Chained (subChainStep f n channelIdx delta
        ((n.outputs.getLast?.map TxOut.amount).getD 0)) := ⟨hps,succ_pos _⟩
    refine hs.single hsk hn hbase hnodes rfl hnone (fun _ hnot => absurd htype hnot) ?_
    exact .onStock hchained htype (mem_cons_of_mem _ hs.here) hn rfl
      (hs.made _ n hn).outputs rfl hlength (rebuilt_chain hchained)

end

end

section

variable {env : Env} {g k : Factory} {past : List Factory} {moved : Bool} {p : ℕ} {rest : List ℕ}

theorem walkUp_nodes (hsk : Skeleton env g) (htree : SameTree g k) (fuel : ℕ) {idx : ℕ}
    {n : FactoryNode} (hn : k.NodeAt idx n) :
    (walkUp k fuel idx).Pairwise (· > ·) ∧
      ∀ q ∈ walkUp k fuel idx, q ≤ idx ∧ ∃ x, k.NodeAt q x := by
  induction fuel generalizing idx n with
  | zero => exact ⟨.nil,nofun⟩
  | succ _ ih =>
    unfold walkUp
    rw [show k.nodes[idx]? = some n from hn,bind_some]
    cases hp : n.parentIndex with
    | none =>
      refine ⟨pairwise_singleton _ _,fun q hq => ?_⟩
      obtain rfl := mem_singleton.mp hq
      exact ⟨le_rfl,n,hn⟩
    | some =>
      obtain ⟨parent,hparent,hlt,-⟩ := hsk.parent_below htree hn hp
      obtain ⟨hsorted,hbelow⟩ := ih hparent
      refine ⟨.cons (fun q hq => (hbelow q hq).1.trans_lt hlt) hsorted,fun q hq => ?_⟩
      rcases mem_cons.mp hq with rfl | hq
      · exact ⟨le_rfl,n,hn⟩
      · exact ⟨((hbelow q hq).1.trans_lt hlt).le,(hbelow q hq).2⟩

theorem path_nodes (hsk : Skeleton env g) (htree : SameTree g k) (startIdx : ℕ) :
    (factoryCollectPathToRoot k startIdx).Pairwise (· < ·) ∧
      ∀ q ∈ factoryCollectPathToRoot k startIdx, ∃ x, k.NodeAt q x := by
  unfold factoryCollectPathToRoot
  split_ifs with hstart
  · exact ⟨.nil,nofun⟩
  · have hn := getElem?_eq_getElem (not_le.mp hstart)
    obtain ⟨hsorted,hbelow⟩ := walkUp_nodes hsk htree factoryMaxNodes hn
    exact ⟨pairwise_reverse.mpr hsorted,fun q hq => (hbelow q (mem_reverse.mp hq)).2⟩

structure SameButTx (x y : FactoryNode) : Prop where
  links : y.links = x.links
  outputs : y.outputs = x.outputs
  chained : Chained y ↔ Chained x

theorem rebuildPath_get {j : ℕ} {y : FactoryNode} (hy : (rebuildPathNode env k p).NodeAt j y) :
    ∃ x, k.NodeAt j x ∧ SameButTx x y ∧ (p ≠ j → y = x) ∧
      (p = j → y = { buildNodeTx env k k.nodes p x with isBuilt := x.isBuilt }) := by
  rw [NodeAt,rebuildPathNode,modifyNode_get] at hy
  obtain ⟨x,hx,rfl⟩ := map_eq_some_iff.mp hy
  refine ⟨x,hx,?_,fun hj => if_neg hj,fun hj => if_pos hj⟩
  split_ifs
  · exact ⟨rfl,rfl,Iff.rfl⟩
  · exact ⟨rfl,rfl,Iff.rfl⟩

theorem pathFits_rebuild (hp : p ∉ rest) (h : pathFits env k moved rest) :
    pathFits env (rebuildPathNode env k p) moved rest := by
  induction rest generalizing moved with
  | nil => trivial
  | cons _ _ ih =>
    intro y hy
    obtain ⟨x,hx,-,hother,-⟩ := rebuildPath_get hy
    obtain rfl := hother (ne_of_not_mem_cons hp)
    obtain ⟨hfree,hside,hrest⟩ := h y hx
    refine ⟨hfree,fun hmoved j z hz hparent hj => ?_,ih (not_mem_of_not_mem_cons hp) hrest⟩
    obtain ⟨w,hw,hsame,-⟩ := rebuildPath_get hz
    exact hsame.chained.mpr (hside hmoved j w hw ((links_parent hsame.links).symm.trans hparent) hj)

structure PathState (env : Env) (g : Factory) (past : List Factory) (moved : Bool)
    (rest : List ℕ) (k : Factory) : Prop where
  tree : SameTree g k
  made : ∀ i n, k.NodeAt i n → Made env n
  slots : ∀ i n p parent, k.NodeAt i n → n.parentIndex = some p → k.NodeAt p parent →
    n.parentVout < parent.outputs.length
  listed : ∀ i n, k.NodeAt i n → Chained n → n.type ≠ .psSubfactory → k.listsLeaf i = true
  link : ∀ i n, k.NodeAt i n → SpendLink past k i n ∨ moved = true ∧ i ∈ rest

theorem rebuildPath_same {n : FactoryNode} (hn : k.NodeAt p n) (hmade : Made env n)
    (hlink : SpendLink past k p n) (hfree : ¬Chained n) (hseq : n.nsequence = nodeNsequence env k p n) :
    rebuildPathNode env k p = k := by
  have hinputs : n.unsignedTx.inputs = [(nodeInput k n).toTxIn] := by
    cases hlink with
    | onParent _ hinputs => exact hinputs
    | onChannel hchained => exact absurd hchained hfree
    | onStock hchained => exact absurd hchained hfree
  have htx : unsignedTx [nodeInput k n] n.outputs = n.unsignedTx := by
    obtain ⟨inputs,htx⟩ := hmade.tx
    rw [htx] at hinputs ⊢
    have hsame : inputs.map TxInput.toTxIn = [nodeInput k n].map TxInput.toTxIn := hinputs
    simp only [unsignedTx,hsame]
  have hnode : ({ buildNodeTx env k k.nodes p n with isBuilt := n.isBuilt } : FactoryNode) = n := by
    have hbuild : buildNodeTx env k k.nodes p n =
        finishNodeTx env n n.nsequence [nodeInput k n] := by
      rw [buildNodeTx,← hseq]
      rfl
    rw [hbuild,finishNodeTx,htx,← hmade.txid]
  have hnodes : (rebuildPathNode env k p).nodes = k.nodes := by
    obtain ⟨hlt,hget⟩ := List.getElem?_eq_some_iff.mp hn
    rw [rebuildPathNode,modifyNode_at hn,hnode,← hget,set_getElem_self]
  calc rebuildPathNode env k p = { k with nodes := (rebuildPathNode env k p).nodes } := rfl
    _ = k := by rw [hnodes]

theorem PathState.step (hsk : Skeleton env g) (hs : PathState env g past moved (p :: rest) k)
    (hfits : pathFits env k moved (p :: rest)) {n : FactoryNode} (hn : k.NodeAt p n) :
    PathState env g past (moved || decide (n.nsequence ≠ nodeNsequence env k p n)) rest
      (rebuildPathNode env k p) := by
  obtain ⟨hfree,hside,-⟩ := hfits n hn
  cases hnext : moved || decide (n.nsequence ≠ nodeNsequence env k p n) with
  | false =>
    obtain ⟨hmoved,hseq⟩ := Bool.or_eq_false_iff.mp hnext
    have hlink : ∀ i x, k.NodeAt i x → SpendLink past k i x := by
      intro i x hx
      refine (hs.link i x hx).resolve_right fun hpending => ?_
      rw [hmoved] at hpending
      cases hpending.1
    rw [rebuildPath_same hn (hs.made p n hn) (hlink p n hn) hfree
      (not_not.mp (of_decide_eq_false hseq))]
    exact ⟨hs.tree,hs.made,hs.slots,hs.listed,fun i x hx => .inl (hlink i x hx)⟩
  | true =>
    have hmoved : moved = true ∨ n.nsequence ≠ nodeNsequence env k p n := by
      rcases Bool.or_eq_true_iff.mp hnext with h | h
      · exact .inl h
      · exact .inr (of_decide_eq_true h)
    have houtpoint : ∀ x : FactoryNode, x.parentIndex ≠ some p →
        parentOutpoint (rebuildPathNode env k p) (rebuildPathNode env k p).nodes x =
          parentOutpoint k k.nodes x := by
      intro x hx
      refine parentOutpoint_congr rfl fun q hq => ?_
      have hother : p ≠ q := by
        rintro rfl
        exact hx hq
      rw [rebuildPathNode,modifyNode,getElem?_modify_ne _ _ hother]
    refine ⟨hs.tree.trans (.modified fun _ _ => rfl),?_,?_,?_,?_⟩
    · intro j y hy
      obtain ⟨x,hx,-,hother,hself⟩ := rebuildPath_get hy
      by_cases hj : p = j
      · rw [hself hj]
        exact ⟨⟨_,rfl⟩,rfl⟩
      · rw [hother hj]
        exact hs.made j x hx
    · intro j y q parent' hy hq hparent'
      obtain ⟨x,hx,hsame,-⟩ := rebuildPath_get hy
      obtain ⟨parent,hparent,hsame',-⟩ := rebuildPath_get hparent'
      rw [hsame'.outputs,links_vout hsame.links]
      exact hs.slots j x q parent hx ((links_parent hsame.links).symm.trans hq) hparent
    · intro j y hy hchained htype
      obtain ⟨x,hx,hsame,-⟩ := rebuildPath_get hy
      exact hs.listed j x hx (hsame.chained.mp hchained) (links_type hsame.links ▸ htype)
    · intro j y hy
      obtain ⟨x,hx,hsame,hother,hself⟩ := rebuildPath_get hy
      by_cases hj : p = j
      · subst hj
        obtain rfl : x = n := mem_unique hx hn
        have hup : x.parentIndex ≠ some p := by
          intro hq
          obtain ⟨-,-,hlt,-⟩ := hsk.parent_below hs.tree hn hq
          exact lt_irrefl _ hlt
        refine .inl (.onParent (fun hchained => hfree (hsame.chained.mp hchained)) ?_)
        rw [hself rfl]
        have hout := houtpoint x hup
        change [(⟨parentOutpoint k k.nodes x,[],_⟩ : TxIn)] = _
        rw [← hout]
        rfl
      · obtain rfl := hother hj
        by_cases hrest : j ∈ rest
        · exact .inr ⟨rfl,hrest⟩
        · have hlink := (hs.link j y hx).resolve_right fun hpending =>
            (mem_cons.mp hpending.2).elim (fun h => hj h.symm) hrest
          by_cases hbelow : y.parentIndex = some p
          · exact .inl (hlink.of_chained (Subset.refl _) (hside hmoved j y hx hbelow hrest))
          · exact .inl (hlink.move (Subset.refl _) (houtpoint y hbelow))

theorem PathState.fold (hsk : Skeleton env g) {path : List ℕ} (hsorted : path.Pairwise (· < ·))
    (hnodes : ∀ q ∈ path, ∃ x, k.NodeAt q x) (hs : PathState env g past moved path k)
    (hfits : pathFits env k moved path) :
    ∃ last, PathState env g past last [] (path.foldl (rebuildPathNode env) k) := by
  induction path generalizing k moved with
  | nil => exact ⟨moved,hs⟩
  | cons p rest ih =>
    obtain ⟨hbelow,hsorted⟩ := pairwise_cons.mp hsorted
    have hp : p ∉ rest := fun hmem => lt_irrefl _ (hbelow p hmem)
    obtain ⟨n,hn⟩ := hnodes p mem_cons_self
    refine ih hsorted (fun q hq => ?_) (hs.step hsk hfits hn)
      (pathFits_rebuild hp (hfits n hn).2.2)
    obtain ⟨x,hx⟩ := hnodes q (mem_cons_of_mem p hq)
    have hother : p ≠ q := (hbelow q hq).ne
    refine ⟨x,?_⟩
    rw [NodeAt,rebuildPathNode,modifyNode,getElem?_modify_ne _ _ hother]
    exact hx

theorem LinkState.path {f : Factory} (hsk : Skeleton env g) (hs : LinkState env g past f)
    (leafNodeIdx : ℕ) (hfits : pathFits env f false (factoryCollectPathToRoot f leafNodeIdx)) :
    LinkState env g ((factoryRebuildPathUnsigned env f leafNodeIdx).1 :: past)
      (factoryRebuildPathUnsigned env f leafNodeIdx).1 := by
  have hstart : PathState env g past false (factoryCollectPathToRoot f leafNodeIdx) f :=
    ⟨hs.tree,hs.made,hs.slots,hs.listed,fun i n hn => .inl (hs.link i n hn)⟩
  obtain ⟨hsorted,hnodes⟩ := path_nodes hsk hs.tree leafNodeIdx
  obtain ⟨last,hend⟩ := hstart.fold hsk hsorted hnodes hfits
  have hresult : (factoryRebuildPathUnsigned env f leafNodeIdx).1 =
      (factoryCollectPathToRoot f leafNodeIdx).foldl (rebuildPathNode env) f := by
    unfold factoryRebuildPathUnsigned
    dsimp only
    split_ifs with hempty
    · rw [hempty,foldl_nil]
    · rfl
  rw [hresult]
  refine ⟨hend.tree,mem_cons_self,hend.made,hend.slots,hend.listed,fun i n hn => ?_⟩
  refine ((hend.link i n hn).resolve_right fun hpending => ?_).move (subset_cons_self _ _) rfl
  cases hpending.2

end

theorem LinkState.call {env : Env} {g f : Factory} {past : List Factory} (hsk : Skeleton env g)
    (hs : LinkState env g past f) (call : TreeCall) (hguard : LinksGuarded env f call) :
    LinkState env g ((call.run env f).1 :: past) (call.run env f).1 := by
  cases call with
  | rebuildPath leafNodeIdx => exact hs.path hsk leafNodeIdx hguard
  | apply op =>
    obtain ⟨hfits,hchains⟩ := hguard
    suffices hlast : ∀ f' code, op.run env f = (f',code) → LinkState env g (f' :: past) f' from
      hlast _ _ rfl
    intro f' code hrun
    cases step_outcome hsk hs.tree hrun with
    | still hsame => exact hs.still hfits hsame
    | rebuilt hop hk hback => exact hs.redrawn hsk (hchains hop) hk hback
    | single hn hbase hnodes hm => exact hs.nodeStep hsk hn hbase hnodes hm hfits
    | halted hside hn hps hop hpoor =>
      rcases hop with rfl | ⟨signed,rfl⟩
      · have hfit := hfits hside _ hn hps
        dsimp only at hfit
        rcases hpoor with ⟨hturns,hroot⟩ | ⟨hkeeps,hpoor⟩
        · rw [if_pos hturns] at hfit
          exact absurd hroot hfit
        · rw [hkeeps] at hfit
          exact absurd hfit.2 hpoor
      · have hfit := hfits hside _ hn hps
        rcases hpoor with ⟨hturns,-⟩ | ⟨-,hpoor⟩
        · change (f.nodes[f.leafNode _]?).any _ = true at hturns
          rw [show f.nodes[f.leafNode _]? = some _ from hn,any_some,hps] at hturns
          cases hturns
        · exact absurd hfit.2 hpoor

theorem BuiltFrom.current {env : Env} {f g : Factory} {b : Block} {i : ℕ} {n : FactoryNode}
    (h : BuiltFrom env f g b) (hsk : Skeleton env g) (hn : g.NodeAt i n) :
    n = finishNodeTx env n n.nsequence [nodeInput g n] := by
  obtain rfl := h.result
  exact (Version.rebuilt_current hsk (Version.sameTree_rebuild env _).symm hn).1

theorem BuiltFrom.linkState {env : Env} {f g : Factory} {b : Block} (hsk : Skeleton env g)
    (h : BuiltFrom env f g b) : LinkState env g [g] g := by
  have hfree : ∀ i n, g.NodeAt i n → ¬Chained n := fun i n hn hchained =>
    ne_of_gt hchained.2 (hsk.ok i n hn).chain.len
  refine ⟨.refl g,mem_cons_self,?_,?_,?_,?_⟩
  · intro i n hn
    rw [h.current hsk hn]
    exact made_finish _ _ _
  · intro i n p parent hn hp hparent
    obtain ⟨x,hx,-,-,hout,-⟩ := hsk.up i n p hn hp
    obtain rfl := mem_unique hx hparent
    exact (List.getElem?_eq_some_iff.mp hout).1
  · intro i n hn hchained
    exact absurd hchained (hfree i n hn)
  · intro i n hn
    exact .onParent (hfree i n hn) (congrArg (fun x => x.unsignedTx.inputs) (h.current hsk hn))

def Factory.ladder : Factory := sample 4 3 2

theorem SignsWhatItSpends.chain_txid {past : List Factory} {h : Factory} {i : ℕ} {n : FactoryNode}
    (hsigns : SignsWhatItSpends past h i n) (hchained : Chained n) {input : TxIn}
    (hinputs : n.unsignedTx.inputs = [input]) : input.prevout.txid = n.psPrevTxid := by
  obtain ⟨args,-,-,hcommits⟩ := hsigns.inputs 0 (by rw [hinputs]; exact one_pos)
  rw [Commits,hinputs] at hcommits
  obtain ⟨spent,-,⟨hmeant,-⟩,-⟩ := forall₂_cons_left_iff.mp hcommits
  generalize input.prevout = o, (⟨spent.amount,spent.script⟩ : TxOut) = out at hmeant
  cases hmeant with
  | funding hfree => exact absurd hchained hfree
  | parent hfree => exact absurd hchained hfree
  | chain _ _ _ hprev => exact hprev

end SuperScalar
