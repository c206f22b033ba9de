import SuperScalar.Factory.Budgets
import SuperScalar.Factory.LeafAmounts
import SuperScalar.Factory.Rollover
import SuperScalar.Factory.Steps
import SuperScalar.Foundation.Lists

namespace SuperScalar

open Bitcoin List Option UInt64 Nat Factory

structure CoinState (g : Factory) (past : List Factory) (h : Factory) : Prop where
  tree : SameTree g h
  here : h ∈ past
  current : ∀ i n, h.NodeAt i n → n.unsignedTx.outputs = n.outputs
  paid : ∀ i n, h.NodeAt i n → Conserved past h i n
  bounded : ∀ i n, h.NodeAt i n → outputTotal n.outputs < 2^64
  leaf : ∀ l n, l < g.nLeafNodes → h.NodeAt (g.leafNode l) n →
    Pays past h (g.leafNode l) n (spentOutpoints h n)

section

theorem outputTotal_modify {outs : List TxOut} {c : ℕ} {o : TxOut} (ho : outs[c]? = some o)
    (change : TxOut → TxOut) :
    outputTotal (outs.modify c change) + o.amount.toNat =
      outputTotal outs + (change o).amount.toNat := by
  induction outs generalizing c with
  | nil => cases ho
  | cons _ _ ih =>
    cases c with
    | zero =>
      cases ho
      simp only [modify_zero_cons,outputTotal_cons]
      omega
    | succ c =>
      have hrest := ih ho
      simp only [modify_succ_cons,outputTotal_cons]
      omega

theorem amount_le_total {outs : List TxOut} {c d : ℕ} {o p : TxOut} (ho : outs[c]? = some o)
    (hp : outs[d]? = some p) (hcd : c < d) : o.amount.toNat + p.amount.toNat ≤ outputTotal outs := by
  induction outs generalizing c d with
  | nil => cases ho
  | cons _ outs ih =>
    cases d with
    | zero => exact absurd hcd (not_lt_zero c)
    | succ =>
      cases c with
      | zero =>
        cases ho
        have hmem : p.amount.toNat ∈ outs.map (fun o => o.amount.toNat) :=
          mem_map_of_mem (mem_of_getElem? hp)
        exact Nat.add_le_add_left (List.le_sum_of_mem hmem) _
      | succ => exact (ih ho hp (lt_of_succ_lt_succ hcd)).trans (le_add_left _ _)

theorem sumAmounts_toNat (amounts : List UInt64) :
    (sumAmounts amounts).toNat = (amounts.map UInt64.toNat).sum % 2 ^ 64 := by
  rw [sumAmounts,Lists.foldl_toNat,UInt64.toNat_zero,Nat.zero_add]

variable {f : Factory} {n : FactoryNode} {channelIdx : ℕ} {delta dust : UInt64}

theorem subChainStep_total (hlength : 2 ≤ n.outputs.length)
    (hchannel : channelIdx < n.outputs.length-1)
    (hstock : delta + f.feePerTx + dust ≤
      (n.outputs.getLast?.map TxOut.amount).getD 0)
    (hfit : delta.toNat + f.feePerTx.toNat + dust.toNat < 2^64)
    (hbound : outputTotal n.outputs < 2^64) :
    outputTotal (subChainStep f n channelIdx delta
      ((n.outputs.getLast?.map TxOut.amount).getD 0)).outputs + f.feePerTx.toNat =
        outputTotal n.outputs := by
  have hlast : n.outputs[n.outputs.length-1]? = some (n.outputs[n.outputs.length-1]) :=
    getElem?_eq_getElem (by omega)
  have hget : n.outputs[channelIdx]? = some (n.outputs[channelIdx]) :=
    getElem?_eq_getElem (by omega)
  generalize n.outputs[n.outputs.length-1] = last at hlast
  generalize n.outputs[channelIdx] = channel at hget
  rw [getLast?_eq_getElem?,hlast,map_some,getD_some] at hstock ⊢
  have hpair := amount_le_total hget hlast hchannel
  have hneeded : delta.toNat + f.feePerTx.toNat + dust.toNat ≤ last.amount.toNat := by
    have hle := le_iff_toNat_le.mp hstock
    simp only [UInt64.toNat_add,Nat.mod_add_mod,Nat.mod_eq_of_lt hfit] at hle
    exact hle
  have hgrown := outputTotal_modify hget fun o => { o with amount := o.amount + delta }
  have hlast' : (n.outputs.modify channelIdx fun o => { o with amount := o.amount + delta })[
      n.outputs.length - 1]? = some last := by
    rw [getElem?_modify_ne _ _ (by omega)]
    exact hlast
  have hshrunk := outputTotal_modify hlast' fun o => { o with
    amount := last.amount-delta-f.feePerTx }
  have hsub : (last.amount-delta-f.feePerTx).toNat =
      last.amount.toNat - delta.toNat - f.feePerTx.toNat := by
    have hdelta : (last.amount-delta).toNat = last.amount.toNat-delta.toNat :=
      UInt64.toNat_sub_of_le _ _ (UInt64.le_iff_toNat_le.mpr (by omega))
    rw [UInt64.toNat_sub_of_le _ _ (UInt64.le_iff_toNat_le.mpr (by omega)),hdelta]
  have hadd : (channel.amount+delta).toNat = channel.amount.toNat + delta.toNat := by
    rw [UInt64.toNat_add,Nat.mod_eq_of_lt (by omega)]
  rw [hsub] at hshrunk
  rw [hadd] at hgrown
  unfold subChainStep
  dsimp only
  omega

end

section

variable {env : Env} {g f h : Factory} {l p i : ℕ} {n m : FactoryNode}

theorem spentOutpoints_eq (hbase : h.base = f.base) (hps : m.isPsLeaf = n.isPsLeaf)
    (hparent : m.parentIndex = n.parentIndex) (hvout : m.parentVout = n.parentVout)
    (hchain : n.isPsLeaf = true → m.psChainLen = n.psChainLen ∧ m.psPrevTxid = n.psPrevTxid)
    (htype : n.type = .state) (htype' : m.type = .state)
    (htxid : ∀ p, n.parentIndex = some p →
      (h.nodes[p]?).map FactoryNode.txid = (f.nodes[p]?).map FactoryNode.txid) :
    spentOutpoints h m = spentOutpoints f n := by
  by_cases hlong : n.isPsLeaf = true ∧ n.psChainLen > 0
  · obtain ⟨hlen,hprev⟩ := hchain hlong.1
    rw [spentOutpoints_chain hlong.1 hlong.2 htype,
      spentOutpoints_chain (hps.trans hlong.1) (hlen ▸ hlong.2) htype',hprev]
  · have hnot : ¬(m.isPsLeaf = true ∧ m.psChainLen > 0) := by
      rintro ⟨hm,hlen⟩
      have hn := hps.symm.trans hm
      rw [(hchain hn).1] at hlen
      exact hlong ⟨hn,hlen⟩
    rw [spentOutpoints_parent hlong,spentOutpoints_parent hnot]
    have hout : parentOutpoint h h.nodes m = parentOutpoint h h.nodes n := by
      unfold parentOutpoint
      rw [hparent,hvout]
    rw [hout,parentOutpoint_congr hbase htxid]

end

section

variable {env : Env} {g f f' : Factory} {past : List Factory}

theorem CoinState.still (hsk : Skeleton env g) (hs : CoinState g past f) {op : FactoryOp}
    (h : Restamped op f f') : CoinState g (f' :: past) f' := by
  have htree := hs.tree.trans h.sameTree
  refine ⟨htree,mem_cons_self,?_,?_,?_,?_⟩
  · intro i n' hn'
    obtain ⟨n,hn,hsame⟩ := h.before hn'
    rw [hsame.tx,hsame.outputs]
    exact hs.current i n hn
  · intro i n' hn'
    obtain ⟨n,hn,hsame⟩ := h.before hn'
    unfold Conserved
    rw [hsame.tx]
    exact (hs.paid i n hn).mono (subset_cons_self _ _) h.base hsame.links (by rw [hsame.outputs])
  · intro i n' hn'
    obtain ⟨n,hn,hsame⟩ := h.before hn'
    rw [hsame.outputs]
    exact hs.bounded i n hn
  · intro l n' hl hn'
    obtain ⟨n,hn,hsame⟩ := h.before hn'
    have htype := hsk.leaf_state hs.tree hl hn
    obtain rfl := hsame.chain (by rw [htype]; decide)
    have hspent : spentOutpoints f' n' = spentOutpoints f n' := by
      refine spentOutpoints_eq h.base rfl rfl rfl (fun _ => ⟨rfl,rfl⟩) htype htype fun p _ => h.txids p
    rw [hspent]
    exact (hs.leaf l n' hl hn).mono (subset_cons_self _ _) h.base rfl rfl

theorem parent_pays (past : List Factory) {k : Factory} (hsk : Skeleton env g) (hsame : SameTree g k)
    (hbalanced : TreeBalanced k) {i : ℕ} {n' : FactoryNode}
    (hn' : (buildAllUnsignedTxs env k).NodeAt i n') :
    Pays (buildAllUnsignedTxs env k :: past) (buildAllUnsignedTxs env k) i n'
      [parentOutpoint (buildAllUnsignedTxs env k) (buildAllUnsignedTxs env k).nodes n'] := by
  obtain ⟨n,hn,rfl⟩ := Version.rebuilt_node hsk hsame hn'
  have hamount := hbalanced n (mem_of_getElem? hn)
  unfold parentAmount at hamount
  have hindex : (buildNodeTx env k (buildAllUnsignedTxs env k).nodes i n).parentIndex = n.parentIndex :=
    rfl
  rw [parentOutpoint,hindex]
  cases hp : n.parentIndex with
  | none =>
    rw [hp] at hamount
    exact Pays.one (.funding hp) (some.inj hamount).symm
  | some p =>
    rw [hp] at hamount
    obtain ⟨parent,hparent,hout⟩ := bind_eq_some_iff.mp hamount
    obtain ⟨out,hget,htotal⟩ := map_eq_some_iff.mp hout
    have hbuilt : (buildAllUnsignedTxs env k).NodeAt p
        (buildNodeTx env k (buildAllUnsignedTxs env k).nodes p parent) := by
      refine buildAllUnsignedTxs_get hparent fun q hq => ?_
      obtain ⟨-,-,hlt',-⟩ := hsk.parent_below hsame hparent hq
      exact hlt'
    dsimp only
    rw [show (buildAllUnsignedTxs env k).nodes[p]? = some _ from hbuilt]
    exact Pays.one (.parent hp mem_cons_self hbuilt hget) htotal.symm

theorem CoinState.rebuilt {k : Factory} (hsk : Skeleton env g) (hs : CoinState g past f)
    (hbalanced : TreeBalanced f) (hk : Redrawn f k) :
    CoinState g (buildAllUnsignedTxs env k :: past) (buildAllUnsignedTxs env k) := by
  have hsame := hs.tree.trans hk.sameTree
  have hbalanced' := hk.balanced hbalanced
  have hnode {i : ℕ} {n' : FactoryNode} (hn' : (buildAllUnsignedTxs env k).NodeAt i n') :
      ∃ n m, f.NodeAt i n ∧ SameCoins n m ∧
        n' = buildNodeTx env k (buildAllUnsignedTxs env k).nodes i m := by
    obtain ⟨m,hm,heq⟩ := Version.rebuilt_node hsk hsame hn'
    obtain ⟨n,hn,hcoins⟩ := rel_before (hk.nodes i) hm
    exact ⟨n,m,hn,hcoins,heq⟩
  refine ⟨hsame.trans (Version.sameTree_rebuild env k),mem_cons_self,?_,?_,?_,?_⟩
  · intro i n' hn'
    obtain ⟨n,m,-,-,rfl⟩ := hnode hn'
    rfl
  · intro i n' hn'
    have hpays := parent_pays past hsk hsame hbalanced' hn'
    obtain ⟨n,m,-,-,rfl⟩ := hnode hn'
    exact hpays
  · intro i n' hn'
    obtain ⟨n,m,hn,hcoins,rfl⟩ := hnode hn'
    change outputTotal m.outputs < 2^64
    rw [hcoins.total]
    exact hs.bounded i n hn
  · intro l n' hl hn'
    have hpays := parent_pays past hsk hsame hbalanced' hn'
    have htype' := hsk.leaf_state (hsame.trans (Version.sameTree_rebuild env k)) hl hn'
    obtain ⟨n,m,hn,hcoins,heq⟩ := hnode hn'
    have hps' : n'.isPsLeaf = m.isPsLeaf := by rw [heq]; rfl
    have hlen' : n'.psChainLen = m.psChainLen := by rw [heq]; rfl
    by_cases hlong : n'.isPsLeaf = true ∧ n'.psChainLen > 0
    · have htype := hsk.leaf_state hs.tree hl hn
      have hprev' : n'.psPrevTxid = m.psPrevTxid := by rw [heq]; rfl
      have hlinks' : n'.links = m.links := by rw [heq]; rfl
      have houts' : n'.outputs = m.outputs := by rw [heq]; rfl
      rw [hps',hlen'] at hlong
      obtain ⟨hlen,hprev⟩ := hcoins.chain.resolve_left (ne_of_gt hlong.2)
      have hps := (links_ps hcoins.links).symm.trans hlong.1
      have hbefore := hs.leaf l n hl hn
      rw [spentOutpoints_chain hps (hlen ▸ hlong.2) htype,← hprev,← hprev'] at hbefore
      rw [spentOutpoints_chain (hps'.trans hlong.1) (hlen'.symm ▸ hlong.2) htype']
      exact hbefore.mono (subset_cons_self _ _) hk.base (hlinks'.trans hcoins.links)
        (by rw [houts',hcoins.total])
    · rw [spentOutpoints_parent hlong]
      exact hpays

section

variable {k : Factory} {i : ℕ} {n m : FactoryNode} (hsk : Skeleton env g) (hs : CoinState g past f)
  (hn : f.NodeAt i n) (hbase : k.base = f.base) (hnodes : k.nodes = f.nodes.set i m)

include hsk hs hn hbase hnodes in
theorem CoinState.single (hlinks : m.links = n.links)
    (halone : n.isPsLeaf = true ∨ n.childIndices = [])
    (hpays : Pays (rebuildNodeTx env k i :: past) (rebuildNodeTx env k i) i m (spentOutpoints k m))
    (hbound : outputTotal m.outputs < 2^64) :
    CoinState g (rebuildNodeTx env k i :: past) (rebuildNodeTx env k i) := by
  have htree := hs.tree.trans (single_sameTree hn hbase hnodes env hlinks)
  have hself : (rebuildNodeTx env k i).nodes[i]? = some (rebuiltNode env k i m) :=
    single_node hn hnodes
  refine ⟨htree,mem_cons_self,?_,?_,?_,?_⟩
  · intro j x hx
    by_cases hj : i = j
    · subst hj
      obtain rfl := mem_unique hself hx
      rfl
    · exact hs.current j x ((single_other hnodes hj).symm.trans hx)
  · intro j x hx
    by_cases hj : i = j
    · subst hj
      obtain rfl := mem_unique hself hx
      unfold Conserved
      rw [rebuiltNode_prevouts]
      exact hpays.mono (Subset.refl _) rfl rfl rfl
    · exact (hs.paid j x ((single_other hnodes hj).symm.trans hx)).mono (subset_cons_self _ _)
        hbase rfl rfl
  · intro j x hx
    by_cases hj : i = j
    · subst hj
      obtain rfl := mem_unique hself hx
      exact hbound
    · exact hs.bounded j x ((single_other hnodes hj).symm.trans hx)
  · intro l x hl hx
    have htype := hsk.leaf_state htree hl hx
    by_cases hj : i = g.leafNode l
    · rw [← hj] at hx ⊢
      obtain rfl := mem_unique hself hx
      have hspent : spentOutpoints (rebuildNodeTx env k i) (rebuiltNode env k i m) =
          spentOutpoints k m := by
        refine spentOutpoints_eq rfl rfl rfl rfl (fun _ => ⟨rfl,rfl⟩) htype htype fun p hp => ?_
        obtain ⟨-,-,hlt,-⟩ := hsk.parent_below htree hx hp
        rw [single_other hnodes (by omega),hnodes,getElem?_set_ne (by omega)]
      rw [hspent]
      exact hpays.mono (Subset.refl _) rfl rfl rfl
    · have hx' := (single_other hnodes hj).symm.trans hx
      have hspent : spentOutpoints (rebuildNodeTx env k i) x = spentOutpoints f x := by
        refine spentOutpoints_eq hbase rfl rfl rfl (fun _ => ⟨rfl,rfl⟩) htype htype fun p hp => ?_
        rw [single_other hnodes]
        rintro rfl
        obtain ⟨hps,hchildren⟩ := hsk.leaf_parent hs.tree hl hx' hp hn
        rcases halone with htrue | hnil
        · rw [hps] at htrue
          cases htrue
        · exact hchildren hnil
      rw [hspent]
      exact (hs.leaf l x hl hx').mono (subset_cons_self _ _) hbase rfl rfl

include hsk hs hn hbase hnodes in
theorem single_spent {l : ℕ} (hl : l < g.nLeafNodes) (hi : i = g.leafNode l)
    (hlinks : m.links = n.links)
    (hchain : n.isPsLeaf = true → m.psChainLen = n.psChainLen ∧ m.psPrevTxid = n.psPrevTxid) :
    spentOutpoints k m = spentOutpoints f n := by
  have htype := hsk.leaf_state hs.tree hl (hi ▸ hn)
  refine spentOutpoints_eq hbase (links_ps hlinks) (links_parent hlinks) (links_vout hlinks) hchain
    htype ((links_type hlinks).trans htype) fun p hp => ?_
  obtain ⟨-,-,hlt,-⟩ := hsk.parent_below hs.tree hn hp
  rw [hnodes,getElem?_set_ne (by omega)]

include hsk hs hn hbase hnodes in
theorem CoinState.nodeStep {op : FactoryOp} (hm : NodeStep f op i n m)
    (hfit : amountsFit f op = true) :
    CoinState g (rebuildNodeTx env k i :: past) (rebuildNodeTx env k i) := by
  have hcount := hs.tree.nLeafNodes
  have hbound := hs.bounded i n hn
  cases hm with
  | @restock _ l _ _ hside hdw hcoins =>
    have hi := hs.tree.leafNode l
    have hl := hcount ▸ hside
    refine hs.single hsk hn hbase hnodes hcoins.links
      (.inr (hsk.dw_childless hs.tree hl (hi ▸ hn) hdw)) ?_ (hcoins.total ▸ hbound)
    rw [single_spent hsk hs hn hbase hnodes hl hi hcoins.links
      fun hps => absurd (hdw.symm.trans hps) (by decide)]
    have hleaf := hs.leaf l n hl (hi ▸ hn)
    rw [← hi] at hleaf
    exact hleaf.mono (List.subset_cons_self _ _) hbase hcoins.links hcoins.total
  | @reprice l amounts _ hside hlength htotal =>
    have hi := hs.tree.leafNode l
    have hl := hcount ▸ hside
    have hsum : outputTotal (List.zipWith (fun o a => { o with amount := a }) n.outputs amounts) =
        outputTotal n.outputs := by
      have hmod := congrArg UInt64.toNat htotal
      simp only [sumAmounts_toNat,← outputTotal_amounts,Nat.mod_eq_of_lt hbound,
        Nat.mod_eq_of_lt (of_decide_eq_true hfit)] at hmod
      rw [outputTotal_amounts,amounts_zipWith hlength,hmod]
    have halone : n.isPsLeaf = true ∨ n.childIndices = [] := by
      cases hps : n.isPsLeaf with
      | true => exact .inl rfl
      | false => exact .inr (hsk.dw_childless hs.tree hl (hi ▸ hn) hps)
    refine hs.single hsk hn hbase hnodes rfl halone ?_ (hsum ▸ hbound)
    rw [single_spent hsk hs hn hbase hnodes hl hi rfl fun _ => ⟨rfl,rfl⟩]
    have hleaf := hs.leaf l n hl (hi ▸ hn)
    rw [← hi] at hleaf
    exact hleaf.mono (List.subset_cons_self _ _) hbase rfl hsum
  | @extend _ l _ o _ hside hps houts hfee =>
    have hi := hs.tree.leafNode l
    have hl := hcount ▸ hside
    have htype := hsk.leaf_state hs.tree hl (hi ▸ hn)
    have hle : f.feePerTx ≤ o.amount := UInt64.le_of_lt hfee
    have hpaid : (o.amount-f.feePerTx).toNat + f.feePerTx.toNat = o.amount.toNat := by
      rw [UInt64.toNat_sub_of_le _ _ hle]
      exact Nat.sub_add_cancel (UInt64.le_iff_toNat_le.mp hle)
    have hsame : k.feePerTx = f.feePerTx := (congrArg feePerTx hbase :)
    refine hs.single hsk hn hbase hnodes rfl (.inl hps) ?_ ?_
    · have hspent : spentOutpoints k { psChainStep n with
          outputs := [{ o with amount := o.amount-f.feePerTx }] } = [⟨n.txid,0⟩] :=
        spentOutpoints_chain hps (Nat.succ_pos _) htype
      rw [hspent]
      have hout : n.unsignedTx.outputs[0]? = some o := by
        rw [hs.current _ n hn,houts]
        rfl
      refine Pays.one (.chain (List.mem_cons_of_mem _ hs.here) hn hout) ?_
      · change outputTotal [{ o with amount := o.amount-f.feePerTx }] + k.feePerTx.toNat = _
        rw [outputTotal_cons,outputTotal_nil,Nat.add_zero,hsame]
        exact hpaid
    · exact UInt64.toNat_lt _
  | @sell _ _ channelIdx _ delta _ htype hps hlength hchannel hstock =>
    simp only [amountsFit,decide_eq_true_eq] at hfit
    have htotal := subChainStep_total hlength hchannel hstock hfit hbound
    have hsame : k.feePerTx = f.feePerTx := (congrArg feePerTx hbase :)
    refine hs.single hsk hn hbase hnodes rfl (.inl hps) ?_
      (((Nat.le_add_right _ _).trans_eq htotal).trans_lt hbound)
    have hspent : spentOutpoints k (subChainStep f n channelIdx delta
        ((n.outputs.getLast?.map TxOut.amount).getD 0)) =
        (List.range n.outputs.length).map (fun j => ⟨n.txid,UInt32.ofNat j⟩) := by
      unfold spentOutpoints chainInputs
      rw [if_pos ⟨hps,Nat.succ_pos _⟩,if_pos ⟨htype,hlength⟩,List.map_map]
      rfl
    rw [hspent]
    refine ⟨n.outputs.map (fun o => o.amount.toNat),?_,?_⟩
    · rw [List.forall₂_map_left_iff,List.forall₂_map_right_iff,List.forall₂_iff_get]
      refine ⟨List.length_range,fun j hj hj' => ?_⟩
      rw [List.get_eq_getElem,List.getElem_range]
      refine .chain (List.mem_cons_of_mem _ hs.here) hn ?_
      rw [hs.current i n hn,List.getElem?_eq_getElem hj']
      rfl
    · change _ + k.feePerTx.toNat = _
      rw [hsame]
      exact htotal

end

end

section

variable {env : Env} {f g : Factory} {b : Block}

theorem Redrawn.unbuilt (env : Env) (k : Factory) : Redrawn (buildAllUnsignedTxs env k) k := by
  refine ⟨rfl,fun i => ?_⟩
  have hblank := congrArg (·[i]?) (buildAllUnsignedTxs_blank env k)
  simp only [getElem?_map] at hblank
  cases hn : (buildAllUnsignedTxs env k).nodes[i]? with
  | none =>
    rw [hn,map_none] at hblank
    rw [map_eq_none_iff.mp hblank.symm]
    exact .none
  | some =>
    rw [hn,map_some] at hblank
    obtain ⟨m,hm,heq⟩ := map_eq_some_iff.mp hblank.symm
    have hshape := sameShape_of_blank heq
    rw [hm]
    refine .some ⟨?_,by rw [hshape.outputs],.inr ⟨hshape.chainLen,hshape.prevTxid⟩⟩
    exact (congrArg FactoryNode.links heq :)

theorem BuiltFrom.balanced (h : BuiltFrom env f g b) (hsk : Skeleton env g)
    (hfunded : LeavesFunded f) : TreeBalanced g := by
  intro n hn
  obtain ⟨i,hi⟩ := mem_iff_getElem?.mp hn
  rw [(hsk.ok i n hi).value (h.inputs_funded hfunded hi)]
  unfold parentAmount
  cases hp : n.parentIndex with
  | none => rw [h.root_amount hi hp]
  | some p =>
    obtain ⟨parent,hparent,-,-,hout,-⟩ := hsk.up i n p hi hp
    dsimp only
    rw [show g.nodes[p]? = some parent from hparent,bind_some,hout]
    rfl

theorem BuiltFrom.coinState (h : BuiltFrom env f g b) (hsk : Skeleton env g)
    (hfunded : LeavesFunded f) : CoinState g [g] g := by
  have hbalanced := h.balanced hsk hfunded
  have hvalue {i : ℕ} {n : FactoryNode} (hn : g.NodeAt i n) :=
    (hsk.ok i n hn).value (h.inputs_funded hfunded hn)
  obtain rfl := h.result
  have hunbuilt := Redrawn.unbuilt env (b.installed f.prepared)
  have hpays {i : ℕ} {n : FactoryNode}
      (hn : (buildAllUnsignedTxs env (b.installed f.prepared)).NodeAt i n) :=
    parent_pays [] hsk hunbuilt.sameTree (hunbuilt.balanced hbalanced) hn
  refine ⟨.refl _,mem_singleton_self _,?_,?_,?_,?_⟩
  · intro i n hn
    obtain ⟨m,-,rfl⟩ := Version.rebuilt_node hsk hunbuilt.sameTree hn
    rfl
  · intro i n hn
    have hparent := hpays hn
    obtain ⟨m,-,rfl⟩ := Version.rebuilt_node hsk hunbuilt.sameTree hn
    exact hparent
  · intro i n hn
    have hsum := hvalue hn
    have hlt := n.inputAmount.toNat_lt
    omega
  · intro l n hl hn
    have hlen := (hsk.ok _ n hn).chain.len
    rw [spentOutpoints_parent fun hlong => ne_of_gt hlong.2 hlen]
    exact hpays hn

end

theorem two_ps_clients_funded : LeavesFunded (sample 2 3 1) := by
  intro budget h
  cases h with
  | leaf hleaf => exact absurd hleaf (by decide)
  | @inner _ _ _ k part _ rest _ hrest hpart below =>
    obtain rfl : rest = 999600 := hrest.trans (by decide)
    have hone : part = 1 ∧ (k = 0 ∨ k = 1) := by
      match k with
      | 0 => exact ⟨(some.inj hpart).symm,.inl rfl⟩
      | 1 => exact ⟨(some.inj hpart).symm,.inr rfl⟩
      | k+2 => cases hpart
    obtain ⟨rfl,hk⟩ := hone
    cases below with
    | leaf => rcases hk with rfl | rfl <;> decide
    | inner _ hinner => exact absurd hinner (by decide)

def outputsSoFar (past : List Factory) (f : Factory) : List (OutPoint × ℕ) :=
  (⟨f.fundingTxid,f.fundingVout⟩,f.fundingAmountSats.toNat) :: past.flatMap (fun old =>
    old.nodes.flatMap (fun m => m.unsignedTx.outputs.mapIdx (fun k out =>
      (⟨m.txid,UInt32.ofNat k⟩,out.amount.toNat))))

theorem outputsSoFar_mem {past : List Factory} {f old : Factory} {i k : ℕ} {m : FactoryNode}
    {out : TxOut} (hold : old ∈ past) (hm : old.NodeAt i m)
    (hout : m.unsignedTx.outputs[k]? = some out) :
    (⟨m.txid,UInt32.ofNat k⟩,out.amount.toNat) ∈ outputsSoFar past f := by
  refine mem_cons_of_mem _ (mem_flatMap.mpr ⟨old,hold,mem_flatMap.mpr
    ⟨m,mem_of_getElem? hm,mem_iff_getElem?.mpr ⟨k,?_⟩⟩⟩)
  rw [getElem?_mapIdx,hout]
  rfl

theorem PaidFrom.mem {past : List Factory} {f : Factory} {i : ℕ} {n : FactoryNode} {o : OutPoint}
    {amount : ℕ} (h : PaidFrom past f i n o amount) : (o,amount) ∈ outputsSoFar past f := by
  cases h with
  | funding => exact mem_cons_self
  | parent _ hold hm hout => exact outputsSoFar_mem hold hm hout
  | chain hold hm hout => exact outputsSoFar_mem hold hm hout

end SuperScalar
