import SuperScalar.Factory.Versions

namespace SuperScalar

open Bitcoin List

section

-- An output that node `i` can spend: the funding output, an output of its parent, or one of its
-- own earlier transactions.
inductive PaidFrom (past : List Factory) (f : Factory) (i : ℕ) (n : FactoryNode) :
    OutPoint → ℕ → Prop
  | funding (hroot : n.parentIndex = none) :
      PaidFrom past f i n ⟨f.fundingTxid,f.fundingVout⟩ f.fundingAmountSats.toNat
  | parent {p : ℕ} {old : Factory} {m : FactoryNode} {out : TxOut} (hparent : n.parentIndex = some p)
      (hold : old ∈ past) (hm : old.NodeAt p m)
      (hout : m.unsignedTx.outputs[n.parentVout]? = some out) :
      PaidFrom past f i n ⟨m.txid,UInt32.ofNat n.parentVout⟩ out.amount.toNat
  | chain {k : ℕ} {old : Factory} {m : FactoryNode} {out : TxOut} (hold : old ∈ past)
      (hm : old.NodeAt i m) (hout : m.unsignedTx.outputs[k]? = some out) :
      PaidFrom past f i n ⟨m.txid,UInt32.ofNat k⟩ out.amount.toNat

def Pays (past : List Factory) (f : Factory) (i : ℕ) (n : FactoryNode) (inputs : List OutPoint) :
    Prop :=
  ∃ amounts, Forall₂ (PaidFrom past f i n) inputs amounts ∧
    outputTotal n.outputs + f.feePerTx.toNat = amounts.sum

def Conserved (past : List Factory) (f : Factory) (i : ℕ) (n : FactoryNode) : Prop :=
  Pays past f i n (n.unsignedTx.inputs.map TxIn.prevout)

variable (f : Factory)

def parentAmount (n : FactoryNode) : Option ℕ :=
  match n.parentIndex with
  | none => some f.fundingAmountSats.toNat
  | some p => (f.nodes[p]?).bind (fun m => (m.outputs[n.parentVout]?).map (fun o => o.amount.toNat))

def TreeBalanced : Prop :=
  ∀ n ∈ f.nodes, parentAmount f n = some (outputTotal n.outputs + f.feePerTx.toNat)

instance : Decidable (TreeBalanced f) :=
  inferInstanceAs (Decidable (∀ n ∈ f.nodes, _))

def rebuildsTree : FactoryOp → Bool
  | .advance _ => true
  | .advanceLeaf leafSide _ => (f.nodes[f.leafNode leafSide]?).any (fun n =>
      !n.isPsLeaf && (dwAdvance (f.leafLayer leafSide)).isNone)
  | .advanceLeafUnsigned leafSide => (f.nodes[f.leafNode leafSide]?).any (fun n =>
      if n.isPsLeaf then UInt32.ofNat (n.psChainLen+1) > f.statesPerLayer
      else (dwAdvance (f.leafLayer leafSide)).isNone)
  | .tickRoot => (advanceRoot f).isNone
  | _ => false

def amountsFit : FactoryOp → Bool
  | .setLeafAmounts _ amounts => (amounts.map UInt64.toNat).sum < 2^64
  | .subfactoryChainAdvance _ _ _ delta =>
    delta.toNat + f.feePerTx.toNat + channelDustLimitSats.toNat < 2^64
  | _ => true

def CoinsGuarded (op : FactoryOp) : Prop :=
  (rebuildsTree f op = true → TreeBalanced f) ∧ amountsFit f op = true

instance (op : FactoryOp) : Decidable (CoinsGuarded f op) :=
  inferInstanceAs (Decidable ((_ → _) ∧ _))

end

section

variable {past past' : List Factory} {f f' : Factory} {i : ℕ} {n n' : FactoryNode}
  {inputs : List OutPoint}

theorem PaidFrom.mono {o : OutPoint} {amount : ℕ} (h : PaidFrom past f i n o amount)
    (hpast : past ⊆ past') (hbase : f'.base = f.base) (hlinks : n'.links = n.links) :
    PaidFrom past' f' i n' o amount := by
  have hparent := links_parent hlinks
  have hvout := links_vout hlinks
  cases h with
  | funding hroot =>
    have htxid : f'.fundingTxid = f.fundingTxid := (congrArg Factory.fundingTxid hbase :)
    have hindex : f'.fundingVout = f.fundingVout := (congrArg Factory.fundingVout hbase :)
    have hamount : f'.fundingAmountSats = f.fundingAmountSats :=
      (congrArg Factory.fundingAmountSats hbase :)
    rw [← htxid,← hindex,← hamount]
    exact .funding (hparent.trans hroot)
  | parent hp hold hm hout =>
    rw [← hvout] at hout ⊢
    exact .parent (hparent.trans hp) (hpast hold) hm hout
  | chain hold hm hout => exact .chain (hpast hold) hm hout

theorem Pays.mono (h : Pays past f i n inputs) (hpast : past ⊆ past') (hbase : f'.base = f.base)
    (hlinks : n'.links = n.links) (htotal : outputTotal n'.outputs = outputTotal n.outputs) :
    Pays past' f' i n' inputs := by
  obtain ⟨amounts,hpaid,hsum⟩ := h
  have hfee : f'.feePerTx = f.feePerTx := (congrArg Factory.feePerTx hbase :)
  refine ⟨amounts,hpaid.imp fun _ _ ho => ho.mono hpast hbase hlinks,?_⟩
  rw [htotal,hfee]
  exact hsum

theorem Pays.one {o : OutPoint} {amount : ℕ} (ho : PaidFrom past f i n o amount)
    (htotal : outputTotal n.outputs + f.feePerTx.toNat = amount) : Pays past f i n [o] :=
  ⟨[amount],.cons ho .nil,by rw [htotal,sum_singleton]⟩

end

section

variable {env : Env} {f k : Factory} {i : ℕ} {n m : FactoryNode}

def spentOutpoints (f : Factory) (n : FactoryNode) : List OutPoint :=
  if n.isPsLeaf ∧ n.psChainLen > 0 then (chainInputs n 0).map (fun x => ⟨x.prevTxid,x.prevVout⟩)
  else [parentOutpoint f f.nodes n]

theorem chainInputs_prevouts (n : FactoryNode) (s : UInt32) :
    (chainInputs n s).map (fun x => x.toTxIn.prevout) =
      (chainInputs n 0).map (fun x => ⟨x.prevTxid,x.prevVout⟩) := by
  unfold chainInputs
  split_ifs
  · simp only [map_map]
    rfl
  · rfl
  · rfl

theorem rebuiltNode_prevouts : (rebuiltNode env f i n).unsignedTx.inputs.map TxIn.prevout =
    spentOutpoints f n := by
  unfold rebuiltNode finishNodeTx unsignedTx spentOutpoints
  rw [map_map]
  split_ifs
  · exact chainInputs_prevouts n _
  · rfl

theorem spentOutpoints_chain (hps : n.isPsLeaf = true) (hlen : n.psChainLen > 0)
    (htype : n.type = .state) : spentOutpoints f n = [⟨n.psPrevTxid,0⟩] := by
  have hnot : n.type ≠ .psSubfactory := by
    rw [htype]
    decide
  unfold spentOutpoints chainInputs
  rw [if_pos ⟨hps,hlen⟩,if_neg (fun h => hnot h.1),if_neg hnot]
  rfl

theorem spentOutpoints_parent (h : ¬(n.isPsLeaf = true ∧ n.psChainLen > 0)) :
    spentOutpoints f n = [parentOutpoint f f.nodes n] := if_neg h

end

section

structure SameCoins (n m : FactoryNode) : Prop where
  links : m.links = n.links
  amounts : m.outputs.map TxOut.amount = n.outputs.map TxOut.amount
  chain : m.psChainLen = 0 ∨ m.psChainLen = n.psChainLen ∧ m.psPrevTxid = n.psPrevTxid

theorem SameCoins.refl (n : FactoryNode) : SameCoins n n := ⟨rfl,rfl,.inr ⟨rfl,rfl⟩⟩

theorem SameCoins.trans {a b c : FactoryNode} (h : SameCoins a b) (h' : SameCoins b c) :
    SameCoins a c := by
  refine ⟨h'.links.trans h.links,h'.amounts.trans h.amounts,?_⟩
  rcases h'.chain with hzero | ⟨hlen,htxid⟩
  · exact .inl hzero
  · rcases h.chain with hzero | ⟨hlen',htxid'⟩
    · exact .inl (hlen.trans hzero)
    · exact .inr ⟨hlen.trans hlen',htxid.trans htxid'⟩

theorem outputTotal_amounts (outs : List TxOut) :
    outputTotal outs = ((outs.map TxOut.amount).map UInt64.toNat).sum := by
  rw [map_map]
  rfl

theorem SameCoins.total {n m : FactoryNode} (h : SameCoins n m) :
    outputTotal m.outputs = outputTotal n.outputs := by
  simp only [outputTotal_amounts,h.amounts]

structure Redrawn (f k : Factory) : Prop where
  base : k.base = f.base
  nodes : ∀ i : ℕ, Option.Rel SameCoins (f.nodes[i]?) (k.nodes[i]?)

variable {env : Env} {f g k : Factory}

theorem Redrawn.of_nodes (hbase : k.base = f.base) (hnodes : k.nodes = f.nodes) : Redrawn f k :=
  ⟨hbase,fun i => Option.rel_of_eq (by rw [hnodes]) SameCoins.refl⟩

theorem Redrawn.trans (h : Redrawn f g) (h' : Redrawn g k) : Redrawn f k :=
  ⟨h'.base.trans h.base,fun i => Option.rel_comp (h.nodes i) (h'.nodes i) fun _ _ _ => .trans⟩

theorem Redrawn.mapped {change : ℕ → FactoryNode → FactoryNode} (hbase : k.base = f.base)
    (hnodes : k.nodes = f.nodes.mapIdx change)
    (hcoins : ∀ i n, f.NodeAt i n → SameCoins n (change i n)) : Redrawn f k := by
  refine ⟨hbase,fun i => ?_⟩
  rw [hnodes,getElem?_mapIdx]
  exact Option.rel_mapped (hcoins i)

theorem setLastScript_amounts (outputs : List TxOut) (script : Bytes) :
    (setLastScript outputs script).map TxOut.amount = outputs.map TxOut.amount := by
  rcases eq_nil_or_concat outputs with rfl | ⟨front,last,rfl⟩
  · rfl
  · simp only [concat_eq_append,setLastScript_snoc,map_append]
    rfl

theorem updateLStock_coins {n n' : FactoryNode} (h : updateLStock env f n = some n') :
    SameCoins n n' := by
  unfold updateLStock at h
  split_ifs at h with hskip
  · cases h
    exact .refl n
  · obtain ⟨spk,-,rfl⟩ := Option.map_eq_some_iff.mp h
    exact ⟨rfl,setLastScript_amounts _ _,.inr ⟨rfl,rfl⟩⟩

theorem updateLStocks_coins {nodes nodes' : List FactoryNode}
    (h : updateLStocks env f nodes = (nodes',true)) : Forall₂ SameCoins nodes nodes' := by
  induction nodes generalizing nodes' with
  | nil =>
    obtain rfl := (Prod.mk.inj h).1
    exact .nil
  | cons n _ ih =>
    unfold updateLStocks at h
    cases hn : updateLStock env f n with
    | none =>
      rw [hn] at h
      cases (Prod.mk.inj h).2
    | some =>
      rw [hn] at h
      obtain ⟨rfl,hok⟩ := Prod.mk.inj h
      exact .cons (updateLStock_coins hn) (ih (Prod.ext rfl hok))

theorem forall₂_rel {R : FactoryNode → FactoryNode → Prop} {xs ys : List FactoryNode}
    (h : Forall₂ R xs ys) (i : ℕ) : Option.Rel R (xs[i]?) (ys[i]?) := by
  induction h generalizing i with
  | nil => exact .none
  | cons hxy _ ih =>
    cases i with
    | zero => exact .some hxy
    | succ i => exact ih i

theorem updateLStockOutputs_redrawn (h : updateLStockOutputs env f = (k,true)) : Redrawn f k := by
  unfold updateLStockOutputs at h
  split_ifs at h with hshachain
  · obtain ⟨rfl,hok⟩ := Prod.mk.inj h
    exact ⟨rfl,forall₂_rel (updateLStocks_coins (Prod.ext rfl hok))⟩
  · obtain rfl := (Prod.mk.inj h).1
    exact .of_nodes rfl rfl

theorem resetPsChains_redrawn (f : Factory) : Redrawn f (resetPsChains f) := by
  refine .mapped rfl rfl fun i n _ => ?_
  split_ifs
  · exact ⟨rfl,rfl,.inl rfl⟩
  · exact .refl n

theorem resetSubfactoryChains_redrawn (f : Factory) (keep : FactoryNode → Bool) :
    Redrawn f (resetSubfactoryChains f keep) := by
  refine ⟨rfl,fun i => ?_⟩
  unfold resetSubfactoryChains
  rw [getElem?_map]
  refine Option.rel_mapped fun n _ => ?_
  split_ifs
  · exact ⟨rfl,rfl,.inl rfl⟩
  · exact .refl n

theorem Redrawn.sameTree (h : Redrawn f k) : SameTree f k := by
  refine ⟨h.base,ext_getElem? fun i => ?_⟩
  simp only [getElem?_map]
  exact Option.map_eq_of_rel (h.nodes i) fun _ _ => SameCoins.links

theorem Redrawn.parentAmount (h : Redrawn f k) {n m : FactoryNode} (hcoins : SameCoins n m) :
    parentAmount k m = parentAmount f n := by
  have hfunding : k.fundingAmountSats = f.fundingAmountSats :=
    (congrArg Factory.fundingAmountSats h.base :)
  unfold SuperScalar.parentAmount
  rw [links_parent hcoins.links,links_vout hcoins.links,hfunding]
  cases n.parentIndex with
  | none => rfl
  | some p =>
    dsimp only
    have hnode := h.nodes p
    generalize f.nodes[p]? = a at hnode
    generalize k.nodes[p]? = b at hnode
    cases hnode with
    | none => rfl
    | @some _ _ hxy =>
      have hget := congrArg (fun xs => (xs[n.parentVout]?).map UInt64.toNat) hxy.amounts
      simp only [getElem?_map,Option.map_map] at hget
      exact hget

theorem Redrawn.balanced (h : Redrawn f k) (hbalanced : TreeBalanced f) : TreeBalanced k := by
  have hfee : k.feePerTx = f.feePerTx := (congrArg Factory.feePerTx h.base :)
  intro m hm
  obtain ⟨i,hi⟩ := mem_iff_getElem?.mp hm
  obtain ⟨n,hn,hcoins⟩ := Option.rel_before (h.nodes i) hi
  rw [h.parentAmount hcoins,hcoins.total,hfee]
  exact hbalanced n (mem_of_getElem? hn)

end

end SuperScalar
