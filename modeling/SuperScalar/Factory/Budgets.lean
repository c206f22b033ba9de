import SuperScalar.Factory.Skeleton

namespace SuperScalar

open Bitcoin Offset

-- What comes in at a leaf of a subtree over `n` clients that is funded with `amount`.
inductive LeafBudget (f : Factory) : ℕ → ℕ → ℕ → ℕ → Prop
  | leaf {depth n amount : ℕ} (hleaf : subtreeIsLeaf f (arityAtDepth f depth) n = true) :
      LeafBudget f depth n amount (amount-f.feePerTx.toNat)
  | inner {depth n amount k part budget : ℕ} (rest : ℕ)
      (hinner : subtreeIsLeaf f (arityAtDepth f depth) n = false)
      (hrest : rest = if (depth : Int) < staticThreshold f then amount-f.feePerTx.toNat
        else amount-f.feePerTx.toNat-f.feePerTx.toNat)
      (hpart : (splitClientsForArity (arityAtDepth f depth) n)[k]? = some part)
      (below : LeafBudget f (depth+1) part
        (childShare rest (splitClientsForArity (arityAtDepth f depth) n).length k) budget) :
      LeafBudget f depth n amount budget

def LeavesFunded (f : Factory) : Prop :=
  ∀ budget, LeafBudget f.priced 0 f.nClients f.fundingAmountSats.toNat budget →
    f.priced.feePerTx.toNat ≤ budget

section

variable {env : Env} {f : Factory}

def Funded (f : Factory) (p : Place) (b : Block) : Prop :=
  ∀ n ∈ b.nodes, f.feePerTx ≤ n.inputAmount ∨
    LeafBudget f p.depth p.clients.length p.amount.toNat n.inputAmount.toNat

theorem Chain.funded {parent depth n lc slot : ℕ} {parts clients : List ℕ} {children : List Child}
    (h : Chain (Funded f) parent depth n lc slot parts clients children) {x : FactoryNode}
    (hx : x ∈ childNodes children) : ∃ (k part : ℕ) (c : Child), parts[k]? = some part ∧
      children[k]? = some c ∧ (f.feePerTx ≤ x.inputAmount ∨
        LeafBudget f depth part c.budget.toNat x.inputAmount.toNat) := by
  induction h with
  | nil => simp at hx
  | @cons _ _ _ clients _ _ c _ _ block _ ih =>
    rw [childNodes_cons] at hx
    rcases List.mem_append.mp hx with hx | hx
    · exact ⟨0,clients.length,c,rfl,rfl,block x hx⟩
    · obtain ⟨k,part,d,hpart,hd,hbudget⟩ := ih hx
      exact ⟨k+1,part,d,hpart,hd,hbudget⟩

theorem ChildrenAt.funded {p : Place} {parent n : ℕ} {amount : UInt64} {children : List Child}
    (hc : ChildrenAt f (Funded f) p parent n amount children)
    (hrest : amount.toNat-f.feePerTx.toNat = if (p.depth : Int) < staticThreshold f then
      p.amount.toNat - f.feePerTx.toNat else p.amount.toNat-f.feePerTx.toNat-f.feePerTx.toNat)
    {x : FactoryNode} (hx : x ∈ childNodes children) : f.feePerTx ≤ x.inputAmount ∨
      LeafBudget f p.depth p.clients.length p.amount.toNat x.inputAmount.toNat := by
  obtain ⟨k,part,c,hpart,hchild,hfee | hbelow⟩ := hc.chain.funded hx
  · exact .inl hfee
  · rw [hc.shares k c hchild] at hbelow
    exact .inr (.inner _ hc.inner hrest hpart hbelow)

theorem buildSubtree_funded {fuel : ℕ} {p : Place} {b : Block} (h : p.build env f fuel = some b) :
    Funded f p b := by
  refine buildSubtree_induct ?_ ?_ ?_ h
  · intro p ko children hko hstatic hc n hn
    rcases List.mem_cons.mp hn with rfl | hn
    · exact .inl (UInt64.le_of_lt hko.fee)
    · exact hc.funded (if_pos hstatic).symm hn
  · intro p ko st st' subs hko hst hleaf _ hsetup n hn
    have hspec := setupLeaf_spec hko.nonEmpty hsetup
    rcases List.mem_cons.mp hn with rfl | hn
    · exact .inl (UInt64.le_of_lt hko.fee)
    rcases List.mem_cons.mp hn with rfl | hn
    · right
      rw [hspec.same.amount]
      change LeafBudget f p.depth _ _ (p.amount-f.feePerTx).toNat
      rw [UInt64.toNat_sub_of_le _ _ (UInt64.le_of_lt hko.fee)]
      exact .leaf hleaf
    · obtain ⟨si,hget⟩ := List.mem_iff_getElem?.mp hn
      obtain ⟨amount,hsub,-⟩ := hspec.subs si n hget
      left
      rw [hsub.amount]
      exact UInt64.le_of_lt hsub.fee
  · intro p ko st children hko hst hc n hn
    rcases List.mem_cons.mp hn with rfl | hn
    · exact .inl (UInt64.le_of_lt hko.fee)
    rcases List.mem_cons.mp hn with rfl | hn
    · exact .inl (UInt64.le_of_lt hc.fee)
    · refine hc.funded ?_ hn
      rw [if_neg fun hlt => hst.moving ⟨hlt,hc.inner⟩,
        UInt64.toNat_sub_of_le _ _ (UInt64.le_of_lt hko.fee)]

end

theorem LeafBudget.congr {f g : Factory} (harity : arityAtDepth f = arityAtDepth g)
    (hleaf : subtreeIsLeaf f = subtreeIsLeaf g) (hstatic : staticThreshold f = staticThreshold g)
    (hfee : f.feePerTx = g.feePerTx) {depth n amount budget : ℕ}
    (h : LeafBudget f depth n amount budget) : LeafBudget g depth n amount budget := by
  induction h with
  | leaf htip =>
    rw [hfee]
    exact .leaf (by rw [← harity,← hleaf]; exact htip)
  | inner rest hinner hrest hpart _ ih =>
    rw [harity] at hpart ih
    exact .inner rest (by rw [← harity,← hleaf]; exact hinner) (by rw [hrest,hstatic,hfee]) hpart
      ih

section

variable {env : Env} {f g : Factory} {b : Block}

theorem BuiltFrom.inputs_funded (h : BuiltFrom env f g b) (hfunded : LeavesFunded f) {i : ℕ}
    {n : FactoryNode} (hn : g.NodeAt i n) : g.feePerTx ≤ n.inputAmount := by
  obtain rfl := h.result
  obtain ⟨m,hm,hshape⟩ := at_of_nodeAt hn
  rw [hshape.amount]
  rcases buildSubtree_funded h.block m hm.mem with hfee | hbudget
  · exact hfee
  · rw [show (rootPlace env f).clients.length = f.nClients from placedClients_length env f f.nClients]
      at hbudget
    have hpriced := LeafBudget.congr (f := f.prepared) (g := f.priced) rfl rfl rfl rfl hbudget
    exact UInt64.le_iff_toNat_le.mpr (hfunded _ hpriced)

theorem BuiltFrom.root_amount (h : BuiltFrom env f g b) {n : FactoryNode} {i : ℕ}
    (hn : g.NodeAt i n) (hroot : n.parentIndex = none) : n.inputAmount = g.fundingAmountSats := by
  obtain rfl := h.result
  have hlinked := buildSubtree_linked h.block
  obtain ⟨m,hm,hshape⟩ := at_of_nodeAt hn
  have hparent := hshape.parent.symm.trans hroot
  have hi : i = 0 := by
    by_contra hne
    obtain ⟨p,parent,-,-,hindex,-⟩ := hlinked.up i m hm hne
    rw [hparent] at hindex
    cases hindex
  subst hi
  have hhead : At 0 b.nodes 0 b.root := at_cons.mpr (Or.inl ⟨rfl,rfl⟩)
  obtain rfl := hm.unique hhead
  exact hshape.amount.trans hlinked.amount

end

end SuperScalar
