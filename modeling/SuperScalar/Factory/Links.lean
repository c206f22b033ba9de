import SuperScalar.Foundation.Offset
import SuperScalar.Factory.Induct
import SuperScalar.Factory.Leaves

namespace SuperScalar

open Bitcoin Offset List

section

variable {R S : ℕ → FactoryNode → Prop}

def HasParent (R : ℕ → FactoryNode → Prop) (j : ℕ) (n : FactoryNode) : Prop :=
  ∃ p parent, R p parent ∧ p < j ∧ n.parentIndex = some p ∧
    parent.childIndices[n.parentVout]? = some j ∧
    parent.outputs[n.parentVout]? = some ⟨n.inputAmount,n.spendingSpk.val⟩

def HasChildren (R : ℕ → FactoryNode → Prop) (j : ℕ) (n : FactoryNode) : Prop :=
  ∃ ms, Forall₂ R n.childIndices ms ∧
    (∀ (k : ℕ) (m : FactoryNode), ms[k]? = some m → m.parentIndex = some j ∧ m.parentVout = k) ∧
    (ms ≠ [] → ms.flatMap FactoryNode.clients = n.clients)

variable {j : ℕ} {n : FactoryNode}

theorem HasParent.mono (h : ∀ j n, R j n → S j n) : HasParent R j n → HasParent S j n := by
  rintro ⟨p,parent,hp,hrest⟩
  exact ⟨p,parent,h p parent hp,hrest⟩

theorem HasChildren.mono (h : ∀ j n, R j n → S j n) : HasChildren R j n → HasChildren S j n := by
  rintro ⟨ms,hms,hrest⟩
  exact ⟨ms,hms.imp h,hrest⟩

theorem HasChildren.none (h : n.childIndices = []) : HasChildren R j n :=
  ⟨[],by rw [h]; exact .nil,by simp,by simp⟩

end

structure Linked (p : Place) (b : Block) : Prop where
  parent : b.root.parentIndex = p.parent
  vout : b.root.parentVout = p.parentVout
  amount : b.root.inputAmount = p.amount
  signers : b.root.signerIndices = 0 :: p.clients
  up : ∀ j n, At p.nNodes b.nodes j n → j ≠ p.nNodes → HasParent (At p.nNodes b.nodes) j n
  down : ∀ j n, At p.nNodes b.nodes j n → HasChildren (At p.nNodes b.nodes) j n
  lsp : ∀ n ∈ b.nodes, n.signerIndices = 0 :: n.clients

def childNodes (children : List Child) : List FactoryNode :=
  children.flatMap (fun c => c.block.nodes)

@[simp] theorem childNodes_nil : childNodes [] = [] := rfl

@[simp] theorem childNodes_cons (c : Child) (children : List Child) :
    childNodes (c :: children) = c.block.nodes ++ childNodes children := by
  simp [childNodes]

namespace Chain

variable {P : Place → Block → Prop} {parent depth n lc slot : ℕ} {parts clients : List ℕ}
  {children : List Child}

variable {c : Child} {x : FactoryNode} {j : ℕ}

section

variable (h : Chain P parent depth n lc slot parts clients children)

include h

theorem root_at (hc : c ∈ children) : At n (childNodes children) c.index c.block.root := by
  induction h with
  | nil => simp at hc
  | cons index _ _ ih =>
    rw [childNodes_cons,at_append]
    rcases mem_cons.mp hc with rfl | hc
    · exact Or.inl (at_cons.mpr (Or.inl ⟨index,rfl⟩))
    · exact Or.inr (ih hc)

theorem index_ge (hc : c ∈ children) : n ≤ c.index :=
  (h.root_at hc).range.1

end

section

variable (h : Chain Linked parent depth n lc slot parts clients children)

include h

theorem root_linked {k : ℕ}
    (hc : children[k]? = some c) :
    c.block.root.parentIndex = some parent ∧ c.block.root.parentVout = slot + k ∧
      c.block.root.inputAmount = c.budget := by
  induction h generalizing k with
  | nil => simp at hc
  | cons _ block _ ih =>
    cases k with
    | zero =>
      cases hc
      exact ⟨block.parent,block.vout,block.amount⟩
    | succ k =>
      have hlater := ih (by simpa using hc)
      rwa [Nat.add_assoc,Nat.add_comm 1 k] at hlater

theorem up
    (hx : At n (childNodes children) j x) :
    (∃ (k : ℕ) (c : Child), children[k]? = some c ∧ c.index = j ∧ x = c.block.root) ∨
      HasParent (At n (childNodes children)) j x := by
  induction h with
  | nil => simp at hx
  | @cons n _ _ _ _ _ c _ index block _ ih =>
    rw [childNodes_cons] at hx ⊢
    rcases at_append.mp hx with hx | hx
    · by_cases hj : j = n
      · subst hj
        have hroot : At j c.block.nodes j c.block.root := at_cons.mpr (Or.inl ⟨rfl,rfl⟩)
        exact Or.inl ⟨0,c,rfl,index,hx.unique hroot⟩
      · exact Or.inr ((block.up j x hx hj).mono (fun _ _ h => at_append.mpr (Or.inl h)))
    · rcases ih hx with ⟨k,c',hc',hindex,hroot⟩ | hparent
      · exact Or.inl ⟨k+1,c',by simpa using hc',hindex,hroot⟩
      · exact Or.inr (hparent.mono (fun _ _ h => at_append.mpr (Or.inr h)))

theorem down
    (hx : At n (childNodes children) j x) : HasChildren (At n (childNodes children)) j x := by
  induction h with
  | nil => simp at hx
  | cons _ block _ ih =>
    rw [childNodes_cons] at hx ⊢
    rcases at_append.mp hx with hx | hx
    · exact (block.down j x hx).mono (fun _ _ h => at_append.mpr (Or.inl h))
    · exact (ih hx).mono (fun _ _ h => at_append.mpr (Or.inr h))

theorem lsp
    (hx : x ∈ childNodes children) : x.signerIndices = 0 :: x.clients := by
  induction h with
  | nil => simp at hx
  | cons _ block _ ih =>
    rw [childNodes_cons] at hx
    rcases mem_append.mp hx with hx | hx
    · exact block.lsp x hx
    · exact ih hx

theorem root_clients :
    (children.map (fun c => c.block.root)).flatMap FactoryNode.clients = clients := by
  induction h with
  | nil => rfl
  | cons _ block _ ih =>
    rw [map_cons,flatMap_cons,ih,FactoryNode.clients,block.signers]
    rfl

end

variable {R : ℕ → FactoryNode → Prop} {top : FactoryNode}

variable (h : Chain Linked parent depth n lc 0 parts clients children)

include h

variable (hsub : ∀ j x, At n (childNodes children) j x → R j x)

include hsub

theorem attach_up (htop : R parent top)
    (hchildren : top.childIndices = children.map Child.index)
    (houtputs : top.outputs = children.map Child.output) (hbefore : parent < n)
    (hx : At n (childNodes children) j x) : HasParent R j x := by
  rcases h.up hx with ⟨k,c,hc,rfl,rfl⟩ | hparent
  · obtain ⟨hp,hv,ha⟩ := h.root_linked hc
    rw [Nat.zero_add] at hv
    refine ⟨parent,top,htop,hbefore.trans_le (h.index_ge (mem_of_getElem? hc)),hp,?_,?_⟩
    · rw [hv,hchildren,getElem?_map,hc]
      rfl
    · rw [hv,houtputs,getElem?_map,hc,ha]
      rfl
  · exact hparent.mono hsub

theorem attach_down
    (hchildren : top.childIndices = children.map Child.index)
    (hclients : top.clients = clients) : HasChildren R parent top := by
  refine ⟨children.map (fun c => c.block.root),?_,?_,?_⟩
  · rw [hchildren,forall₂_map_left_iff,forall₂_map_right_iff,forall₂_same]
    exact fun c hc => hsub _ _ (h.root_at hc)
  · intro k m hm
    rw [getElem?_map,Option.map_eq_some_iff] at hm
    obtain ⟨c,hc,rfl⟩ := hm
    obtain ⟨hp,hv,-⟩ := h.root_linked hc
    exact ⟨hp,by rwa [Nat.zero_add] at hv⟩
  · intro _
    rw [h.root_clients,hclients]

end Chain

section

variable {env : Env} {f : Factory}

variable {p : Place} {ko st s : FactoryNode} {children : List Child}

theorem linked_static (hko : KickoffAt env f p ko)
    (hc : ChildrenAt f Linked p p.nNodes (p.nNodes+1) p.amount children) :
    Linked p (staticBlock p ko children) := by
  have hfresh := addNode_fresh hko.added
  have hclients : (staticBlock p ko children).root.clients = p.clients := by
    change ko.signerIndices.tail = p.clients
    rw [hfresh.signers]
    rfl
  have htop : At p.nNodes (staticBlock p ko children).nodes p.nNodes
      (staticBlock p ko children).root := at_cons.mpr (Or.inl ⟨rfl,rfl⟩)
  have hsub : ∀ j x, At (p.nNodes+1) (childNodes children) j x →
      At p.nNodes (staticBlock p ko children).nodes j x := fun j x h => at_cons.mpr (Or.inr h)
  refine ⟨hfresh.parent,hfresh.vout,rfl,hfresh.signers,?_,?_,?_⟩
  · intro j n hn hj
    rcases at_cons.mp hn with ⟨rfl,-⟩ | hn
    · exact absurd rfl hj
    · exact hc.chain.attach_up hsub htop rfl rfl (Nat.lt_succ_self _) hn
  · intro j n hn
    rcases at_cons.mp hn with ⟨rfl,rfl⟩ | hn
    · exact hc.chain.attach_down hsub rfl hclients
    · exact (hc.chain.down hn).mono hsub
  · intro n hn
    rcases mem_cons.mp hn with rfl | hn
    · rw [hclients]
      exact hfresh.signers
    · exact hc.chain.lsp hn

structure Follows (f : Factory) (p : Place) (st s : FactoryNode) : Prop where
  parent : s.parentIndex = some p.nNodes
  vout : s.parentVout = 0
  amount : s.inputAmount = p.amount-f.feePerTx
  spk : s.spendingSpk = st.spendingSpk
  signers : s.signerIndices = 0 :: p.clients

theorem Follows.clients (h : Follows f p st s) : s.clients = p.clients := by
  rw [FactoryNode.clients,h.signers]
  rfl

theorem linked_moving {tail : List FactoryNode} {leaves : List ℕ} (hko : KickoffAt env f p ko)
    (hs : Follows f p st s)
    (hup : ∀ j n, At (p.nNodes+2) tail j n →
      HasParent (At p.nNodes (movingKickoff f p ko st :: s :: tail)) j n)
    (hstate : HasChildren (At p.nNodes (movingKickoff f p ko st :: s :: tail)) (p.nNodes+1) s)
    (hdown : ∀ j n, At (p.nNodes+2) tail j n →
      HasChildren (At p.nNodes (movingKickoff f p ko st :: s :: tail)) j n)
    (hlsp : ∀ n ∈ tail, n.signerIndices = 0 :: n.clients) :
    Linked p ⟨movingKickoff f p ko st,s :: tail,leaves⟩ := by
  have hfresh := addNode_fresh hko.added
  have hclients : (movingKickoff f p ko st).clients = p.clients := by
    change ko.signerIndices.tail = p.clients
    rw [hfresh.signers]
    rfl
  have htop : At p.nNodes (movingKickoff f p ko st :: s :: tail) p.nNodes
      (movingKickoff f p ko st) := at_cons.mpr (Or.inl ⟨rfl,rfl⟩)
  have hnext : At p.nNodes (movingKickoff f p ko st :: s :: tail) (p.nNodes+1) s :=
    at_cons.mpr (Or.inr (at_cons.mpr (Or.inl ⟨rfl,rfl⟩)))
  refine ⟨hfresh.parent,hfresh.vout,rfl,hfresh.signers,?_,?_,?_⟩
  · intro j n hn hj
    rcases at_cons.mp hn with ⟨rfl,-⟩ | hn
    · exact absurd rfl hj
    rcases at_cons.mp hn with ⟨rfl,rfl⟩ | hn
    · refine ⟨p.nNodes,_,htop,Nat.lt_succ_self _,hs.parent,?_,?_⟩
      · rw [hs.vout]
        rfl
      · rw [hs.vout,hs.amount,hs.spk]
        rfl
    · exact hup j n hn
  · intro j n hn
    rcases at_cons.mp hn with ⟨rfl,rfl⟩ | hn
    · refine ⟨[s],.cons hnext .nil,?_,?_⟩
      · intro k m hm
        obtain ⟨rfl,rfl⟩ : k = 0 ∧ s = m := by
          cases k with
          | zero => exact ⟨rfl,by simpa using hm⟩
          | succ => simp at hm
        exact ⟨hs.parent,hs.vout⟩
      · intro _
        rw [hclients]
        simpa using hs.clients
    rcases at_cons.mp hn with ⟨rfl,rfl⟩ | hn
    · exact hstate
    · exact hdown j n hn
  · intro n hn
    rcases mem_cons.mp hn with rfl | hn
    · rw [hclients]
      exact hfresh.signers
    rcases mem_cons.mp hn with rfl | hn
    · rw [hs.clients]
      exact hs.signers
    · exact hlsp n hn

theorem linked_inner (hko : KickoffAt env f p ko) (hst : StateAt env f p st)
    (hc : ChildrenAt f Linked p (p.nNodes+1) (p.nNodes+2) (p.amount-f.feePerTx) children) :
    Linked p (innerBlock f p ko st children) := by
  have hfresh := addNode_fresh hst.added
  have hs : Follows f p st (innerState f p st children) :=
    ⟨hfresh.parent,hfresh.vout,rfl,rfl,hfresh.signers⟩
  have hsub : ∀ j x, At (p.nNodes+2) (childNodes children) j x →
      At p.nNodes (innerBlock f p ko st children).nodes j x :=
    fun j x h => at_cons.mpr (Or.inr (at_cons.mpr (Or.inr h)))
  have htop : At p.nNodes (innerBlock f p ko st children).nodes (p.nNodes+1)
      (innerState f p st children) := at_cons.mpr (Or.inr (at_cons.mpr (Or.inl ⟨rfl,rfl⟩)))
  apply linked_moving hko hs
  · intro j n hn
    exact hc.chain.attach_up hsub htop rfl rfl (Nat.lt_succ_self _) hn
  · exact hc.chain.attach_down hsub rfl hs.clients
  · intro j n hn
    exact (hc.chain.down hn).mono hsub
  · intro n hn
    exact hc.chain.lsp hn

theorem linked_leaf {st' : FactoryNode} {subs : List FactoryNode} (hko : KickoffAt env f p ko)
    (hst : StateAt env f p st)
    (hsetup : LeafSetup env f (p.arity f) (p.nNodes+1) (movingState f p st) p.clients
      (p.amount-f.feePerTx) st' subs) :
    Linked p (leafBlock f p ko st st' subs) := by
  have hfresh := addNode_fresh hst.added
  have hs : Follows f p st st' := ⟨hsetup.same.parent.trans hfresh.parent,
    hsetup.same.vout.trans hfresh.vout,hsetup.same.amount,hsetup.same.spk,
    hsetup.same.signers.trans hfresh.signers⟩
  have hchildren := hsetup.children hfresh.children
  have hsub : ∀ j x, At (p.nNodes+2) subs j x →
      At p.nNodes (leafBlock f p ko st st' subs).nodes j x :=
    fun j x h => at_cons.mpr (Or.inr (at_cons.mpr (Or.inr h)))
  have htop : At p.nNodes (leafBlock f p ko st st' subs).nodes (p.nNodes+1) st' :=
    at_cons.mpr (Or.inr (at_cons.mpr (Or.inl ⟨rfl,rfl⟩)))
  apply linked_moving hko hs
  · rintro j n ⟨hle,hget⟩
    obtain ⟨amount,hsetup',hout⟩ := hsetup.subs _ n hget
    obtain ⟨si,rfl⟩ := Nat.exists_eq_add_of_le hle
    rw [Nat.add_sub_cancel_left] at hget hsetup' hout
    have hlt := (List.getElem?_eq_some_iff.mp hget).1
    refine ⟨p.nNodes+1,st',htop,by omega,hsetup'.parent,?_,?_⟩
    · rw [hsetup'.vout,hchildren,getElem?_map,getElem?_range hlt]
      rfl
    · rw [hsetup'.vout,hsetup'.amount,hout]
  · refine ⟨subs,?_,?_,?_⟩
    · rw [hchildren,forall₂_map_left_iff,forall₂_iff_get]
      refine ⟨by simp,?_⟩
      intro i hi hi'
      apply hsub
      refine ⟨by simp only [get_eq_getElem,getElem_range]; omega,?_⟩
      simp only [get_eq_getElem,getElem_range]
      rw [show p.nNodes+1+1 + i-(p.nNodes+2) = i by omega,getElem?_eq_getElem hi']
    · intro k m hm
      obtain ⟨amount,hsetup',-⟩ := hsetup.subs k m hm
      exact ⟨hsetup'.parent,hsetup'.vout⟩
    · intro hne
      rw [hsetup.subClients hne,hs.clients]
  · rintro j n ⟨-,hget⟩
    obtain ⟨amount,hsetup',-⟩ := hsetup.subs _ n hget
    exact HasChildren.none hsetup'.children
  · intro n hn
    obtain ⟨si,hget⟩ := mem_iff_getElem?.mp hn
    obtain ⟨amount,hsetup',-⟩ := hsetup.subs si n hget
    rw [FactoryNode.clients,hsetup'.signers]
    rfl

theorem buildSubtree_linked {fuel : ℕ} {b : Block} (h : p.build env f fuel = some b) :
    Linked p b := by
  refine buildSubtree_induct ?_ ?_ ?_ h
  · intro p ko children hko _ hc
    exact linked_static hko hc
  · intro p ko st st' subs hko hst _ _ hsetup
    exact linked_leaf hko hst (setupLeaf_spec hko.nonEmpty hsetup)
  · intro p ko st children hko hst hc
    exact linked_inner hko hst hc

end

end SuperScalar
