import SuperScalar.Factory.LeafCount
import SuperScalar.Factory.Links

namespace SuperScalar

open Bitcoin Offset List

structure SetUpLeaf (env : Env) (f : Factory) (R : ℕ → FactoryNode → Prop) (l arity : ℕ)
    (m : FactoryNode) (subs : List FactoryNode) : Prop where
  leaf : R l m
  nonEmpty : m.clients ≠ []
  capacity : subtreeIsLeaf f arity m.clients.length = true
  setup : ∃ st input, st.type = .state ∧ st.isPsLeaf = false ∧ st.subfactoryNodeIndices = [] ∧
    LeafSetup env f arity l st m.clients input m subs
  subs : ∀ i sub, subs[i]? = some sub → R (l+1 + i) sub

def LeafAt (env : Env) (f : Factory) (R : ℕ → FactoryNode → Prop) (l : ℕ) (m : FactoryNode) :
    Prop :=
  ∃ depth subs, SetUpLeaf env f R l (arityAtDepth f depth) m subs

theorem LeafAt.mono {env : Env} {f : Factory} {R S : ℕ → FactoryNode → Prop}
    (h : ∀ j n, R j n → S j n) {l : ℕ} {m : FactoryNode} (hl : LeafAt env f R l m) :
    LeafAt env f S l m := by
  obtain ⟨depth,subs,hleaf,hne,hcap,hsetup,hsubs⟩ := hl
  exact ⟨depth,subs,h _ _ hleaf,hne,hcap,hsetup,fun i sub hi => h _ _ (hsubs i sub hi)⟩

structure Leaves (env : Env) (f : Factory) (R : ℕ → FactoryNode → Prop) (leaves clients : List ℕ)
    (sizes : List ℕ) (ms : List FactoryNode) : Prop where
  nodes : Forall₂ (LeafAt env f R) leaves ms
  clients : ms.flatMap FactoryNode.clients = clients
  sizes : ms.map (fun m => m.clients.length) = sizes

namespace Leaves

variable {env : Env} {f : Factory} {R S : ℕ → FactoryNode → Prop}

theorem mono (h : ∀ j n, R j n → S j n) {leaves clients sizes : List ℕ} {ms : List FactoryNode}
    (hl : Leaves env f R leaves clients sizes ms) : Leaves env f S leaves clients sizes ms :=
  ⟨hl.nodes.imp (fun _ _ hm => hm.mono h),hl.clients,hl.sizes⟩

theorem append {l₁ l₂ c₁ c₂ s₁ s₂ : List ℕ} {ms₁ ms₂ : List FactoryNode}
    (h₁ : Leaves env f R l₁ c₁ s₁ ms₁) (h₂ : Leaves env f R l₂ c₂ s₂ ms₂) :
    Leaves env f R (l₁++l₂) (c₁++c₂) (s₁++s₂) (ms₁++ms₂) where
  nodes := rel_append h₁.nodes h₂.nodes
  clients := by rw [flatMap_append,h₁.clients,h₂.clients]
  sizes := by rw [map_append,h₁.sizes,h₂.sizes]

end Leaves

section

variable {env : Env} {f : Factory}

def BlockLeaves (env : Env) (f : Factory) (p : Place) (b : Block) : Prop :=
  ∃ ms, Leaves env f (At p.nNodes b.nodes) b.leaves p.clients
    (leafSizes f p.depth p.clients.length) ms

theorem Chain.leaves {parent depth n lc slot : ℕ} {parts clients : List ℕ} {children : List Child}
    (h : Chain (BlockLeaves env f) parent depth n lc slot parts clients children) :
    ∃ ms, Leaves env f (At n (childNodes children)) (children.flatMap (fun c => c.block.leaves))
      clients (parts.flatMap (leafSizes f depth)) ms := by
  induction h with
  | nil => exact ⟨[],.nil,rfl,rfl⟩
  | cons _ block _ ih =>
    obtain ⟨ms₁,h₁⟩ := block
    obtain ⟨ms₂,h₂⟩ := ih
    simp only [childNodes_cons,flatMap_cons]
    exact ⟨ms₁ ++ ms₂,(h₁.mono (fun _ _ h => at_append.mpr (Or.inl h))).append
      (h₂.mono (fun _ _ h => at_append.mpr (Or.inr h)))⟩

theorem buildSubtree_leaves (hconf : ArityConfigured f) {fuel : ℕ} {p : Place} {b : Block}
    (h : p.build env f fuel = some b) : BlockLeaves env f p b := by
  refine buildSubtree_induct ?_ ?_ ?_ h
  · intro p ko children hko _ hc
    obtain ⟨ms,hms⟩ := hc.chain.leaves
    refine ⟨ms,?_⟩
    rw [leafSizes_inner hconf (length_pos_iff.mpr hko.nonEmpty) hc.inner]
    exact hms.mono (fun _ _ h => at_cons.mpr (Or.inr h))
  · intro p ko st st' subs hko hst hleaf _ hsetup
    have hfresh := addNode_fresh hst.added
    have hspec := setupLeaf_spec hko.nonEmpty hsetup
    have hclients : st'.clients = p.clients := by
      rw [FactoryNode.clients,hspec.same.signers]
      change st.signerIndices.tail = p.clients
      rw [hfresh.signers]
      rfl
    have hnode : LeafAt env f (At p.nNodes (leafBlock f p ko st st' subs).nodes) (p.nNodes+1)
        st' := by
      refine ⟨p.depth,subs,at_cons.mpr (Or.inr (at_cons.mpr (Or.inl ⟨rfl,rfl⟩))),?_,?_,
        ⟨movingState f p st,p.amount - f.feePerTx,hfresh.type,hfresh.ps,hfresh.subs,?_⟩,?_⟩
      · rw [hclients]
        exact hko.nonEmpty
      · rw [hclients]
        exact hleaf
      · rw [hclients]
        exact hspec
      · intro i sub hi
        refine at_cons.mpr (Or.inr (at_cons.mpr (Or.inr ⟨by omega,?_⟩)))
        rwa [show p.nNodes+1+1 + i-(p.nNodes+1+1) = i by omega]
    refine ⟨[st'],.cons hnode .nil,?_,?_⟩
    · simpa using hclients
    · rw [leafSizes_leaf (length_pos_iff.mpr hko.nonEmpty) hleaf,map_singleton,hclients]
  · intro p ko st children hko _ hc
    obtain ⟨ms,hms⟩ := hc.chain.leaves
    refine ⟨ms,?_⟩
    rw [leafSizes_inner hconf (length_pos_iff.mpr hko.nonEmpty) hc.inner]
    exact hms.mono (fun _ _ h => at_cons.mpr (Or.inr (at_cons.mpr (Or.inr h))))

end

end SuperScalar
