import SuperScalar.Factory.LeafNodes
import SuperScalar.Factory.LeafSizes
import SuperScalar.Factory.Roles

namespace SuperScalar

open Bitcoin Offset List Option Nat FactoryNode Factory

def FactoryNode.blank (n : FactoryNode) : FactoryNode :=
  { n with nsequence := 0, unsignedTx := ⟨0,[],[],0⟩, txid := Blob.zero 32, isBuilt := false }

structure SameShape (n m : FactoryNode) : Prop where
  type : n.type = m.type
  signers : n.signerIndices = m.signerIndices
  keyagg : n.keyagg = m.keyagg
  spk : n.spendingSpk = m.spendingSpk
  outputs : n.outputs = m.outputs
  layer : n.dwLayerIndex = m.dwLayerIndex
  parent : n.parentIndex = m.parentIndex
  vout : n.parentVout = m.parentVout
  children : n.childIndices = m.childIndices
  amount : n.inputAmount = m.inputAmount
  ps : n.isPsLeaf = m.isPsLeaf
  chainLen : n.psChainLen = m.psChainLen
  prevTxid : n.psPrevTxid = m.psPrevTxid
  prevAmount : n.psPrevChanAmount = m.psPrevChanAmount
  prevOutputs : n.psNPrevOutputs = m.psNPrevOutputs
  subs : n.subfactoryNodeIndices = m.subfactoryNodeIndices
  static : n.isStaticOnly = m.isStaticOnly

variable {n m : FactoryNode}

theorem sameShape_of_blank (h : n.blank = m.blank) : SameShape n m := by
  cases n
  cases m
  simp only [FactoryNode.blank,FactoryNode.mk.injEq] at h
  constructor <;> simp only [h]

theorem SameShape.clients (h : SameShape n m) : n.clients = m.clients := by
  rw [FactoryNode.clients,h.signers]
  rfl

section

variable {env : Env} {f : Factory}

theorem buildNodeTxs_length (built rest : List FactoryNode) :
    (buildNodeTxs env f built rest).length = built.length + rest.length := by
  induction rest generalizing built with
  | nil => rfl
  | cons _ _ ih =>
    rw [buildNodeTxs,ih,length_append,length_singleton,length_cons]
    omega

theorem buildNodeTxs_prefix (env : Env) (f : Factory) (built rest : List FactoryNode) :
    built <+: buildNodeTxs env f built rest := by
  induction rest generalizing built with
  | nil => exact prefix_refl built
  | cons _ _ ih => exact (prefix_append built _).trans (ih _)

variable {i : ℕ} {n : FactoryNode}

theorem buildNodeTxs_get (env : Env) (f : Factory) (built : List FactoryNode)
    {rest : List FactoryNode} (h : rest[i]? = some n) :
    ∃ nodes, nodes.take (built.length+i) =
        (buildNodeTxs env f built rest).take (built.length+i) ∧
      (buildNodeTxs env f built rest)[built.length + i]? =
        some (buildNodeTx env f nodes (built.length+i) n) := by
  induction rest generalizing built i with
  | nil => simp at h
  | cons m rest ih =>
    cases i with
    | zero =>
      obtain rfl : m = n := by simpa using h
      rw [buildNodeTxs,add_zero]
      obtain ⟨tail,htail⟩ := buildNodeTxs_prefix env f
        (built ++ [buildNodeTx env f (built ++ m :: rest) built.length m]) rest
      rw [← htail]
      refine ⟨built ++ m :: rest,?_,?_⟩
      · simp
      · simp
    | succ i =>
      have hlater := ih (built ++ [buildNodeTx env f (built ++ m :: rest) built.length m])
        (by simpa using h)
      rw [length_append,length_singleton,add_assoc,add_comm 1 i] at hlater
      rw [buildNodeTxs]
      exact hlater

theorem buildAllUnsignedTxs_get (h : f.nodes[i]? = some n)
    (hparent : ∀ p, n.parentIndex = some p → p < i) :
    (buildAllUnsignedTxs env f).nodes[i]? =
      some (buildNodeTx env f (buildAllUnsignedTxs env f).nodes i n) := by
  obtain ⟨nodes,htake,hget⟩ := buildNodeTxs_get env f [] h
  rw [length_nil,zero_add] at htake hget
  have hout : parentOutpoint f nodes n = parentOutpoint f (buildAllUnsignedTxs env f).nodes n := by
    unfold parentOutpoint
    cases hp : n.parentIndex with
    | none => rfl
    | some p =>
      have hlt := hparent p hp
      have hsame : nodes[p]? = (buildNodeTxs env f [] f.nodes)[p]? := by
        rw [← getElem?_take_of_lt hlt,htake,getElem?_take_of_lt hlt]
      simp only [buildAllUnsignedTxs,hsame]
  change (buildNodeTxs env f [] f.nodes)[i]? = _
  simp only [hget,buildNodeTx,hout]

theorem buildAllUnsignedTxs_blank (env : Env) (f : Factory) :
    (buildAllUnsignedTxs env f).nodes.map blank = f.nodes.map blank := by
  apply ext_getElem?
  intro i
  simp only [getElem?_map]
  cases h : f.nodes[i]? with
  | none =>
    rw [getElem?_eq_none_iff] at h
    rw [getElem?_eq_none]
    change (buildNodeTxs env f [] f.nodes).length ≤ i
    rw [buildNodeTxs_length]
    simpa using h
  | some =>
    obtain ⟨nodes,-,hget⟩ := buildNodeTxs_get env f [] h
    rw [length_nil,zero_add] at hget
    change Option.map _ (buildNodeTxs env f [] f.nodes)[i]? = _
    rw [hget]
    rfl

end

section

def Factory.nClients (f : Factory) : ℕ := f.nParticipants-1

def Factory.priced (f : Factory) : Factory := { f with feePerTx := f.fee.getD f.feePerTx }

def Factory.prepared (f : Factory) : Factory :=
  let metrics := treeMetrics f.priced f.nClients
  { f.priced with
    counter := dwCounterInit (dwNLayersFor metrics.1 (staticThreshold f)) f.stepBlocks
      f.statesPerLayer
    nLeafNodes := metrics.2
    leafLayers := replicate metrics.2 (dwLayerInit f.stepBlocks f.statesPerLayer) }

variable {env : Env} {f g : Factory}

def rootPlace (env : Env) (f : Factory) : Place :=
  ⟨0,0,placedClients env f f.nClients,none,0,0,f.fundingAmountSats⟩

def Block.installed (f : Factory) (b : Block) : Factory :=
  { f with nodes := b.nodes, leafNodeIndices := b.leaves }

structure BuiltFrom (env : Env) (f g : Factory) (b : Block) : Prop where
  participants : 2 ≤ f.nParticipants
  bounded : f.nParticipants ≤ 128
  paired : f.leafArity = factoryArity2 → 2 ≤ f.nClients
  block : (rootPlace env f).build env f.prepared (f.nClients+1) = some b
  result : g = buildAllUnsignedTxs env (b.installed f.prepared)

theorem factoryBuildTree_spec (h : factoryBuildTree env f = some g) : ∃ b, BuiltFrom env f g b := by
  have hcap := f.config.signers_le
  rw [factoryBuildTree] at h
  split at h
  · cases h
  next hcount =>
  split at h
  · cases h
  next hpair =>
  dsimp only at h
  split at h
  · cases h
  split at h
  · cases h
  simp only [bind_eq_bind,bind_eq_some_iff,some.injEq] at h
  obtain ⟨b,hb,rfl⟩ := h
  refine ⟨b,by omega,by omega,?_,hb,rfl⟩
  intro ha
  rw [nClients]
  omega

theorem placedClients_perm (env : Env) (f : Factory) (n : ℕ) :
    (placedClients env f n).Perm ((range n).map (· + 1)) := by
  rw [placedClients]
  split
  · cases f.placementMode with
    | sequential => exact Perm.refl _
    | inward => exact env.qsort_perm _ _
    | outward => exact env.qsort_perm _ _
    | timezoneCluster => exact env.qsort_perm _ _
  · exact Perm.refl _

theorem placedClients_nodup (env : Env) (f : Factory) (n : ℕ) : (placedClients env f n).Nodup := by
  have hnodup : ((range n).map (· + 1)).Nodup :=
    nodup_range.map (fun a b h => succ.inj h)
  exact (placedClients_perm env f n).nodup_iff.mpr hnodup

theorem placedClients_length (env : Env) (f : Factory) (n : ℕ) :
    (placedClients env f n).length = n := by
  rw [(placedClients_perm env f n).length_eq,length_map,length_range]

def Factory.NodeAt (g : Factory) (i : ℕ) (n : FactoryNode) : Prop := g.nodes[i]? = some n

def Factory.clientsAt (g : Factory) (i : ℕ) : List ℕ :=
  ((g.nodes[i]?).map clients).getD []

structure WellFormedTree (g : Factory) (nClients : ℕ) : Prop where
  root : ∃ n, g.NodeAt 0 n ∧ n.parentIndex = none
  topDown : ∀ i n, g.NodeAt i n → i ≠ 0 → ∃ p parent, g.NodeAt p parent ∧ p < i ∧
    n.parentIndex = some p ∧ parent.childIndices[n.parentVout]? = some i
  children : ∀ i n k c, g.NodeAt i n → n.childIndices[k]? = some c →
    ∃ m, g.NodeAt c m ∧ m.parentIndex = some i ∧ m.parentVout = k
  funded : ∀ i n p parent, g.NodeAt i n → n.parentIndex = some p → g.NodeAt p parent →
    parent.outputs[n.parentVout]? = some ⟨n.inputAmount,n.spendingSpk.val⟩
  signers : ∀ i n, g.NodeAt i n → n.signerIndices = 0 :: n.clients ∧ 0 ∉ n.clients ∧
    n.clients.Nodup ∧ (n.childIndices ≠ [] → n.childIndices.flatMap g.clientsAt = n.clients)
  leaves : ∀ i, i ∈ g.leafNodeIndices ↔ ∃ n, g.NodeAt i n ∧ IsTip n
  distinct : g.leafNodeIndices.Nodup
  partition : (g.leafNodeIndices.flatMap g.clientsAt).Perm ((range nClients).map (· + 1))
  counted : g.leafNodeIndices.length = g.nLeafNodes

section

variable {b : Block} (hlinked : Linked (rootPlace env f) b)

include hlinked

theorem Linked.clients_sublist {j : ℕ} {n : FactoryNode} (hn : At 0 b.nodes j n) :
    n.clients.Sublist (placedClients env f f.nClients) := by
  induction j using Nat.strong_induction_on generalizing n with
  | h j ih =>
    by_cases hj : j = 0
    · subst hj
      have hroot : At 0 b.nodes 0 b.root := at_cons.mpr (Or.inl ⟨rfl,rfl⟩)
      obtain rfl := hn.unique hroot
      rw [clients,hlinked.signers]
      exact Sublist.refl _
    · obtain ⟨p,parent,hp,hlt,-,hchild,-⟩ := hlinked.up j n hn hj
      obtain ⟨ms,hms,-,hconcat⟩ := hlinked.down p parent hp
      have hmem : n ∈ ms := by
        obtain ⟨m,hget,hm⟩ := hms.getElem?_left hchild
        rw [hn.unique hm]
        exact mem_of_getElem? hget
      refine Sublist.trans ?_ (ih p hlt hp)
      rw [← hconcat (ne_nil_of_mem hmem),flatMap_def]
      exact sublist_flatten_of_mem (mem_map_of_mem hmem)

end

variable {b : Block} {j : ℕ} {m : FactoryNode}

theorem nodeAt_of_at (env : Env) (f : Factory) (h : At 0 b.nodes j m) :
    ∃ n, (buildAllUnsignedTxs env (b.installed f)).NodeAt j n ∧ SameShape n m := by
  have hmap := congrArg (·[j]?) (buildAllUnsignedTxs_blank env (b.installed f))
  simp only [getElem?_map] at hmap
  rw [show (b.installed f).nodes[j]? = some m from at_zero.mp h] at hmap
  obtain ⟨n,hn,heq⟩ := map_eq_some_iff.mp hmap
  exact ⟨n,hn,sameShape_of_blank heq⟩

theorem at_of_nodeAt {n : FactoryNode} (h : (buildAllUnsignedTxs env (b.installed f)).NodeAt j n) :
    ∃ m, At 0 b.nodes j m ∧ SameShape n m := by
  have hmap := congrArg (·[j]?) (buildAllUnsignedTxs_blank env (b.installed f))
  simp only [getElem?_map] at hmap
  rw [show (buildAllUnsignedTxs env (b.installed f)).nodes[j]? = some n from h] at hmap
  obtain ⟨m,hm,heq⟩ := map_eq_some_iff.mp hmap.symm
  exact ⟨m,at_zero.mpr hm,sameShape_of_blank heq.symm⟩

theorem clientsAt_of_at (h : At 0 b.nodes j m) :
    (buildAllUnsignedTxs env (b.installed f)).clientsAt j = m.clients := by
  obtain ⟨n,hn,hshape⟩ := nodeAt_of_at env f h
  rw [clientsAt,show (buildAllUnsignedTxs env (b.installed f)).nodes[j]? = some n from hn]
  exact hshape.clients

theorem clientsAt_concat {indices : List ℕ} {ms : List FactoryNode}
    (h : Forall₂ (At 0 b.nodes) indices ms) :
    indices.flatMap (buildAllUnsignedTxs env (b.installed f)).clientsAt = ms.flatMap clients := by
  induction h with
  | nil => rfl
  | cons hhead _ ih => simp only [flatMap_cons,ih,clientsAt_of_at hhead]

def PsLeavesFill (f : Factory) (n : ℕ) : Prop :=
  f.levelArity ≠ [] ∨ f.leafArity ≠ factoryArityPs ∨ f.psSubfactoryArity ≤ 1 ∨
    HalvesFill (f.psSubfactoryArity*f.psSubfactoryArity) n

theorem leafCount_priced (f : Factory) (depth nc : ℕ) :
    leafCount f.priced depth nc = leafCount f depth nc :=
  congrArg length (treeSizes_congr (f := f.priced) (g := f) (fun _ => rfl) rfl nc depth nc)

theorem nLeafNodes_ps (hu : f.levelArity = []) (ha : f.leafArity = factoryArityPs) :
    f.prepared.nLeafNodes = (f.nClients + psLeafCapacity f - 1) / psLeafCapacity f := by
  have hmax := Nat.max_eq_left (psLeafCapacity_pos f)
  change (treeMetrics f.priced f.nClients).2 = _
  rw [treeMetrics,if_pos (show f.priced.levelArity = [] from hu)]
  change computeLeafCountPsk f.nClients f.leafArity (psLeafCapacity f) = _
  rw [ha,computeLeafCountPsk,if_neg (by decide),if_pos rfl,hmax]

theorem nLeafNodes_exact (hconf : ArityConfigured f) (hpos : 0 < f.nClients)
    (hle : f.nClients ≤ factoryMaxNodes)
    (h : f.levelArity ≠ [] ∨ f.leafArity ≠ factoryArityPs ∨ f.psSubfactoryArity ≤ 1) :
    f.prepared.nLeafNodes = leafCount f 0 f.nClients := by
  by_cases hu : f.levelArity = []
  · by_cases hps : f.leafArity = factoryArityPs
    · have hk : f.psSubfactoryArity ≤ 1 := by
        rcases h with h | h | h
        · exact absurd hu h
        · exact absurd hps h
        · exact h
      have hcap : psLeafCapacity f = 1 := if_pos hk
      rw [nLeafNodes_ps hu hps,leafCount_single hconf hu hpos (Or.inr ⟨hps,hcap⟩),hcap,Nat.div_one]
      rfl
    · change (treeMetrics f.priced f.nClients).2 = _
      rw [treeMetrics,if_pos (show f.priced.levelArity = [] from hu)]
      change computeLeafCountPsk f.nClients f.leafArity (psLeafCapacity f) = _
      rcases hconf.1 hu with ha | ha | ha
      · rw [leafCount_single hconf hu hpos (Or.inl ha),ha]
        rfl
      · rw [(leafSizes_pairs hconf hu hpos ha).1,ha]
        rfl
      · exact absurd ha hps
  · change (treeMetrics f.priced f.nClients).2 = _
    rw [treeMetrics,if_neg (show ¬ f.priced.levelArity = [] from hu),
      simulateTree_leaves (f := f.priced) hconf hpos hle,leafCount_priced]

theorem nLeafNodes_iff (hconf : ArityConfigured f) (hpos : 0 < f.nClients)
    (hle : f.nClients ≤ factoryMaxNodes) :
    leafCount f 0 f.nClients = f.prepared.nLeafNodes ↔ PsLeavesFill f f.nClients := by
  by_cases hexact : f.levelArity ≠ [] ∨ f.leafArity ≠ factoryArityPs ∨ f.psSubfactoryArity ≤ 1
  · have hcount := nLeafNodes_exact hconf hpos hle hexact
    refine ⟨fun _ => ?_,fun _ => hcount.symm⟩
    rcases hexact with h | h | h
    · exact Or.inl h
    · exact Or.inr (Or.inl h)
    · exact Or.inr (Or.inr (Or.inl h))
  · have hu : f.levelArity = [] := by
      by_contra h
      exact hexact (Or.inl h)
    have ha : f.leafArity = factoryArityPs := by
      by_contra h
      exact hexact (Or.inr (Or.inl h))
    have hk : ¬ f.psSubfactoryArity ≤ 1 := fun h => hexact (Or.inr (Or.inr h))
    have hcap : psLeafCapacity f = f.psSubfactoryArity*f.psSubfactoryArity := if_neg hk
    have hfour : 2*2 ≤ f.psSubfactoryArity*f.psSubfactoryArity :=
      Nat.mul_le_mul (by omega) (by omega)
    rw [nLeafNodes_ps hu ha,ps_count_iff hconf hu ha (by omega) hpos,hcap,PsLeavesFill]
    simp [hu,ha,hk]

theorem nLeafNodes_le (hconf : ArityConfigured f) (hpos : 0 < f.nClients)
    (hle : f.nClients ≤ factoryMaxNodes) : f.prepared.nLeafNodes ≤ leafCount f 0 f.nClients := by
  by_cases h : f.levelArity = [] ∧ f.leafArity = factoryArityPs
  · rw [nLeafNodes_ps h.1 h.2]
    exact ceil_le_leafCount hconf h.1 h.2 hpos
  · refine (nLeafNodes_exact hconf hpos hle ?_).le
    by_cases hu : f.levelArity = []
    · exact Or.inr (Or.inl (fun ha => h ⟨hu,ha⟩))
    · exact Or.inl hu

theorem BuiltFrom.nClients_pos (h : BuiltFrom env f g b) : 0 < f.nClients := by
  have := h.participants
  rw [nClients]
  omega

theorem BuiltFrom.nClients_le (h : BuiltFrom env f g b) : f.nClients ≤ factoryMaxNodes := by
  have := h.bounded
  rw [nClients,factoryMaxNodes]
  omega

theorem leafSizes_prepared (f : Factory) (depth nc : ℕ) :
    leafSizes f.prepared depth nc = leafSizes f depth nc :=
  treeSizes_congr (f := f.prepared) (g := f) (fun _ => rfl) rfl nc depth nc

theorem BuiltFrom.leafNodes (h : BuiltFrom env f g b) (hconf : ArityConfigured f) :
    ∃ ms, Leaves env f.prepared (At 0 b.nodes) b.leaves (placedClients env f f.nClients)
      (leafSizes f 0 f.nClients) ms := by
  obtain ⟨ms,hms⟩ := buildSubtree_leaves (f := f.prepared) hconf h.block
  have hlen := placedClients_length env f f.nClients
  have hsizes : leafSizes f.prepared 0 (placedClients env f f.nClients).length =
      leafSizes f 0 f.nClients := by rw [leafSizes_prepared,hlen]
  refine ⟨ms,?_⟩
  rw [← hsizes]
  exact hms

theorem BuiltFrom.leaves_length (h : BuiltFrom env f g b) (hconf : ArityConfigured f) :
    b.leaves.length = leafCount f 0 f.nClients := by
  obtain ⟨ms,hms⟩ := h.leafNodes hconf
  rw [hms.nodes.length_eq,leafCount,← hms.sizes,length_map]

theorem BuiltFrom.wellFormed (h : BuiltFrom env f g b) (hconf : ArityConfigured f)
    (hcount : g.leafNodeIndices.length = g.nLeafNodes) : WellFormedTree g f.nClients := by
  obtain ⟨ms,hms⟩ := h.leafNodes hconf
  obtain ⟨-,-,-,hblock,rfl⟩ := h
  have hlinked := buildSubtree_linked hblock
  have hleafy := buildSubtree_leafy hblock
  have hroot : At 0 b.nodes 0 b.root := at_cons.mpr (Or.inl ⟨rfl,rfl⟩)
  have hplaced := placedClients_perm env f f.nClients
  refine ⟨?_,?_,?_,?_,?_,?_,hleafy.sorted.imp (fun h => ne_of_lt h),?_,hcount⟩
  · obtain ⟨n,hn,hshape⟩ := nodeAt_of_at env f.prepared hroot
    exact ⟨n,hn,hshape.parent.trans hlinked.parent⟩
  · intro i n hn hi
    obtain ⟨m,hm,hshape⟩ := at_of_nodeAt hn
    obtain ⟨p,parent,hp,hlt,hindex,hchild,-⟩ := hlinked.up i m hm hi
    obtain ⟨parent',hp',hshape'⟩ := nodeAt_of_at env f.prepared hp
    refine ⟨p,parent',hp',hlt,hshape.parent.trans hindex,?_⟩
    rw [hshape'.children,hshape.vout]
    exact hchild
  · intro i n k c hn hc
    obtain ⟨m,hm,hshape⟩ := at_of_nodeAt hn
    obtain ⟨ms,hms,hlinks,-⟩ := hlinked.down i m hm
    rw [hshape.children] at hc
    obtain ⟨x,hx,hat⟩ := hms.getElem?_left hc
    obtain ⟨hparent,hvout⟩ := hlinks k x hx
    obtain ⟨y,hy,hshape'⟩ := nodeAt_of_at env f.prepared hat
    exact ⟨y,hy,hshape'.parent.trans hparent,hshape'.vout.trans hvout⟩
  · intro i n p parent hn hindex hparent
    obtain ⟨m,hm,hshape⟩ := at_of_nodeAt hn
    obtain ⟨pm,hpm,hshape'⟩ := at_of_nodeAt hparent
    have hindex' := hshape.parent.symm.trans hindex
    have hi : i ≠ 0 := by
      rintro rfl
      obtain rfl := hm.unique hroot
      rw [hlinked.parent] at hindex'
      cases hindex'
    obtain ⟨q,qm,hqm,-,hq,-,hout⟩ := hlinked.up i m hm hi
    obtain rfl : p = q := mem_unique hindex' hq
    obtain rfl := hpm.unique hqm
    rw [hshape'.outputs,hshape.vout,hshape.amount,hshape.spk]
    exact hout
  · intro i n hn
    obtain ⟨m,hm,hshape⟩ := at_of_nodeAt hn
    have hclients := hshape.clients
    have hsub := hlinked.clients_sublist hm
    refine ⟨?_,?_,?_,?_⟩
    · rw [hclients]
      exact hshape.signers.trans (hlinked.lsp m hm.mem)
    · intro hzero
      rw [hclients] at hzero
      have hmem := hplaced.mem_iff.mp (hsub.subset hzero)
      simp at hmem
    · rw [hclients]
      exact (placedClients_nodup env f f.nClients).sublist hsub
    · intro hne
      obtain ⟨ms,hms,-,hconcat⟩ := hlinked.down i m hm
      rw [hshape.children] at hne ⊢
      rw [hclients,clientsAt_concat hms]
      refine hconcat ?_
      rintro rfl
      exact hne (forall₂_nil_right_iff.mp hms)
  · intro i
    constructor
    · intro hi
      obtain ⟨m,hm⟩ := hleafy.present i hi
      obtain ⟨n,hn,hshape⟩ := nodeAt_of_at env f.prepared hm
      obtain ⟨htype,htip⟩ := (hleafy.tips i m hm).mp hi
      refine ⟨n,hn,hshape.type.trans htype,?_⟩
      rw [hshape.children,hshape.subs]
      exact htip
    · rintro ⟨n,hn,htype,htip⟩
      obtain ⟨m,hm,hshape⟩ := at_of_nodeAt hn
      rw [hshape.children,hshape.subs] at htip
      exact (hleafy.tips i m hm).mpr ⟨hshape.type.symm.trans htype,htip⟩
  · change (b.leaves.flatMap _).Perm _
    rw [clientsAt_concat (hms.nodes.imp (fun _ _ h => h.choose_spec.choose_spec.leaf)),hms.clients]
    exact hplaced

theorem factory_tree_well_formed_iff (env : Env) (f g : Factory) (hconf : ArityConfigured f)
    (h : factoryBuildTree env f = some g) :
    WellFormedTree g f.nClients ↔ PsLeavesFill f f.nClients := by
  obtain ⟨b,hb⟩ := factoryBuildTree_spec h
  have hle := hb.nClients_le
  have hleaves : g.leafNodeIndices.length = leafCount f 0 f.nClients := by
    rw [hb.result]
    exact hb.leaves_length hconf
  have hn : g.nLeafNodes = f.prepared.nLeafNodes := by
    rw [hb.result]
    rfl
  rw [← nLeafNodes_iff hconf hb.nClients_pos hle]
  constructor
  · intro hwf
    rw [← hleaves,← hn]
    exact hwf.counted
  · intro hcount
    exact hb.wellFormed hconf (by rw [hleaves,hn]; exact hcount)

theorem factory_tree_well_formed_four_clients :
    ∃ g, factoryBuildTree Env.sample (sample 4 2 1) = some g ∧ WellFormedTree g 4 := by
  have hbuilt : (factoryBuildTree Env.sample (sample 4 2 1)).isSome = true := by
    decide +kernel
  obtain ⟨g,hg⟩ := isSome_iff_exists.mp hbuilt
  refine ⟨g,hg,(factory_tree_well_formed_iff Env.sample (sample 4 2 1) g ?_ hg).mpr ?_⟩
  · exact ⟨fun _ => Or.inr (Or.inl rfl),by simp [sample]⟩
  · exact Or.inr (Or.inl (by decide))

theorem factory_tree_loses_leaf :
    ∃ g, factoryBuildTree Env.sample (sample 10 3 2) = some g ∧ ¬ WellFormedTree g 10 := by
  obtain ⟨g,hg,hcount⟩ : ∃ g, factoryBuildTree Env.sample (sample 10 3 2) = some g ∧
      g.leafNodeIndices.length ≠ g.nLeafNodes := by
    decide +kernel
  exact ⟨g,hg,fun hwf => hcount hwf.counted⟩

end

end SuperScalar
