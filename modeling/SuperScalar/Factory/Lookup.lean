import SuperScalar.Factory.Advance
import SuperScalar.Factory.Tree

namespace SuperScalar

open Bitcoin Offset Chunks List Option Nat FactoryNode Factory

def SetUpFor (env : Env) (g : Factory) (p vout : ℕ) (n : FactoryNode) : Prop :=
  (n.clients[vout]? = some p ∧ (n.isPsLeaf = false ∨ n.type = .psSubfactory) ∧
    ∃ spk amount, channelSpk env g p = some spk ∧ n.outputs[vout]? = some ⟨amount,spk.val⟩) ∨
  (n.clients = [p] ∧ n.isPsLeaf = true ∧ n.type = .state ∧ n.subfactoryNodeIndices = [] ∧ vout = 0 ∧
    ∃ amount, n.outputs[0]? = some ⟨amount,n.spendingSpk.val⟩)

def OnLeafOf (g : Factory) (p node : ℕ) : Prop :=
  ∃ leaf n, factoryFindLeafForClient g p = some leaf ∧ g.NodeAt leaf n ∧
    (node = leaf ∨ node ∈ n.subfactoryNodeIndices)

structure ClientLookup (env : Env) (g : Factory) (nClients : ℕ) : Prop where
  found : ∀ c < nClients, ∃ node vout n, factoryClientToLeaf g c = some (node,vout) ∧
    g.NodeAt node n ∧ c+1 ∈ n.signerIndices ∧ SetUpFor env g (c+1) vout n ∧
    OnLeafOf g (c+1) node
  distinct : ∀ c < nClients, ∀ d < nClients, factoryClientToLeaf g c = factoryClientToLeaf g d →
    c = d

def PsShape (k n : ℕ) : Prop := (k*(k-1) < n ∧ n ≤ k*k) ∨ ∃ j, n = k*k*2^j

def LookupAgrees (env : Env) (f g : Factory) : Prop :=
  if f.levelArity ≠ [] then ∀ n ∈ g.nodes, n.subfactoryNodeIndices = []
  else placedClients env f f.nClients = (range f.nClients).map (· + 1) ∧
    (f.leafArity = factoryArityPs → 1 < f.psSubfactoryArity →
      PsShape f.psSubfactoryArity f.nClients)

def perSub (k n : ℕ) : ℕ := (n + k-1)/k

variable {k n p : ℕ} {env : Env} {f : Factory} {R : ℕ → FactoryNode → Prop}
  {leaves clients sizes : List ℕ} {ms : List FactoryNode} {m : FactoryNode}

theorem square_pred (hk : 1 < k) : k*(k-1) + k = k*k := by
  rw [Nat.mul_sub,Nat.mul_one]
  exact Nat.sub_add_cancel (Nat.le_mul_of_pos_left k (by omega))

theorem perSub_full (hk : 1 < k) (hlow : k*(k-1) < n) (hhigh : n ≤ k*k) : perSub k n = k := by
  have hsquare := square_pred hk
  rw [perSub,Nat.div_eq_iff (by omega)]
  omega

theorem perSub_low (hk : 1 < k) (h : k ≤ perSub k n) : k*(k-1) < n := by
  have hsquare := square_pred hk
  rw [perSub,le_div_iff_mul_le (by omega)] at h
  omega

section

variable {env : Env} {g : Factory}

variable {p c ni : ℕ} {ls : List ℕ}

theorem SetUpFor.unique {q vout : ℕ} {n : FactoryNode} (hp : SetUpFor env g p vout n)
    (hq : SetUpFor env g q vout n) : p = q := by
  rcases hp with ⟨hp,hkind,-⟩ | ⟨hp,hps,htype,-,hv,-⟩
  · rcases hq with ⟨hq,-,-⟩ | ⟨-,hps,htype,-,-,-⟩
    · exact mem_unique hp hq
    · rw [hps,htype] at hkind
      rcases hkind with hkind | hkind <;> cases hkind
  · rcases hq with ⟨-,hkind,-⟩ | ⟨hq,-,-,-,-,-⟩
    · rw [hps,htype] at hkind
      rcases hkind with hkind | hkind <;> cases hkind
    · simpa using hp.symm.trans hq

theorem clientLookup_of_found {nClients : ℕ}
    (h : ∀ c < nClients, ∃ node vout n, factoryClientToLeaf g c = some (node,vout) ∧
      g.NodeAt node n ∧ c+1 ∈ n.signerIndices ∧ SetUpFor env g (c+1) vout n ∧
      OnLeafOf g (c+1) node) : ClientLookup env g nClients := by
  refine ⟨h,?_⟩
  intro c hc d hd heq
  obtain ⟨node,vout,n,hfound,hn,-,hset,-⟩ := h c hc
  obtain ⟨node',vout',n',hfound',hn',-,hset',-⟩ := h d hd
  rw [hfound,hfound',some.injEq,Prod.mk.injEq] at heq
  obtain ⟨rfl,rfl⟩ := heq
  obtain rfl : n = n' := mem_unique hn hn'
  exact succ.inj (hset.unique hset')

theorem LeafOutputs.channel_at {keyagg : Keyagg} {clients : List ℕ} {total : UInt64}
    {outs : List TxOut} (h : LeafOutputs env g keyagg clients total outs) {v : ℕ}
    (hp : clients[v]? = some p) :
    ∃ spk amount, channelSpk env g p = some spk ∧ outs[v]? = some ⟨amount,spk.val⟩ := by
  obtain ⟨per,last,spks,lStock,hall,-,rfl⟩ := h.channels
  obtain ⟨spk,hspk,hchannel⟩ := hall.getElem?_left hp
  have hlt := (List.getElem?_eq_some_iff.mp hspk).1
  refine ⟨spk,per,hchannel,?_⟩
  rw [List.getElem?_append_left (by simpa using hlt),List.getElem?_map,hspk]
  rfl

theorem findSigner_sound {s : ℕ} (h : findSigner g c ls = some (ni,s)) :
    ni ∈ ls ∧ (g.clientsAt ni)[s]? = some (c+1) := by
  induction ls with
  | nil => cases h
  | cons l _ ih =>
    rw [findSigner] at h
    split at h
    · next s' hs' =>
      obtain ⟨rfl,rfl⟩ : l = ni ∧ s' = s := by simpa using h
      refine ⟨by simp,?_⟩
      obtain ⟨hlt,hget,-⟩ := idxOf?_eq_some_iff.mp hs'
      exact List.getElem?_eq_some_iff.mpr ⟨hlt,hget⟩
    · obtain ⟨hmem,hget⟩ := ih h
      exact ⟨by simp [hmem],hget⟩

theorem findSigner_complete (hni : ni ∈ ls) (hc : c+1 ∈ g.clientsAt ni) :
    ∃ r, findSigner g c ls = some r := by
  induction ls with
  | nil => simp at hni
  | cons _ _ ih =>
    rw [findSigner]
    split
    · exact ⟨_,rfl⟩
    · next hnone =>
      rcases mem_cons.mp hni with rfl | hni
      · rw [idxOf?_eq_none_iff] at hnone
        exact absurd hc hnone
      · exact ih hni

end

theorem Leaves.position (h : Leaves env f R leaves clients sizes ms) {w c : ℕ} (hw : 0 < w)
    (hfilled : Filled w sizes) (hp : clients[c]? = some p) :
    ∃ m, ms[c/w]? = some m ∧ m.clients[c % w]? = some p := by
  rw [← h.clients,flatMap_def] at hp
  have hsizes : (ms.map FactoryNode.clients).map length = sizes := by
    rw [List.map_map,← h.sizes]
    rfl
  obtain ⟨x,hx,hget⟩ := flatten_getElem? hw (hsizes ▸ hfilled) hp
  rw [getElem?_map,map_eq_some_iff] at hx
  obtain ⟨m,hm,rfl⟩ := hx
  exact ⟨m,hm,hget⟩

theorem Leaves.owner (h : Leaves env f R leaves clients sizes ms) (hnodup : clients.Nodup) {i j : ℕ}
    {m' : FactoryNode} (hi : ms[i]? = some m) (hj : ms[j]? = some m') (hp : p ∈ m.clients)
    (hp' : p ∈ m'.clients) : i = j := by
  rw [← h.clients,flatMap_def,nodup_flatten] at hnodup
  have hpair := pairwise_map.mp hnodup.2
  rw [pairwise_iff_getElem] at hpair
  obtain ⟨hilt,rfl⟩ := List.getElem?_eq_some_iff.mp hi
  obtain ⟨hjlt,rfl⟩ := List.getElem?_eq_some_iff.mp hj
  rcases lt_trichotomy i j with hlt | heq | hlt
  · exact absurd hp' (hpair i j hilt hjlt hlt hp)
  · exact heq
  · exact absurd hp (hpair j i hjlt hilt hlt hp')

theorem SetUpLeaf.setUpFor {l arity : ℕ} {subs : List FactoryNode}
    (h : SetUpLeaf env f R l arity m subs)
    (hkind : arity ≠ factoryArityPs ∨ f.psSubfactoryArity ≤ 1) {v : ℕ} (hp : m.clients[v]? = some p)
    : SetUpFor env f p v m := by
  obtain ⟨st,input,htype,hps,hsubs,hspec⟩ := h.setup
  have hflag := hspec.ps hps
  by_cases harity : arity = factoryArityPs
  · have hk : f.psSubfactoryArity ≤ 1 := hkind.resolve_left (fun h => h harity)
    have hcap : m.clients.length ≤ 1 := by
      have hcapacity := h.capacity
      rw [harity] at hcapacity
      have hle : m.clients.length ≤ psLeafCapacity f := of_decide_eq_true hcapacity
      rwa [psLeafCapacity,if_pos hk] at hle
    have hv := (List.getElem?_eq_some_iff.mp hp).1
    obtain rfl : v = 0 := by omega
    have hclients : m.clients = [p] := by
      obtain ⟨q,hq⟩ := length_eq_one_iff.mp (show m.clients.length = 1 by omega)
      rw [hq] at hp ⊢
      simpa using hp
    obtain ⟨amount,hout⟩ := hspec.consensus harity hk
    refine Or.inr ⟨hclients,by rw [hflag,harity]; rfl,hspec.same.type.trans htype,?_,rfl,
      amount,by rw [hout,hspec.same.spk]⟩
    rw [hspec.subIndices hsubs,hspec.noSubs (Or.inr hk)]
    rfl
  · exact Or.inl ⟨hp,Or.inl (by rw [hflag,decide_eq_false harity]),
      (hspec.direct harity).channel_at hp⟩

section

variable {env : Env} {f g : Factory} {b : Block} {ms : List FactoryNode}
  (hb : BuiltFrom env f g b)
  (hms : Leaves env f.prepared (At 0 b.nodes) b.leaves (placedClients env f f.nClients)
    (leafSizes f 0 f.nClients) ms)

include hb

variable {m n : FactoryNode} {j i p v : ℕ}

theorem BuiltFrom.shaped (h : At 0 b.nodes j m) : ∃ n, g.NodeAt j n ∧ SameShape n m := by
  rw [hb.result]
  exact nodeAt_of_at _ _ h

theorem BuiltFrom.clientsAt (h : At 0 b.nodes j m) : g.clientsAt j = m.clients := by
  rw [hb.result]
  exact clientsAt_of_at h

theorem BuiltFrom.leafNode {l : ℕ} (h : b.leaves[i]? = some l) : g.leafNode i = l := by
  have hleaves : g.leafNodeIndices = b.leaves := by
    rw [hb.result]
    rfl
  rw [Factory.leafNode,hleaves,getD_eq_getElem?_getD,h]
  rfl

theorem BuiltFrom.settings : g.nLeafNodes = f.prepared.nLeafNodes ∧ g.levelArity = f.levelArity ∧
    g.leafArity = f.leafArity ∧ g.psSubfactoryArity = f.psSubfactoryArity := by
  rw [hb.result]
  exact ⟨rfl,rfl,rfl,rfl⟩

theorem BuiltFrom.channelSpk (p : ℕ) : channelSpk env g p = channelSpk env f.prepared p := by
  rw [hb.result]
  rfl

theorem BuiltFrom.setUpFor (hshape : SameShape n m) (h : SetUpFor env f.prepared p v m) :
    SetUpFor env g p v n := by
  rw [SetUpFor,hshape.clients,hshape.ps,hshape.type,hshape.outputs,hshape.subs,hshape.spk,
    hb.channelSpk]
  exact h

include hms

theorem BuiltFrom.leafAt (hi : ms[i]? = some m) :
    ∃ depth l subs, g.leafNode i = l ∧
      SetUpLeaf env f.prepared (At 0 b.nodes) l (arityAtDepth f depth) m subs := by
  obtain ⟨l,hl,depth,subs,hsetup⟩ := hms.nodes.flip.getElem?_left hi
  exact ⟨depth,l,subs,hb.leafNode hl,hsetup⟩

theorem BuiltFrom.found_leaf (hcount : g.nLeafNodes ≤ ms.length) (hi : ms[i]? = some m)
    (hlt : i < g.nLeafNodes) (hpos : p ≠ 0) (hp : p ∈ m.clients) :
    factoryFindLeafForClient g p = some (g.leafNode i) := by
  have hcontains : ∀ j m', ms[j]? = some m' →
      ((((g.nodes[g.leafNode j]?).map (fun node => node.signerIndices.contains p)).getD false =
        true) ↔ p ∈ m'.clients) := by
    intro j m' hj
    obtain ⟨depth,l,subs,hleaf,hsetup⟩ := hb.leafAt hms hj
    obtain ⟨n,hn,hshape⟩ := hb.shaped hsetup.leaf
    have hsigners := (buildSubtree_linked hb.block).lsp m' hsetup.leaf.mem
    rw [hleaf,show g.nodes[l]? = some n from hn]
    simp [hshape.signers,hsigners,hpos]
  rw [factoryFindLeafForClient,if_neg hpos]
  cases hfind : ((range g.nLeafNodes).map g.leafNode).find? (fun ni =>
    ((g.nodes[ni]?).map (fun node => node.signerIndices.contains p)).getD false) with
  | none =>
    rw [find?_eq_none] at hfind
    exact absurd ((hcontains i m hi).mpr hp)
      (hfind _ (mem_map_of_mem (mem_range.mpr hlt)))
  | some =>
    obtain ⟨j,hj,rfl⟩ := mem_map.mp (mem_of_find?_eq_some hfind)
    rw [mem_range] at hj
    have hget := getElem?_eq_getElem (l := ms) (i := j) (by omega)
    have hmem := (hcontains j _ hget).mp (find?_some hfind :)
    rw [hms.owner (placedClients_nodup env f f.nClients) hget hi hmem hp]

theorem BuiltFrom.found_direct (hcount : g.nLeafNodes ≤ ms.length) (hi : ms[i]? = some m)
    (hlt : i < g.nLeafNodes) (hpos : p ≠ 0) (hp : m.clients[v]? = some p)
    (hkind : ∀ depth l subs, SetUpLeaf env f.prepared (At 0 b.nodes) l (arityAtDepth f depth) m subs →
      arityAtDepth f depth ≠ factoryArityPs ∨ f.psSubfactoryArity ≤ 1) :
    ∃ n, g.NodeAt (g.leafNode i) n ∧ p ∈ n.signerIndices ∧ SetUpFor env g p v n ∧
      OnLeafOf g p (g.leafNode i) := by
  obtain ⟨depth,l,subs,rfl,hsetup⟩ := hb.leafAt hms hi
  obtain ⟨n,hn,hshape⟩ := hb.shaped hsetup.leaf
  have hmem := mem_of_getElem? hp
  have hsigners := (buildSubtree_linked hb.block).lsp m hsetup.leaf.mem
  refine ⟨n,hn,?_,hb.setUpFor hshape (hsetup.setUpFor (hkind _ _ _ hsetup) hp),?_⟩
  · rw [hshape.signers,hsigners]
    exact mem_cons_of_mem _ hmem
  · exact ⟨g.leafNode i,n,hb.found_leaf hms hcount hi hlt hpos hmem,hn,Or.inl rfl⟩

theorem BuiltFrom.direct_client (hi : ms[i]? = some m) (hn : g.NodeAt (g.leafNode i) n)
    (h : SetUpFor env g p v n) : m.clients[v]? = some p := by
  obtain ⟨depth,l,subs,rfl,hsetup⟩ := hb.leafAt hms hi
  obtain ⟨n',hn',hshape⟩ := hb.shaped hsetup.leaf
  obtain rfl : n = n' := mem_unique hn hn'
  rw [← hshape.clients]
  rcases h with ⟨h,-,-⟩ | ⟨h,-,-,-,rfl,-⟩
  · exact h
  · rw [h]
    rfl

theorem BuiltFrom.subs_on_leaf (hn : n ∈ g.nodes) (hsubs : n.subfactoryNodeIndices ≠ []) :
    ∃ i m, ms[i]? = some m ∧ g.NodeAt (g.leafNode i) n ∧ (n.type = .state ∧ n.isPsLeaf = true) ∧
      m.clients ≠ [] := by
  obtain ⟨j,hj⟩ := mem_iff_getElem?.mp hn
  have hj' := hj
  rw [hb.result] at hj'
  obtain ⟨m,hm,hshape⟩ := at_of_nodeAt hj'
  rw [hshape.subs] at hsubs
  have hok := buildSubtree_nodes hb.block m hm.mem
  cases hok.kind with
  | kickoff _ _ hnone => exact absurd hnone hsubs
  | inner _ _ _ hnone => exact absurd hnone hsubs
  | sub _ _ _ hnone => exact absurd hnone hsubs
  | leaf htip _ hdirect =>
    have hmem := ((buildSubtree_leafy hb.block).tips j m hm).mpr htip
    obtain ⟨i,hi⟩ := mem_iff_getElem?.mp hmem
    obtain ⟨m',hm',depth,subs,hsetup⟩ := hms.nodes.getElem?_left hi
    obtain rfl := hm.unique hsetup.leaf
    refine ⟨i,m,hm',?_,⟨hshape.type.trans htip.1,?_⟩,hsetup.nonEmpty⟩
    · rw [hb.leafNode hi]
      exact hj
    · rw [hshape.ps]
      by_contra hps
      exact hsubs (htip.2.symm.trans (hdirect (Bool.eq_false_of_not_eq_true hps)))

theorem BuiltFrom.uniform_iff {w : ℕ} (hw : 0 < w)
    (hform : ∀ c, factoryClientToLeaf g c =
      if c/w ≥ g.nLeafNodes then none else some (g.leafNode (c/w),c % w))
    (hfilled : Filled w (leafSizes f 0 f.nClients)) (hcount : g.nLeafNodes = ms.length)
    (hkind : ∀ depth, arityAtDepth f depth ≠ factoryArityPs ∨ f.psSubfactoryArity ≤ 1) :
    ClientLookup env g f.nClients ↔
      placedClients env f f.nClients = (range f.nClients).map (· + 1) := by
  have hlen := placedClients_length env f f.nClients
  constructor
  · intro h
    apply ext_getElem?
    intro c
    by_cases hc : c < f.nClients
    · obtain ⟨node,vout,n,hfound,hn,-,hset,-⟩ := h.found c hc
      rw [hform] at hfound
      split at hfound
      · cases hfound
      obtain ⟨rfl,rfl⟩ : g.leafNode (c / w) = node ∧ c % w = vout := by simpa using hfound
      have hget := getElem?_eq_getElem (l := placedClients env f f.nClients) (i := c)
        (by omega)
      obtain ⟨m,hm,hp⟩ := hms.position hw hfilled hget
      have hp' := hb.direct_client hms hm hn hset
      rw [hget,← hp,hp',getElem?_map,getElem?_range hc]
      rfl
    · rw [getElem?_eq_none (by omega),getElem?_eq_none (by simpa using hc)]
  · intro hplaced
    apply clientLookup_of_found
    intro c hc
    have hget : (placedClients env f f.nClients)[c]? = some (c+1) := by
      rw [hplaced,getElem?_map,getElem?_range hc]
      rfl
    obtain ⟨m,hm,hp⟩ := hms.position hw hfilled hget
    have hlt := (List.getElem?_eq_some_iff.mp hm).1
    obtain ⟨n,hn,hsigner,hset,hon⟩ := hb.found_direct hms hcount.le hm (by omega)
      (succ_ne_zero c) hp (fun depth _ _ _ => hkind depth)
    exact ⟨_,_,n,by rw [hform,if_neg (by omega)],hn,hsigner,hset,hon⟩

theorem BuiltFrom.levels_iff (hlevels : f.levelArity ≠ []) (hcount : g.nLeafNodes = ms.length) :
    ClientLookup env g f.nClients ↔ ∀ n ∈ g.nodes, n.subfactoryNodeIndices = [] := by
  have hform : ∀ c, factoryClientToLeaf g c =
      findSigner g c ((range g.nLeafNodes).map g.leafNode) := by
    intro c
    rw [factoryClientToLeaf,hb.settings.2.1,if_pos hlevels]
  have hclientsAt : ∀ i m, ms[i]? = some m → g.clientsAt (g.leafNode i) = m.clients := by
    intro i m hi
    obtain ⟨depth,l,subs,rfl,hsetup⟩ := hb.leafAt hms hi
    exact hb.clientsAt hsetup.leaf
  -- A lookup that answers names a leaf and the client's place among its clients.
  have hsound : ∀ c node vout, factoryClientToLeaf g c = some (node,vout) →
      ∃ i m, ms[i]? = some m ∧ i < g.nLeafNodes ∧ node = g.leafNode i ∧
        m.clients[vout]? = some (c+1) := by
    intro c node vout hfound
    rw [hform] at hfound
    obtain ⟨hmem,hget⟩ := findSigner_sound hfound
    obtain ⟨i,hi,rfl⟩ := mem_map.mp hmem
    rw [mem_range] at hi
    have hm := getElem?_eq_getElem (l := ms) (i := i) (by omega)
    exact ⟨i,_,hm,hi,rfl,by rw [← hclientsAt i _ hm,hget]⟩
  constructor
  · intro h n hn
    by_contra hsubs
    obtain ⟨i,m,hi,hm,hshape,hne⟩ := hb.subs_on_leaf hms hn hsubs
    obtain ⟨p,hp⟩ := exists_mem_of_ne_nil m.clients hne
    have hplaced : p ∈ placedClients env f f.nClients := by
      rw [← hms.clients]
      exact mem_flatMap.mpr ⟨m,mem_of_getElem? hi,hp⟩
    obtain ⟨c,hc,rfl⟩ := mem_map.mp
      ((placedClients_perm env f f.nClients).mem_iff.mp hplaced)
    obtain ⟨node,vout,n',hfound,hn',-,hset,-⟩ := h.found c (mem_range.mp hc)
    obtain ⟨j,m',hj,-,rfl,hp'⟩ := hsound c node vout hfound
    obtain rfl := hms.owner (placedClients_nodup env f f.nClients) hi hj hp
      (mem_of_getElem? hp')
    obtain rfl : n' = n := mem_unique hn' hm
    rcases hset with ⟨-,hkind,-⟩ | ⟨-,-,-,hnone,-,-⟩
    · rcases hshape with ⟨htype,hps⟩
      rw [htype,hps] at hkind
      rcases hkind with hkind | hkind <;> cases hkind
    · exact hsubs hnone
  · intro hnone
    apply clientLookup_of_found
    intro c hc
    have hmem : c+1 ∈ ms.flatMap clients := by
      rw [hms.clients,(placedClients_perm env f f.nClients).mem_iff]
      exact mem_map.mpr ⟨c,mem_range.mpr hc,rfl⟩
    obtain ⟨m,hm,hp⟩ := mem_flatMap.mp hmem
    obtain ⟨i,hi⟩ := mem_iff_getElem?.mp hm
    have hilt := (List.getElem?_eq_some_iff.mp hi).1
    obtain ⟨⟨node,vout⟩,hr⟩ := findSigner_complete
      (mem_map_of_mem (mem_range.mpr (hcount ▸ hilt)) :
        g.leafNode i ∈ (range g.nLeafNodes).map g.leafNode) (by rw [hclientsAt i m hi]; exact hp)
    obtain ⟨j,m',hj,hjlt,rfl,hp'⟩ := hsound c node vout ((hform c).trans hr)
    obtain ⟨n,hn,hsigner,hset,hon⟩ := hb.found_direct hms hcount.le hj hjlt
      (succ_ne_zero c) hp' (by
        intro depth l subs hsetup
        obtain ⟨st,input,-,-,hst,hspec⟩ := hsetup.setup
        obtain ⟨k,hk,hshape⟩ := hb.shaped hsetup.leaf
        have hempty := hnone k (mem_of_getElem? hk)
        rw [hshape.subs,hspec.subIndices hst] at hempty
        by_contra hnot
        obtain ⟨hps,hk1⟩ := not_or.mp hnot
        have hlen : subs.length = f.psSubfactoryArity :=
          (hspec.split (not_not.mp hps) (not_le.mp hk1)).1
        rw [map_eq_nil_iff,range_eq_nil] at hempty
        omega)
    exact ⟨_,_,n,(hform c).trans hr,hn,hsigner,hset,hon⟩

section

variable {k : ℕ} (hu : f.levelArity = []) (ha : f.leafArity = factoryArityPs)
  (hsub : f.psSubfactoryArity = k) (hk : 1 < k)

include hu ha hsub hk

variable {m : FactoryNode} {i c : ℕ}

theorem BuiltFrom.ps_leaf (hi : ms[i]? = some m) :
    (k-1) * perSub k m.clients.length < m.clients.length ∧ m.clients.length ≤ k*k ∧
    ∃ n, g.NodeAt (g.leafNode i) n ∧ ∀ j < k,
      n.subfactoryNodeIndices[j]? = some (g.leafNode i + 1 + j) ∧
      ∃ sub amount, At 0 b.nodes (g.leafNode i + 1 + j) sub ∧
        SubSetup env f.prepared (g.leafNode i) j
          ((m.clients.drop (j * perSub k m.clients.length)).take
            (perSub k m.clients.length)) amount sub := by
  subst hsub
  obtain ⟨depth,l,subs,rfl,hsetup⟩ := hb.leafAt hms hi
  obtain ⟨n,hn,hshape⟩ := hb.shaped hsetup.leaf
  obtain ⟨st,input,-,-,hst,hspec⟩ := hsetup.setup
  have harity := (arityAtDepth_uniform hu depth).trans ha
  obtain ⟨hlen,hsize,hcover⟩ := hspec.split harity hk
  refine ⟨hcover,hsize,n,hn,?_⟩
  intro j hj
  have hjlt : j < subs.length := hj.trans_eq hlen.symm
  have hget := getElem?_eq_getElem hjlt
  obtain ⟨amount,hsub,-⟩ := hspec.subs j _ hget
  refine ⟨?_,subs[j],amount,hsetup.subs j _ hget,hsub⟩
  rw [hshape.subs,hspec.subIndices hst,getElem?_map,getElem?_range hjlt]
  rfl

omit hms in
theorem BuiltFrom.ps_lookup (c : ℕ) : factoryClientToLeaf g c =
    if c/(k*k) ≥ g.nLeafNodes then none
    else ((g.nodes[g.leafNode (c/(k*k))]?).bind (fun leaf =>
      leaf.subfactoryNodeIndices[c % (k*k) / k]?)).map (fun sub => (sub,c % k)) := by
  obtain ⟨-,hlevels,harity,hkg⟩ := hb.settings
  rw [factoryClientToLeaf,hlevels,harity,hkg,hsub,if_neg (not_not.mpr hu),if_pos ⟨ha,hk⟩]

omit hb hms hu ha hsub in
theorem seat_lt (c : ℕ) : c % (k*k) / k < k :=
  Nat.div_lt_of_lt_mul (Nat.mod_lt _ (Nat.mul_pos (by omega) (by omega)))

theorem BuiltFrom.ps_form (hi : ms[c/(k*k)]? = some m) (hlt : c/(k*k) < g.nLeafNodes) :
    factoryClientToLeaf g c = some (g.leafNode (c/(k*k)) + 1 + c % (k*k) / k,c % k) := by
  obtain ⟨-,-,n,hn,hsubs⟩ := hb.ps_leaf hms hu ha hsub hk hi
  rw [hb.ps_lookup hu ha hsub hk,if_neg (by omega),
    show g.nodes[g.leafNode (c/(k*k))]? = some n from hn,bind_some,(hsubs _ (seat_lt hk c)).1]
  rfl

theorem BuiltFrom.ps_found (hcount : g.nLeafNodes ≤ ms.length) {n : ℕ} (h : ClientLookup env g n)
    (hc : c < n) :
    ∃ m, ms[c/(k*k)]? = some m ∧ c % k < perSub k m.clients.length ∧
      m.clients[c % (k*k) / k * perSub k m.clients.length + c % k]? = some (c+1) := by
  obtain ⟨node,vout,x,hfound,hx,-,hset,-⟩ := h.found c hc
  have hlt : c/(k*k) < g.nLeafNodes := by
    by_contra hge
    rw [hb.ps_lookup hu ha hsub hk,if_pos (by omega)] at hfound
    cases hfound
  have hi := getElem?_eq_getElem (hlt.trans_le hcount)
  rw [hb.ps_form hms hu ha hsub hk hi hlt,some.injEq,Prod.mk.injEq] at hfound
  obtain ⟨rfl,rfl⟩ := hfound
  obtain ⟨-,-,_,-,hsubs⟩ := hb.ps_leaf hms hu ha hsub hk hi
  obtain ⟨-,sub,amount,hsub,hspec⟩ := hsubs _ (seat_lt hk c)
  obtain ⟨y,hy,hshape⟩ := hb.shaped hsub
  obtain rfl : x = y := mem_unique hx hy
  refine ⟨_,hi,?_⟩
  rcases hset with ⟨hclient,-,-⟩ | ⟨-,-,htype,-,-,-⟩
  · rw [hshape.clients,clients,hspec.signers,tail_cons,slice_getElem?]
      at hclient
    exact hclient
  · rw [hshape.type,hspec.type] at htype
    cases htype

theorem BuiltFrom.ps_set_up (hcount : g.nLeafNodes ≤ ms.length)
    (hi : ms[c/(k*k)]? = some m) (hlt : c/(k*k) < g.nLeafNodes)
    (hper : perSub k m.clients.length = k) (hp : m.clients[c % (k*k)]? = some (c+1)) :
    ∃ node vout n, factoryClientToLeaf g c = some (node,vout) ∧ g.NodeAt node n ∧
      c + 1 ∈ n.signerIndices ∧ SetUpFor env g (c+1) vout n ∧ OnLeafOf g (c+1) node := by
  obtain ⟨-,-,x,hx,hsubs⟩ := hb.ps_leaf hms hu ha hsub hk hi
  obtain ⟨hindex,sub,amount,hsub',hspec⟩ := hsubs _ (seat_lt hk c)
  obtain ⟨y,hy,hshape⟩ := hb.shaped hsub'
  have hclient : sub.clients[c % k]? = some (c+1) := by
    rw [clients,hspec.signers,tail_cons,slice_getElem?,hper,mod_square_split]
    exact ⟨mod_lt _ (by omega),hp⟩
  refine ⟨_,_,y,hb.ps_form hms hu ha hsub hk hi hlt,hy,?_,?_,?_⟩
  · rw [hshape.signers,hspec.signers]
    have hmem := mem_of_getElem? hclient
    rw [clients,hspec.signers,tail_cons] at hmem
    exact mem_cons_of_mem _ hmem
  · apply hb.setUpFor hshape
    refine Or.inl ⟨hclient,Or.inr hspec.type,?_⟩
    rw [clients,hspec.signers,tail_cons] at hclient
    exact hspec.outputs.channel_at hclient
  · exact ⟨_,x,hb.found_leaf hms hcount hi hlt (succ_ne_zero c) (mem_of_getElem? hp),hx,
      Or.inr (mem_of_getElem? hindex)⟩

omit hb hms hu ha in
theorem psLeafCapacity_square : psLeafCapacity f = k*k := by
  subst hsub
  exact if_neg (not_le.mpr hk)

omit hb in
theorem Leaves.ps_full (hconf : ArityConfigured f) (hpos : 0 < f.nClients)
    (hshape : PsShape k f.nClients) :
    Filled (k*k) (leafSizes f 0 f.nClients) ∧ ∀ m ∈ ms, perSub k m.clients.length = k := by
  have hcap := psLeafCapacity_square hsub hk
  have hmem : ∀ m ∈ ms, m.clients.length ∈ leafSizes f 0 f.nClients := by
    intro m hm
    rw [← hms.sizes]
    exact mem_map_of_mem hm
  rcases hshape with ⟨hlow,hhigh⟩ | ⟨j,hj⟩
  · have hsizes := leafSizes_ps_leaf hu ha (d := 0) hpos (hcap ▸ hhigh)
    rw [hsizes] at hmem ⊢
    refine ⟨hhigh,fun m hm => ?_⟩
    rw [mem_singleton.mp (hmem m hm)]
    exact perSub_full hk hlow hhigh
  · have hall := leafSizes_ps_full hconf hu ha (d := 0) (j := j)
    rw [hcap,← hj] at hall
    refine ⟨Filled.of_all hall,fun m hm => ?_⟩
    rw [hall _ (hmem m hm)]
    refine perSub_full hk ?_ le_rfl
    exact mul_lt_mul_of_pos_left (by omega) (by omega)

theorem BuiltFrom.ps_blocks (hcount : g.nLeafNodes ≤ ms.length) (h : ClientLookup env g f.nClients)
    (hi : ms[i]? = some m) : min (k*k) (f.nClients-i*(k*k)) ≤ m.clients.length := by
  generalize hcap : k*k = cap
  have hcpos : 0 < cap := hcap ▸ mul_pos (by omega) (by omega)
  -- The formula sends these clients to this leaf, so they are among its clients.
  have hsubset : (range (min cap (f.nClients-i*cap))).map (fun r => i*cap + r+1) ⊆
      m.clients := by
    intro p hp
    obtain ⟨r,hr,rfl⟩ := mem_map.mp hp
    rw [mem_range] at hr
    obtain ⟨m',hm',-,hclient⟩ := hb.ps_found hms hu ha hsub hk hcount h (c := i * cap + r) (by omega)
    have hdiv : (i*cap + r)/(k*k) = i := by
      rw [hcap,mul_comm,mul_add_div hcpos,div_eq_of_lt (by omega),add_zero]
    rw [hdiv] at hm'
    obtain rfl : m = m' := mem_unique hi hm'
    exact mem_of_getElem? hclient
  have hnodup : ((range (min cap (f.nClients-i*cap))).map
      (fun r => i*cap + r+1)).Nodup :=
    nodup_range.map (fun a b hab => by omega)
  have hle := (hnodup.subperm hsubset).length_le
  rwa [length_map,length_range] at hle

theorem BuiltFrom.ps_shape (hconf : ArityConfigured f) (hcount : g.nLeafNodes ≤ ms.length)
    (h : ClientLookup env g f.nClients) : PsShape k f.nClients := by
  have hcap := psLeafCapacity_square hsub hk
  have hfour : 2*2 ≤ k*k := Nat.mul_le_mul hk hk
  have hpos := hb.nClients_pos
  obtain ⟨hsum,hall⟩ := leafSizes_spec hconf hpos
  have hget : ∀ (i s : ℕ), (leafSizes f 0 f.nClients)[i]? = some s →
      ∃ m : FactoryNode, ms[i]? = some m ∧ m.clients.length = s := by
    intro i s hs
    rw [← hms.sizes,getElem?_map] at hs
    exact map_eq_some_iff.mp hs
  have hne : leafSizes f 0 f.nClients ≠ [] := by
    intro hnil
    rw [hnil,sum_nil] at hsum
    omega
  obtain ⟨q,r,hsizes⟩ := sizes_of_blocks hne (fun s hs => (hall s hs).1)
    (fun s hs => hcap ▸ leafSizes_ps_le hconf hu ha hpos s hs) (by
      intro i s hs
      obtain ⟨m,hm,rfl⟩ := hget i s hs
      rw [hsum]
      exact hb.ps_blocks hms hu ha hsub hk hcount h hm)
  have hmany : ∀ s ∈ leafSizes f 0 f.nClients, k ≤ s := by
    intro s hs
    obtain ⟨i,hi⟩ := mem_iff_getElem?.mp hs
    obtain ⟨m,hm,rfl⟩ := hget i s hi
    obtain ⟨hcover,-,-⟩ := hb.ps_leaf hms hu ha hsub hk hm
    have hper : 1 ≤ perSub k m.clients.length := by
      rw [perSub,le_div_iff_mul_le (by omega)]
      omega
    have := mul_le_mul_left (k-1) hper
    omega
  have hr := hmany r (by rw [hsizes]; simp)
  rw [← hcap] at hsizes
  rcases ps_filled_size hconf hu ha (by omega) hpos hsizes (by omega) with hle | ⟨j,hj⟩
  · left
    rw [hcap] at hle
    have hone := leafSizes_ps_leaf hu ha (d := 0) hpos (hcap ▸ hle)
    have hkn := hmany f.nClients (by rw [hone]; simp)
    obtain ⟨m,hm,hlt,-⟩ := hb.ps_found hms hu ha hsub hk hcount h (c := k - 1)
      (by omega)
    rw [div_eq_of_lt (by omega)] at hm
    obtain ⟨m',hm',hlen⟩ := hget 0 f.nClients (by rw [hone]; rfl)
    obtain rfl : m = m' := mem_unique hm hm'
    rw [mod_eq_of_lt (by omega),hlen] at hlt
    exact ⟨perSub_low hk (by omega),hle⟩
  · exact Or.inr ⟨j,by rw [← hcap]; exact hj⟩

theorem BuiltFrom.ps_iff (hconf : ArityConfigured f) (hcount : g.nLeafNodes ≤ ms.length) :
    ClientLookup env g f.nClients ↔
      placedClients env f f.nClients = (range f.nClients).map (· + 1) ∧ PsShape k f.nClients := by
  have hcap := psLeafCapacity_square hsub hk
  have hcpos : 0 < k*k := mul_pos (by omega) (by omega)
  have hlen := placedClients_length env f f.nClients
  constructor
  · intro h
    have hshape := hb.ps_shape hms hu ha hsub hk hconf hcount h
    obtain ⟨hfilled,hper⟩ := Leaves.ps_full hms hu ha hsub hk hconf hb.nClients_pos hshape
    refine ⟨?_,hshape⟩
    apply ext_getElem?
    intro c
    by_cases hc : c < f.nClients
    · have hget := getElem?_eq_getElem (l := placedClients env f f.nClients) (i := c)
        (by omega)
      obtain ⟨m,hm,hp⟩ := hms.position hcpos hfilled hget
      obtain ⟨m',hm',-,hp'⟩ := hb.ps_found hms hu ha hsub hk hcount h hc
      obtain rfl : m = m' := mem_unique hm hm'
      rw [hper m (mem_of_getElem? hm),mod_square_split] at hp'
      rw [hget,← hp,hp',getElem?_map,getElem?_range hc]
      rfl
    · rw [getElem?_eq_none (by omega),getElem?_eq_none (by simpa using hc)]
  · rintro ⟨hplaced,hshape⟩
    obtain ⟨hfilled,hper⟩ := Leaves.ps_full hms hu ha hsub hk hconf hb.nClients_pos hshape
    apply clientLookup_of_found
    intro c hc
    have hget : (placedClients env f f.nClients)[c]? = some (c+1) := by
      rw [hplaced,getElem?_map,getElem?_range hc]
      rfl
    obtain ⟨m,hm,hp⟩ := hms.position hcpos hfilled hget
    have hlt : c/(k*k) < g.nLeafNodes := by
      rw [hb.settings.1,nLeafNodes_ps hu ha,hcap]
      exact div_lt_ceil hcpos hc
    exact hb.ps_set_up hms hu ha hsub hk hcount hm hlt (hper m (mem_of_getElem? hm)) hp

end

end

theorem client_lookup_iff (env : Env) (f g : Factory) (hconf : ArityConfigured f)
    (h : factoryBuildTree env f = some g) :
    ClientLookup env g f.nClients ↔ LookupAgrees env f g := by
  obtain ⟨b,hb⟩ := factoryBuildTree_spec h
  obtain ⟨ms,hms⟩ := hb.leafNodes hconf
  have hpos := hb.nClients_pos
  have hmax := hb.nClients_le
  obtain ⟨hn,hlevels,harity,hkg⟩ := hb.settings
  have hlen : ms.length = leafCount f 0 f.nClients := by
    rw [leafCount,← hms.sizes,length_map]
  rw [LookupAgrees]
  by_cases hu : f.levelArity = []
  · rw [if_neg (not_not.mpr hu)]
    have hlevels' := not_not.mpr (hlevels.trans hu)
    by_cases hps : f.leafArity = factoryArityPs ∧ 1 < f.psSubfactoryArity
    · rw [hb.ps_iff hms hu hps.1 rfl hps.2 hconf (by
        rw [hn,hlen]
        exact nLeafNodes_le hconf hpos hmax)]
      simp only [hps.1,hps.2,forall_true_left]
    · have hexact : f.leafArity ≠ factoryArityPs ∨ f.psSubfactoryArity ≤ 1 := by
        by_cases ha : f.leafArity = factoryArityPs
        · exact Or.inr (not_lt.mp (fun hk => hps ⟨ha,hk⟩))
        · exact Or.inl ha
      have hcount : g.nLeafNodes = ms.length := by
        rw [hn,hlen,nLeafNodes_exact hconf hpos hmax (Or.inr hexact)]
      have hkind : ∀ depth, arityAtDepth f depth ≠ factoryArityPs ∨ f.psSubfactoryArity ≤ 1 := by
        intro depth
        rw [arityAtDepth_uniform hu]
        exact hexact
      have hside : (f.leafArity = factoryArityPs → 1 < f.psSubfactoryArity →
          PsShape f.psSubfactoryArity f.nClients) := fun ha hk => absurd ⟨ha,hk⟩ hps
      have hps' : ¬ (g.leafArity = factoryArityPs ∧ g.psSubfactoryArity > 1) := by
        rw [harity,hkg]
        exact hps
      rw [and_iff_left hside]
      by_cases h2 : f.leafArity = factoryArity2
      · apply hb.uniform_iff hms (by decide) _
          (leafSizes_pairs hconf hu hpos h2).2.1 hcount hkind
        intro c
        rw [factoryClientToLeaf,if_neg hlevels',if_neg hps',if_neg (by rw [harity,h2]; decide)]
      · have hsingle : f.leafArity = factoryArity1 ∨
            f.leafArity = factoryArityPs ∧ psLeafCapacity f = 1 := by
          rcases hconf.1 hu with ha | ha | ha
          · exact Or.inl ha
          · exact absurd ha h2
          · exact Or.inr ⟨ha,if_pos (hexact.resolve_left (fun hne => hne ha))⟩
        apply hb.uniform_iff hms (by decide) _
          (Filled.of_all (leafSizes_single hconf hu hpos hsingle)) hcount hkind
        intro c
        have hone : g.leafArity = factoryArity1 ∨ g.leafArity = factoryArityPs := by
          rw [harity]
          exact hsingle.imp_right And.left
        rw [factoryClientToLeaf,if_neg hlevels',if_neg hps',if_pos hone,Nat.div_one,Nat.mod_one]
  · rw [if_pos hu]
    apply hb.levels_iff hms hu
    rw [hn,hlen,nLeafNodes_exact hconf hpos hmax (Or.inl hu)]

theorem client_lookup_four_clients :
    ∃ g, factoryBuildTree Env.sample (sample 4 2 1) = some g ∧ ClientLookup Env.sample g 4 := by
  have hbuilt : (factoryBuildTree Env.sample (sample 4 2 1)).isSome = true := by
    decide +kernel
  obtain ⟨g,hg⟩ := isSome_iff_exists.mp hbuilt
  refine ⟨g,hg,(client_lookup_iff Env.sample (sample 4 2 1) g ?_ hg).mpr ?_⟩
  · exact ⟨fun _ => Or.inr (Or.inl rfl),by simp [sample]⟩
  · exact ⟨rfl,fun h => absurd h (by decide)⟩

theorem client_lookup_misses_second_client :
    ∃ g, factoryBuildTree Env.sample (sample 2 3 2) = some g ∧ ¬ ClientLookup Env.sample g 2 := by
  have hbuilt : (factoryBuildTree Env.sample (sample 2 3 2)).any (fun g =>
      (factoryClientToLeaf g 1).all (fun r => (g.nodes[r.1]?).all (fun n =>
        decide (2 ∉ n.signerIndices)))) = true := by
    decide +kernel
  obtain ⟨g,hg,hmiss⟩ := (any_eq_true _ _).mp hbuilt
  refine ⟨g,hg,fun h => ?_⟩
  obtain ⟨node,vout,n,hfound,hn,hsigner,-,-⟩ := h.found 1 (by decide)
  rw [hfound,all_some,show g.nodes[node]? = some n from hn,all_some] at hmiss
  exact of_decide_eq_true hmiss hsigner

end SuperScalar
