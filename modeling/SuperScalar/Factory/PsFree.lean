import SuperScalar.Factory.Setup

namespace SuperScalar

open Bitcoin Offset List

-- A subtree of `nc` clients at depth `d` without pseudo-Spilman leaves.
inductive PsFree (f : Factory) : ℕ → ℕ → Prop
  | leaf {d nc : ℕ} (small : subtreeIsLeaf f (arityAtDepth f d) nc = true)
      (arity : arityAtDepth f d ≠ factoryArityPs) : PsFree f d nc
  | inner {d nc : ℕ} (large : subtreeIsLeaf f (arityAtDepth f d) nc = false)
      (parts : ∀ part ∈ splitClientsForArity (arityAtDepth f d) nc, PsFree f (d+1) part) :
      PsFree f d nc

def Factory.single (f : Factory) : Factory := { f with psSubfactoryArity := 1 }

section

variable {f : Factory}

variable {d nc : ℕ} {stack : List (ℕ × ℕ)}

theorem PsFree.isLeaf (h : PsFree f d nc) :
    subtreeIsLeaf f.single (arityAtDepth f d) nc = subtreeIsLeaf f (arityAtDepth f d) nc := by
  unfold subtreeIsLeaf
  cases h with
  | leaf _ arity => simp only [if_neg arity]
  | inner large =>
    split_ifs with hone hps
    · rfl
    · -- A subtree above the capacity has more than one client, so it is inner for both.
      have hcap := psLeafCapacity_pos f
      rw [subtreeIsLeaf,if_neg hone,if_pos hps,decide_eq_false_iff_not] at large
      rw [decide_eq_false large,decide_eq_false_iff_not]
      change ¬ nc ≤ 1
      omega
    · rfl

theorem PsFree.congr {g : Factory} (h : PsFree f d nc)
    (harity : ∀ d, arityAtDepth g d = arityAtDepth f d) (hcap : psLeafCapacity g = psLeafCapacity f)
    : PsFree g d nc := by
  have hleaf : ∀ a n, subtreeIsLeaf g a n = subtreeIsLeaf f a n := by
    intro a n
    simp only [subtreeIsLeaf,hcap]
  induction h with
  | @leaf _ _ small arity =>
    exact .leaf (by rw [harity,hleaf]; exact small) (by rw [harity]; exact arity)
  | @inner _ _ large _ ih =>
    exact .inner (by rw [harity,hleaf]; exact large) (by rw [harity]; exact ih)

theorem PsFree.uniform (h : PsFree f d nc) (hu : f.levelArity = []) :
    f.leafArity ≠ factoryArityPs := by
  induction h with
  | @leaf _ _ _ arity => rwa [arityAtDepth_uniform hu] at arity
  | @inner _ nc _ _ ih =>
    intro hps
    refine ih (nc/2) ?_ hps
    rw [arityAtDepth_uniform hu,hps]
    simp [splitClientsForArity]

theorem mem_pushFrames {parts : List ℕ} {x : ℕ × ℕ} (h : x ∈ pushFrames d parts stack) :
    x ∈ stack ∨ (x.2 = d ∧ x.1 ∈ parts) := by
  induction parts generalizing stack with
  | nil => exact Or.inl h
  | cons _ _ ih =>
    rw [pushFrames] at h
    split at h
    · exact Or.inl h
    · rcases ih h with hx | ⟨hd,hx⟩
      · rcases mem_cons.mp hx with rfl | hx
        · exact Or.inr ⟨rfl,mem_cons_self⟩
        · exact Or.inl hx
      · exact Or.inr ⟨hd,mem_cons_of_mem _ hx⟩

theorem simulateLoop_single {fuel : ℕ} (h : ∀ x ∈ stack, PsFree f x.2 x.1) (maxDepth leaves : ℕ) :
    simulateLoop f.single fuel stack maxDepth leaves =
      simulateLoop f fuel stack maxDepth leaves := by
  induction fuel generalizing stack maxDepth leaves with
  | zero => rfl
  | succ _ ih =>
    cases stack with
    | nil => rfl
    | cons frame stack =>
      obtain ⟨nc,d⟩ := frame
      have hframe := h (nc,d) mem_cons_self
      have hrest : ∀ x ∈ stack, PsFree f x.2 x.1 := fun x hx => h x (mem_cons_of_mem _ hx)
      have harity : arityAtDepth f.single d = arityAtDepth f d := rfl
      simp only [simulateLoop,harity,hframe.isLeaf]
      split_ifs with hzero hleaf
      · exact ih hrest _ _
      · exact ih hrest _ _
      · refine ih ?_ _ _
        intro x hx
        rcases mem_pushFrames hx with hx | ⟨hd,hx⟩
        · exact hrest x hx
        · cases hframe with
          | leaf small => exact absurd small hleaf
          | inner _ parts => exact hd ▸ parts x.1 hx

theorem treeMetrics_single {n : ℕ} (h : PsFree f 0 n) :
    treeMetrics f.single n = treeMetrics f n := by
  by_cases hu : f.levelArity = []
  · have hne := h.uniform hu
    have hleaves : ∀ cap, computeLeafCountPsk n f.leafArity cap =
        computeLeafCountPsk n f.leafArity 1 := by
      intro cap
      simp only [computeLeafCountPsk,if_neg hne]
    have hu' : f.single.levelArity = [] := hu
    have ha : f.single.leafArity = f.leafArity := rfl
    simp only [treeMetrics,if_pos hu,if_pos hu',ha,computeTreeDepthPsk,
      hleaves (psLeafCapacity f),hleaves (psLeafCapacity f.single)]
  · have hu' : ¬ f.single.levelArity = [] := hu
    simp only [treeMetrics,if_neg hu,if_neg hu',simulateTree]
    refine simulateLoop_single ?_ _ _
    intro x hx
    rw [mem_singleton.mp hx]
    exact h

end

section

variable {env : Env} {f : Factory}

variable {clients : List ℕ} {amount : UInt64}

theorem buildChildren_congr {build build' : ℕ → ℕ → List ℕ → ℕ → UInt64 → Option Block}
    {per remainder : UInt64} {nActual : ℕ} {parts : List ℕ}
    (h : ∀ n lc cs slot amount, cs.length ∈ parts →
      build n lc cs slot amount = build' n lc cs slot amount) {n lc slot : ℕ}
    (hsum : parts.sum = clients.length) :
    buildChildren build per remainder nActual parts n lc slot clients =
      buildChildren build' per remainder nActual parts n lc slot clients := by
  induction parts generalizing n lc slot clients with
  | nil => rfl
  | cons part parts ih =>
    rw [sum_cons] at hsum
    have htake : (clients.take part).length = part := by
      rw [length_take]
      omega
    have hmore : ∀ n lc cs slot amount, cs.length ∈ parts →
        build n lc cs slot amount = build' n lc cs slot amount :=
      fun n lc cs slot amount hcs => h n lc cs slot amount (mem_cons_of_mem _ hcs)
    have hrest : ∀ n lc slot, buildChildren build per remainder nActual parts n lc slot
        (clients.drop part) = buildChildren build' per remainder nActual parts n lc slot
        (clients.drop part) := by
      intro n lc slot
      exact ih hmore (by rw [length_drop]; omega)
    have hblock : ∀ slot amount, build n lc (clients.take part) slot amount =
        build' n lc (clients.take part) slot amount :=
      fun slot amount => h n lc _ slot amount (by rw [htake]; exact mem_cons_self)
    simp only [buildChildren]
    by_cases hpart : part = 0
    · simp only [if_pos hpart]
      exact ih hmore (by omega)
    · simp only [if_neg hpart,hblock,hrest]

theorem setupLeaf_single {arity stIdx : ℕ} {st : FactoryNode} (harity : arity ≠ factoryArityPs) :
    setupLeaf env f.single arity stIdx st clients amount =
      setupLeaf env f arity stIdx st clients amount := by
  simp only [setupLeaf,if_neg harity]
  rfl

theorem buildSubtree_single (fuel : ℕ) {nNodes leafCounter parentVout depth : ℕ} {parent : Option ℕ}
    (h : PsFree f depth clients.length) :
    buildSubtree env f.single fuel nNodes leafCounter clients parent parentVout depth amount =
      buildSubtree env f fuel nNodes leafCounter clients parent parentVout depth amount := by
  induction fuel generalizing nNodes leafCounter parentVout depth clients parent amount with
  | zero => rfl
  | succ fuel ih =>
    have harity : arityAtDepth f.single depth = arityAtDepth f depth := rfl
    have hstatic : staticThreshold f.single = staticThreshold f := rfl
    have hallowed : ∀ parts, partsAllowed f.single parts = partsAllowed f parts := fun _ => rfl
    have hadd : addNode env f.single = addNode env f := rfl
    have hlayer : dwLayerAt f.single = dwLayerAt f := rfl
    have hfee : f.single.feePerTx = f.feePerTx := rfl
    have hcltv : f.single.cltvTimeout = f.cltvTimeout := rfl
    simp only [buildSubtree,harity,hstatic,hallowed,hadd,hlayer,hfee,hcltv,h.isLeaf]
    cases h with
    | leaf small arity =>
      simp only [small,Bool.true_eq_false,and_false,if_false,if_true,setupLeaf_single arity]
    | inner large parts =>
      simp only [large,and_true,Bool.false_eq_true,if_false]
      by_cases hparts : partsAllowed f (splitClientsForArity (arityAtDepth f depth) clients.length)
      · have hsplits := split_splits f large (partsAllowed_bounds hparts).1
        have hchildren : ∀ parent per remainder nActual n,
            buildChildren (fun n lc cs slot amount =>
              buildSubtree env f.single fuel n lc cs (some parent) slot (depth+1) amount)
              per remainder nActual (splitClientsForArity (arityAtDepth f depth) clients.length)
              n leafCounter 0 clients =
            buildChildren (fun n lc cs slot amount =>
              buildSubtree env f fuel n lc cs (some parent) slot (depth+1) amount)
              per remainder nActual (splitClientsForArity (arityAtDepth f depth) clients.length)
              n leafCounter 0 clients := by
          intro parent per remainder nActual n
          exact buildChildren_congr (fun _ _ cs _ _ hcs => ih (parts cs.length hcs)) hsplits.total
        simp only [hchildren]
      · simp only [hparts,true_or,if_true]

theorem buildNodeTxs_single (built nodes : List FactoryNode) :
    buildNodeTxs env f.single built nodes = buildNodeTxs env f built nodes := by
  induction nodes generalizing built with
  | nil => rfl
  | cons _ _ ih =>
    simp only [buildNodeTxs,ih]
    rfl

theorem factoryBuildTree_single (h : PsFree f 0 f.nClients) :
    (factoryBuildTree env f.single).map Factory.nodes =
      (factoryBuildTree env f).map Factory.nodes := by
  have hmetrics : treeMetrics f.single.priced f.single.nClients = treeMetrics f.priced f.nClients :=
    treeMetrics_single (f := f.priced) (h.congr (fun _ => rfl) rfl)
  have hprepared : f.single.prepared = f.prepared.single := by
    simp only [Factory.prepared,hmetrics]
    rfl
  have haccepted : f.single.accepted = f.accepted := by
    simp only [Factory.accepted,hmetrics]
    rfl
  have hbuild : (rootPlace env f.single).build env f.prepared.single (f.single.nClients+1) =
      (rootPlace env f).build env f.prepared (f.nClients+1) := by
    refine buildSubtree_single _ ?_
    change PsFree f.prepared 0 (placedClients env f f.nClients).length
    rw [placedClients_length]
    exact h.congr (fun _ => rfl) rfl
  simp only [factoryBuildTree_eq,haccepted,hprepared,hbuild]
  split_ifs
  · simp only [Option.map_map]
    congr 1
    funext b
    exact buildNodeTxs_single (f := b.installed f.prepared) [] b.nodes
  · rfl

end

section

variable {env : Env} {f : Factory}

theorem Chain.psFree {parent depth n lc slot : ℕ} {parts clients : List ℕ} {children : List Child}
    (h : Chain (fun p b => (∀ x ∈ b.nodes, x.type ≠ .psSubfactory) →
      PsFree f p.depth p.clients.length) parent depth n lc slot parts clients children)
    (hnodes : ∀ x ∈ childNodes children, x.type ≠ .psSubfactory) :
    ∀ part ∈ parts, PsFree f depth part := by
  induction h with
  | nil => exact fun part hpart => absurd hpart not_mem_nil
  | cons _ block _ ih =>
    rw [childNodes_cons] at hnodes
    intro part hpart
    rcases mem_cons.mp hpart with rfl | hpart
    · exact block (fun x hx => hnodes x (mem_append_left _ hx))
    · exact ih (fun x hx => hnodes x (mem_append_right _ hx)) part hpart

variable {p : Place} {fuel : ℕ} {b : Block}

theorem psFree_of_nodes (hk : 1 < f.psSubfactoryArity) (h : p.build env f fuel = some b)
    (hnodes : ∀ x ∈ b.nodes, x.type ≠ .psSubfactory) : PsFree f p.depth p.clients.length := by
  revert hnodes
  refine buildSubtree_induct (P := fun p b => (∀ x ∈ b.nodes, x.type ≠ .psSubfactory) →
    PsFree f p.depth p.clients.length) ?_ ?_ ?_ h
  · intro p ko children _ _ hc hnodes
    exact .inner hc.inner (hc.chain.psFree fun x hx => hnodes x (mem_cons_of_mem _ hx))
  · intro p ko st st' subs hko _ hleaf _ hsetup hnodes
    refine .leaf hleaf fun harity => ?_
    -- A pseudo-Spilman leaf of such a factory has sub-factories.
    have hspec := setupLeaf_spec hko.nonEmpty hsetup
    have hcount := (hspec.split harity hk).1
    obtain ⟨sub,hsub⟩ : ∃ sub, subs[0]? = some sub :=
      ⟨_,getElem?_eq_getElem (by omega)⟩
    obtain ⟨amount,hsetup,-⟩ := hspec.subs 0 sub hsub
    have hmem : sub ∈ (leafBlock f p ko st st' subs).nodes :=
      mem_cons_of_mem _ (mem_cons_of_mem _ (mem_of_getElem? hsub))
    exact hnodes sub hmem hsetup.type
  · intro p ko st children _ _ hc hnodes
    exact .inner hc.inner (hc.chain.psFree fun x hx =>
      hnodes x (mem_cons_of_mem _ (mem_cons_of_mem _ hx)))

theorem KickoffAt.not_sub {ko : FactoryNode} (h : KickoffAt env f p ko) :
    ko.type ≠ .psSubfactory := by
  rw [(addNode_fresh h.added).type]
  exact nofun

theorem StateAt.not_sub {st : FactoryNode} (h : StateAt env f p st) : st.type ≠ .psSubfactory := by
  rw [(addNode_fresh h.added).type]
  exact nofun

theorem no_subfactories (hk : f.psSubfactoryArity ≤ 1) (h : p.build env f fuel = some b) :
    ∀ x ∈ b.nodes, x.type ≠ .psSubfactory := by
  refine buildSubtree_induct (P := fun _ b => ∀ x ∈ b.nodes, x.type ≠ .psSubfactory) ?_ ?_ ?_ h
  · intro p ko children hko _ hc x hx
    rcases mem_cons.mp hx with rfl | hx
    · exact hko.not_sub
    · exact hc.chain.all_nodes (fun _ _ hb => hb) hx
  · intro p ko st st' subs hko hst _ _ hsetup x hx
    have hspec := setupLeaf_spec hko.nonEmpty hsetup
    rw [hspec.noSubs (Or.inr hk)] at hx
    rcases mem_cons.mp hx with rfl | hx
    · exact hko.not_sub
    · rw [mem_singleton.mp hx,hspec.same.type]
      exact hst.not_sub
  · intro p ko st children hko hst hc x hx
    rcases mem_cons.mp hx with rfl | hx
    · exact hko.not_sub
    rcases mem_cons.mp hx with rfl | hx
    · exact hst.not_sub
    · exact hc.chain.all_nodes (fun _ _ hb => hb) hx

end

end SuperScalar
