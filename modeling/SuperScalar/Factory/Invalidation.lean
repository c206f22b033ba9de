import SuperScalar.Foundation.Descent
import SuperScalar.Factory.Clocks

namespace SuperScalar

open Bitcoin Descent List Option UInt32 FactoryNode Factory

def LeavesSynced (env : Env) (f : Factory) : Prop :=
  ∀ j, j < f.nLeafNodes → ∀ n ∈ f.nodes[f.leafNode j]?, n.isPsLeaf = false →
    dwCurrentNsequence (counterLayer env f n.dwLayerIndex) = dwCurrentNsequence (f.leafLayer j)

def LeavesBelowRoot (f : Factory) : Prop :=
  ∀ j, j < f.nLeafNodes → ∀ n ∈ f.nodes[f.leafNode j]?, n.isPsLeaf = false →
    n.dwLayerIndex ≠ none ∧ n.dwLayerIndex ≠ some 0

def DwSafe (env : Env) (f : Factory) (leafSide : Option ℕ) : Prop :=
  ∀ l ∈ leafSide, ∀ n ∈ f.nodes[f.leafNode l]?, n.isPsLeaf = false →
    (dwIsExhausted (f.leafLayer l) = true → LeavesBelowRoot f) ∧
    (dwIsExhausted (f.leafLayer l) = false → f.perLeafEnabled = true ∨ LeavesSynced env f)

instance (env : Env) (f : Factory) : Decidable (LeavesSynced env f) :=
  inferInstanceAs (Decidable (∀ j, j < f.nLeafNodes → ∀ n ∈ f.nodes[f.leafNode j]?, _ → _ = _))

instance (f : Factory) : Decidable (LeavesBelowRoot f) :=
  inferInstanceAs (Decidable (∀ j, j < f.nLeafNodes → ∀ n ∈ f.nodes[f.leafNode j]?, _ → _ ∧ _))

instance (env : Env) (f : Factory) (leafSide : Option ℕ) : Decidable (DwSafe env f leafSide) :=
  inferInstanceAs (Decidable (∀ l ∈ leafSide, ∀ n ∈ f.nodes[f.leafNode l]?, _ → _ ∧ _))

section

variable {env : Env} {g f h : Factory}

theorem Clocked.of_clocks {ctr : DwCounter} {ls : List DwLayer} {b : Bool}
    (hclocks : h.clocks = (ctr,ls,b))
    (hlayers : ∀ layer ∈ ctr.layers, layer.Of g.stepBlocks g.statesPerLayer)
    (hls : ∀ layer ∈ ls, layer.Of g.stepBlocks g.statesPerLayer)
    (hlen : ls.length = g.nLeafNodes) : Clocked g h := by
  have hctr := clocks_counter hclocks
  have hleaf := clocks_leafLayers hclocks
  exact ⟨hctr ▸ hlayers,hleaf ▸ hls,hleaf ▸ hlen⟩

variable (hfit : DelaysFit g.stepBlocks g.statesPerLayer) (hc : Clocked g f)

include hfit hc

theorem Clocked.turned {layers : List DwLayer} {k : ℕ} (ht : Turned f.counter.layers layers k) :
    ∀ layer ∈ layers, layer.Of g.stepBlocks g.statesPerLayer := by
  intro layer hmem
  obtain ⟨j,hj⟩ := mem_iff_getElem?.mp hmem
  rcases lt_trichotomy j k with hlt | rfl | hlt
  · rw [ht.outer j hlt] at hj
    exact hc.layers layer (mem_of_getElem? hj)
  · obtain ⟨old,new,hk,hk',hturn⟩ := ht.wheel
    obtain rfl := mem_unique hj hk'
    exact (dwAdvance_toNat hfit.1 (hc.layers old (mem_of_getElem? hk)) hturn).1
  · rw [ht.inner j hlt] at hj
    obtain ⟨old,hold,rfl⟩ := map_eq_some_iff.mp hj
    exact (hc.layers old (mem_of_getElem? hold)).reset

theorem Clocked.rootTurn {ctr : DwCounter} (ht : RootTurn f.counter ctr) :
    ∀ layer ∈ ctr.layers, layer.Of g.stepBlocks g.statesPerLayer := by
  obtain ⟨old,new,inner,hlayers,hturn,hlayers'⟩ := ht
  have hall := hc.layers
  rw [hlayers] at hall
  intro layer hmem
  rw [hlayers'] at hmem
  rcases mem_cons.mp hmem with rfl | hmem
  · exact (dwAdvance_toNat hfit.1 (hall old (by simp)) hturn).1
  · exact hall layer (by simp [hmem])

theorem RootTurn.counter_le (hsame : SameTree f h) (ht : RootTurn f.counter h.counter)
    (index : Option ℕ) : dwCurrentNsequence (counterLayer env h index) ≤
      dwCurrentNsequence (counterLayer env f index) := by
  obtain ⟨old,new,inner,hlayers,hturn,hlayers'⟩ := ht
  cases index with
  | none => exact UInt32.le_refl _
  | some l =>
    cases l with
    | zero =>
      have hold : f.counter.layers[0]? = some old := by rw [hlayers]; rfl
      have hnew : h.counter.layers[0]? = some new := by rw [hlayers']; rfl
      have hof := hc.layers old (mem_of_getElem? hold)
      obtain ⟨hof',hnext⟩ := dwAdvance_toNat hfit.1 hof hturn
      rw [counterLayer_get hold,counterLayer_get hnew]
      exact nsequence_antitone hfit hof hof' (by omega)
    | succ =>
      rw [counterLayer_congr hsame (by rw [hlayers,hlayers']; rfl)]
      exact UInt32.le_refl _

end

section

variable {env : Env} {g f f' : Factory} {side : Option ℕ} (hsk : Skeleton env g)
  (hfit : DelaysFit g.stepBlocks g.statesPerLayer) (hv : Version env g f) (hc : Clocked g f)

include hsk hfit hv hc

theorem DwMove.version (hmove : DwMove env f side f') : Version env g f' ∧ Clocked g f' := by
  cases hmove with
  | odometer turn kept clocks =>
    rw [dwCounterAdvance] at turn
    split at turn
    · cases turn
    obtain ⟨layers,hturn,rfl⟩ := map_eq_some_iff.mp turn
    obtain ⟨k,hk⟩ := odometer_turned hturn
    exact ⟨((hv.kept hsk kept).rebuild hsk).1,
      .of_clocks clocks (hc.turned hfit hk) hc.leafLayers hc.count⟩
  | @leaf _ l n _ _ bound node moving turn kept clocks =>
    have hlayer := (dwAdvance_toNat hfit.1 (hc.leafLayer hv.same l) turn).1
    refine ⟨(hv.kept hsk kept).rebuildNode hsk ?_,.of_clocks clocks hc.layers ?_ ?_⟩
    · intro n' hn'
      obtain rfl := mem_unique hn' (kept.dw _ n node moving)
      refine ⟨moving,?_⟩
      obtain ⟨m,hm,heq⟩ := hv.same.symm.node node
      have hps := links_ps heq
      have hchildren := links_children heq
      obtain ⟨m',hm',htip⟩ := hsk.tips (hv.same.nLeafNodes ▸ bound)
      rw [hv.same.leafNode] at hm
      obtain rfl := mem_unique hm hm'
      rw [← hchildren]
      cases (hsk.ok _ m hm).kind with
      | kickoff type => exact absurd (type.symm.trans htip.1) (by decide)
      | inner _ _ _ subs children => exact absurd (htip.2.trans subs) children
      | leaf _ _ direct => exact direct (hps.trans moving)
      | sub type => exact absurd (type.symm.trans htip.1) (by decide)
    · intro x hx
      rcases mem_or_eq_of_mem_set hx with hx | rfl
      · exact hc.leafLayers x hx
      · exact hlayer
    · rw [length_set]
      exact hc.count
  | carry _ _ _ _ _ turn kept clocks =>
    refine ⟨((hv.kept hsk kept).rebuild hsk).1,.of_clocks clocks (hc.rootTurn hfit turn) ?_ ?_⟩
    · intro x hx
      obtain ⟨_,-,rfl⟩ := mem_map.mp hx
      have hstep := hv.same.stepBlocks
      have hstates := hv.same.statesPerLayer
      rw [hstep,hstates]
      exact DwLayer.of_init
    · rw [length_map]
      exact hc.count
  | root turn kept clocks =>
    exact ⟨((hv.kept hsk kept).rebuild hsk).1,
      .of_clocks clocks (hc.rootTurn hfit turn) hc.leafLayers hc.count⟩
  | chain kept clocks =>
    exact ⟨hv.kept hsk kept,.of_clocks clocks hc.layers hc.leafLayers hc.count⟩

omit hfit hc in
theorem leaf_sequence {h : Factory} {l i : ℕ} {layer : DwLayer} {m : FactoryNode}
    (hkept : Kept f h) (hclocks : h.clocks = (f.counter,f.leafLayers.set l layer,true))
    (hready : f.perLeafEnabled = true ∨ LeavesSynced env f) (hm : g.NodeAt i m)
    (hi : g.leafNode l ≠ i) : nodeNsequence env h i m = nodeNsequence env f i m := by
  have hsame := hv.same.trans hkept.toSameTree
  have hctr := clocks_counter hclocks
  have hleaves := clocks_leafLayers hclocks
  have hper := clocks_perLeaf hclocks
  cases sequenceSource hsk hm with
  | fixed value =>
    obtain ⟨s,hs⟩ := value
    rw [hs h hsame,hs f hv.same]
  | counter _ _ value =>
    rw [value h hsame,value f hv.same]
    cases m.dwLayerIndex with
    | none => rfl
    | some => rw [counterLayer_congr hkept.toSameTree (by rw [hctr])]
  | @leaf j _ moving bound index value =>
    have hother : l ≠ j := by
      rintro rfl
      exact hi index
    have hlayer : h.leafLayer j = f.leafLayer j := by
      have hstep := hkept.stepBlocks
      have hstates := hkept.statesPerLayer
      simp only [leafLayer,hleaves,hstep,hstates,getD_eq_getElem?_getD,getElem?_set_ne hother]
    rw [value h hsame,value f hv.same,if_pos hper,hlayer]
    rcases hready with hready | hready
    · rw [if_pos hready]
    · split
      · rfl
      · obtain ⟨n,hn,heq⟩ := hv.same.node hm
        have hindex := links_layer heq
        have hps := links_ps heq
        rw [← index,← hv.same.leafNode] at hn
        rw [← hindex]
        exact (hready j (hv.same.nLeafNodes.symm ▸ bound) n hn (hps.trans moving)).symm

theorem leaf_sequence_le {h : Factory} {l : ℕ} {layer : DwLayer} {n m : FactoryNode}
    (hbound : l < g.nLeafNodes) (hnode : f.NodeAt (f.leafNode l) n) (hmoving : n.isPsLeaf = false)
    (hturn : dwAdvance (f.leafLayer l) = some layer) (hkept : Kept f h)
    (hclocks : h.clocks = (f.counter,f.leafLayers.set l layer,true))
    (hready : f.perLeafEnabled = true ∨ LeavesSynced env f) (hm : g.NodeAt (g.leafNode l) m) :
    nodeNsequence env h (g.leafNode l) m ≤ nodeNsequence env f (g.leafNode l) m := by
  have hsame := hv.same.trans hkept.toSameTree
  have hleaves := clocks_leafLayers hclocks
  have hper := clocks_perLeaf hclocks
  cases sequenceSource hsk hm with
  | fixed value =>
    obtain ⟨s,hs⟩ := value
    rw [hs h hsame,hs f hv.same]
    exact UInt32.le_refl _
  | counter _ other => exact absurd rfl (other l hbound)
  | @leaf j _ _ bound index value =>
    obtain rfl := hsk.distinct j l bound hbound index
    have hlayer : h.leafLayer j = layer := by
      rw [leafLayer,hleaves,getD_eq_getElem?_getD,getElem?_set_self (by rw [hc.count]; exact bound)]
      rfl
    have hof := hc.leafLayer hv.same j
    obtain ⟨hof',hnext⟩ := dwAdvance_toNat hfit.1 hof hturn
    have hdown := nsequence_antitone hfit hof hof' (by omega)
    rw [value h hsame,value f hv.same,if_pos hper,hlayer]
    rcases hready with hready | hready
    · rw [if_pos hready]
      exact hdown
    · split
      · exact hdown
      · have heq := hv.same.links_eq hm (hv.same.leafNode j ▸ hnode)
        have hindex := links_layer heq
        rw [← hindex,hready j (hv.same.nLeafNodes.symm ▸ bound) n hnode hmoving]
        exact hdown

omit hfit hc in
theorem counter_drops {h : Factory} (hsame : SameTree f h) {ctr : DwCounter}
    (hclocks : h.clocks = (ctr,f.leafLayers,f.perLeafEnabled))
    (hle : ∀ i m, g.NodeAt i m → m.type = .state →
      (∀ a, g.Above a i → shownSequence env g h a = shownSequence env g f a) →
      dwCurrentNsequence (counterLayer env h m.dwLayerIndex) ≤
        dwCurrentNsequence (counterLayer env f m.dwLayerIndex)) :
    Drops g.Above (shownSequence env g f) (shownSequence env g h) := by
  intro i habove
  have hsame' := hv.same.trans hsame
  have hleaves := clocks_leafLayers hclocks
  have hper := clocks_perLeaf hclocks
  cases hm : g.nodes[i]? with
  | none => simp [shownSequence,hm]
  | some m =>
    rw [shown_node hm,shown_node hm,← le_iff_toNat_le]
    cases sequenceSource hsk hm with
    | fixed value =>
      obtain ⟨s,hs⟩ := value
      rw [hs h hsame',hs f hv.same]
      exact UInt32.le_refl _
    | counter type _ value =>
      rw [value h hsame',value f hv.same]
      exact hle i m hm type habove
    | @leaf _ type _ _ _ value =>
      rw [value h hsame',value f hv.same,hper,hsame.leafLayer hleaves]
      split
      · exact UInt32.le_refl _
      · exact hle i m hm type habove

theorem carry_drops {h : Factory} (hthreshold : 0 ≤ staticThreshold g) (hsame : SameTree f h)
    (hc' : Clocked g h) (hper : h.perLeafEnabled = true) (ht : RootTurn f.counter h.counter)
    (hdeep : LeavesBelowRoot f) :
    Drops g.Above (shownSequence env g f) (shownSequence env g h) := by
  intro i habove
  have hsame' := hv.same.trans hsame
  cases hm : g.nodes[i]? with
  | none => simp [shownSequence,hm]
  | some m =>
    rw [shown_node hm,shown_node hm,← le_iff_toNat_le]
    cases sequenceSource hsk hm with
    | fixed value =>
      obtain ⟨s,hs⟩ := value
      rw [hs h hsame',hs f hv.same]
      exact UInt32.le_refl _
    | counter _ _ value =>
      rw [value h hsame',value f hv.same]
      exact ht.counter_le hfit hc hsame _
    | @leaf j type moving bound index value =>
      obtain ⟨old,new,inner,hlayers,hturn,hlayers'⟩ := ht
      obtain ⟨n,hn,heq⟩ := hv.same.node hm
      have hindex := links_layer heq
      have hps := links_ps heq
      rw [← index,← hv.same.leafNode] at hn
      obtain ⟨hsome,hpos⟩ := hdeep j (hv.same.nLeafNodes.symm ▸ bound) n hn (hps.trans moving)
      obtain ⟨l,hl⟩ := ne_none_iff_exists'.mp hsome
      have hlt : 0 < l := Nat.pos_of_ne_zero (fun hzero => hpos (hzero ▸ hl))
      have hzero := step_zero_below hsk hthreshold hfit hc hv.same hsame'
        (by rw [hlayers]; rfl) (by rw [hlayers']; rfl) hturn hm type (hindex.symm.trans hl)
        hlt habove
      have hof := hc'.leafLayer hsame' j
      rw [hzero] at hof hfit
      rw [value h hsame',if_pos hper,nsequence_zero_step hfit hof]
      exact UInt32.zero_le

theorem DwMove.drops (hthreshold : 0 ≤ staticThreshold g) (hcur : Current env f)
    (hsafe : DwSafe env f side) (hmove : DwMove env f side f') : Current env f' ∧
      Drops g.Above (shownSequence env g f) (shownSequence env g f') := by
  have hclocked := (hmove.version hsk hfit hv hc).2
  cases hmove with
  | @odometer h ctr turn kept clocks =>
    refine ⟨((hv.kept hsk kept).rebuild hsk).2,?_⟩
    have hsame := hv.same.trans kept.toSameTree
    have hctr := clocks_counter clocks
    rw [dwCounterAdvance] at turn
    split at turn
    · cases turn
    obtain ⟨layers,hturn,rfl⟩ := map_eq_some_iff.mp turn
    obtain ⟨k,hk⟩ := odometer_turned hturn
    refine counter_drops (h := h) hsk hv kept.toSameTree clocks ?_
    intro i m hm htype habove
    have hk' : Turned f.counter.layers h.counter.layers k := by
      rw [hctr]
      exact hk
    exact hk'.counter_le hsk hthreshold hfit hc ⟨hclocked.layers,hclocked.leafLayers,hclocked.count⟩
      hv.same hsame hm htype habove
  | @leaf h l n _ called bound node moving turn kept clocks =>
    have hready := (hsafe l called n node moving).2 (dwAdvance_some turn)
    have hbound : l < g.nLeafNodes := hv.same.nLeafNodes ▸ bound
    constructor
    · intro i n' hn' hps
      obtain ⟨x,hx,⟨rfl,rfl⟩ | ⟨hi,rfl⟩⟩ := Version.rebuildNode_get hn'
      · rfl
      · have hx' := kept.dw_node hx hps
        obtain ⟨m,hm,heq⟩ := hv.same.symm.node hx'
        rw [hv.same.leafNode] at hi
        calc n'.nsequence = nodeNsequence env f i n' := hcur i n' hx' hps
          _ = nodeNsequence env f i m := nodeNsequence_links heq.symm
          _ = nodeNsequence env h i m := (leaf_sequence hsk hv kept clocks hready hm hi).symm
          _ = nodeNsequence env h i n' := nodeNsequence_links heq
    · refine .of_le ?_
      intro i
      change shownSequence env g h i ≤ _
      cases hm : g.nodes[i]? with
      | none => simp [shownSequence,hm]
      | some =>
        rw [shown_node hm,shown_node hm,← le_iff_toNat_le]
        by_cases hi : g.leafNode l = i
        · subst hi
          exact leaf_sequence_le hsk hfit hv hc hbound node moving turn kept clocks hready hm
        · rw [leaf_sequence hsk hv kept clocks hready hm hi]
          exact UInt32.le_refl _
  | @carry h l n ctr called _ node moving exhausted turn kept clocks =>
    refine ⟨((hv.kept hsk kept).rebuild hsk).2,?_⟩
    have hdeep := (hsafe l called n node moving).1 (dwAdvance_none exhausted)
    have hctr := clocks_counter clocks
    have hper := clocks_perLeaf clocks
    exact carry_drops (h := h) hsk hfit hv hc hthreshold kept.toSameTree
      ⟨hclocked.layers,hclocked.leafLayers,hclocked.count⟩ hper (hctr ▸ turn) hdeep
  | @root h ctr turn kept clocks =>
    refine ⟨((hv.kept hsk kept).rebuild hsk).2,?_⟩
    have hctr := clocks_counter clocks
    refine counter_drops (h := h) hsk hv kept.toSameTree clocks ?_
    intro i m _ _ _
    exact RootTurn.counter_le hfit hc kept.toSameTree (hctr ▸ turn) _
  | chain kept clocks =>
    constructor
    · intro i n hn hps
      rw [nodeNsequence_clocks kept.toSameTree clocks]
      exact hcur i n (kept.dw_node hn hps) hps
    · refine .of_le ?_
      intro i
      have hfun : nodeNsequence env f' i = nodeNsequence env f i :=
        funext (nodeNsequence_clocks kept.toSameTree clocks i)
      rw [shownSequence,shownSequence,hfun]

end

section

def rootPath (nodes : List FactoryNode) : ℕ → ℕ → List ℕ
  | 0, _ => []
  | fuel+1, i =>
    match (nodes[i]?).bind parentIndex with
    | none => [i]
    | some p => rootPath nodes fuel p ++ [i]

def FactoryNode.isDwState (n : FactoryNode) : Bool :=
  n.type = .state && !n.isPsLeaf && !n.isStaticOnly

def Factory.dwPath (h : Factory) (l : ℕ) : List ℕ :=
  (rootPath h.nodes h.nodes.length l).filter (fun i => (h.nodes[i]?).any isDwState)

def Factory.txAt (h : Factory) (i : ℕ) : Tx :=
  ((h.nodes[i]?).map FactoryNode.unsignedTx).getD ⟨0,[],[],0⟩

variable {env : Env} {g : Factory}

theorem rootPath_last (nodes : List FactoryNode) (fuel i : ℕ) :
    ∃ front, rootPath nodes (fuel+1) i = front ++ [i] := by
  rw [rootPath]
  split
  · exact ⟨[],rfl⟩
  · exact ⟨_,rfl⟩

theorem rootPath_above {h : Factory}
    (hup : ∀ i n p, h.NodeAt i n → n.parentIndex = some p → p < i) {fuel i : ℕ} (hi : i < fuel)
    {pre post : List ℕ} {s a : ℕ} (hpath : rootPath h.nodes fuel i = pre ++ s :: post)
    (ha : h.Above a s) : a ∈ pre := by
  induction fuel generalizing i pre s post a with
  | zero => omega
  | succ fuel ih =>
    rw [rootPath] at hpath
    split at hpath
    next hnone =>
      obtain ⟨rfl,rfl,rfl⟩ : pre = [] ∧ s = i ∧ post = [] := by
        cases pre with
        | nil => simpa [eq_comm] using hpath
        | cons => simp at hpath
      obtain ⟨p,⟨n,hn,hp⟩,-⟩ := above_iff.mp ha
      rw [show h.nodes[s]? = some n from hn,bind_some,hp] at hnone
      cases hnone
    next p hp =>
      obtain ⟨n,hn,hparent⟩ := bind_eq_some_iff.mp hp
      have hlt := hup i n p hn hparent
      rcases eq_nil_or_concat post with rfl | ⟨post,x,rfl⟩
      · obtain ⟨rfl,hs⟩ := append_inj' hpath rfl
        obtain rfl : i = s := by simpa using hs
        obtain ⟨fuel,rfl⟩ := Nat.exists_eq_succ_of_ne_zero (show fuel ≠ 0 by omega)
        obtain ⟨front,hfront⟩ := rootPath_last h.nodes fuel p
        obtain ⟨q,⟨m,hm,hq⟩,hrest⟩ := above_iff.mp ha
        obtain rfl := mem_unique hm hn
        obtain rfl := mem_unique hq hparent
        rw [hfront]
        rcases hrest with rfl | hrest
        · simp
        · exact mem_append_left _ (ih (by omega) hfront hrest)
      · rw [concat_eq_append,← cons_append,← append_assoc] at hpath
        exact ih (by omega) (append_inj' hpath rfl).1 ha

theorem SameTree.above {h : Factory} (hsame : SameTree g h) {a i : ℕ} (ha : g.Above a i) :
    h.Above a i := by
  refine Relation.TransGen.mono ?_ a i ha
  rintro p j ⟨n,hn,hp⟩
  obtain ⟨m,hm,heq⟩ := hsame.node hn
  have hindex := links_parent heq
  exact ⟨m,hm,hindex.trans hp⟩

theorem dwPath_above (hsk : Skeleton env g) {h : Factory} (hsame : SameTree g h) {l s a : ℕ}
    {pre post : List ℕ} (hpath : h.dwPath l = pre ++ s :: post) (ha : g.Above a s)
    (hdw : (h.nodes[a]?).any isDwState = true) : a ∈ pre := by
  have hl : l < h.nodes.length := by
    by_contra hge
    have hnone := getElem?_eq_none (Nat.le_of_not_lt hge)
    cases hlen : h.nodes.length with
    | zero => simp [dwPath,hlen,rootPath] at hpath
    | succ => simp [dwPath,hlen,rootPath,hnone] at hpath
  obtain ⟨pre',rest,hsplit,rfl,hrest⟩ := filter_eq_append_iff.mp hpath
  obtain ⟨skip,post',rfl,hskip,-,-⟩ := filter_eq_cons_iff.mp hrest
  rw [← append_assoc] at hsplit
  have hmem : a ∈ pre' ++ skip := by
    refine rootPath_above ?_ hl hsplit (hsame.above ha)
    intro i n p hn hp
    obtain ⟨-,-,hlt,-⟩ := hsk.parent_below hsame hn hp
    exact hlt
  rcases mem_append.mp hmem with hmem | hmem
  · exact mem_filter.mpr ⟨hmem,hdw⟩
  · exact absurd hdw (hskip a hmem)

def Factory.sequenceAt (h : Factory) (i : ℕ) : UInt32 :=
  ((h.txAt i).inputs.head?.map TxIn.sequence).getD 0

def DistinctTxids (env : Env) (txs : List Tx) : Prop :=
  ∀ t ∈ txs, ∀ u ∈ txs, t.txid env.secp.sha256 = u.txid env.secp.sha256 → t = u

def Factory.txs (h : Factory) : List Tx := h.nodes.map FactoryNode.unsignedTx

structure Invalidates (env : Env) (old new : Factory) : Prop where
  firstDifference : ∀ l ∈ old.leafNodeIndices, ∀ pre s post, old.dwPath l = pre ++ s :: post →
    (∀ a ∈ pre, new.sequenceAt a = old.sequenceAt a) → new.txAt s ≠ old.txAt s →
    new.sequenceAt s < old.sequenceAt s
  sameOutput : DistinctTxids env (old.txs++new.txs) → ∀ l ∈ old.leafNodeIndices,
    (old.nodes[l]?).any isDwState = true →
    (new.txAt l).inputs.map TxIn.prevout = (old.txAt l).inputs.map TxIn.prevout →
    new.txAt l ≠ old.txAt l → new.sequenceAt l < old.sequenceAt l

end

section

variable {env : Env} {g h h' : Factory} {i : ℕ} {n n' : FactoryNode}

theorem txAt_node (hn : h.NodeAt i n) : h.txAt i = n.unsignedTx := by
  rw [txAt,show h.nodes[i]? = some n from hn]
  rfl

theorem Version.tx (hv : Version env g h) (hn : h.NodeAt i n) (hps : n.isPsLeaf = false) :
    n.unsignedTx = unsignedTx [nodeInput h n] n.outputs :=
  congrArg FactoryNode.unsignedTx (hv.built i n hn hps)

theorem Version.txid (hv : Version env g h) (hn : h.NodeAt i n) (hps : n.isPsLeaf = false) :
    n.txid = n.unsignedTx.txid env.secp.sha256 := by
  rw [hv.tx hn hps]
  exact congrArg FactoryNode.txid (hv.built i n hn hps)

theorem Version.sequenceAt (hv : Version env g h) (hn : h.NodeAt i n) (hps : n.isPsLeaf = false) :
    h.sequenceAt i = n.nsequence := by
  rw [Factory.sequenceAt,txAt_node hn,hv.tx hn hps]
  rfl

theorem nodeInput_iff : nodeInput h' n' = nodeInput h n ↔
    parentOutpoint h' h'.nodes n' = parentOutpoint h h.nodes n ∧ n'.nsequence = n.nsequence := by
  simp only [nodeInput,TxInput.mk.injEq,← and_assoc]
  constructor
  · rintro ⟨⟨htxid,hvout⟩,hseq⟩
    exact ⟨congrArg₂ OutPoint.mk htxid hvout,hseq⟩
  · rintro ⟨hout,hseq⟩
    exact ⟨⟨congrArg OutPoint.txid hout,congrArg OutPoint.vout hout⟩,hseq⟩

theorem unsignedTx_input {a b : TxInput} {outs outs' : List TxOut}
    (heq : unsignedTx [a] outs = unsignedTx [b] outs') : a = b := by
  cases a
  cases b
  simpa [unsignedTx,TxInput.toTxIn,and_assoc] using congrArg Tx.inputs heq

theorem isDwState_iff : n.isDwState = true ↔
    n.type = .state ∧ n.isPsLeaf = false ∧ n.isStaticOnly = false := by
  simp [isDwState,and_assoc]

variable (hsk : Skeleton env g)

include hsk

theorem fixed_sequence {m : FactoryNode} (hm : g.NodeAt i m)
    (hdw : m.isDwState = false) : nodeNsequence env h i m = nodeNsequence env h' i m := by
  rw [← Bool.not_eq_true,isDwState_iff] at hdw
  cases (hsk.ok i m hm).kind with
  | kickoff type => simp only [nodeNsequence,type,if_true]
  | inner type ps moving => exact absurd ⟨type,ps,moving⟩ hdw
  | leaf tip moving =>
    have hps : m.isPsLeaf = true := by
      by_contra hps
      exact hdw ⟨tip.1,Bool.eq_false_of_not_eq_true hps,moving⟩
    simp only [nodeNsequence,hps,if_true]
  | sub _ ps => simp only [nodeNsequence,ps,if_true]

theorem Version.same_above (hv : Version env g h) (hv' : Version env g h')
    (hdistinct : DistinctTxids env (h.txs++h'.txs)) (hn : h.NodeAt i n) (hn' : h'.NodeAt i n')
    (hps : n.isPsLeaf = false)
    (hspent : parentOutpoint h' h'.nodes n' = parentOutpoint h h.nodes n) :
    ∀ a m m', g.Above a i → h.NodeAt a m → h'.NodeAt a m' → m'.nsequence = m.nsequence := by
  induction i using Nat.strong_induction_on generalizing n n' with
  | h _ ih =>
    intro a m m' ha hm hm'
    have hsame := hv.same.symm.trans hv'.same
    have hlinks := hsame.links_eq hn hn'
    have hindex := links_parent hlinks
    obtain ⟨p,⟨x,hx,hp⟩,hrest⟩ := above_iff.mp ha
    have hxlinks := hv.same.links_eq hx hn
    have hxindex := links_parent hxlinks
    have hp' := hxindex.trans hp
    obtain ⟨parent,hparent,hlt,-,hbelow⟩ := hsk.parent_below hv.same hn hp'
    have hdw := hbelow (Or.inl hps)
    obtain ⟨parent',hparent',hplinks⟩ := hsame.node hparent
    have hpps := links_ps hplinks
    have hdw' := hpps.trans hdw
    have htxid : parent'.txid = parent.txid := by
      have hout := congrArg OutPoint.txid hspent
      simp only [parentOutpoint,hindex,hp'] at hout
      simpa [show h.nodes[p]? = some parent from hparent,
        show h'.nodes[p]? = some parent' from hparent'] using hout
    have htx : parent'.unsignedTx = parent.unsignedTx := by
      refine hdistinct _ ?_ _ ?_ ?_
      · exact mem_append_right _ (mem_map_of_mem (mem_of_getElem? hparent'))
      · exact mem_append_left _ (mem_map_of_mem (mem_of_getElem? hparent))
      · rw [← hv.txid hparent hdw,← hv'.txid hparent' hdw',htxid]
    rw [hv.tx hparent hdw,hv'.tx hparent' hdw'] at htx
    obtain ⟨hout,hseq⟩ := nodeInput_iff.mp (unsignedTx_input htx)
    rcases hrest with rfl | hrest
    · rw [mem_unique hm hparent,mem_unique hm' hparent',hseq]
    · exact ih p hlt hparent hparent' hdw hout a m m' hrest hm hm'

theorem lower_sequence (hv : Version env g h) (hv' : Version env g h')
    (hcur : Current env h) (hcur' : Current env h')
    (hdrops : Drops g.Above (shownSequence env g h) (shownSequence env g h'))
    (hn : h.NodeAt i n) (hps : n.isPsLeaf = false)
    (habove : ∀ a, g.Above a i → shownSequence env g h' a = shownSequence env g h a)
    (hne : h'.txAt i ≠ h.txAt i) : h'.sequenceAt i < h.sequenceAt i := by
  have hsame := hv.same.symm.trans hv'.same
  obtain ⟨n',hn',hlinks⟩ := hsame.node hn
  have hps' := (links_ps hlinks).trans hps
  rw [hv.sequenceAt hn hps,hv'.sequenceAt hn' hps',lt_iff_toNat_lt,
    hcur.shown hv.same hn hps,hcur'.shown hv'.same hn' hps']
  refine lt_of_le_of_ne (hdrops i habove) ?_
  intro heq
  apply hne
  rw [txAt_node hn,txAt_node hn']
  refine hv.same_tx hsk hv' hn hn' hps ?_ ?_
  · rw [← UInt32.toNat_inj,hcur.shown hv.same hn hps,hcur'.shown hv'.same hn' hps',heq]
  · intro a m m' ha hm hm' hmps
    have hmlinks := hsame.links_eq hm hm'
    have hmps' := (links_ps hmlinks).trans hmps
    rw [← UInt32.toNat_inj,hcur.shown hv.same hm hmps,hcur'.shown hv'.same hm' hmps']
    exact habove a ha

theorem invalidates_of_drops (hv : Version env g h) (hv' : Version env g h')
    (hcur : Current env h) (hcur' : Current env h')
    (hdrops : Drops g.Above (shownSequence env g h) (shownSequence env g h')) :
    Invalidates env h h' := by
  have hsame := hv.same.symm.trans hv'.same
  have hfixed : ∀ a, (h.nodes[a]?).any isDwState = false →
      shownSequence env g h' a = shownSequence env g h a := by
    intro a hnot
    cases hm : g.nodes[a]? with
    | none => simp [shownSequence,hm]
    | some m =>
      obtain ⟨x,hx,hlinks⟩ := hv.same.node hm
      rw [show h.nodes[a]? = some x from hx,any_some] at hnot
      have hdw : m.isDwState = false := by
        simp only [← hnot,isDwState,links_type hlinks,links_ps hlinks,links_static hlinks]
      rw [shown_node hm,shown_node hm,fixed_sequence hsk hm hdw]
  have hshown : ∀ a m m', h.NodeAt a m → h'.NodeAt a m' → m.isPsLeaf = false →
      m'.nsequence = m.nsequence → shownSequence env g h' a = shownSequence env g h a := by
    intro a m m' hm hm' hps hseq
    have hps' := (links_ps (hsame.links_eq hm hm')).trans hps
    rw [← hcur.shown hv.same hm hps,← hcur'.shown hv'.same hm' hps',hseq]
  constructor
  · intro l hl pre s post hpath hpre hne
    have hmem : s ∈ h.dwPath l := by simp [hpath]
    obtain ⟨n,hn,hdw⟩ := (any_eq_true _ _).mp (mem_filter.mp hmem).2
    refine lower_sequence hsk hv hv' hcur hcur' hdrops hn (isDwState_iff.mp hdw).2.1 ?_ hne
    intro a ha
    cases hany : (h.nodes[a]?).any isDwState with
    | false => exact hfixed a hany
    | true =>
      have hseq := hpre a (dwPath_above hsk hv.same hpath ha hany)
      obtain ⟨m,hm,hmdw⟩ := (any_eq_true _ _).mp hany
      obtain ⟨m',hm',hlinks⟩ := hsame.node hm
      have hps := (isDwState_iff.mp hmdw).2.1
      rw [hv.sequenceAt hm hps,hv'.sequenceAt hm' ((links_ps hlinks).trans hps)] at hseq
      exact hshown a m m' hm hm' hps hseq
  · intro hdistinct l hl hdw hspent hne
    obtain ⟨n,hn,hndw⟩ := (any_eq_true _ _).mp hdw
    obtain ⟨n',hn',hlinks⟩ := hsame.node hn
    have hps := (isDwState_iff.mp hndw).2.1
    refine lower_sequence hsk hv hv' hcur hcur' hdrops hn hps ?_ hne
    rw [txAt_node hn,txAt_node hn',hv.tx hn hps,hv'.tx hn' ((links_ps hlinks).trans hps)]
      at hspent
    have hout := head_eq_of_cons_eq hspent
    intro a ha
    cases hany : (h.nodes[a]?).any isDwState with
    | false => exact hfixed a hany
    | true =>
      obtain ⟨m,hm,hmdw⟩ := (any_eq_true _ _).mp hany
      obtain ⟨m',hm',-⟩ := hsame.node hm
      exact hshown a m m' hm hm' (isDwState_iff.mp hmdw).2.1
        (hv.same_above hsk hv' hdistinct hn hn' hps hout a m m' ha hm hm')

end

section

variable {env : Env} {f g h h' : Factory}

def DwOrdered (env : Env) (f : Factory) (op : FactoryOp) : Prop :=
  op.isAdvance = true ∧ DwSafe env f op.leafSide

instance (env : Env) (f : Factory) (op : FactoryOp) : Decidable (DwOrdered env f op) :=
  inferInstanceAs (Decidable (_ ∧ _))

structure Reached (env : Env) (g h : Factory) : Prop where
  version : Version env g h
  current : Current env h
  clocked : Clocked g h

theorem reached_build {b : Block} (hsk : Skeleton env g) (hb : BuiltFrom env f g b) :
    Reached env g g := by
  obtain ⟨hversion,hcurrent⟩ := Version.of_built hsk hb
  refine ⟨hversion,hcurrent,?_⟩
  obtain rfl := hb.result
  refine ⟨?_,?_,?_⟩
  · intro layer hmem
    rw [show layer = dwLayerInit f.stepBlocks f.statesPerLayer from eq_of_mem_replicate hmem]
    exact DwLayer.of_init
  · intro layer hmem
    rw [show layer = dwLayerInit f.stepBlocks f.statesPerLayer from eq_of_mem_replicate hmem]
    exact DwLayer.of_init
  · exact length_replicate

variable (hsk : Skeleton env g) (hthreshold : 0 ≤ staticThreshold g)
  (hfit : DelaysFit g.stepBlocks g.statesPerLayer)

include hsk hthreshold hfit

theorem reached_step (hr : Reached env g h) (hstep : FactoryStep env (DwOrdered env) h h') :
    Reached env g h' ∧ Drops g.Above (shownSequence env g h) (shownSequence env g h') := by
  obtain ⟨op,code,⟨hop,hsafe⟩,hrun,hcode⟩ := hstep
  have hmove := advance_move (hr.version.settled hsk) hop hrun hcode
  obtain ⟨hversion,hclocked⟩ := hmove.version hsk hfit hr.version hr.clocked
  obtain ⟨hcurrent,hdrops⟩ :=
    hmove.drops hsk hfit hr.version hr.clocked hthreshold hr.current hsafe
  exact ⟨⟨hversion,hcurrent,hclocked⟩,hdrops⟩

theorem reached_run (hr : Reached env g h) (hrun : FactoryRun env (DwOrdered env) h h') :
    Reached env g h' ∧ Drops g.Above (shownSequence env g h) (shownSequence env g h') := by
  induction hrun with
  | refl => exact ⟨hr,.of_le (fun _ => le_rfl)⟩
  | tail _ hstep ih =>
    obtain ⟨hmid,hfirst⟩ := ih
    obtain ⟨hlast,hlater⟩ := reached_step hsk hthreshold hfit hmid hstep
    refine ⟨hlast,hfirst.trans ?_ hlater⟩
    have hsub : Subrelation g.Above (· < ·) := hsk.above_lt
    exact hsub.wf Nat.lt_wfRel.wf

def AdvanceRun (env : Env) : Factory → Factory → Prop :=
  FactoryRun env fun _ op => op.isAdvance = true

omit hthreshold in
theorem AdvanceRun.version (hr : Reached env g g) (hrun : AdvanceRun env g h) :
    Version env g h ∧ Clocked g h := by
  induction hrun with
  | refl => exact ⟨hr.version,hr.clocked⟩
  | tail _ hstep ih =>
    obtain ⟨op,code,hop,hrun,hcode⟩ := hstep
    exact (advance_move (ih.1.settled hsk) hop hrun hcode).version hsk hfit ih.1 ih.2

end

theorem dw_invalidation_holds (env : Env) (f g old new : Factory) (hconf : ArityConfigured f)
    (hthreshold : 0 ≤ staticThreshold f) (hfit : DelaysFit f.stepBlocks f.statesPerLayer)
    (hbuild : factoryBuildTree env f = some g) (hold : FactoryRun env (DwOrdered env) g old)
    (hnew : FactoryRun env (DwOrdered env) old new) : Invalidates env old new := by
  obtain ⟨b,hb⟩ := factoryBuildTree_spec hbuild
  have hsk := hb.skeleton hconf
  have hbase : 0 ≤ staticThreshold g ∧ DelaysFit g.stepBlocks g.statesPerLayer := by
    rw [hb.result]
    exact ⟨hthreshold,hfit⟩
  obtain ⟨hr,-⟩ := reached_run hsk hbase.1 hbase.2 (reached_build hsk hb) hold
  obtain ⟨hr',hdrops⟩ := reached_run hsk hbase.1 hbase.2 hr hnew
  exact invalidates_of_drops hsk hr.version hr'.version hr.current hr'.current hdrops

theorem dw_invalidation_holds_four_clients : ∃ g old new,
    factoryBuildTree Env.sample (Factory.sample 4 2 1) = some g ∧
    FactoryRun Env.sample (DwOrdered Env.sample) g old ∧
    FactoryRun Env.sample (DwOrdered Env.sample) old new ∧ new.txs ≠ old.txs ∧
    Invalidates Env.sample old new := by
  obtain ⟨⟨g,old,new⟩,hr,hne⟩ : ∃ r, playTwice Env.sample (DwOrdered Env.sample)
      (Factory.sample 4 2 1) [.advanceLeafUnsigned 0,.advance true] [.advanceLeaf 0 true] =
        some r ∧ r.2.2.txs ≠ r.2.1.txs := by
    decide +kernel
  obtain ⟨hg,hold,hnew⟩ := playTwice_runs hr
  refine ⟨g,old,new,hg,hold,hnew,hne,?_⟩
  refine dw_invalidation_holds Env.sample (Factory.sample 4 2 1) g old new ?_ ?_ ?_ hg hold hnew
  · exact ⟨fun _ => Or.inr (Or.inl rfl),by simp [Factory.sample]⟩
  · decide
  · decide

theorem leaf_advance_raises_sequence : ∃ g old new,
    factoryBuildTree Env.sample (Factory.sample 4 2 1) = some g ∧
    FactoryRun Env.sample (fun _ op => op.isAdvance = true) g old ∧
    FactoryRun Env.sample (fun _ op => op.isAdvance = true) old new ∧
    ¬ Invalidates Env.sample old new := by
  obtain ⟨⟨g,old,new⟩,hr,hleaf,hpath,hpre,hne,hnot⟩ : ∃ r, playTwice Env.sample
      (fun _ op => op.isAdvance = true) (Factory.sample 4 2 1) [.advance true,.advance true]
        [.advanceLeaf 0 true] = some r ∧
      3 ∈ r.2.1.leafNodeIndices ∧ r.2.1.dwPath 3 = [1] ++ 3 :: [] ∧
      r.2.2.sequenceAt 1 = r.2.1.sequenceAt 1 ∧ r.2.2.txAt 3 ≠ r.2.1.txAt 3 ∧
      ¬ r.2.2.sequenceAt 3 < r.2.1.sequenceAt 3 := by
    decide +kernel
  obtain ⟨hg,hold,hnew⟩ := playTwice_runs hr
  refine ⟨g,old,new,hg,hold,hnew,?_⟩
  intro hinv
  exact hnot (hinv.firstDifference 3 hleaf [1] 3 [] hpath (by simpa using hpre) hne)

theorem delays_identify_transactions (env : Env) (f g h h' : Factory) (hconf : ArityConfigured f)
    (hfit : DelaysFit f.stepBlocks f.statesPerLayer) (hbuild : factoryBuildTree env f = some g)
    (hrun : AdvanceRun env g h) (hrun' : AdvanceRun env g h') (i : ℕ) (n n' : FactoryNode)
    (hn : h.NodeAt i n) (hn' : h'.NodeAt i n') (hps : n.isPsLeaf = false)
    (hseq : ∀ a m m', Relation.ReflTransGen g.IsParent a i → h.NodeAt a m → h'.NodeAt a m' →
      m.isPsLeaf = false → m'.nsequence = m.nsequence) : n'.unsignedTx = n.unsignedTx := by
  obtain ⟨b,hb⟩ := factoryBuildTree_spec hbuild
  have hsk := hb.skeleton hconf
  have hversion {k : Factory} (hrun : AdvanceRun env g k) :=
    hrun.version hsk (by rw [hb.result]; exact hfit) (reached_build hsk hb)
  exact (hversion hrun).1.same_tx hsk (hversion hrun').1 hn hn' hps (hseq i n n' .refl hn hn' hps)
    fun a m m' ha => hseq a m m' ha.to_reflTransGen

theorem ps_advance_keeps_root : ∃ g h n n', AdvanceRun Env.sample g h ∧ g.NodeAt 1 n ∧
    h.NodeAt 1 n' ∧ n'.unsignedTx = n.unsignedTx := by
  obtain ⟨g,hg,h,hr,n,hn,n',hn',hps,hseq⟩ :
      ∃ g, factoryBuildTree Env.sample (sample 2 3 1) = some g ∧
      ∃ h, playOps Env.sample (fun _ op => op.isAdvance = true) g [.advanceLeaf 0 true] = some h ∧
      ∃ n, g.nodes[1]? = some n ∧ ∃ n', h.nodes[1]? = some n' ∧ n.isPsLeaf = false ∧
        h.nodes.map nsequence = g.nodes.map nsequence := by
    decide +kernel
  refine ⟨g,h,n,n',playOps_run hr,hn,hn',delays_identify_transactions Env.sample _ g g h
    ⟨fun _ => .inr (.inr rfl),by simp [sample]⟩ (by decide) hg .refl (playOps_run hr) 1
    n n' hn hn' hps fun a m m' _ (hm : _ = some m) (hm' : _ = some m') _ => ?_⟩
  simpa [hm,hm'] using congrArg (·[a]?) hseq

end SuperScalar
