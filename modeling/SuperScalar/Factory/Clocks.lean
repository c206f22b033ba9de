import SuperScalar.Dw.Order
import SuperScalar.Factory.Versions

namespace SuperScalar

open Bitcoin List

structure Clocked (g h : Factory) : Prop where
  layers : ∀ layer ∈ h.counter.layers, layer.Of g.stepBlocks g.statesPerLayer
  leafLayers : ∀ layer ∈ h.leafLayers, layer.Of g.stepBlocks g.statesPerLayer
  count : h.leafLayers.length = g.nLeafNodes

def shownSequence (env : Env) (g h : Factory) (i : ℕ) : ℕ :=
  (((g.nodes[i]?).map (nodeNsequence env h i)).getD 0).toNat

section

variable {env : Env} {g h h' : Factory} {i : ℕ} {m : FactoryNode}

theorem shown_node (hm : g.NodeAt i m) :
    shownSequence env g h i = (nodeNsequence env h i m).toNat := by
  rw [shownSequence,show g.nodes[i]? = some m from hm]
  rfl

theorem Current.shown (hcur : Current env h) (hsame : SameTree g h) {n : FactoryNode}
    (hn : h.NodeAt i n) (hps : n.isPsLeaf = false) :
    n.nsequence.toNat = shownSequence env g h i := by
  obtain ⟨m,hm,heq⟩ := hsame.symm.node hn
  rw [shown_node hm,hcur i n hn hps,nodeNsequence_links heq.symm]

theorem nodeNsequence_clocks (hsame : SameTree h h') (hclocks : h'.clocks = h.clocks) (i : ℕ)
    (n : FactoryNode) : nodeNsequence env h' i n = nodeNsequence env h i n := by
  have hctr := clocks_counter hclocks
  have hleaves := clocks_leafLayers hclocks
  have hper := clocks_perLeaf hclocks
  have hrest : { h'.base with counter := h'.counter, leafLayers := h'.leafLayers,
                              perLeafEnabled := h'.perLeafEnabled } =
      { h.base with counter := h.counter, leafLayers := h.leafLayers,
                    perLeafEnabled := h.perLeafEnabled } := by
    rw [hsame.base,hctr,hleaves,hper]
  exact (congrArg (fun k => nodeNsequence env k i n) hrest :)

inductive SequenceSource (env : Env) (g : Factory) (i : ℕ) (m : FactoryNode) : Prop
  | fixed (value : ∃ s, ∀ h, SameTree g h → nodeNsequence env h i m = s)
  | counter (type : m.type = .state) (other : ∀ j, j < g.nLeafNodes → g.leafNode j ≠ i)
      (value : ∀ h, SameTree g h →
        nodeNsequence env h i m = dwCurrentNsequence (counterLayer env h m.dwLayerIndex))
  | leaf {j : ℕ} (type : m.type = .state) (moving : m.isPsLeaf = false) (bound : j < g.nLeafNodes)
      (index : g.leafNode j = i)
      (value : ∀ h, SameTree g h → nodeNsequence env h i m = dwCurrentNsequence
        (if h.perLeafEnabled then h.leafLayer j else counterLayer env h m.dwLayerIndex))

theorem find_leaf (hsk : Skeleton env g) {j : ℕ} (hj : j < g.nLeafNodes) (hi : g.leafNode j = i) :
    (range g.nLeafNodes).find? (fun k => g.leafNode k = i) = some j := by
  cases hfind : (range g.nLeafNodes).find? (fun k => g.leafNode k = i) with
  | none =>
    have hnone := find?_eq_none.mp hfind j (mem_range.mpr hj)
    exact absurd hi (by simpa using hnone)
  | some k =>
    have hk : g.leafNode k = i := by simpa using find?_some hfind
    have hlt := mem_range.mp (mem_of_find?_eq_some hfind)
    rw [hsk.distinct k j hlt hj (hk.trans hi.symm)]

theorem find_none (hother : ∀ j, j < g.nLeafNodes → g.leafNode j ≠ i) :
    (range g.nLeafNodes).find? (fun k => g.leafNode k = i) = none := by
  rw [find?_eq_none]
  intro j hj
  simpa using hother j (mem_range.mp hj)

theorem nodeNsequence_dw (htype : m.type = .state) (hps : m.isPsLeaf = false)
    (hmoving : m.isStaticOnly = false) (hsame : SameTree g h) : nodeNsequence env h i m =
      match (if h.perLeafEnabled then
        (range g.nLeafNodes).find? (fun k => g.leafNode k = i) else none) with
      | some j => dwCurrentNsequence (h.leafLayer j)
      | none => dwCurrentNsequence (counterLayer env h m.dwLayerIndex) := by
  have hkind : ¬ m.type = .kickoff := by rw [htype]; decide
  have hstatic : ¬ m.isStaticOnly = true := by rw [hmoving]; decide
  have hleaf : ¬ m.isPsLeaf = true := by rw [hps]; decide
  have hsearch : (if h.perLeafEnabled then
        (range h.nLeafNodes).find? (fun k => h.leafNode k = i) else none) =
      if h.perLeafEnabled then
        (range g.nLeafNodes).find? (fun k => g.leafNode k = i) else none := by
    simp only [hsame.nLeafNodes,hsame.leafNode]
  unfold nodeNsequence
  rw [if_neg hstatic,if_neg hkind,if_neg hleaf]
  exact congrArg (fun leaf : Option ℕ => match leaf with
    | some j => dwCurrentNsequence (h.leafLayer j)
    | none => dwCurrentNsequence (counterLayer env h m.dwLayerIndex)) hsearch

section

variable (hsk : Skeleton env g)

include hsk

theorem inner_sequence (hm : g.NodeAt i m) (htype : m.type = .state)
    (hps : m.isPsLeaf = false) (hchildren : m.childIndices ≠ []) :
    (∀ j, j < g.nLeafNodes → g.leafNode j ≠ i) ∧ ∀ h, SameTree g h →
      nodeNsequence env h i m = dwCurrentNsequence (counterLayer env h m.dwLayerIndex) := by
  cases (hsk.ok i m hm).kind with
  | kickoff type => exact absurd (type.symm.trans htype) (by decide)
  | inner type ps moving subs children =>
    have hother : ∀ j, j < g.nLeafNodes → g.leafNode j ≠ i := by
      rintro j hj rfl
      obtain ⟨n,hn,-,htip⟩ := hsk.tips hj
      rw [Option.mem_unique hn hm,subs] at htip
      exact children htip
    refine ⟨hother,?_⟩
    intro h hsame
    rw [nodeNsequence_dw type ps moving hsame,find_none hother,ite_self]
  | leaf _ _ direct => exact absurd (direct hps) hchildren
  | sub type => exact absurd (type.symm.trans htype) (by decide)

theorem tip_sequence (hm : g.NodeAt i m) (htip : IsTip m)
    (hps : m.isPsLeaf = false) {j : ℕ} (hj : j < g.nLeafNodes) (hi : g.leafNode j = i)
    (hsame : SameTree g h) : nodeNsequence env h i m = dwCurrentNsequence
      (if h.perLeafEnabled then h.leafLayer j else counterLayer env h m.dwLayerIndex) := by
  cases (hsk.ok i m hm).kind with
  | kickoff type => exact absurd (type.symm.trans htip.1) (by decide)
  | inner _ _ _ subs children => exact absurd (htip.2.trans subs) children
  | leaf _ moving =>
    rw [nodeNsequence_dw htip.1 hps moving hsame,find_leaf hsk hj hi]
    cases h.perLeafEnabled <;> rfl
  | sub type => exact absurd (type.symm.trans htip.1) (by decide)

theorem sequenceSource (hm : g.NodeAt i m) : SequenceSource env g i m := by
  cases (hsk.ok i m hm).kind with
  | kickoff type =>
    refine .fixed ⟨if m.isStaticOnly then 0xFFFFFFFE else nsequenceDisableBip68,?_⟩
    intro h _
    rw [nodeNsequence,if_pos type]
  | inner type ps _ _ children =>
    obtain ⟨hother,hvalue⟩ := inner_sequence hsk hm type ps children
    exact .counter type hother hvalue
  | leaf tip moving =>
    cases hps : m.isPsLeaf with
    | true =>
      refine .fixed ⟨0xFFFFFFFE,?_⟩
      intro h _
      have hkind : ¬ m.type = .kickoff := by rw [tip.1]; decide
      simp only [nodeNsequence,hps,moving,hkind,if_false,if_true,Bool.false_eq_true]
    | false =>
      obtain ⟨j,hj,hi⟩ := hsk.moving i m hm tip hps
      exact .leaf tip.1 hps hj hi (fun h hsame => tip_sequence hsk hm tip hps hj hi hsame)
  | sub type ps moving =>
    refine .fixed ⟨0xFFFFFFFE,?_⟩
    intro h _
    have hkind : ¬ m.type = .kickoff := by rw [type]; decide
    simp only [nodeNsequence,ps,moving,hkind,if_false,if_true,Bool.false_eq_true]

theorem lower_layer (hthreshold : 0 ≤ staticThreshold g)
    {l k : ℕ} (hm : g.NodeAt i m) (htype : m.type = .state) (hl : m.dwLayerIndex = some l)
    (hk : k < l) : ∃ a x, g.Above a i ∧ g.NodeAt a x ∧ x.type = .state ∧ x.isPsLeaf = false ∧
      x.childIndices ≠ [] ∧ x.dwLayerIndex = some k := by
  induction i using Nat.strong_induction_on generalizing m l with
  | h i ih =>
    rcases hsk.layers hthreshold i m hm htype with hzero | hnone | hstep
    · rw [hzero] at hl
      cases hl
      omega
    · rw [hnone] at hl
      cases hl
    · obtain ⟨p,ko,q,a,hp,hq,hparent,hko,hkoparent,hbelow⟩ := hstep
      obtain ⟨x,hx,hlt,hchild,-,hps⟩ := hsk.up p ko q hp hkoparent
      obtain rfl := Option.mem_unique hq hx
      obtain ⟨_,-,hlt',-⟩ := hsk.up i m p hm hparent
      have habove : g.Above q i := .tail (.single ⟨ko,hp,hkoparent⟩) ⟨m,hm,hparent⟩
      have hdw : a.isPsLeaf = false := by
        rw [← Bool.not_eq_true]
        intro htrue
        have hkops := (hps htrue).1
        cases (hsk.ok p ko hp).kind with
        | kickoff _ ps => exact absurd (ps.symm.trans hkops) (by decide)
        | inner type => exact absurd (type.symm.trans hko) (by decide)
        | leaf tip => exact absurd (tip.1.symm.trans hko) (by decide)
        | sub type => exact absurd (type.symm.trans hko) (by decide)
      have hchildren : a.childIndices ≠ [] := by
        intro hnil
        rw [hnil] at hchild
        cases hchild
      rcases hbelow with ⟨-,hzero | hnone⟩ | ⟨hstate,-,l',hl',hnext⟩
      · rw [hzero] at hl
        cases hl
        omega
      · rw [hnone] at hl
        cases hl
      · rw [hnext] at hl
        have hle : l ≤ l'+1 := by
          rw [← Option.some.inj hl]
          exact Nat.min_le_left _ _
        rcases Nat.lt_or_eq_of_le (show k ≤ l' by omega) with hlower | rfl
        · obtain ⟨b,y,hb,hrest⟩ := ih q (hlt.trans hlt') hx hstate hl' hlower
          exact ⟨b,y,IsTrans.trans b q i hb habove,hrest⟩
        · exact ⟨q,a,habove,hx,hstate,hdw,hchildren,hl'⟩

end

theorem Clocked.counterLayer (hc : Clocked g h) (hsame : SameTree g h) (l : ℕ) :
    (counterLayer env h (some l)).Of g.stepBlocks g.statesPerLayer := by
  have hstep := hsame.stepBlocks
  have hstates := hsame.statesPerLayer
  rw [SuperScalar.counterLayer,getD_eq_getElem?_getD]
  cases hl : h.counter.layers[l]? with
  | none =>
    rw [Option.getD_none,hstep,hstates]
    exact DwLayer.of_init
  | some layer => exact hc.layers layer (mem_of_getElem? hl)

theorem Clocked.leafLayer (hc : Clocked g h) (hsame : SameTree g h) (j : ℕ) :
    (h.leafLayer j).Of g.stepBlocks g.statesPerLayer := by
  have hstep := hsame.stepBlocks
  have hstates := hsame.statesPerLayer
  rw [Factory.leafLayer,getD_eq_getElem?_getD]
  cases hl : h.leafLayers[j]? with
  | none =>
    rw [Option.getD_none,hstep,hstates]
    exact DwLayer.of_init
  | some layer => exact hc.leafLayers layer (mem_of_getElem? hl)

theorem counterLayer_congr (hsame : SameTree h h') {l : ℕ}
    (hl : h'.counter.layers[l]? = h.counter.layers[l]?) :
    counterLayer env h' (some l) = counterLayer env h (some l) := by
  have hstep := hsame.stepBlocks
  have hstates := hsame.statesPerLayer
  simp only [counterLayer,getD_eq_getElem?_getD,hl,hstep,hstates]

theorem counterLayer_get {l : ℕ} {layer : DwLayer} (hl : h.counter.layers[l]? = some layer) :
    counterLayer env h (some l) = layer := by
  rw [counterLayer,getD_eq_getElem?_getD,hl]
  rfl

end

section

variable {env : Env} {g h h' : Factory} {i : ℕ} {m : FactoryNode}
  (hsk : Skeleton env g) (hthreshold : 0 ≤ staticThreshold g)
  (hfit : DelaysFit g.stepBlocks g.statesPerLayer) (hc : Clocked g h) (hc' : Clocked g h')
  (hsame : SameTree g h) (hsame' : SameTree g h')

include hsk hthreshold hfit hc hsame hsame'

theorem step_zero_below {k l : ℕ} {layer layer' : DwLayer}
    (hk : h.counter.layers[k]? = some layer) (hk' : h'.counter.layers[k]? = some layer')
    (hturn : dwAdvance layer = some layer') (hm : g.NodeAt i m) (htype : m.type = .state)
    (hl : m.dwLayerIndex = some l) (hlt : k < l)
    (habove : ∀ a, g.Above a i → shownSequence env g h' a = shownSequence env g h a) :
    g.stepBlocks = 0 := by
  obtain ⟨a,x,ha,hx,hstate,hps,hchildren,hlayer⟩ :=
    lower_layer hsk hthreshold hm htype hl hlt
  have hvalue := (inner_sequence hsk hx hstate hps hchildren).2
  have hshown := habove a ha
  rw [shown_node hx,shown_node hx,hvalue h hsame,hvalue h' hsame',hlayer,counterLayer_get hk,
    counterLayer_get hk',UInt32.toNat_inj] at hshown
  exact step_zero_of_advance hfit (hc.layers layer (mem_of_getElem? hk)) hturn hshown

include hc'

theorem Turned.counter_le {k : ℕ} (ht : Turned h.counter.layers h'.counter.layers k)
    (hm : g.NodeAt i m) (htype : m.type = .state)
    (habove : ∀ a, g.Above a i → shownSequence env g h' a = shownSequence env g h a) :
    dwCurrentNsequence (counterLayer env h' m.dwLayerIndex) ≤
      dwCurrentNsequence (counterLayer env h m.dwLayerIndex) := by
  obtain ⟨layer,layer',hk,hk',hturn⟩ := ht.wheel
  cases hl : m.dwLayerIndex with
  | none => exact UInt32.le_refl _
  | some l =>
    rcases lt_trichotomy l k with hlt | rfl | hlt
    · rw [counterLayer_congr (hsame.symm.trans hsame') (ht.outer l hlt)]
      exact UInt32.le_refl _
    · rw [counterLayer_get hk,counterLayer_get hk']
      have hof := hc.layers layer (mem_of_getElem? hk)
      obtain ⟨hof',hnext⟩ := dwAdvance_toNat hfit.1 hof hturn
      exact nsequence_antitone hfit hof hof' (by omega)
    · have hzero := step_zero_below hsk hthreshold hfit hc hsame hsame' hk hk' hturn hm htype hl hlt
        habove
      have hof : (counterLayer env h' (some l)).Of g.stepBlocks g.statesPerLayer :=
        hc'.counterLayer hsame' l
      rw [hzero] at hof hfit
      rw [nsequence_zero_step hfit hof]
      exact UInt32.zero_le

end

end SuperScalar
