import SuperScalar.Factory.Invalidation

namespace SuperScalar

open Bitcoin List Option Factory

inductive FactoryTrace (env : Env) (allowed : Factory → FactoryOp → Prop) (g : Factory) :
    List Factory → Factory → Prop
  | built : FactoryTrace env allowed g [g] g
  | step {past : List Factory} {f f' : Factory} (trace : FactoryTrace env allowed g past f)
      (next : FactoryStep env allowed f f') : FactoryTrace env allowed g (f' :: past) f'

theorem FactoryTrace.last_mem {env : Env} {allowed : Factory → FactoryOp → Prop} {g f : Factory}
    {past : List Factory} (h : FactoryTrace env allowed g past f) : f ∈ past := by
  cases h with
  | built => exact mem_singleton_self g
  | step => exact mem_cons_self

section

variable (env : Env) (allowed : Factory → FactoryOp → Prop) [∀ f op, Decidable (allowed f op)]

def playTrace (past : List Factory) (f : Factory) : List FactoryOp → Option (List Factory × Factory)
  | [] => some (past,f)
  | op :: ops =>
    if allowed f op ∧ op.Succeeds (op.run env f).2 then
      playTrace ((op.run env f).1 :: past) (op.run env f).1 ops
    else none

def playFrom (f : Factory) (ops : List FactoryOp) : Option (Factory × List Factory × Factory) := do
  let g ← factoryBuildTree env f
  let (past,h) ← playTrace env allowed [g] g ops
  some (g,past,h)

variable {env allowed} {f g h : Factory} {past past' : List Factory} {ops : List FactoryOp}

theorem playTrace_trace (htrace : FactoryTrace env allowed g past f)
    (hplay : playTrace env allowed past f ops = some (past',h)) :
    FactoryTrace env allowed g past' h := by
  induction ops generalizing past f with
  | nil =>
    obtain ⟨rfl,rfl⟩ := Prod.mk.inj (some.inj hplay)
    exact htrace
  | cons op _ ih =>
    rw [playTrace] at hplay
    split at hplay
    next hok => exact ih (.step htrace ⟨op,(op.run env f).2,hok.1,rfl,hok.2⟩) hplay
    next => cases hplay

theorem playFrom_trace (hplay : playFrom env allowed f ops = some (g,past,h)) :
    factoryBuildTree env f = some g ∧ FactoryTrace env allowed g past h := by
  simp only [playFrom,bind_eq_bind,bind_eq_some_iff,some.injEq,Prod.mk.injEq] at hplay
  obtain ⟨_,hg,⟨_,_⟩,htrace,rfl,rfl,rfl⟩ := hplay
  exact ⟨hg,playTrace_trace .built htrace⟩

end

def Factory.rootExhausted (f : Factory) : Bool := f.counter.layers.head?.all dwIsExhausted

theorem advanceRoot_none {f : Factory} (h : advanceRoot f = none) : f.rootExhausted = true := by
  rw [advanceRoot] at h
  rw [rootExhausted]
  split at h
  next hnil => rw [hnil]; rfl
  next layer inner hlayers =>
    rw [hlayers]
    exact dwAdvance_none (map_eq_none_iff.mp h)

def Factory.statePath (h : Factory) (l : ℕ) : List ℕ :=
  (rootPath h.nodes h.nodes.length l).filter (fun i => (h.nodes[i]?).any (fun n => n.type = .state))

def SpendsSame (old new : Factory) (i : ℕ) : Prop :=
  (new.txAt i).inputs.map TxIn.prevout = (old.txAt i).inputs.map TxIn.prevout

structure TickOrdered (past : List Factory) (new : Factory) : Prop where
  noLarger : ∀ i n, new.NodeAt i n → n.type = .state → ∀ old ∈ past, SpendsSame old new i →
    new.sequenceAt i ≤ old.sequenceAt i
  smaller : ∀ l ∈ new.leafNodeIndices, ∃ s ∈ new.statePath l, ∀ old ∈ past, SpendsSame old new s →
    new.sequenceAt s < old.sequenceAt s

def TickOp (_ : Factory) (op : FactoryOp) : Prop := op.isAdvance = true ∨ op = .tickRoot

instance (f : Factory) (op : FactoryOp) : Decidable (TickOp f op) :=
  inferInstanceAs (Decidable (_ ∨ _))

def Stamped (env : Env) (g f : Factory) : Prop :=
  ∀ i n, f.NodeAt i n → n.isPsLeaf = false →
    ∃ k, SameTree g k ∧ Clocked g k ∧ n.nsequence = nodeNsequence env k i n

def MovingLeaf (g f : Factory) : Prop :=
  ∃ j n, j < g.nLeafNodes ∧ f.NodeAt (g.leafNode j) n ∧ n.isPsLeaf = false ∧
    n.nsequence = dwCurrentNsequence (f.leafLayer j)

structure Ticked (env : Env) (g f : Factory) : Prop where
  version : Version env g f
  clocked : Clocked g f
  stamped : Stamped env g f
  started : f.perLeafEnabled = false → g.perLeafEnabled = false
  leaf : f.perLeafEnabled = true →
    (∃ i m, g.NodeAt i m ∧ IsTip m ∧ m.isPsLeaf = false) → MovingLeaf g f

section

variable {env : Env} {g f f' : Factory} (hsk : Skeleton env g)

include hsk

theorem ticked_of_current (hv : Version env g f) (hc : Clocked g f) (hcur : Current env f)
    (hstart : f.perLeafEnabled = false → g.perLeafEnabled = false) : Ticked env g f := by
  refine ⟨hv,hc,fun i n hn hps => ⟨f,hv.same,hc,hcur i n hn hps⟩,hstart,?_⟩
  rintro hper ⟨i,m,hm,htip,hps⟩
  obtain ⟨j,hj,rfl⟩ := hsk.moving i m hm htip hps
  obtain ⟨n,hn,hlinks⟩ := hv.same.node hm
  have hnps := (links_ps hlinks).trans hps
  refine ⟨j,n,hj,hn,hnps,?_⟩
  rw [hcur _ n hn hnps,nodeNsequence_links hlinks,tip_sequence hsk hm htip hps hj rfl hv.same,
    if_pos hper]

variable (hfit : DelaysFit g.stepBlocks g.statesPerLayer)

include hfit

theorem DwMove.ticked (ht : Ticked env g f)
    {side : Option ℕ} (hmove : DwMove env f side f') : Ticked env g f' := by
  obtain ⟨hv,hc⟩ := hmove.version hsk hfit ht.version ht.clocked
  cases hmove with
  | odometer _ kept clocks =>
    refine ticked_of_current hsk hv hc ((ht.version.kept hsk kept).rebuild hsk).2 ?_
    intro hper
    exact ht.started ((clocks_perLeaf clocks).symm.trans hper)
  | @leaf h l n _ _ bound node moving _ kept clocks =>
    have hsame := ht.version.same.trans kept.toSameTree
    have hch : Clocked g h := ⟨hc.layers,hc.leafLayers,hc.count⟩
    have hper := clocks_perLeaf clocks
    refine ⟨hv,hc,?_,?_,?_⟩
    · intro i n' hn' hps
      obtain ⟨x,hx,⟨rfl,rfl⟩ | ⟨-,rfl⟩⟩ := Version.rebuildNode_get hn'
      · exact ⟨h,hsame,hch,rfl⟩
      · exact ht.stamped i n' (kept.dw_node hx hps) hps
    · intro hnot
      cases hper.symm.trans hnot
    · intro _ _
      have hbound : l < g.nLeafNodes := ht.version.same.nLeafNodes ▸ bound
      obtain ⟨m,hm,htip⟩ := hsk.tips hbound
      have hn := kept.dw _ n node moving
      rw [ht.version.same.leafNode] at hn
      have hlinks := hsame.links_eq hm hn
      refine ⟨l,rebuiltNode env h (g.leafNode l) n,hbound,?_,moving,?_⟩
      · rw [ht.version.same.leafNode,NodeAt,rebuildNodeTx,modifyNode_get,
          show h.nodes[g.leafNode l]? = some n from hn,map_some,if_pos rfl]
      · change nodeNsequence env h (g.leafNode l) n = dwCurrentNsequence (h.leafLayer l)
        rw [nodeNsequence_links hlinks,tip_sequence hsk hm htip
          ((links_ps hlinks).symm.trans moving) hbound rfl hsame,if_pos hper]
  | carry _ _ _ _ _ _ kept clocks =>
    refine ticked_of_current hsk hv hc ((ht.version.kept hsk kept).rebuild hsk).2 ?_
    intro hper
    cases (clocks_perLeaf clocks).symm.trans hper
  | root _ kept clocks =>
    refine ticked_of_current hsk hv hc ((ht.version.kept hsk kept).rebuild hsk).2 ?_
    intro hper
    exact ht.started ((clocks_perLeaf clocks).symm.trans hper)
  | chain kept clocks =>
    refine ⟨hv,hc,fun i n hn hps => ht.stamped i n (kept.dw_node hn hps) hps,?_,?_⟩
    · intro hper
      exact ht.started ((clocks_perLeaf clocks).symm.trans hper)
    · intro hper hdw
      obtain ⟨j,n,hj,hn,hps,hseq⟩ := ht.leaf ((clocks_perLeaf clocks).symm.trans hper) hdw
      refine ⟨j,n,hj,kept.dw _ n hn hps,hps,?_⟩
      rw [hseq,kept.leafLayer (clocks_leafLayers clocks)]

theorem TickMove.ticked (ht : Ticked env g f)
    {code : Int} (hmove : TickMove env f f' code) : Ticked env g f' := by
  cases hmove with
  | @count ctr turn =>
    have hkept : Kept f { f with counter := ctr } := .of_nodes rfl rfl
    exact ⟨ht.version.kept hsk hkept,⟨ht.clocked.rootTurn hfit turn,ht.clocked.leafLayers,
      ht.clocked.count⟩,ht.stamped,ht.started,ht.leaf⟩
  | @roll _ _ _ kept reset clocks =>
    obtain ⟨hv,hcur⟩ := (ht.version.kept hsk kept).rebuild hsk
    refine ticked_of_current hsk hv (.of_clocks clocks ?_ ht.clocked.leafLayers ht.clocked.count)
      hcur ?_
    · intro layer hmem
      rw [reset] at hmem
      obtain ⟨old,hold,rfl⟩ := mem_map.mp hmem
      exact (ht.clocked.layers old hold).reset
    · intro hper
      exact ht.started ((clocks_perLeaf clocks).symm.trans hper)

theorem ticked_step (ht : Ticked env g f)
    (hstep : FactoryStep env TickOp f f') : Ticked env g f' := by
  obtain ⟨op,code,hop,hrun,hcode⟩ := hstep
  have hset := ht.version.settled hsk
  rcases hop with hop | rfl
  · exact (advance_move hset hop hrun hcode).ticked hsk hfit ht
  · exact (factoryTickRoot_move hset hrun).ticked hsk hfit ht

theorem ticked_trace (hg : Ticked env g g)
    {past : List Factory} (htrace : FactoryTrace env TickOp g past f) :
    Ticked env g f ∧ g ∈ past ∧ f ∈ past := by
  induction htrace with
  | built => exact ⟨hg,by simp,by simp⟩
  | step _ next ih =>
    exact ⟨ticked_step hsk hfit ih.1 next,mem_cons_of_mem _ ih.2.1,mem_cons_self⟩

end

def InnerState (n : FactoryNode) : Prop :=
  n.type = .state ∧ n.isPsLeaf = false ∧ n.childIndices ≠ []

def fullDelay (g : Factory) : UInt32 :=
  dwCurrentNsequence (dwLayerInit g.stepBlocks g.statesPerLayer)

section

variable {env : Env} {g x y : Factory} (hsk : Skeleton env g)

include hsk

theorem inner_read {i : ℕ} {n : FactoryNode} {k : Factory} (hx : SameTree g x)
    (hn : x.NodeAt i n) (hinner : InnerState n) (hk : SameTree g k) : ∃ l,
      nodeNsequence env k i n = dwCurrentNsequence (counterLayer env k (some l)) := by
  obtain ⟨m,hm,hlinks⟩ := hx.symm.node hn
  have htype := (links_type hlinks).trans hinner.1
  have hps := (links_ps hlinks).trans hinner.2.1
  have hchildren := links_children hlinks ▸ hinner.2.2
  have hvalue := (inner_sequence hsk hm htype hps hchildren).2 k hk
  rw [nodeNsequence_links hlinks.symm,hvalue]
  cases (hsk.ok i m hm).kind with
  | kickoff type => exact absurd (type.symm.trans htype) (by decide)
  | inner _ _ _ _ _ layer =>
    obtain ⟨l,hl⟩ := ne_none_iff_exists'.mp layer
    exact ⟨l,by rw [hl]⟩
  | leaf _ _ direct => exact absurd (direct hps) hchildren
  | sub type => exact absurd (type.symm.trans htype) (by decide)

theorem inner_le_full (hfit : DelaysFit g.stepBlocks g.statesPerLayer) (hx : SameTree g x)
    (hstamped : Stamped env g x) {i : ℕ} {n : FactoryNode} (hn : x.NodeAt i n)
    (hinner : InnerState n) : n.nsequence ≤ fullDelay g := by
  obtain ⟨k,hk,hc,hseq⟩ := hstamped i n hn hinner.2.1
  obtain ⟨l,hl⟩ := inner_read hsk hx hn hinner hk
  rw [hseq,hl]
  exact nsequence_antitone hfit DwLayer.of_init (hc.counterLayer hk l) (Nat.zero_le _)

theorem above_children {a i : ℕ} (ha : g.Above a i) : ∃ m, g.NodeAt a m ∧ m.childIndices ≠ [] := by
  have hparent : ∀ p j, g.IsParent p j → ∃ m, g.NodeAt p m ∧ m.childIndices ≠ [] := by
    rintro p j ⟨n,hn,hp⟩
    obtain ⟨parent,hparent,-,hne,-⟩ := hsk.parent_below (.refl g) hn hp
    exact ⟨parent,hparent,hne⟩
  induction ha with
  | single hp => exact hparent _ _ hp
  | tail _ _ ih => exact ih

theorem equal_above (hx : SameTree g x) (hy : SameTree g y) (hsx : Stamped env g x)
    (hsy : Stamped env g y) {i : ℕ}
    (hinner : ∀ a m m', g.Above a i → x.NodeAt a m → y.NodeAt a m' → InnerState m →
      m'.nsequence = m.nsequence) :
    ∀ a m m', g.Above a i → x.NodeAt a m → y.NodeAt a m' → m.isPsLeaf = false →
      m'.nsequence = m.nsequence := by
  intro a m m' ha hm hm' hps
  obtain ⟨c,hc,hlinks⟩ := hx.symm.node hm
  have hlinks' := hy.links_eq hc hm'
  obtain ⟨c',hc',hchildren⟩ := above_children hsk ha
  obtain rfl := mem_unique hc hc'
  have hcps := (links_ps hlinks).trans hps
  cases (hsk.ok a c hc).kind with
  | kickoff type =>
    obtain ⟨k,-,-,hseq⟩ := hsx a m hm hps
    obtain ⟨k',-,-,hseq'⟩ := hsy a m' hm' ((links_ps hlinks').trans hcps)
    rw [hseq,hseq',nodeNsequence_links hlinks',nodeNsequence_links hlinks.symm,nodeNsequence,
      nodeNsequence,if_pos type,if_pos type]
  | inner type _ _ _ children =>
    exact hinner a m m' ha hm hm' ⟨(links_type hlinks).symm.trans type,hps,
      links_children hlinks ▸ children⟩
  | leaf _ _ direct => exact absurd (direct hcps) hchildren
  | sub _ ps => exact absurd (ps.symm.trans hcps) (by decide)

theorem spendsSame_dw (hx : Version env g x) (hy : Version env g y) {i : ℕ} {n n' : FactoryNode}
    (hn : x.NodeAt i n) (hn' : y.NodeAt i n') (hps : n.isPsLeaf = false)
    (habove : ∀ a m m', g.Above a i → x.NodeAt a m → y.NodeAt a m' → m.isPsLeaf = false →
      m'.nsequence = m.nsequence) : SpendsSame x y i := by
  have hps' := (links_ps ((hx.same.symm.trans hy.same).links_eq hn hn')).trans hps
  rw [SpendsSame,txAt_node hn,txAt_node hn',hx.tx hn hps,hy.tx hn' hps']
  exact congrArg (fun o => [o]) (hx.same_outpoint hsk hy hn hn' (Or.inl hps) habove)

end

section

variable {env : Env} {g x : Factory} (hsk : Skeleton env g)

theorem rootPath_mem {h : Factory} {fuel l s : ℕ} (hs : s ∈ rootPath h.nodes fuel l) :
    s = l ∨ h.Above s l := by
  induction fuel generalizing l with
  | zero => simp [rootPath] at hs
  | succ _ ih =>
    rw [rootPath] at hs
    split at hs
    · exact Or.inl (by simpa using hs)
    next p hp =>
      obtain ⟨n,hn,hparent⟩ := bind_eq_some_iff.mp hp
      rcases mem_append.mp hs with hs | hs
      · rcases ih hs with rfl | habove
        · exact Or.inr (.single ⟨n,hn,hparent⟩)
        · exact Or.inr (.tail habove ⟨n,hn,hparent⟩)
      · exact Or.inl (by simpa using hs)

include hsk

theorem below_ps {a i : ℕ} (ha : g.Above a i) {m n : FactoryNode} (hm : g.NodeAt a m)
    (hps : m.isPsLeaf = true) (hn : g.NodeAt i n) : n.type = .psSubfactory := by
  induction ha generalizing n with
  | single hp =>
    obtain ⟨n',hn',hp⟩ := hp
    obtain rfl := mem_unique hn hn'
    obtain ⟨parent,hparent,-,-,-,hbelow⟩ := hsk.up _ n _ hn hp
    obtain rfl := mem_unique hm hparent
    exact (hbelow hps).2
  | tail _ hp ih =>
    obtain ⟨n',hn',hp⟩ := hp
    obtain ⟨parent,hparent,-,hchild,-⟩ := hsk.up _ n' _ hn' hp
    have htype := ih hparent
    cases (hsk.ok _ parent hparent).kind with
    | kickoff type => exact absurd (type.symm.trans htype) (by decide)
    | inner type => exact absurd (type.symm.trans htype) (by decide)
    | leaf tip => exact absurd (tip.1.symm.trans htype) (by decide)
    | sub _ _ _ _ children =>
      rw [children] at hchild
      cases hchild

theorem statePath_inner (hx : SameTree g x) {l s : ℕ} (hl : l ∈ g.leafNodeIndices)
    (hs : s ∈ x.statePath l) : s = l ∨ ∃ n, x.NodeAt s n ∧ InnerState n := by
  obtain ⟨hpath,hstate⟩ := mem_filter.mp hs
  rcases rootPath_mem hpath with rfl | habove
  · exact Or.inl rfl
  right
  obtain ⟨n,hn,htype⟩ := (any_eq_true _ _).mp hstate
  have habove' := hx.symm.above habove
  obtain ⟨m,hm,hlinks⟩ := hx.symm.node hn
  obtain ⟨m',hm',hchildren⟩ := above_children hsk habove'
  obtain rfl := mem_unique hm hm'
  obtain ⟨tip,htip,hstate,-⟩ := hsk.leafNodes l hl
  refine ⟨n,hn,of_decide_eq_true htype,?_,links_children hlinks ▸ hchildren⟩
  rw [← links_ps hlinks,← Bool.not_eq_true]
  intro hps
  exact absurd ((below_ps hsk habove' hm hps htip).symm.trans hstate) (by decide)

end

structure Zeroed (env : Env) (g x : Factory) : Prop where
  version : Version env g x
  clocked : Clocked g x
  start : ∀ layer ∈ x.counter.layers, layer.currentState = 0
  built : ∀ i n, x.NodeAt i n → n = finishNodeTx env n n.nsequence [nodeInput x n]
  current : ∀ i n, x.NodeAt i n → n.nsequence = nodeNsequence env x i n

section

variable {env : Env} {g x y : Factory} (hsk : Skeleton env g)

theorem Zeroed.stamped (hx : Zeroed env g x) : Stamped env g x :=
  fun i n hn _ => ⟨x,hx.version.same,hx.clocked,hx.current i n hn⟩

theorem Zeroed.sequenceAt (hx : Zeroed env g x) {i : ℕ} {n : FactoryNode} (hn : x.NodeAt i n) :
    x.sequenceAt i = n.nsequence := by
  have htx := congrArg FactoryNode.unsignedTx (hx.built i n hn)
  rw [Factory.sequenceAt,txAt_node hn,htx]
  rfl

theorem Zeroed.counter (hx : Zeroed env g x) (l : ℕ) :
    dwCurrentNsequence (counterLayer env x (some l)) = fullDelay g := by
  refine nsequence_start (hx.clocked.counterLayer hx.version.same l) ?_
  rw [counterLayer,getD_eq_getElem?_getD]
  cases hget : x.counter.layers[l]? with
  | none => rfl
  | some layer => exact hx.start layer (mem_of_getElem? hget)

include hsk

theorem Zeroed.inner (hx : Zeroed env g x) {i : ℕ} {n : FactoryNode} (hn : x.NodeAt i n)
    (hinner : InnerState n) : n.nsequence = fullDelay g := by
  obtain ⟨l,hl⟩ := inner_read hsk hx.version.same hn hinner hx.version.same
  rw [hx.current i n hn,hl,hx.counter]

theorem Zeroed.spendsSame (hx : Zeroed env g x) (hy : Zeroed env g y) {l : ℕ}
    (hl : l ∈ g.leafNodeIndices) : SpendsSame x y l := by
  obtain ⟨m,hm,htip⟩ := hsk.leafNodes l hl
  obtain ⟨n,hn,hlinks⟩ := hx.version.same.node hm
  obtain ⟨n',hn',hlinks'⟩ := hy.version.same.node hm
  have hout := hx.version.same_outpoint hsk hy.version hn hn'
    (Or.inr (by rw [links_type hlinks,htip.1]; decide))
    (equal_above hsk hx.version.same hy.version.same hx.stamped hy.stamped (by
      intro a c c' _ hc hc' hinner
      have hclinks := (hx.version.same.symm.trans hy.version.same).links_eq hc hc'
      rw [hx.inner hsk hc hinner,hy.inner hsk hc' ⟨(links_type hclinks).trans hinner.1,
        (links_ps hclinks).trans hinner.2.1,(links_children hclinks).symm ▸ hinner.2.2⟩]))
  have htx := congrArg FactoryNode.unsignedTx (hx.built l n hn)
  have htx' := congrArg FactoryNode.unsignedTx (hy.built l n' hn')
  rw [SpendsSame,txAt_node hn,txAt_node hn',htx,htx']
  exact congrArg (fun o => [o]) hout

end

section

variable {env : Env} {g f new : Factory} (hsk : Skeleton env g)
  (hfit : DelaysFit g.stepBlocks g.statesPerLayer) (hf : Ticked env g f)
  (hnew : Zeroed env g new)

include hsk hf hnew

theorem inner_new {i : ℕ} {n n' : FactoryNode} (hn : f.NodeAt i n) (hn' : new.NodeAt i n')
    (hinner : InnerState n) : n'.nsequence = fullDelay g := by
  have hlinks := (hf.version.same.symm.trans hnew.version.same).links_eq hn hn'
  exact hnew.inner hsk hn' ⟨(links_type hlinks).trans hinner.1,
    (links_ps hlinks).trans hinner.2.1,(links_children hlinks).symm ▸ hinner.2.2⟩

theorem spends_current {i : ℕ} {n : FactoryNode} (hn : f.NodeAt i n) (hps : n.isPsLeaf = false)
    (hfull : ∀ a m, g.Above a i → f.NodeAt a m → InnerState m → m.nsequence = fullDelay g) :
    SpendsSame f new i := by
  obtain ⟨n',hn',-⟩ := (hf.version.same.symm.trans hnew.version.same).node hn
  refine spendsSame_dw hsk hf.version hnew.version hn hn' hps ?_
  refine equal_above hsk hf.version.same hnew.version.same hf.stamped hnew.stamped ?_
  intro a m m' ha hm hm' hinner
  rw [hfull a m ha hm hinner,inner_new hsk hf hnew hm hm' hinner]

include hfit

theorem all_full {past : List Factory} (hfm : f ∈ past) (hord : TickOrdered past new) :
    ∀ i n, f.NodeAt i n → InnerState n → n.nsequence = fullDelay g := by
  intro i
  induction i using Nat.strong_induction_on with
  | h i ih =>
    intro n hn hinner
    have hfull : ∀ a m, g.Above a i → f.NodeAt a m → InnerState m → m.nsequence = fullDelay g :=
      fun a m ha => ih a (hsk.above_lt ha) m
    obtain ⟨n',hn',hlinks⟩ := (hf.version.same.symm.trans hnew.version.same).node hn
    have hle := hord.noLarger i n' hn' ((links_type hlinks).trans hinner.1) f hfm
      (spends_current hsk hf hnew hn hinner.2.1 hfull)
    rw [hnew.sequenceAt hn',inner_new hsk hf hnew hn hn' hinner,
      hf.version.sequenceAt hn hinner.2.1] at hle
    exact UInt32.le_antisymm (inner_le_full hsk hfit hf.version.same hf.stamped hn hinner) hle

theorem roll_not_ordered (hg : Zeroed env g g) (hper : new.perLeafEnabled = f.perLeafEnabled)
    (hlayers : ∀ j, new.leafLayer j = f.leafLayer j) {past : List Factory} (hgm : g ∈ past)
    (hfm : f ∈ past) : ¬ TickOrdered past new := by
  intro hord
  have hfull := all_full hsk hfit hf hnew hfm hord
  have hsame := hf.version.same.symm.trans hnew.version.same
  have hleaves := (congrArg leafNodeIndices hnew.version.same.base :)
  -- On a path only the leaf can be strictly smaller: the inner nodes are where they were.
  have hleaf : ∀ l ∈ g.leafNodeIndices, ∀ old ∈ past, SpendsSame old new l →
      new.sequenceAt l < old.sequenceAt l := by
    intro l hl
    obtain ⟨s,hs,hsmaller⟩ := hord.smaller l (hleaves ▸ hl)
    rcases statePath_inner hsk hnew.version.same hl hs with rfl | ⟨n',hn',hinner⟩
    · exact hsmaller
    · exfalso
      obtain ⟨n,hn,hlinks⟩ := hsame.symm.node hn'
      have hinner' : InnerState n := ⟨(links_type hlinks).trans hinner.1,
        (links_ps hlinks).trans hinner.2.1,(links_children hlinks).symm ▸ hinner.2.2⟩
      have hlt := hsmaller f hfm (spends_current hsk hf hnew hn hinner'.2.1
        (fun a m _ hm => hfull a m hm))
      rw [hnew.sequenceAt hn',hnew.inner hsk hn' hinner,
        hf.version.sequenceAt hn hinner'.2.1,hfull s n hn hinner'] at hlt
      exact UInt32.lt_irrefl _ hlt
  by_cases hdw : f.perLeafEnabled = true ∧ ∃ i m, g.NodeAt i m ∧ IsTip m ∧ m.isPsLeaf = false
  · obtain ⟨j,n,hj,hn,hps,hseq⟩ := hf.leaf hdw.1 hdw.2
    obtain ⟨n',hn',hlinks⟩ := hsame.node hn
    have hlt := hleaf _ (hsk.listed j hj) f hfm
      (spends_current hsk hf hnew hn hps (fun a m _ hm => hfull a m hm))
    obtain ⟨m,hm,htip⟩ := hsk.tips hj
    have hmlinks := hnew.version.same.links_eq hm hn'
    rw [hnew.sequenceAt hn',hf.version.sequenceAt hn hps,hnew.current _ n' hn',
      nodeNsequence_links hmlinks,tip_sequence hsk hm htip
        ((links_ps hmlinks).symm.trans ((links_ps hlinks).trans hps)) hj rfl hnew.version.same,
      if_pos (hper.trans hdw.1),hlayers,hseq] at hlt
    exact UInt32.lt_irrefl _ hlt
  · obtain ⟨l,rest,hcons⟩ := exists_cons_of_ne_nil hsk.nonEmpty
    have hl : l ∈ g.leafNodeIndices := by simp [hcons]
    have hlt := hleaf l hl g hgm (hg.spendsSame hsk hnew hl)
    obtain ⟨m,hm,htip⟩ := hsk.leafNodes l hl
    obtain ⟨n',hn',hlinks⟩ := hnew.version.same.node hm
    have hvalue : nodeNsequence env new l m = nodeNsequence env g l m := by
      cases hps : m.isPsLeaf with
      | true => simp only [nodeNsequence,hps,if_true]
      | false =>
        have hoff : f.perLeafEnabled = false := by
          by_contra hon
          exact hdw ⟨Bool.eq_true_of_not_eq_false hon,l,m,hm,htip,hps⟩
        obtain ⟨j,hj,hi⟩ := hsk.moving l m hm htip hps
        rw [tip_sequence hsk hm htip hps hj hi hnew.version.same,
          tip_sequence hsk hm htip hps hj hi hg.version.same,hper,hoff,hf.started hoff]
        change dwCurrentNsequence (counterLayer env new m.dwLayerIndex) =
          dwCurrentNsequence (counterLayer env g m.dwLayerIndex)
        cases m.dwLayerIndex with
        | none => rfl
        | some => rw [hnew.counter,hg.counter]
    rw [hnew.sequenceAt hn',hg.sequenceAt hm,hnew.current _ n' hn',hg.current _ m hm,
      nodeNsequence_links hlinks,hvalue] at hlt
    exact UInt32.lt_irrefl _ hlt

end

section

variable {env : Env} {f g h : Factory} (hsk : Skeleton env g)

include hsk

theorem zeroed_build {b : Block} (hb : BuiltFrom env f g b) : Zeroed env g g := by
  obtain ⟨hv,hcur,hc⟩ := reached_build hsk hb
  refine ⟨hv,hc,?_,?_,?_⟩
  · obtain rfl := hb.result
    intro layer hmem
    rw [show layer = dwLayerInit f.stepBlocks f.statesPerLayer from eq_of_mem_replicate hmem]
    rfl
  · obtain rfl := hb.result
    intro i n hn
    exact (Version.rebuilt_current hsk (Version.sameTree_rebuild env _).symm hn).1
  · obtain rfl := hb.result
    intro i n hn
    exact (Version.rebuilt_current hsk (Version.sameTree_rebuild env _).symm hn).2

theorem zeroed_roll (ht : Ticked env g (buildAllUnsignedTxs env h)) (hsame : SameTree g h)
    (hreset : h.counter.layers = f.counter.layers.map DwLayer.reset) :
    Zeroed env g (buildAllUnsignedTxs env h) := by
  refine ⟨ht.version,ht.clocked,?_,?_,?_⟩
  · intro layer hmem
    change layer ∈ h.counter.layers at hmem
    rw [hreset] at hmem
    obtain ⟨old,-,rfl⟩ := mem_map.mp hmem
    rfl
  · intro i n hn
    exact (Version.rebuilt_current hsk hsame hn).1
  · intro i n hn
    exact (Version.rebuilt_current hsk hsame hn).2

end

theorem tick_ordered_iff (env : Env) (f g h new : Factory) (past : List Factory) (code : Int)
    (hconf : ArityConfigured f) (hfit : DelaysFit f.stepBlocks f.statesPerLayer)
    (hbuild : factoryBuildTree env f = some g) (htrace : FactoryTrace env TickOp g past h)
    (htick : factoryTickRoot env h = (new,code)) :
    (code = -1 → TickOrdered past new) ↔ h.rootExhausted = false := by
  obtain ⟨b,hb⟩ := factoryBuildTree_spec hbuild
  have hsk := hb.skeleton hconf
  have hfit' : DelaysFit g.stepBlocks g.statesPerLayer := by
    rw [hb.result]
    exact hfit
  have hzero := zeroed_build hsk hb
  obtain ⟨ht,hg,hh⟩ := ticked_trace hsk hfit' (ticked_of_current hsk hzero.version hzero.clocked
    (fun i n hn _ => hzero.current i n hn) id) htrace
  have hmove := factoryTickRoot_move (ht.version.settled hsk) htick
  have ht' := hmove.ticked hsk hfit' ht
  cases hmove with
  | count turn =>
    obtain ⟨layer,layer',inner,hlayers,hturn,-⟩ := turn
    refine ⟨fun _ => ?_,fun _ hcode => absurd hcode (by decide)⟩
    rw [rootExhausted,hlayers]
    exact dwAdvance_some hturn
  | @roll k ctr full kept reset clocks =>
    have hctr := clocks_counter clocks
    have hnew := zeroed_roll hsk ht' (ht.version.same.trans kept.toSameTree) (hctr ▸ reset)
    have hnot := roll_not_ordered hsk hfit' ht hnew hzero (clocks_perLeaf clocks)
      (kept.leafLayer (clocks_leafLayers clocks)) hg hh
    refine ⟨fun hord => absurd (hord rfl) hnot,fun hroot => ?_⟩
    rw [advanceRoot_none full] at hroot
    cases hroot

theorem tick_ordered_four_clients : ∃ g past h new code,
    factoryBuildTree Env.sample (sample 4 2 1) = some g ∧
    FactoryTrace Env.sample TickOp g past h ∧ factoryTickRoot Env.sample h = (new,code) ∧
    h.rootExhausted = false ∧ (code = -1 → TickOrdered past new) := by
  obtain ⟨⟨g,past,h⟩,hr,hroot⟩ : ∃ r, playFrom Env.sample TickOp (sample 4 2 1)
      [.advance true,.tickRoot,.advanceLeafUnsigned 0] = some r ∧
        r.2.2.rootExhausted = false := by
    decide +kernel
  obtain ⟨hg,htrace⟩ := playFrom_trace hr
  refine ⟨g,past,h,_,_,hg,htrace,rfl,hroot,?_⟩
  refine (tick_ordered_iff Env.sample (sample 4 2 1) g h _ past _ ?_ ?_ hg htrace rfl).mpr
    hroot
  · exact ⟨fun _ => Or.inr (Or.inl rfl),by simp [sample]⟩
  · decide

theorem tick_raises_sequence : ∃ g past h new,
    factoryBuildTree Env.sample (sample 4 2 1) = some g ∧
    FactoryTrace Env.sample TickOp g past h ∧ factoryTickRoot Env.sample h = (new,-1) ∧
    ¬ TickOrdered past new := by
  obtain ⟨⟨g,past,h⟩,hr,hcode,⟨n,hn,htype⟩,hspends,hlt⟩ : ∃ r, playFrom Env.sample TickOp
      (sample 4 2 1) [.advance true,.advance true,.advance true,.advance true,.tickRoot,
        .tickRoot] = some r ∧ (factoryTickRoot Env.sample r.2.2).2 = -1 ∧
      (∃ n, (factoryTickRoot Env.sample r.2.2).1.nodes[1]? = some n ∧ n.type = .state) ∧
      ((factoryTickRoot Env.sample r.2.2).1.txAt 1).inputs.map TxIn.prevout =
        (r.2.2.txAt 1).inputs.map TxIn.prevout ∧
      r.2.2.sequenceAt 1 < (factoryTickRoot Env.sample r.2.2).1.sequenceAt 1 := by
    decide +kernel
  obtain ⟨hg,htrace⟩ := playFrom_trace hr
  refine ⟨g,past,h,(factoryTickRoot Env.sample h).1,hg,htrace,Prod.ext rfl hcode,?_⟩
  intro hord
  have hle := hord.noLarger 1 n hn htype h htrace.last_mem hspends
  exact UInt32.not_le.mpr hlt hle

end SuperScalar
