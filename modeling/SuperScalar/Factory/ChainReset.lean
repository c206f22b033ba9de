import SuperScalar.Factory.Binding
import SuperScalar.Foundation.Runs

namespace SuperScalar

open Bitcoin Factory

section

def FactoryOp.movesChain : FactoryOp → Bool
  | .subfactoryChainAdvance _ _ _ _ => true
  | .setSubfactoryChainConfirmedHeight _ _ => true
  | _ => false

def FactoryOp.resetsChains : FactoryOp → Bool
  | .resetAllSubfactoryChains => true
  | .resetSubfactoryChainsAboveHeight _ => true
  | _ => false

def chainStep (env : Env) (f : Factory) (op : FactoryOp) : Factory := (op.run env f).1

def BackToStart (start n : FactoryNode) : Prop :=
  n.outputs = start.outputs ∧ n.unsignedTx = start.unsignedTx ∧ n.txid = start.txid

def RestoresChains (env : Env) (g h : Factory) (op : FactoryOp) : Prop :=
  ∀ i start n, g.NodeAt i start → h.NodeAt i n → op.resets n = true →
    ∃ n', (op.run env h).1.NodeAt i n' ∧ BackToStart start n'

structure ChainState (g h : Factory) : Prop where
  length : h.nodes.length = g.nodes.length
  spends : ∀ i n, h.NodeAt i n → n.type = .psSubfactory → n.psChainLen ≠ 0 →
    2 ≤ n.unsignedTx.inputs.length

variable {env : Env} {f g h : Factory} {op : FactoryOp}

theorem rebuilt_inputs {k : Factory} {i : ℕ} {n : FactoryNode} (htype : n.type = .psSubfactory)
    (hps : n.isPsLeaf = true) (hlen : n.psChainLen > 0) (hprev : n.psNPrevOutputs > 1) :
    (rebuiltNode env k i n).unsignedTx.inputs.length = n.psNPrevOutputs := by
  simp [rebuiltNode,finishNodeTx,unsignedTx,chainInputs,htype,hps,hlen,hprev]

theorem ChainState.modify {i : ℕ} {change : FactoryNode → FactoryNode} (hs : ChainState g f)
    (hnodes : h.nodes = f.nodes.modify i change)
    (hnew : ∀ n, f.NodeAt i n → (change n).type = .psSubfactory → (change n).psChainLen ≠ 0 →
      2 ≤ (change n).unsignedTx.inputs.length) : ChainState g h := by
  refine ⟨by rw [hnodes,List.length_modify,hs.length],fun j n hn htype hlen => ?_⟩
  rw [NodeAt,hnodes,List.getElem?_modify] at hn
  obtain ⟨m,hm,rfl⟩ := Option.map_eq_some_iff.mp hn
  by_cases hj : i = j
  · subst hj
    rw [if_pos rfl] at htype hlen ⊢
    exact hnew m hm htype hlen
  · rw [if_neg hj] at htype hlen ⊢
    exact hs.spends j m hm htype hlen

theorem ChainState.step (hs : ChainState g f) (hop : op.movesChain = true) :
    ChainState g (chainStep env f op) := by
  cases op with
  | subfactoryChainAdvance leafSide subIdx channelIdx delta =>
    rw [chainStep,FactoryOp.run]
    cases hrun : factorySubfactoryChainAdvanceUnsigned env f leafSide subIdx channelIdx delta with
    | mk f' code =>
      obtain ⟨rfl,-⟩ | ⟨i,sub,hsub,htype,hps,hlength,-,-,-,rfl⟩ :=
        subfactoryChainAdvance_cases hrun
      · exact hs
      · refine hs.modify (List.modify_modify_eq _ _ _ _) fun n hn _ _ => ?_
        obtain rfl := Option.mem_unique hsub hn
        exact hlength.trans_eq (rebuilt_inputs (n := subChainStep f sub channelIdx delta _) htype hps
          (Nat.succ_pos _) hlength).symm
  | setSubfactoryChainConfirmedHeight nodeIdx height =>
    refine hs.modify rfl fun n hn htype hlen => ?_
    split_ifs at htype hlen ⊢ <;> exact hs.spends nodeIdx n hn htype hlen
  | _ => cases hop

theorem reset_at {i : ℕ} {n : FactoryNode} {keep : FactoryNode → Bool} (hn : h.NodeAt i n)
    (hreset : n.type = .psSubfactory ∧ n.psChainLen ≠ 0 ∧ keep n = false) :
    (resetSubfactoryChains h keep).NodeAt i (resetSubfactoryChain n) := by
  rw [NodeAt,resetSubfactoryChains,List.getElem?_map,hn,Option.map_some,if_pos hreset]

theorem resetsChains_at {i : ℕ} {n : FactoryNode} (hop : op.resetsChains = true)
    (hn : h.NodeAt i n) (hreset : op.resets n = true) :
    (op.run env h).1.NodeAt i (resetSubfactoryChain n) ∧ n.type = .psSubfactory ∧
      n.psChainLen ≠ 0 := by
  cases op with
  | resetAllSubfactoryChains =>
    obtain ⟨htype,hlen⟩ := of_decide_eq_true hreset
    exact ⟨reset_at hn ⟨htype,hlen,rfl⟩,htype,hlen⟩
  | resetSubfactoryChainsAboveHeight height =>
    obtain ⟨htype,hlen,hkeep⟩ := of_decide_eq_true hreset
    exact ⟨reset_at hn ⟨htype,hlen,hkeep⟩,htype,hlen⟩
  | _ => cases hop

def ladderSale : FactoryOp := .subfactoryChainAdvance 0 0 0 1000

theorem StepOutcome.sameTree {k : Factory} {code : Int} (h : StepOutcome env f op k code) :
    SameTree f k := by
  cases h with
  | still h => exact h.sameTree
  | rebuilt _ hk => exact hk.sameTree.trans (Version.sameTree_rebuild env _)
  | single hn hbase hnodes hm =>
    refine single_sameTree hn hbase hnodes env ?_
    cases hm with
    | restock _ _ hcoins => exact hcoins.links
    | _ => rfl
  | halted _ hn => exact .modified fun _ hm => by rw [Option.mem_unique hm hn]; rfl

theorem calls_keep_tree (env : Env) (f g h : Factory) (hconf : ArityConfigured f)
    (hbuild : factoryBuildTree env f = some g)
    (hrun : Runs.Reaches (chainStep env) (fun _ _ => True) g h) : SameTree g h := by
  obtain ⟨b,hb⟩ := factoryBuildTree_spec hbuild
  exact hrun.invariant (fun _ _ hs _ =>
    hs.trans (step_outcome (hb.skeleton hconf) hs rfl).sameTree) (.refl g)

theorem sale_keeps_tree : ∃ g, factoryBuildTree Env.sample ladder = some g ∧
    (ladderSale.run Env.sample g).2 = 1 ∧ SameTree g (chainStep Env.sample g ladderSale) := by
  obtain ⟨g,hg,hcode⟩ : ∃ g, factoryBuildTree Env.sample ladder = some g ∧
      (ladderSale.run Env.sample g).2 = 1 := by
    decide +kernel
  exact ⟨g,hg,hcode,calls_keep_tree Env.sample ladder g _ ⟨fun _ => .inr (.inr rfl),nofun⟩ hg
    (.single ⟨ladderSale,trivial,rfl⟩)⟩

end

end SuperScalar
