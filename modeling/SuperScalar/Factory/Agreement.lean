import SuperScalar.Factory.Propose

namespace SuperScalar

open Bitcoin Offset List Option UInt32 Factory ParticipantProfile

theorem take_map_ofNat_levelsOf (levels : List UInt8) :
    ((levelsOf levels).map UInt8.ofNat).take factoryMaxLevels = levels.take factoryMaxLevels := by
  have hbytes : (fun b : UInt8 => UInt8.ofNat b.toNat) = id := funext fun b => UInt8.ofNat_toNat
  rw [levelsOf,List.map_map]
  change ((levels.take factoryMaxLevels).map (fun b : UInt8 => UInt8.ofNat b.toNat)).take _ = _
  rw [hbytes,List.map_id,List.take_take,Nat.min_self]

theorem levelsOf_take (levels : List UInt8) :
    levelsOf (levels.take factoryMaxLevels) = levelsOf levels := by
  simp only [levelsOf,take_take,Nat.min_self]

theorem arityOf_take (levels : List UInt8) (leafArity : ℕ) :
    arityOf (levels.take factoryMaxLevels) (arityOf levels leafArity) = arityOf levels leafArity := by
  cases levels with
  | nil =>
    have hcases : arityOf [] leafArity = factoryArity1 ∨ arityOf [] leafArity = factoryArityPs ∨
        arityOf [] leafArity = factoryArity2 := by
      rw [arityOf,if_neg (not_not.mpr rfl)]
      split_ifs
      · exact .inl rfl
      · exact .inr (.inl rfl)
      · exact .inr (.inr rfl)
    rcases hcases with h | h | h
    · rw [h]
      rfl
    · rw [h]
      rfl
    · rw [h]
      rfl
  | cons level levels =>
    have hne : (level :: levels).take factoryMaxLevels ≠ [] := cons_ne_nil _ _
    simp only [arityOf,if_pos hne,levelsOf_take,if_pos (cons_ne_nil _ _)]

theorem subfactoryArityOf_le (k : UInt32) : subfactoryArityOf k ≤ 15 := by
  rw [subfactoryArityOf,cappedSubfactoryArity]
  split_ifs
  · exact Nat.min_le_right _ _
  · decide

theorem subfactoryArityOf_pos (k : UInt32) : 1 ≤ subfactoryArityOf k := by
  rw [subfactoryArityOf,cappedSubfactoryArity]
  split_ifs
  · omega
  · decide

theorem subfactoryArityOf_sent {n : ℕ} (hpos : 1 ≤ n) (hle : n ≤ 15) :
    subfactoryArityOf (if n > 1 then ofNat n else 0) = n := by
  have hn : (ofNat n).toNat = n := toNat_ofNat_of_lt' (by
    rw [size]
    omega)
  by_cases hone : n > 1
  · have hgt : ofNat n > 1 := lt_iff_toNat_lt.mpr (by rw [hn]; exact hone)
    rw [if_pos hone,subfactoryArityOf,if_pos hgt,cappedSubfactoryArity,hn]
    omega
  · rw [if_neg hone]
    exact (Nat.le_antisymm (Nat.not_lt.mp hone) hpos).symm

section

def Env.SortsMembers (env : Env) : Prop :=
  ∀ (cmp cmp' : ℕ → ℕ → Int) (xs : List ℕ), (∀ a ∈ xs, ∀ b ∈ xs, cmp a b = cmp' a b) →
    env.qsort cmp xs = env.qsort cmp' xs

theorem orderedInsert_congr {r s : ℕ → ℕ → Prop} [DecidableRel r] [DecidableRel s] {a : ℕ}
    {xs : List ℕ} (h : ∀ b ∈ xs, r a b ↔ s a b) : xs.orderedInsert r a = xs.orderedInsert s a := by
  induction xs with
  | nil => rfl
  | cons b _ ih =>
    simp only [orderedInsert_cons,ih fun c hc => h c (mem_cons_of_mem b hc)]
    exact if_congr (h b mem_cons_self) rfl rfl

theorem Env.sample_sortsMembers : Env.sample.SortsMembers := by
  intro cmp cmp' xs h
  induction xs with
  | nil => rfl
  | cons a xs ih =>
    change (Env.sample.qsort cmp xs).orderedInsert (fun a b => cmp a b ≤ 0) a =
      (Env.sample.qsort cmp' xs).orderedInsert (fun a b => cmp' a b ≤ 0) a
    rw [ih fun b hb c hc => h b (mem_cons_of_mem a hb) c (mem_cons_of_mem a hc)]
    refine orderedInsert_congr fun b hb => ?_
    have hmem := (Env.sample.qsort_perm cmp' xs).mem_iff.mp hb
    rw [h a mem_cons_self b (mem_cons_of_mem a hmem)]

variable {env : Env} {f g : Factory}

theorem profile_field {α : Type} (field : ParticipantProfile → α) (f : Factory) (i : ℕ) :
    (f.profiles[i]?.map field).getD (field zeroProfile) = field (f.profile i) := by
  rw [profile,getD_eq_getElem?_getD]
  cases f.profiles[i]? with
  | none => rfl
  | some => rfl

section

variable {a b : ℕ} (ha : f.profile a = g.profile a) (hb : f.profile b = g.profile b)

include ha hb

theorem balanceDesc_congr : balanceDesc f a b = balanceDesc g a b := by
  have hsats (f : Factory) (i : ℕ) := profile_field contributionSats f i
  simp only [zeroProfile] at hsats
  simp only [balanceDesc,hsats,ha,hb]

theorem uptimeAsc_congr : uptimeAsc env f a b = uptimeAsc env g a b := by
  have hsats (f : Factory) (i : ℕ) := profile_field contributionSats f i
  have huptime (f : Factory) (i : ℕ) := profile_field uptimeScore f i
  simp only [zeroProfile] at hsats huptime
  simp only [uptimeAsc,hsats,huptime,ha,hb]

theorem timezoneCluster_congr : timezoneCluster env f a b = timezoneCluster env g a b := by
  have hzone (f : Factory) (i : ℕ) := profile_field timezoneBucket f i
  have huptime (f : Factory) (i : ℕ) := profile_field uptimeScore f i
  simp only [zeroProfile] at hzone huptime
  simp only [timezoneCluster,hzone,huptime,ha,hb]

end

theorem placedClients_congr (henv : env.SortsMembers) (hmode : f.placementMode = g.placementMode)
    {n : ℕ} (hprofile : ∀ i, i ≤ n → f.profile i = g.profile i) :
    placedClients env f n = placedClients env g n := by
  have hmember : ∀ i ∈ (range n).map (· + 1), f.profile i = g.profile i := by
    intro i hi
    obtain ⟨j,hj,rfl⟩ := mem_map.mp hi
    exact hprofile _ (mem_range.mp hj)
  simp only [placedClients,← hmode]
  cases f.placementMode with
  | sequential => rfl
  | inward =>
    rw [henv _ (balanceDesc g) _ fun a ha b hb => balanceDesc_congr (hmember a ha) (hmember b hb)]
  | outward =>
    rw [henv _ (uptimeAsc env g) _ fun a ha b hb => uptimeAsc_congr (hmember a ha) (hmember b hb)]
  | timezoneCluster =>
    rw [henv _ (timezoneCluster env g) _ fun a ha b hb =>
      timezoneCluster_congr (hmember a ha) (hmember b hb)]

end

section

structure Representable (saved : LspFactory) (args : CreationArgs) : Prop where
  fee : saved.factory.feePerTx.toNat < 2^53
  funding : args.fundingAmount.toNat < 2^53
  profiles : ∀ p ∈ saved.factory.profiles,
    p.contributionSats.toNat < 2^53 ∧ isFinite p.uptimeScore = true

variable {env : Env} {saved : LspFactory} {participants pubkeys : List Pubkey}
  {args : CreationArgs} {f g v : Factory} {b : Block} {terms : ProposedTerms} {k : UInt32}

theorem Representable.feePerTx (h : Representable saved args) : saved.feePerTx.toNat < 2^53 := by
  rw [LspFactory.feePerTx]
  split_ifs
  · exact h.fee
  · decide

theorem Representable.profile (h : Representable saved args)
    (hf : lspFactory saved participants args = f) (i : ℕ) :
    (f.profile i).contributionSats.toNat < 2^53 ∧ isFinite (f.profile i).uptimeScore = true := by
  rw [Factory.profile,← hf,lspFactory_profiles,getD_eq_getElem?_getD]
  cases hget : saved.factory.profiles[i]? with
  | none => decide
  | some p => exact h.profiles p (mem_of_getElem? hget)

theorem wireProfile_profile {i : ℕ} (hsats : (g.profile i).contributionSats.toNat < 2^53)
    (hfinite : isFinite (g.profile i).uptimeScore = true) :
    (wireProfile g terms i).profile = g.profile i := by
  simp only [wireProfile,ProfileItem.profile,jsonU64_of_lt hsats,jsonFloat,hfinite,if_true]

theorem Received.profile (h : Received g terms pubkeys k v) {i : ℕ} (hi : i < g.nParticipants)
    (hmax : i < factoryMaxSigners) : v.profile i = (wireProfile g terms i).profile := by
  simp only [Factory.profile,h.profiles,getD_eq_getElem?_getD,getElem?_map,
    getElem?_take_of_lt hmax,getElem?_range hi]
  rfl

variable (hf : lspFactory saved participants args = f) (hb : BuiltFrom env f g b)
  (hrep : Representable saved args)

include hf

theorem lsp_plan : f.plan = plannedFactory participants args.stepBlocks args.statesPerLayer
    (levelsOf saved.levels) (arityOf saved.levels saved.factory.leafArity)
    saved.factory.staticThresholdDepth
    (subfactoryArityOf (ofNat saved.factory.psSubfactoryArity)) saved.feePerTx
    args.cltvTimeout f.fundingTxid f.fundingVout f.fundingAmountSats := by
  rw [← hf]
  exact lspFactory_plan saved participants args

theorem lsp_subfactories :
    f.psSubfactoryArity = subfactoryArityOf (ofNat saved.factory.psSubfactoryArity) :=
  (congrArg psSubfactoryArity (lsp_plan hf) :)

theorem lsp_participants : f.nParticipants = participants.length :=
  (congrArg nParticipants (lsp_plan hf) :)

include hb

theorem BuiltFrom.sentLevels : g.sentLevels = saved.levels.take factoryMaxLevels := by
  have hlevels : g.levelArity = levelsOf saved.levels := by
    rw [hb.result]
    exact (congrArg levelArity (lsp_plan hf) :)
  rw [Factory.sentLevels,hlevels,take_map_ofNat_levelsOf]

include hrep

theorem BuiltFrom.sentFee : jsonU64 g.feePerTx = saved.feePerTx := by
  have hfee : f.feePerTx = saved.feePerTx := (congrArg feePerTx (lsp_plan hf) :)
  have hnone : f.fee = none := (congrArg fee (lsp_plan hf) :)
  have hpriced : g.feePerTx = saved.feePerTx := by
    rw [hb.result]
    change f.fee.getD _ = _
    rw [hnone,← hfee]
    rfl
  rw [hpriced,jsonU64_of_lt hrep.feePerTx]

theorem BuiltFrom.sentAmount : jsonU64 g.fundingAmountSats = f.fundingAmountSats := by
  have hamount : f.fundingAmountSats.toNat < 2^53 := by
    rcases lspFactory_amount saved participants args with hzero | hargs
    · rw [← hf,hzero]
      decide
    · rw [← hf,hargs]
      exact hrep.funding
  rw [hb.result]
  exact jsonU64_of_lt hamount

theorem BuiltFrom.received_plan (hv : Received g terms pubkeys k v) :
    v.plan = { f.plan with pubkeys := pubkeys, psSubfactoryArity := subfactoryArityOf k } := by
  have hplan := lsp_plan hf
  have harity : g.leafArity = arityOf saved.levels saved.factory.leafArity := by
    rw [hb.result]
    exact (congrArg leafArity hplan :)
  rw [hv.plan,hb.sentLevels hf,hb.sentFee hf hrep,hb.sentAmount hf hrep,harity,levelsOf_take,
    arityOf_take,hplan,hb.result]
  have hsteps : f.stepBlocks = args.stepBlocks := (congrArg stepBlocks hplan :)
  have hstates : f.statesPerLayer = args.statesPerLayer :=
    (congrArg statesPerLayer hplan :)
  have hstatic : f.staticThresholdDepth = saved.factory.staticThresholdDepth :=
    (congrArg staticThresholdDepth hplan :)
  have hcltv : f.cltvTimeout = args.cltvTimeout := (congrArg cltvTimeout hplan :)
  change plannedFactory pubkeys f.stepBlocks f.statesPerLayer _ _ f.staticThresholdDepth _ _
    f.cltvTimeout _ _ _ = _
  rw [hsteps,hstates,hstatic,hcltv]
  rfl

theorem BuiltFrom.received_plan_same (hv : Received g terms participants k v) :
    v.plan = { f.plan with psSubfactoryArity := subfactoryArityOf k } := by
  have hkeys := (congrArg pubkeys (lsp_plan hf) :)
  exact (hb.received_plan hf hrep hv).trans (congrArg (fun keys =>
    { f.plan with pubkeys := keys, psSubfactoryArity := subfactoryArityOf k }) hkeys.symm)

theorem BuiltFrom.received_placed (henv : env.SortsMembers)
    (hv : Received g terms participants k v) :
    placedClients env v v.nClients = placedClients env f f.nClients := by
  have hclients : v.nClients = f.nClients :=
    (congrArg nClients (hb.received_plan_same hf hrep hv) :)
  rw [hclients]
  refine placedClients_congr henv ?_ ?_
  · rw [hv.placement,hb.result]
    rfl
  intro i hi
  have hprofile : g.profile i = f.profile i := by
    rw [hb.result]
    rfl
  have hn : g.nParticipants = f.nParticipants := by
    rw [hb.result]
    rfl
  have htwo := hb.participants
  have hmax := hb.bounded
  have hsent := hrep.profile hf i
  rw [nClients] at hi
  rw [hv.profile (by omega) (by rw [factoryMaxSigners]; omega),wireProfile_profile,hprofile]
  · rw [hprofile]
    exact hsent.1
  · rw [hprofile]
    exact hsent.2

end

section

variable {env : Env} {f g t v : Factory} {b : Block}

variable (h : BuiltFrom env f g b)

include h

theorem BuiltFrom.root_signers :
    ∃ n, g.nodes[0]? = some n ∧ n.signerIndices.length = f.nParticipants := by
  have hroot : At 0 b.nodes 0 b.root := at_cons.mpr (Or.inl ⟨rfl,rfl⟩)
  obtain ⟨n,hn,hshape⟩ := nodeAt_of_at env f.prepared hroot
  have htwo := h.participants
  refine ⟨n,h.result ▸ hn,?_⟩
  rw [hshape.signers,(buildSubtree_linked h.block).signers,length_cons]
  change (placedClients env f f.nClients).length+1 = _
  rw [placedClients_length,nClients]
  omega

theorem BuiltFrom.types :
    (∀ n ∈ g.nodes, n.type ≠ .psSubfactory) ↔ ∀ n ∈ b.nodes, n.type ≠ .psSubfactory := by
  have hblank := congrArg (List.map FactoryNode.type)
    (buildAllUnsignedTxs_blank env (b.installed f.prepared))
  simp only [List.map_map,← h.result] at hblank
  have htypes : g.nodes.map FactoryNode.type = b.nodes.map FactoryNode.type := hblank
  rw [← List.forall_mem_map (f := FactoryNode.type) (P := (· ≠ .psSubfactory)),htypes,
    List.forall_mem_map]

theorem BuiltFrom.psFree (hk : 1 < f.psSubfactoryArity)
    (hnodes : ∀ n ∈ g.nodes, n.type ≠ .psSubfactory) : PsFree f 0 f.nClients := by
  have hfree : PsFree f.prepared 0 (placedClients env f f.nClients).length :=
    psFree_of_nodes (f := f.prepared) hk h.block (h.types.mp hnodes)
  rw [placedClients_length] at hfree
  exact hfree.congr (fun _ => rfl) rfl

theorem BuiltFrom.no_subfactories (hk : f.psSubfactoryArity ≤ 1) :
    ∀ n ∈ g.nodes, n.type ≠ .psSubfactory :=
  h.types.mpr (SuperScalar.no_subfactories (f := f.prepared) hk h.block)

end

section

def clientsOf (n : ℕ) : List ℕ := (range n).map (· + 1)

def rotationClients (nClients : ℕ) (departed onlineAtClose online : ℕ → Bool) : Option (List ℕ) :=
  let clients := clientsOf nClients
  if clients.all departed && clients.all onlineAtClose then
    if clients.all online then some clients else none
  else if !clients.all departed && (clients.filter departed).length < 2 then none
  else
    let kept := (clients.filter departed).filter online
    if kept.length < 2 then none else some kept

inductive Occasion where
  | creation
  | rotation (departed onlineAtClose online : ℕ → Bool)

def Occasion.participants (pubkeys : List Pubkey) : Occasion → Option (List Pubkey)
  | .creation => some pubkeys
  | .rotation departed onlineAtClose online =>
    (rotationClients (pubkeys.length-1) departed onlineAtClose online).map
      (fun kept => (0 :: kept).map (fun i => pubkeys.getD i (Blob.zero 64)))

def Occasion.clientTree (env : Env) (pubkeys : List Pubkey) (msg : FactoryPropose) :
    Occasion → Option Factory
  | .creation => clientRunWithChannelsTree env pubkeys msg
  | .rotation _ _ _ => clientDoFactoryRotationTree env pubkeys msg

variable {n : ℕ} {departed onlineAtClose online : ℕ → Bool} {kept : List ℕ}

section

variable (h : rotationClients n departed onlineAtClose online = some kept)

include h

theorem rotationClients_eq : kept = ((clientsOf n).filter departed).filter online := by
  rw [rotationClients] at h
  dsimp only at h
  split_ifs at h with hfull honline hfew hsmall
  · rw [Bool.and_eq_true] at hfull
    rw [filter_eq_self.mpr (all_eq_true.mp hfull.1),filter_eq_self.mpr (all_eq_true.mp honline)]
    exact (some.inj h).symm
  · exact (some.inj h).symm

theorem rotationClients_all :
    kept.length = n ↔ ∀ i ∈ clientsOf n, departed i = true ∧ online i = true := by
  have hlen : (clientsOf n).length = n := by rw [clientsOf,List.length_map,List.length_range]
  have hall : kept.length = n ↔ kept.length = (clientsOf n).length := by rw [hlen]
  rw [hall,rotationClients_eq h,List.filter_filter,List.length_filter_eq_length_iff]
  refine forall₂_congr fun i _ => ?_
  rw [Bool.and_eq_true,and_comm]

end

theorem map_getD_clientsOf (pubkeys : List Pubkey) (hne : pubkeys ≠ []) :
    (0 :: clientsOf (pubkeys.length-1)).map (fun i => pubkeys.getD i (Blob.zero 64)) = pubkeys := by
  obtain ⟨key,keys,rfl⟩ := exists_cons_of_ne_nil hne
  apply ext_getElem?
  intro i
  cases i with
  | zero => rfl
  | succ i =>
    simp only [List.map_cons,List.getElem?_cons_succ,clientsOf,List.map_map,getElem?_map,
      length_cons,Nat.add_sub_cancel]
    by_cases hi : i < keys.length
    · simp [getD_eq_getElem?_getD,hi]
    · rw [getElem?_eq_none (Nat.not_lt.mp hi),getElem?_eq_none]
      · rfl
      · simpa using hi

end

section

variable {env : Env} {saved : LspFactory} {participants pubkeys : List Pubkey}
  {args : CreationArgs} {f g t v : Factory} {b : Block} {terms : ProposedTerms} {k : UInt32}
  {msg : FactoryPropose}

theorem lspRunFactoryCreation_spec
    (h : lspRunFactoryCreation env saved participants args = some (g,msg)) :
    ∃ b terms, factoryBuildTree env (lspFactory saved participants args) = some g ∧
      BuiltFrom env (lspFactory saved participants args) g b ∧
      msg = { wireBuildFactoryPropose g terms with distAmounts := args.distAmounts.map jsonU64 } := by
  simp only [lspRunFactoryCreation,bind_eq_bind,bind_eq_some_iff,some.injEq,Prod.mk.injEq] at h
  obtain ⟨g,hg,rfl,rfl⟩ := h
  obtain ⟨b,hb⟩ := factoryBuildTree_spec hg
  exact ⟨b,_,hg,hb,rfl⟩

theorem BuiltFrom.received (hf : lspFactory saved participants args = f)
    (hb : BuiltFrom env f g b) (pubkeys : List Pubkey) (k : UInt32)
    (hmsg : msg = { wireBuildFactoryPropose g terms with
      distAmounts := args.distAmounts.map jsonU64 }) :
    ∃ v, proposedFactory k pubkeys msg = some v ∧ Received g terms pubkeys k v := by
  rw [hmsg]
  refine proposedFactory_received ?_
  have hspk : g.fundingSpk = f.fundingSpk := by
    rw [hb.result]
    rfl
  rw [hspk,← hf]
  exact lspFactory_spk saved participants args

theorem BuiltFrom.same_tree (henv : env.SortsMembers) (hrep : Representable saved args)
    (hf : lspFactory saved participants args = f) (hb : BuiltFrom env f g b)
    (hv : Received g terms participants k v) (hk : subfactoryArityOf k = f.psSubfactoryArity) :
    (factoryBuildTree env v).map nodes = (factoryBuildTree env f).map nodes := by
  refine factoryBuildTree_congr ?_ (hb.received_placed hf hrep henv hv)
  rw [hb.received_plan_same hf hrep hv,hk]
  rfl

theorem BuiltFrom.single_tree (henv : env.SortsMembers) (hrep : Representable saved args)
    (hf : lspFactory saved participants args = f) (hb : BuiltFrom env f g b)
    (hv : Received g terms participants 0 v)
    (hfree : f.psSubfactoryArity ≤ 1 ∨ PsFree f 0 f.nClients) :
    (factoryBuildTree env v).map nodes = (factoryBuildTree env f).map nodes := by
  rcases hfree with hone | hfree
  · refine hb.same_tree henv hrep hf hv (Nat.le_antisymm ?_ hone)
    rw [lsp_subfactories hf]
    exact subfactoryArityOf_pos _
  · rw [← factoryBuildTree_single hfree]
    have hplaced := hb.received_placed hf hrep henv hv
    exact factoryBuildTree_congr (hb.received_plan_same hf hrep hv) hplaced

theorem exists_tree (hv : factoryBuildTree env f = some g)
    (h : (factoryBuildTree env v).map nodes = (factoryBuildTree env f).map nodes) :
    ∃ t, factoryBuildTree env v = some t ∧ t.nodes = g.nodes := by
  rw [hv] at h
  exact map_eq_some_iff.mp h

def Occasion.Rebuilds (pubkeys : List Pubkey) (f : Factory) : Occasion → Prop
  | .creation => True
  | .rotation departed _ online =>
    (∀ i ∈ clientsOf (pubkeys.length-1), departed i = true ∧ online i = true) ∧
      (f.psSubfactoryArity ≤ 1 ∨ PsFree f 0 f.nClients)

theorem rotation_participants {departed onlineAtClose online : ℕ → Bool}
    (hp : (Occasion.rotation departed onlineAtClose online).participants pubkeys =
      some participants) (htwo : 2 ≤ participants.length) :
    (participants.length = pubkeys.length ↔
      ∀ i ∈ clientsOf (pubkeys.length-1), departed i = true ∧ online i = true) ∧
    (participants.length = pubkeys.length → participants = pubkeys) := by
  obtain ⟨kept,hkept,rfl⟩ := map_eq_some_iff.mp hp
  rw [length_map,length_cons] at htwo ⊢
  have hsub : kept.Sublist (clientsOf (pubkeys.length-1)) := by
    rw [rotationClients_eq hkept]
    exact filter_sublist.trans filter_sublist
  have hlen : (clientsOf (pubkeys.length-1)).length = pubkeys.length-1 := by
    rw [clientsOf,length_map,length_range]
  have hcount : kept.length+1 = pubkeys.length ↔ kept.length = pubkeys.length-1 := by omega
  refine ⟨hcount.trans (rotationClients_all hkept),fun hall => ?_⟩
  rw [hsub.eq_of_length ((hcount.mp hall).trans hlen.symm)]
  refine map_getD_clientsOf pubkeys fun hnil => ?_
  rw [hnil] at hall
  cases hall

theorem rotation_rebuilds_only {departed onlineAtClose online : ℕ → Bool}
    (hp : (Occasion.rotation departed onlineAtClose online).participants pubkeys =
      some participants) (hrep : Representable saved args)
    (hf : lspFactory saved participants args = f) (hb : BuiltFrom env f g b)
    (hv : Received g terms pubkeys 0 v) (ht : factoryBuildTree env v = some t)
    (hnodes : t.nodes = g.nodes) :
    (Occasion.rotation departed onlineAtClose online).Rebuilds pubkeys f := by
  obtain ⟨b',hb'⟩ := factoryBuildTree_spec ht
  have hplan := hb.received_plan hf hrep hv
  have hkeys := lsp_participants hf
  have hclient : v.nParticipants = pubkeys.length := (congrArg nParticipants hplan :)
  obtain ⟨root,hroot,hsigners⟩ := hb.root_signers
  obtain ⟨root',hroot',hsigners'⟩ := hb'.root_signers
  rw [hnodes,hroot,some.injEq] at hroot'
  have hlen : participants.length = pubkeys.length := by
    rw [← hkeys,← hclient,← hsigners,← hsigners',hroot']
  have htwo := hb.participants
  refine ⟨(rotation_participants hp (hkeys ▸ htwo)).1.mp hlen,?_⟩
  by_cases hk : f.psSubfactoryArity ≤ 1
  · exact .inl hk
  · have hone := (congrArg psSubfactoryArity hplan :)
    have hnone := hb'.no_subfactories hone.le
    rw [hnodes] at hnone
    exact .inr (hb.psFree (Nat.not_le.mp hk) hnone)

theorem propose_rebuilds_iff (henv : env.SortsMembers) (hrep : Representable saved args)
    {occasion : Occasion} (hp : occasion.participants pubkeys = some participants)
    (h : lspRunFactoryCreation env saved participants args = some (g,msg)) :
    (∃ t, occasion.clientTree env pubkeys msg = some t ∧ t.nodes = g.nodes) ↔
      occasion.Rebuilds pubkeys (lspFactory saved participants args) := by
  obtain ⟨b,terms,hg,hb,hmsg⟩ := lspRunFactoryCreation_spec h
  generalize hf : lspFactory saved participants args = f at hg hb ⊢
  cases occasion with
  | creation =>
    obtain rfl := some.inj hp
    refine iff_of_true ?_ trivial
    obtain ⟨v,hset,hv⟩ := hb.received hf pubkeys msg.psSubfactoryArity hmsg
    have hk := lsp_subfactories hf
    have hsent : subfactoryArityOf msg.psSubfactoryArity = f.psSubfactoryArity := by
      rw [hmsg,hb.result]
      refine subfactoryArityOf_sent ?_ ?_
      · exact hk ▸ subfactoryArityOf_pos _
      · exact hk ▸ subfactoryArityOf_le _
    change ∃ t, (proposedFactory msg.psSubfactoryArity pubkeys msg).bind _ = some t ∧ _
    rw [hset]
    exact exists_tree hg (hb.same_tree henv hrep hf hv hsent)
  | rotation departed onlineAtClose online =>
    obtain ⟨v,hset,hv⟩ := hb.received hf pubkeys 0 hmsg
    change (∃ t, (proposedFactory 0 pubkeys msg).bind _ = some t ∧ _) ↔ _
    rw [hset]
    constructor
    · rintro ⟨t,ht,hnodes⟩
      exact rotation_rebuilds_only hp hrep hf hb hv ht hnodes
    · rintro ⟨hall,hfree⟩
      have htwo := hb.participants
      have hp' := rotation_participants hp (lsp_participants hf ▸ htwo)
      obtain rfl := hp'.2 (hp'.1.mpr hall)
      exact exists_tree hg (hb.single_tree henv hrep hf hv hfree)

end

def LspFactory.sample (nClients leafArity psSubfactoryArity : ℕ) : LspFactory where
  factory := Factory.sample nClients leafArity psSubfactoryArity
  economicMode := 0
  participantIndices := []
  flatSecrets := none

def CreationArgs.sample : CreationArgs where
  fundingTxid := Blob.zero 32
  fundingVout := 0
  fundingAmount := 1000000
  fundingSpk := replicate 34 0
  stepBlocks := 10
  statesPerLayer := 4
  cltvTimeout := 1000
  distAmounts := []

theorem sample_representable (nClients leafArity psSubfactoryArity : ℕ) :
    Representable (LspFactory.sample nClients leafArity psSubfactoryArity) CreationArgs.sample :=
  ⟨show (200 : UInt64).toNat < 2^53 by decide,by decide,fun _ hp => absurd hp not_mem_nil⟩

def everyClient : ℕ → Bool := fun _ => true

theorem full_rotation_rebuilt : ∃ g msg t,
    lspRunFactoryCreation Env.sample (LspFactory.sample 3 2 1) (Factory.sample 3 2 1).pubkeys
      CreationArgs.sample = some (g,msg) ∧
    (Occasion.rotation everyClient everyClient everyClient).clientTree Env.sample
      (Factory.sample 3 2 1).pubkeys msg = some t ∧ t.nodes = g.nodes := by
  have hrun : (lspRunFactoryCreation Env.sample (LspFactory.sample 3 2 1)
      (Factory.sample 3 2 1).pubkeys CreationArgs.sample).isSome = true := by
    decide +kernel
  obtain ⟨⟨g,msg⟩,hrun⟩ := isSome_iff_exists.mp hrun
  have hall : (Occasion.rotation everyClient everyClient everyClient).participants
      (Factory.sample 3 2 1).pubkeys = some (Factory.sample 3 2 1).pubkeys := by
    decide +kernel
  obtain ⟨t,ht,hnodes⟩ := (propose_rebuilds_iff Env.sample_sortsMembers
    (sample_representable 3 2 1) hall hrun).mpr ⟨fun _ _ => ⟨rfl,rfl⟩,Or.inl (by decide +kernel)⟩
  exact ⟨g,msg,t,hrun,ht,hnodes⟩

theorem rotation_not_rebuilt :
    (∃ g msg t, lspRunFactoryCreation Env.sample (LspFactory.sample 4 3 2)
        (Factory.sample 4 3 2).pubkeys CreationArgs.sample = some (g,msg) ∧
      (Occasion.rotation everyClient everyClient everyClient).participants
        (Factory.sample 4 3 2).pubkeys = some (Factory.sample 4 3 2).pubkeys ∧
      (Occasion.rotation everyClient everyClient everyClient).clientTree Env.sample
        (Factory.sample 4 3 2).pubkeys msg = some t ∧ t.nodes.length ≠ g.nodes.length) ∧
    ∃ participants g msg t,
      (Occasion.rotation (· ≠ 3) everyClient everyClient).participants
        (Factory.sample 3 2 1).pubkeys = some participants ∧
      lspRunFactoryCreation Env.sample (LspFactory.sample 3 2 1) participants CreationArgs.sample =
        some (g,msg) ∧
      (Occasion.rotation (· ≠ 3) everyClient everyClient).clientTree Env.sample
        (Factory.sample 3 2 1).pubkeys msg = some t ∧ t.nodes.length ≠ g.nodes.length := by
  constructor
  · obtain ⟨⟨g,msg⟩,hr,t,ht,hlen⟩ : ∃ r, lspRunFactoryCreation Env.sample
        (LspFactory.sample 4 3 2) (Factory.sample 4 3 2).pubkeys CreationArgs.sample = some r ∧
      ∃ t, clientDoFactoryRotationTree Env.sample (Factory.sample 4 3 2).pubkeys r.2 = some t ∧
        t.nodes.length ≠ r.1.nodes.length := by
      decide +kernel
    exact ⟨g,msg,t,hr,by decide +kernel,ht,hlen⟩
  · obtain ⟨participants,hp,⟨g,msg⟩,hr,t,ht,hlen⟩ : ∃ participants,
        (Occasion.rotation (· ≠ 3) everyClient everyClient).participants
          (Factory.sample 3 2 1).pubkeys = some participants ∧
      ∃ r, lspRunFactoryCreation Env.sample (LspFactory.sample 3 2 1) participants
          CreationArgs.sample = some r ∧
      ∃ t, clientDoFactoryRotationTree Env.sample (Factory.sample 3 2 1).pubkeys r.2 = some t ∧
        t.nodes.length ≠ r.1.nodes.length := by
      decide +kernel
    exact ⟨participants,g,msg,t,hp,hr,ht,hlen⟩

end SuperScalar
