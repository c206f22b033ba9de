import SuperScalar.Factory.PsFree

namespace SuperScalar

open Bitcoin UInt32

-- A number of the message is a double: above 2^53 it is rounded, ties to even.
def roundToDouble (n : ℕ) : ℕ :=
  let unit := 2^(n.log2-52)
  let rest := n % unit
  if 2*rest > unit ∨ (2*rest = unit ∧ n/unit % 2 = 1) then (n/unit+1)*unit
  else n/unit*unit

def jsonU64 (n : UInt64) : UInt64 := UInt64.ofNat (roundToDouble n.toNat)

def isFinite (bits : UInt32) : Bool := (bits >>> 23) &&& 0xFF ≠ 0xFF

-- An infinite score or one that is not a number is written as `null`, which the reader skips.
def jsonFloat (bits : UInt32) : UInt32 := if isFinite bits then bits else 0

structure ProfileItem where
  idx : UInt32
  contribution : UInt64
  profitBps : UInt16
  uptime : UInt32
  tzBucket : UInt8
deriving DecidableEq

def ProfileItem.profile (item : ProfileItem) : ParticipantProfile where
  contributionSats := item.contribution
  uptimeScore := item.uptime
  timezoneBucket := item.tzBucket
  profitShareBps := item.profitBps

structure FactoryPropose where
  fundingTxid : Blob 32
  fundingVout : Option UInt32
  fundingAmount : Option UInt64
  fundingSpk : Bytes
  stepBlocks : Option UInt16
  statesPerLayer : Option UInt32
  cltvTimeout : Option UInt32
  feePerTx : Option UInt64
  leafArity : Option ℕ
  levelArity : List UInt8
  staticThresholdDepth : UInt32
  psSubfactoryArity : UInt32
  placementMode : PlacementMode
  economicMode : UInt32
  profiles : List ProfileItem
  distAmounts : List UInt64
  lStockHashes : List (Blob 32)
deriving DecidableEq

-- The fields of `factory_t` that a proposal carries and the tree does not use.
structure ProposedTerms where
  economicMode : UInt32
  participantIndices : List UInt32
  lStockHashes : List (Blob 32)

def zeroProfile : ParticipantProfile := ⟨0,0,0,0⟩

def Factory.profile (f : Factory) (i : ℕ) : ParticipantProfile := f.profiles.getD i zeroProfile

def wireProfile (f : Factory) (terms : ProposedTerms) (i : ℕ) : ProfileItem where
  idx := terms.participantIndices.getD i 0
  contribution := jsonU64 (f.profile i).contributionSats
  profitBps := (f.profile i).profitShareBps
  uptime := jsonFloat (f.profile i).uptimeScore
  tzBucket := (f.profile i).timezoneBucket

def wireBuildFactoryPropose (f : Factory) (terms : ProposedTerms) : FactoryPropose where
  fundingTxid := f.fundingTxid
  fundingVout := some f.fundingVout
  fundingAmount := some (jsonU64 f.fundingAmountSats)
  fundingSpk := f.fundingSpk
  stepBlocks := some f.stepBlocks
  statesPerLayer := some f.statesPerLayer
  cltvTimeout := some f.cltvTimeout
  feePerTx := some (jsonU64 f.feePerTx)
  leafArity := some f.leafArity
  levelArity := f.levelArity.map UInt8.ofNat
  staticThresholdDepth := f.staticThresholdDepth
  psSubfactoryArity := if f.psSubfactoryArity > 1 then ofNat f.psSubfactoryArity else 0
  placementMode := f.placementMode
  economicMode := terms.economicMode
  profiles := (List.range f.nParticipants).map (wireProfile f terms)
  distAmounts := []
  lStockHashes := terms.lStockHashes

def factoryMaxEpochs : ℕ := 4096

structure LspFactory where
  factory : Factory
  economicMode : UInt32
  participantIndices : List UInt32
  flatSecrets : Option (List (Blob 32))

structure CreationArgs where
  fundingTxid : Blob 32
  fundingVout : UInt32
  fundingAmount : UInt64
  fundingSpk : Bytes
  stepBlocks : UInt16
  statesPerLayer : UInt32
  cltvTimeout : UInt32
  distAmounts : List UInt64

def restoreArity (f : Factory) (levels : List UInt8) (leafArity : ℕ) : Factory :=
  if levels ≠ [] then factorySetLevelArity f levels
  else if leafArity = factoryArity1 then factorySetArity f factoryArity1
  else if leafArity = factoryArityPs then factorySetArity f factoryArityPs
  else f

def restoreStatic (f : Factory) (threshold : UInt32) : Factory :=
  if threshold > 0 then factorySetStaticNearRoot f threshold else f

def restoreSubfactories (f : Factory) (k : UInt32) : Factory :=
  if k > 1 then factorySetPsSubfactoryArity f k else f

def LspFactory.restoresShachain (saved : LspFactory) : Bool :=
  saved.factory.hasShachain && saved.flatSecrets ≠ some []

def LspFactory.hashes (saved : LspFactory) (env : Env) : List (Blob 32) :=
  if saved.factory.hasShachain then
    ((saved.flatSecrets.getD []).take factoryMaxEpochs).map (fun s => env.secp.sha256 s.val)
  else []

def lspFactory (saved : LspFactory) (pubkeys : List Pubkey) (args : CreationArgs) : Factory :=
  let old := saved.factory
  let f := factoryInitFromPubkeys pubkeys args.stepBlocks args.statesPerLayer
  let f := restoreArity f (old.levelArity.map UInt8.ofNat) old.leafArity
  let f := restoreStatic f old.staticThresholdDepth
  let f := restoreSubfactories f (ofNat old.psSubfactoryArity)
  let f := { f with
    feePerTx := if old.feePerTx > 200 then old.feePerTx else f.feePerTx
    cltvTimeout := args.cltvTimeout
    placementMode := old.placementMode
    profiles := old.profiles
    hasShachain := saved.restoresShachain }
  factorySetFunding f args.fundingTxid args.fundingVout args.fundingAmount args.fundingSpk

def lspRunFactoryCreation (env : Env) (saved : LspFactory) (pubkeys : List Pubkey)
    (args : CreationArgs) : Option (Factory × FactoryPropose) := do
  let g ← factoryBuildTree env (lspFactory saved pubkeys args)
  let terms := ⟨saved.economicMode,saved.participantIndices,saved.hashes env⟩
  some (g,{ wireBuildFactoryPropose g terms with distAmounts := args.distAmounts.map jsonU64 })

def proposedFactory (psSubfactoryArity : UInt32) (pubkeys : List Pubkey) (msg : FactoryPropose) :
    Option Factory := do
  let fundingVout ← msg.fundingVout
  let fundingAmount ← msg.fundingAmount
  let stepBlocks ← msg.stepBlocks
  let statesPerLayer ← msg.statesPerLayer
  let cltvTimeout ← msg.cltvTimeout
  let feePerTx ← msg.feePerTx
  let f := { factoryInitFromPubkeys pubkeys stepBlocks statesPerLayer with
    cltvTimeout := cltvTimeout
    feePerTx := feePerTx
    placementMode := msg.placementMode
    profiles := (msg.profiles.take factoryMaxSigners).map ProfileItem.profile }
  let f := restoreArity f (msg.levelArity.take factoryMaxLevels) (msg.leafArity.getD factoryArity2)
  let f := restoreStatic f msg.staticThresholdDepth
  let f := restoreSubfactories f psSubfactoryArity
  let f := { f with hasShachain := f.hasShachain || msg.lStockHashes ≠ [] }
  some (factorySetFunding f msg.fundingTxid fundingVout fundingAmount msg.fundingSpk)

def clientRunWithChannelsTree (env : Env) (pubkeys : List Pubkey) (msg : FactoryPropose) :
    Option Factory :=
  (proposedFactory msg.psSubfactoryArity pubkeys msg).bind (factoryBuildTree env)

-- The field `ps_subfactory_arity` is not read in a rotation.
def clientDoFactoryRotationTree (env : Env) (pubkeys : List Pubkey) (msg : FactoryPropose) :
    Option Factory :=
  (proposedFactory 0 pubkeys msg).bind (factoryBuildTree env)

theorem roundToDouble_of_lt {n : ℕ} (h : n < 2^53) : roundToDouble n = n := by
  have hlog : n.log2-52 = 0 := by
    by_cases hn : n = 0
    · rw [hn]
      rfl
    · have := (Nat.log2_lt hn).mpr h
      omega
  simp [roundToDouble,hlog,Nat.mod_one]

theorem jsonU64_of_lt {n : UInt64} (h : n.toNat < 2^53) : jsonU64 n = n := by
  rw [jsonU64,roundToDouble_of_lt h,UInt64.ofNat_toNat]

section

variable {f : Factory}

def levelsOf (levels : List UInt8) : List ℕ := (levels.take factoryMaxLevels).map UInt8.toNat

def arityOf (levels : List UInt8) (leafArity : ℕ) : ℕ :=
  if levels ≠ [] then (levelsOf levels).getLastD 0
  else if leafArity = factoryArity1 then factoryArity1
  else if leafArity = factoryArityPs then factoryArityPs
  else factoryArity2

def subfactoryArityOf (k : UInt32) : ℕ := if k > 1 then cappedSubfactoryArity k else 1

structure Unshaped (f : Factory) : Prop where
  levels : f.levelArity = []
  arity : f.leafArity = factoryArity2
  static : f.staticThresholdDepth = 0
  subfactories : f.psSubfactoryArity = 1
  perLeaf : f.perLeafEnabled = false

theorem restoreArity_plan (h : Unshaped f) (levels : List UInt8) (leafArity : ℕ) :
    (restoreArity f levels leafArity).plan =
      { f.plan with levelArity := levelsOf levels, leafArity := arityOf levels leafArity } := by
  have hper : { f.plan with perLeafEnabled := false } = f.plan := by
    rw [← h.perLeaf]
    rfl
  have hkeep : { f.plan with levelArity := [], leafArity := factoryArity2 } = f.plan := by
    rw [← h.levels,← h.arity]
    rfl
  rw [restoreArity,arityOf,← hper]
  by_cases hne : levels ≠ []
  · simp only [if_pos hne]
    rfl
  obtain rfl : levels = [] := not_not.mp hne
  split_ifs
  · rfl
  · rfl
  · rw [hper]
    exact hkeep.symm

theorem restoreStatic_plan (hnone : f.staticThresholdDepth = 0) (hleaf : f.perLeafEnabled = false)
    (threshold : UInt32) :
    (restoreStatic f threshold).plan = { f.plan with staticThresholdDepth := threshold } := by
  have hper : { f.plan with perLeafEnabled := false } = f.plan := by
    rw [← hleaf]
    rfl
  rw [restoreStatic,← hper]
  split_ifs with hpos
  · rfl
  · obtain rfl : threshold = 0 := by simpa using hpos
    rw [hper,← hnone]
    rfl

theorem restoreSubfactories_plan (hone : f.psSubfactoryArity = 1) (hleaf : f.perLeafEnabled = false)
    (k : UInt32) :
    (restoreSubfactories f k).plan = { f.plan with psSubfactoryArity := subfactoryArityOf k } := by
  have hper : { f.plan with perLeafEnabled := false } = f.plan := by
    rw [← hleaf]
    rfl
  rw [restoreSubfactories,subfactoryArityOf]
  split_ifs
  · rw [factorySetPsSubfactoryArity]
    split_ifs
    · rfl
    · rw [← hper]
      rfl
  · rw [← hone]
    rfl

theorem factorySetFunding_plan (txid : Blob 32) (vout : UInt32) (amount : UInt64) (spk : Bytes) :
    (factorySetFunding f txid vout amount spk).plan =
      { f.plan with
        fundingTxid := (factorySetFunding f txid vout amount spk).fundingTxid
        fundingVout := (factorySetFunding f txid vout amount spk).fundingVout
        fundingAmountSats := (factorySetFunding f txid vout amount spk).fundingAmountSats } := by
  rw [factorySetFunding]
  split_ifs
  · rfl
  · rfl

def plannedFactory (pubkeys : List Pubkey) (stepBlocks : UInt16) (statesPerLayer : UInt32)
    (levelArity : List ℕ) (leafArity : ℕ) (threshold : UInt32) (k : ℕ) (feePerTx : UInt64)
    (cltvTimeout : UInt32) (txid : Blob 32) (vout : UInt32) (amount : UInt64) : Factory :=
  { (factoryInitFromPubkeys pubkeys stepBlocks statesPerLayer).plan with
    levelArity := levelArity
    leafArity := leafArity
    staticThresholdDepth := threshold
    psSubfactoryArity := k
    feePerTx := feePerTx
    cltvTimeout := cltvTimeout
    fundingTxid := txid
    fundingVout := vout
    fundingAmountSats := amount }

theorem restored_plan (h : Unshaped f) (levels : List UInt8) (leafArity : ℕ) (threshold k : UInt32) :
    (restoreSubfactories (restoreStatic (restoreArity f levels leafArity) threshold) k).plan =
      { f.plan with
        levelArity := levelsOf levels
        leafArity := arityOf levels leafArity
        staticThresholdDepth := threshold
        psSubfactoryArity := subfactoryArityOf k } := by
  have harity := restoreArity_plan h levels leafArity
  have hstatic := restoreStatic_plan (f := restoreArity f levels leafArity)
    ((congrArg Factory.staticThresholdDepth harity :).trans h.static)
    ((congrArg Factory.perLeafEnabled harity :).trans h.perLeaf) threshold
  rw [harity] at hstatic
  have hsubs := restoreSubfactories_plan
    (f := restoreStatic (restoreArity f levels leafArity) threshold)
    ((congrArg Factory.psSubfactoryArity hstatic :).trans h.subfactories)
    ((congrArg Factory.perLeafEnabled hstatic :).trans h.perLeaf) k
  rw [hsubs,hstatic]

def Factory.carried (f : Factory) : PlacementMode × List ParticipantProfile × Bytes :=
  (f.placementMode,f.profiles,f.fundingSpk)

theorem restoreArity_carried (levels : List UInt8) (leafArity : ℕ) :
    (restoreArity f levels leafArity).carried = f.carried := by
  rw [restoreArity]
  split_ifs
  · rfl
  · rfl
  · rfl
  · rfl

theorem restoreStatic_carried (threshold : UInt32) :
    (restoreStatic f threshold).carried = f.carried := by
  rw [restoreStatic]
  split_ifs
  · rfl
  · rfl

theorem restoreSubfactories_carried (k : UInt32) :
    (restoreSubfactories f k).carried = f.carried := by
  rw [restoreSubfactories,factorySetPsSubfactoryArity]
  split_ifs
  · rfl
  · rfl
  · rfl

theorem restored_carried (levels : List UInt8) (leafArity : ℕ) (threshold k : UInt32) :
    (restoreSubfactories (restoreStatic (restoreArity f levels leafArity) threshold) k).carried =
      f.carried := by
  rw [restoreSubfactories_carried,restoreStatic_carried,restoreArity_carried]

section

variable (saved : LspFactory) (pubkeys : List Pubkey) (args : CreationArgs)

def LspFactory.levels : List UInt8 := saved.factory.levelArity.map UInt8.ofNat

def LspFactory.feePerTx : UInt64 :=
  if saved.factory.feePerTx > 200 then saved.factory.feePerTx else 200

theorem lspFactory_plan :
    (lspFactory saved pubkeys args).plan =
      plannedFactory pubkeys args.stepBlocks args.statesPerLayer (levelsOf saved.levels)
        (arityOf saved.levels saved.factory.leafArity) saved.factory.staticThresholdDepth
        (subfactoryArityOf (ofNat saved.factory.psSubfactoryArity)) saved.feePerTx
        args.cltvTimeout (lspFactory saved pubkeys args).fundingTxid
        (lspFactory saved pubkeys args).fundingVout
        (lspFactory saved pubkeys args).fundingAmountSats := by
  have hrestored := restored_plan (f := factoryInitFromPubkeys pubkeys args.stepBlocks
    args.statesPerLayer) ⟨rfl,rfl,rfl,rfl,rfl⟩ saved.levels saved.factory.leafArity
    saved.factory.staticThresholdDepth (ofNat saved.factory.psSubfactoryArity)
  have hdefault : (restoreSubfactories (restoreStatic (restoreArity (factoryInitFromPubkeys pubkeys
      args.stepBlocks args.statesPerLayer) saved.levels saved.factory.leafArity)
      saved.factory.staticThresholdDepth)
      (ofNat saved.factory.psSubfactoryArity)).feePerTx = 200 :=
    (congrArg Factory.feePerTx hrestored :)
  have hfee := congrArg (fun fee : UInt64 => if saved.factory.feePerTx > 200 then
    saved.factory.feePerTx else fee) hdefault
  calc (lspFactory saved pubkeys args).plan
      = _ := factorySetFunding_plan _ _ _ _
    _ = { (restoreSubfactories (restoreStatic (restoreArity (factoryInitFromPubkeys pubkeys
            args.stepBlocks args.statesPerLayer) saved.levels saved.factory.leafArity)
            saved.factory.staticThresholdDepth)
            (ofNat saved.factory.psSubfactoryArity)).plan with
          feePerTx := saved.feePerTx
          cltvTimeout := args.cltvTimeout
          fundingTxid := (lspFactory saved pubkeys args).fundingTxid
          fundingVout := (lspFactory saved pubkeys args).fundingVout
          fundingAmountSats := (lspFactory saved pubkeys args).fundingAmountSats } := by
      rw [LspFactory.feePerTx,← show _ = _ from hfee]
      rfl
    _ = _ := by
      rw [hrestored]
      rfl

theorem lspFactory_spk : (lspFactory saved pubkeys args).fundingSpk.length ≤ 34 := by
  by_cases hlong : args.fundingSpk.length > 34
  · have hcarried := restored_carried (f := factoryInitFromPubkeys pubkeys args.stepBlocks
      args.statesPerLayer) saved.levels saved.factory.leafArity
      saved.factory.staticThresholdDepth (ofNat saved.factory.psSubfactoryArity)
    have hspk : _ = ([] : Bytes) := congrArg (fun c => c.2.2) hcarried
    rw [lspFactory,factorySetFunding,if_pos hlong]
    exact (congrArg List.length hspk).trans_le (Nat.zero_le 34)
  · rw [lspFactory,factorySetFunding,if_neg hlong]
    exact Nat.not_lt.mp hlong

theorem lspFactory_amount : (lspFactory saved pubkeys args).fundingAmountSats = 0 ∨
    (lspFactory saved pubkeys args).fundingAmountSats = args.fundingAmount := by
  by_cases hlong : args.fundingSpk.length > 34
  · have hrestored := restored_plan (f := factoryInitFromPubkeys pubkeys args.stepBlocks
      args.statesPerLayer) ⟨rfl,rfl,rfl,rfl,rfl⟩ saved.levels saved.factory.leafArity
      saved.factory.staticThresholdDepth (ofNat saved.factory.psSubfactoryArity)
    rw [lspFactory,factorySetFunding,if_pos hlong]
    exact .inl (congrArg Factory.fundingAmountSats hrestored :)
  · rw [lspFactory,factorySetFunding,if_neg hlong]
    exact .inr rfl

theorem lspFactory_profiles : (lspFactory saved pubkeys args).profiles = saved.factory.profiles := by
  by_cases hlong : args.fundingSpk.length > 34
  · rw [lspFactory,factorySetFunding,if_pos hlong]
  · rw [lspFactory,factorySetFunding,if_neg hlong]

end

section

variable (g : Factory) (terms : ProposedTerms) (pubkeys : List Pubkey) (k : UInt32)

def Factory.sentLevels : List UInt8 := (g.levelArity.map UInt8.ofNat).take factoryMaxLevels

structure Received (v : Factory) : Prop where
  plan : v.plan = plannedFactory pubkeys g.stepBlocks g.statesPerLayer (levelsOf g.sentLevels)
    (arityOf g.sentLevels g.leafArity) g.staticThresholdDepth (subfactoryArityOf k)
    (jsonU64 g.feePerTx) g.cltvTimeout g.fundingTxid g.fundingVout (jsonU64 g.fundingAmountSats)
  placement : v.placementMode = g.placementMode
  profiles : v.profiles =
    (((List.range g.nParticipants).map (wireProfile g terms)).take factoryMaxSigners).map
      ProfileItem.profile

variable {k pubkeys g terms} {dist : List UInt64}

theorem proposedFactory_received (hspk : g.fundingSpk.length ≤ 34) :
    ∃ v, proposedFactory k pubkeys { wireBuildFactoryPropose g terms with distAmounts := dist } =
        some v ∧ Received g terms pubkeys k v := by
  let base := { factoryInitFromPubkeys pubkeys g.stepBlocks g.statesPerLayer with
    cltvTimeout := g.cltvTimeout
    feePerTx := jsonU64 g.feePerTx
    placementMode := g.placementMode
    profiles := (((List.range g.nParticipants).map (wireProfile g terms)).take
      factoryMaxSigners).map ProfileItem.profile }
  let shaped := restoreSubfactories (restoreStatic (restoreArity base g.sentLevels g.leafArity)
    g.staticThresholdDepth) k
  have hplan := restored_plan (f := base) ⟨rfl,rfl,rfl,rfl,rfl⟩ g.sentLevels g.leafArity
    g.staticThresholdDepth k
  have hcarried := restored_carried (f := base) g.sentLevels g.leafArity g.staticThresholdDepth k
  have hset : proposedFactory k pubkeys
      { wireBuildFactoryPropose g terms with distAmounts := dist } =
      some { shaped with
        hasShachain := shaped.hasShachain || terms.lStockHashes ≠ []
        fundingTxid := g.fundingTxid
        fundingVout := g.fundingVout
        fundingAmountSats := jsonU64 g.fundingAmountSats
        fundingSpk := g.fundingSpk } :=
    congrArg some (if_neg (Nat.not_lt.mpr hspk))
  refine ⟨_,hset,?_,?_,?_⟩
  · exact congrArg (fun p : Factory => { p with
      fundingTxid := g.fundingTxid
      fundingVout := g.fundingVout
      fundingAmountSats := jsonU64 g.fundingAmountSats }) hplan
  · exact congrArg Prod.fst hcarried
  · exact congrArg (fun c => c.2.1) hcarried

end

end

end SuperScalar
