import SuperScalar.Foundation.Chunks
import SuperScalar.Factory.Build

namespace SuperScalar

open Bitcoin List Option UInt64 Nat

def outputTotal (outs : List TxOut) : ℕ := (outs.map (fun o => o.amount.toNat)).sum

@[simp] theorem outputTotal_nil : outputTotal [] = 0 := rfl

@[simp] theorem outputTotal_cons (o : TxOut) (outs : List TxOut) :
    outputTotal (o :: outs) = o.amount.toNat + outputTotal outs := by
  simp [outputTotal]

@[simp] theorem outputTotal_append (xs ys : List TxOut) :
    outputTotal (xs++ys) = outputTotal xs + outputTotal ys := by
  simp [outputTotal]

def FactoryNode.clients (n : FactoryNode) : List ℕ := n.signerIndices.tail

structure Unchained (n : FactoryNode) : Prop where
  len : n.psChainLen = 0
  amount : n.psPrevChanAmount = 0
  prevOutputs : n.psNPrevOutputs = 0

structure Fresh (n : FactoryNode) (type : FactoryNodeType) (clients : List ℕ) (parent : Option ℕ)
    (vout : ℕ) (layer : Option ℕ) : Prop where
  type : n.type = type
  signers : n.signerIndices = 0 :: clients
  parent : n.parentIndex = parent
  vout : n.parentVout = vout
  layer : n.dwLayerIndex = layer
  children : n.childIndices = []
  subs : n.subfactoryNodeIndices = []
  chain : Unchained n
  ps : n.isPsLeaf = false
  moving : n.isStaticOnly = false

section

variable {env : Env} {f : Factory}

variable {clients : List ℕ} {per input : UInt64} {outs : List TxOut} {subs : List FactoryNode}
  {stIdx arity : ℕ} {st st' : FactoryNode}

theorem addNode_fresh {nNodes vout : ℕ} {type : FactoryNodeType} {parent layer : Option ℕ}
    {cltv : UInt32} {n : FactoryNode}
    (h : addNode env f nNodes type (0 :: clients) parent vout layer cltv = some n) :
    Fresh n type clients parent vout layer := by
  rw [addNode] at h
  split at h
  · cases h
  · split at h <;>
    · simp only [bind_eq_bind,bind_eq_some_iff,some.injEq] at h
      obtain ⟨_,_,_,_,rfl⟩ := h
      exact ⟨rfl,rfl,rfl,rfl,rfl,rfl,rfl,⟨rfl,rfl,rfl⟩,rfl,rfl⟩

structure LeafOutputs (env : Env) (f : Factory) (keyagg : Keyagg) (clients : List ℕ)
    (total : UInt64) (outs : List TxOut) : Prop where
  total : outputTotal outs = total.toNat
  channels : ∃ (per last : UInt64) (spks : List (Blob 34)) (lStock : Blob 34),
    Forall₂ (fun c spk => channelSpk env f c = some spk) clients spks ∧
    buildLStockSpk env f keyagg = some lStock ∧
    outs = spks.map (fun spk => ⟨per,spk.val⟩) ++ [⟨last,lStock.val⟩]

theorem equal_shares_total {t c : UInt64} {n : ℕ} (hn : n+1 < 2^64)
    (hcount : c = UInt64.ofNat (n+1)) (hshare : per = t/c) :
    n * per.toNat + (per + (t-per*c)).toNat = t.toNat := by
  subst hcount
  have hlt := t.toNat_lt
  have hofNat : (UInt64.ofNat (n+1)).toNat = n+1 := UInt64.toNat_ofNat_of_lt' hn
  have hper : per.toNat = t.toNat/(n+1) := by rw [hshare,UInt64.toNat_div,hofNat]
  have hle : per.toNat*(n+1) ≤ t.toNat := by
    rw [hper]
    exact Nat.div_mul_le_self _ _
  have hprod : (per * UInt64.ofNat (n+1)).toNat = per.toNat*(n+1) := by
    rw [UInt64.toNat_mul,hofNat,Nat.mod_eq_of_lt (by omega)]
  have hsub : (t-per * UInt64.ofNat (n+1)).toNat = t.toNat-per.toNat*(n+1) := by
    rw [UInt64.toNat_sub_of_le _ _ (by rw [UInt64.le_iff_toNat_le]; omega),hprod]
  have hexp : per.toNat*(n+1) = n*per.toNat + per.toNat := by ring
  rw [UInt64.toNat_add,hsub,Nat.mod_eq_of_lt (by omega)]
  omega

theorem channel_scripts {channels : List TxOut}
    (h : Forall₂ (fun c o => (channelSpk env f c).map
      (fun spk => (⟨per,spk.val⟩ : TxOut)) = some o) clients channels) :
    ∃ spks : List (Blob 34),
      Forall₂ (fun c spk => channelSpk env f c = some spk) clients spks ∧
      channels = spks.map (fun spk => ⟨per,spk.val⟩) := by
  induction h with
  | nil => exact ⟨[],.nil,rfl⟩
  | cons hhead _ ih =>
    obtain ⟨spk,hspk,rfl⟩ := map_eq_some_iff.mp hhead
    obtain ⟨spks,hall,rfl⟩ := ih
    exact ⟨spk :: spks,.cons hspk hall,rfl⟩

theorem leafOutputs_spec {keyagg : Keyagg} {total : UInt64} (hlen : clients.length+1 < 2^64)
    (h : leafOutputs env f keyagg clients total = some outs) :
    LeafOutputs env f keyagg clients total outs := by
  rw [leafOutputs] at h
  split at h
  · cases h
  simp only [bind_eq_bind,bind_eq_some_iff,some.injEq] at h
  obtain ⟨channels,hchannels,lStock,hlStock,rfl⟩ := h
  obtain ⟨spks,hall,rfl⟩ := channel_scripts ((mapM_option_iff _ _ _).mp hchannels)
  refine ⟨?_,_,_,spks,lStock,hall,hlStock,rfl⟩
  have hsum : outputTotal (spks.map (fun spk =>
      (⟨total / ofNat (clients.length+1),spk.val⟩ : TxOut))) =
      clients.length * (total / ofNat (clients.length+1)).toNat := by
    rw [hall.length_eq]
    simp [outputTotal,Function.comp_def]
  rw [outputTotal_append,hsum,outputTotal_cons,outputTotal_nil,add_zero]
  exact equal_shares_total hlen rfl rfl

structure SubSetup (env : Env) (f : Factory) (leafIdx si : ℕ) (clients : List ℕ)
    (input : UInt64) (sub : FactoryNode) : Prop where
  nonEmpty : clients ≠ []
  type : sub.type = .psSubfactory
  signers : sub.signerIndices = 0 :: clients
  parent : sub.parentIndex = some leafIdx
  vout : sub.parentVout = si
  children : sub.childIndices = []
  subs : sub.subfactoryNodeIndices = []
  chain : Unchained sub
  ps : sub.isPsLeaf = true
  moving : sub.isStaticOnly = false
  amount : sub.inputAmount = input
  fee : f.feePerTx < input
  outputs : LeafOutputs env f sub.keyagg clients (input-f.feePerTx) sub.outputs

theorem setupNwayLeafOutputs_spec {node node' : FactoryNode} {amount : UInt64}
    (h : setupNwayLeafOutputs env f node clients amount = some node') :
    f.feePerTx < amount ∧ ∃ outs, LeafOutputs env f node.keyagg clients (amount-f.feePerTx) outs ∧
      node' = { node with outputs := outs } := by
  have hcap := f.config.outputs_le
  rw [setupNwayLeafOutputs] at h
  split at h
  · cases h
  split at h
  · cases h
  simp only [bind_eq_bind,bind_eq_some_iff,some.injEq] at h
  obtain ⟨outs,houts,rfl⟩ := h
  exact ⟨by simp_all,outs,leafOutputs_spec (by omega) houts,rfl⟩

theorem buildSubfactories_spec {leafIdx perSub : ℕ} {perOutput : UInt64} {count si : ℕ}
    (hper : 0 < perSub)
    (h : buildSubfactories env f leafIdx perSub perOutput clients count si = some subs) :
    subs.length = count ∧ (0 < count → (si + count-1)*perSub < clients.length) ∧
      ∀ i sub, subs[i]? = some sub → SubSetup env f leafIdx (si+i)
        ((clients.drop ((si+i)*perSub)).take perSub) perOutput sub := by
  induction count generalizing si subs with
  | zero =>
    obtain rfl : subs = [] := by simpa [buildSubfactories,eq_comm] using h
    simp
  | succ count ih =>
    rw [buildSubfactories] at h
    split at h
    · cases h
    next hstart =>
    simp only [bind_eq_bind,bind_eq_some_iff,some.injEq] at h
    obtain ⟨node,hnode,sub,hsub,rest,hrest,rfl⟩ := h
    obtain ⟨hlen,hlast,hall⟩ := ih hrest
    have hfresh := addNode_fresh hnode
    obtain ⟨hfee,outs,houts,rfl⟩ := setupNwayLeafOutputs_spec hsub
    refine ⟨by simp [hlen],?_,?_⟩
    · intro _
      rcases Nat.eq_zero_or_pos count with rfl | hpos
      · simpa using hstart
      · have := hlast hpos
        rwa [show si + (count+1)-1 = si+1 + count-1 by omega]
    · intro i sub' hget
      cases i with
      | zero =>
        obtain rfl : _ = sub' := by simpa using hget
        refine ⟨?_,hfresh.type,hfresh.signers,hfresh.parent,hfresh.vout,hfresh.children,
          hfresh.subs,⟨rfl,hfresh.chain.amount,hfresh.chain.prevOutputs⟩,rfl,hfresh.moving,rfl,
          hfee,houts⟩
        rw [add_zero,ne_eq,take_eq_nil_iff,drop_eq_nil_iff]
        omega
      | succ i =>
        have hsetup := hall i sub' (by simpa using hget)
        rwa [show si+1 + i = si + (i+1) by omega] at hsetup

structure SameNode (st st' : FactoryNode) : Prop where
  type : st'.type = st.type
  signers : st'.signerIndices = st.signerIndices
  keyagg : st'.keyagg = st.keyagg
  spk : st'.spendingSpk = st.spendingSpk
  parent : st'.parentIndex = st.parentIndex
  vout : st'.parentVout = st.parentVout
  layer : st'.dwLayerIndex = st.dwLayerIndex
  amount : st'.inputAmount = st.inputAmount
  moving : st'.isStaticOnly = st.isStaticOnly

structure LeafSetup (env : Env) (f : Factory) (arity stIdx : ℕ) (st : FactoryNode)
    (clients : List ℕ) (input : UInt64) (st' : FactoryNode) (subs : List FactoryNode) : Prop where
  same : SameNode st st'
  chain : Unchained st → Unchained st'
  ps : st.isPsLeaf = false → st'.isPsLeaf = decide (arity = factoryArityPs)
  children : st.childIndices = [] → st'.childIndices = (range subs.length).map (stIdx+1 + ·)
  subIndices : st.subfactoryNodeIndices = [] →
    st'.subfactoryNodeIndices = (range subs.length).map (stIdx+1 + ·)
  total : f.feePerTx ≤ input → outputTotal st'.outputs + f.feePerTx.toNat = input.toNat
  lStock : ∃ front last lStock, buildLStockSpk env f st.keyagg = some lStock ∧
    st'.outputs = front ++ [⟨last,lStock.val⟩] ∧ front ≠ []
  direct : arity ≠ factoryArityPs →
    LeafOutputs env f st.keyagg clients (input-f.feePerTx) st'.outputs
  consensus : arity = factoryArityPs → f.psSubfactoryArity ≤ 1 →
    ∃ amount, st'.outputs[0]? = some ⟨amount,st.spendingSpk.val⟩
  noSubs : arity ≠ factoryArityPs ∨ f.psSubfactoryArity ≤ 1 → subs = []
  split : arity = factoryArityPs → 1 < f.psSubfactoryArity →
    subs.length = f.psSubfactoryArity ∧ clients.length ≤ f.psSubfactoryArity*f.psSubfactoryArity
      ∧ (f.psSubfactoryArity-1) *
        ((clients.length + f.psSubfactoryArity-1)/f.psSubfactoryArity) < clients.length
  subs : ∀ si sub, subs[si]? = some sub → ∃ amount,
    SubSetup env f stIdx si ((clients.drop
      (si*((clients.length + f.psSubfactoryArity-1)/f.psSubfactoryArity))).take
      ((clients.length + f.psSubfactoryArity-1)/f.psSubfactoryArity)) amount sub ∧
    st'.outputs[si]? = some ⟨amount,sub.spendingSpk.val⟩

theorem leafSetup_direct (harity : arity ≠ factoryArityPs) (hne : clients ≠ [])
    (houts : LeafOutputs env f st.keyagg clients (input-f.feePerTx) outs)
    (hst : st' = { st with outputs := outs }) :
    LeafSetup env f arity stIdx st clients input st' [] where
  same := by subst hst; constructor <;> rfl
  chain h := by subst hst; exact ⟨h.len,h.amount,h.prevOutputs⟩
  ps h := by rw [hst,decide_eq_false harity]; exact h
  children h := by rw [hst]; exact h
  subIndices h := by rw [hst]; exact h
  total h := by
    rw [hst,houts.total,UInt64.toNat_sub_of_le _ _ h]
    exact Nat.sub_add_cancel (UInt64.le_iff_toNat_le.mp h)
  lStock := by
    obtain ⟨per,last,spks,lStock,hall,hlStock,rfl⟩ := houts.channels
    refine ⟨_,last,lStock,hlStock,by rw [hst],?_⟩
    intro hnil
    have hlen := hall.length_eq
    rw [List.map_eq_nil_iff.mp hnil] at hlen
    exact hne (List.length_eq_zero_iff.mp hlen)
  direct _ := by rw [hst]; exact houts
  consensus h := absurd h harity
  noSubs _ := rfl
  split h := absurd h harity
  subs := by simp

theorem setupPsLeafOutputs_spec (hk : f.psSubfactoryArity ≤ 1)
    (h : setupPsLeafOutputs env f st input = some st') :
    LeafSetup env f factoryArityPs stIdx st clients input st' [] := by
  rw [setupPsLeafOutputs] at h
  -- The dust check fails on the zero total that stands for an input below the fee.
  have hfee : input > f.feePerTx := by
    by_contra hle
    rw [if_neg hle] at h
    cases h
  rw [if_pos hfee] at h
  split at h
  · cases h
  simp only [Option.bind_eq_bind,Option.bind_eq_some_iff,Option.some.injEq] at h
  obtain ⟨lStock,hlStock,rfl⟩ := h
  have hshares := equal_shares_total (t := input-f.feePerTx) (c := 2)
    (by decide) rfl rfl
  have hle : f.feePerTx ≤ input := UInt64.le_of_lt hfee
  exact {
    same := by constructor <;> rfl
    chain := fun h => ⟨rfl,rfl,h.prevOutputs⟩
    ps := fun _ => rfl
    children := fun h => h
    subIndices := fun h => h
    total := by
      intro _
      have hsub := UInt64.toNat_sub_of_le _ _ hle
      have hnat := UInt64.le_iff_toNat_le.mp hle
      simp only [outputTotal_cons,outputTotal_nil]
      rw [Nat.one_mul,hsub] at hshares
      omega
    lStock := ⟨[_],_,lStock,hlStock,rfl,by simp⟩
    direct := fun h => absurd rfl h
    consensus := fun _ _ => ⟨_,rfl⟩
    noSubs := fun _ => rfl
    split := fun _ h => absurd h (by omega)
    subs := by simp }

theorem setupPsLeafWithSubfactories_spec
    (h : setupPsLeafWithSubfactories env f stIdx st clients input = some (st',subs)) :
    LeafSetup env f factoryArityPs stIdx st clients input st' subs := by
  have hcap := f.config.outputs_le
  rw [setupPsLeafWithSubfactories] at h
  split at h
  · cases h
  next hbad =>
  dsimp only at h
  split at h
  · cases h
  next hlimits =>
  split at h
  · cases h
  simp only [not_or] at hbad hlimits
  obtain ⟨hk,hclients,hsize⟩ := hbad
  obtain ⟨hper,houtputs,hfee⟩ := hlimits
  simp only [Option.bind_eq_bind,Option.bind_eq_some_iff,Option.some.injEq,Prod.mk.injEq] at h
  obtain ⟨built,hbuilt,lStock,hlStock,rfl,rfl⟩ := h
  have hceil : (clients.length + f.psSubfactoryArity-1)/f.psSubfactoryArity ≤
      f.psSubfactoryArity := by
    rw [Nat.div_le_iff_le_mul_add_pred (by omega)]
    omega
  rw [Nat.min_eq_left hceil] at hbuilt hper
  obtain ⟨hlen,hlast,hall⟩ := buildSubfactories_spec (Nat.pos_of_ne_zero hper) hbuilt
  have hle : f.feePerTx ≤ input := UInt64.le_of_lt (by simpa using hfee)
  have hshares := equal_shares_total (t := input-f.feePerTx) (n := f.psSubfactoryArity)
    (by omega) rfl rfl
  exact {
    same := by constructor <;> rfl
    chain := fun h => ⟨rfl,rfl,h.prevOutputs⟩
    ps := fun _ => rfl
    children := fun _ => by rw [hlen]
    subIndices := fun _ => by rw [hlen]
    total := by
      intro _
      have hsub := UInt64.toNat_sub_of_le _ _ hle
      have hnat := UInt64.le_iff_toNat_le.mp hle
      have hsum : outputTotal (built.map (fun sub => (⟨(input-f.feePerTx) /
          UInt64.ofNat (f.psSubfactoryArity+1),sub.spendingSpk.val⟩ : TxOut))) =
          f.psSubfactoryArity * ((input-f.feePerTx) /
            UInt64.ofNat (f.psSubfactoryArity+1)).toNat := by
        rw [← hlen]
        simp [outputTotal,Function.comp_def]
      rw [hsub] at hshares
      rw [outputTotal_append,hsum,outputTotal_cons,outputTotal_nil]
      exact (congrArg (· + f.feePerTx.toNat) hshares).trans (Nat.sub_add_cancel hnat)
    lStock := by
      refine ⟨_,_,lStock,hlStock,rfl,?_⟩
      intro hnil
      rw [List.map_eq_nil_iff.mp hnil] at hlen
      simp only [List.length_nil] at hlen
      omega
    direct := fun h => absurd rfl h
    consensus := fun _ h => absurd h hk
    noSubs := by
      rintro (h | h)
      · exact absurd rfl h
      · exact absurd h hk
    split := by
      intro _ _
      have hcover := hlast (by omega)
      rw [Nat.zero_add] at hcover
      exact ⟨hlen,by omega,hcover⟩
    subs := by
      intro si sub hget
      have hsetup := hall si sub hget
      rw [Nat.zero_add] at hsetup
      refine ⟨_,hsetup,?_⟩
      have hlt := (List.getElem?_eq_some_iff.mp hget).1
      rw [List.getElem?_append_left (by simpa using hlt),List.getElem?_map,hget]
      rfl }

theorem setupLeaf_spec (hne : clients ≠ [])
    (h : setupLeaf env f arity stIdx st clients input = some (st',subs)) :
    LeafSetup env f arity stIdx st clients input st' subs := by
  rw [setupLeaf] at h
  split at h
  · next harity =>
    subst harity
    split at h
    · exact setupPsLeafWithSubfactories_spec h
    · next hk =>
      simp only [map_eq_some_iff,Prod.mk.injEq] at h
      obtain ⟨_,hst,rfl,rfl⟩ := h
      exact setupPsLeafOutputs_spec (by omega) hst
  next harity =>
  split at h
  · next hone =>
    obtain ⟨c,rfl⟩ := length_eq_one_iff.mp hone
    simp only [setupSingleLeafOutputs,bind_eq_bind,map_eq_some_iff,
      bind_eq_some_iff,some.injEq,Prod.mk.injEq] at h
    obtain ⟨_,⟨outs,houts,hst⟩,rfl,rfl⟩ := h
    exact leafSetup_direct harity hne (leafOutputs_spec (by simp) houts) hst.symm
  split at h
  · next htwo =>
    obtain ⟨a,b,rfl⟩ := length_eq_two.mp htwo.2
    simp only [setupLeafOutputs,bind_eq_bind,map_eq_some_iff,
      bind_eq_some_iff,some.injEq,Prod.mk.injEq] at h
    obtain ⟨_,⟨outs,houts,hst⟩,rfl,rfl⟩ := h
    exact leafSetup_direct harity hne (leafOutputs_spec (by simp) houts) hst.symm
  · simp only [map_eq_some_iff,Prod.mk.injEq] at h
    obtain ⟨_,hst,rfl,rfl⟩ := h
    obtain ⟨-,outs,houts,rfl⟩ := setupNwayLeafOutputs_spec hst
    exact leafSetup_direct harity hne houts rfl

theorem LeafSetup.subClients (h : LeafSetup env f arity stIdx st clients input st' subs)
    (hne : subs ≠ []) : subs.flatMap FactoryNode.clients = clients := by
  have hps : arity = factoryArityPs ∧ 1 < f.psSubfactoryArity := by
    by_contra hnot
    refine hne (h.noSubs ?_)
    by_cases harity : arity = factoryArityPs
    · exact Or.inr (by omega)
    · exact Or.inl harity
  obtain ⟨hlen,-,-⟩ := h.split hps.1 hps.2
  have hslices := Chunks.slices_concat clients
    ((clients.length + f.psSubfactoryArity-1)/f.psSubfactoryArity) f.psSubfactoryArity
  have hcover : clients.length ≤ f.psSubfactoryArity *
      ((clients.length + f.psSubfactoryArity-1)/f.psSubfactoryArity) := by
    have := lt_mul_div_succ (clients.length + f.psSubfactoryArity-1)
      (b := f.psSubfactoryArity) (by omega)
    rw [mul_add] at this
    omega
  rw [take_of_length_le hcover] at hslices
  rw [← hslices,flatMap_def,flatMap_def]
  congr 1
  apply ext_getElem?
  intro si
  simp only [getElem?_map]
  by_cases hsi : si < f.psSubfactoryArity
  · obtain ⟨amount,hsub,-⟩ := h.subs si (subs[si]) (getElem?_eq_getElem (by omega))
    rw [getElem?_range hsi,getElem?_eq_getElem (by omega),map_some,
      map_some,FactoryNode.clients,hsub.signers]
    rfl
  · rw [getElem?_eq_none (by omega),getElem?_eq_none (by simpa using hsi)]
    rfl

end

end SuperScalar
