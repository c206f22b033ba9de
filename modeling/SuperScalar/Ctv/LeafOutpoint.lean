import SuperScalar.Ctv.Hierarchical
import SuperScalar.Ctv.DistTx

namespace SuperScalar

open Bitcoin List Option Nat

def layerOutputs (children : List (UInt64 × Blob 34)) : List TxOut :=
  children.map (fun c => ⟨c.1,c.2.val⟩) ++ [anchorOut]

theorem serializeChildren_eq (children : List (UInt64 × Blob 34)) :
    serializeChildren children = TxOut.wire.putMany (layerOutputs children) := by
  have hc : (children.map (fun c => serializeOutput c.1 c.2.val 34)).flatten =
      TxOut.wire.putMany (children.map (fun c => ⟨c.1,c.2.val⟩)) := by
    rw [Wire.putMany,flatMap_map,← flatMap_def]
    exact flatMap_congr (fun c _ => serializeOutput_eq _ _ 34 c.2.property (by decide))
  rw [serializeChildren,hc,serializeAnchor_eq]
  simp [layerOutputs,Wire.putMany]

section

variable {α : Type} {users : List α} {fanout d : ℕ}

variable (hf : 0 < fanout)

include hf

theorem pow_width : fanout^(d+1)/fanout = fanout^d := by
  rw [pow_succ,Nat.mul_div_cancel _ hf]

variable (hl : users.length = fanout^(d+1))

include hl

theorem slice_width : users.length / fanout = fanout^d := by
  rw [hl,pow_width hf]

theorem childSlice_length {i : ℕ}
    (hi : i < fanout) : (childSlice users fanout i).length = fanout^d := by
  have hle : i*fanout^d + fanout^d ≤ fanout^(d+1) := by
    rw [pow_succ,mul_comm (fanout^d),← succ_mul]
    exact mul_le_mul_right _ hi
  rw [childSlice,slice_width hf hl,length_take,length_drop,hl]
  omega

theorem childSlice_getElem (idx : ℕ) :
    (childSlice users fanout (idx/fanout^d))[idx % fanout^d]? = users[idx]? := by
  have hpos : 0 < fanout^d := Nat.pow_pos hf
  have hlt := mod_lt idx hpos
  have hdm := div_add_mod' idx (fanout^d)
  simp only [childSlice,slice_width hf hl,getElem?_take,if_pos hlt,getElem?_drop,hdm]

end

section

variable (secp : Secp) (lspPk : Pubkey) (fanout : UInt8) (slotDeposit : UInt64)
  (activationCltv : UInt32)

def treeTxs : ℕ → OutPoint → List Pubkey → List Tx
  | 0, current, users =>
    match layerChildren secp lspPk fanout slotDeposit activationCltv 0 users with
    | none => []
    | some children => [distTx current (layerOutputs children)]
  | d+1, current, users =>
    match layerChildren secp lspPk fanout slotDeposit activationCltv (d+1) users with
    | none => []
    | some children =>
      let t := distTx current (layerOutputs children)
      t :: (range fanout.toNat).flatMap (fun i =>
        treeTxs d ⟨t.txid secp.sha256,UInt32.ofNat i⟩ (childSlice users fanout.toNat i))

-- A descent through the committed tree: at every layer some transaction of `txs` that spends
-- the current output and meets the template hash that output commits to.
inductive Walk (txs : Set Tx) :
    ℕ → List Pubkey → Blob 32 → OutPoint → ℕ → OutPoint → TxOut → Prop
  | leaf {users : List Pubkey} {th : Blob 32} {current : OutPoint} {idx : ℕ} {t : Tx} {o : TxOut}
      (spends : Spends secp.sha256 txs t current th) (slot : idx < fanout.toNat)
      (output : t.outputs[idx]? = some o) :
      Walk txs 0 users th current idx ⟨t.txid secp.sha256,UInt32.ofNat idx⟩ o
  | node {d : ℕ} {users : List Pubkey} {th : Blob 32} {current leaf : OutPoint} {idx i : ℕ} {t : Tx}
      {o : TxOut} {child : HierSubtree}
      (spends : Spends secp.sha256 txs t current th) (slot : i < fanout.toNat)
      (lower : i*(users.length/fanout.toNat) ≤ idx)
      (upper : idx < (i+1)*(users.length/fanout.toNat))
      (built : hierBuildSubtree secp lspPk fanout slotDeposit activationCltv d
        (childSlice users fanout.toNat i) = some child)
      (output : t.outputs[i]? = some ⟨child.amount,child.spk.val⟩)
      (rest : Walk txs d (childSlice users fanout.toNat i) child.th
        ⟨t.txid secp.sha256,UInt32.ofNat i⟩ (idx-i*(users.length/fanout.toNat)) leaf o) :
      Walk txs (d+1) users th current idx leaf o

variable {secp lspPk fanout slotDeposit activationCltv}

variable {d i : ℕ} {users : List Pubkey} {sub : HierSubtree} {children : List (UInt64 × Blob 34)}

theorem hierBuildSubtree_inv
    (h : hierBuildSubtree secp lspPk fanout slotDeposit activationCltv d users = some sub) :
    ∃ children, layerChildren secp lspPk fanout slotDeposit activationCltv d users =
        some children ∧
      sub.th = ctvTemplateHash secp 2 0 1 (secp.sha256 (wU32Le 0xFFFFFFFE)) (fanout.toUInt32+1)
        (secp.sha256 (serializeChildren children)) 0 ∧
      sub.amount = (children.map Prod.fst).foldl (· + ·) 0 + ctvFactoryAnchorSats := by
  cases d with
  | zero =>
    simp only [hierBuildSubtree,finishSubtree,bind_eq_bind,bind_eq_some_iff,some.injEq] at h
    obtain ⟨keyagg,-,children,hch,spk,-,rfl⟩ := h
    exact ⟨children,hch,rfl,rfl⟩
  | succ =>
    simp only [hierBuildSubtree,finishSubtree,bind_eq_bind,bind_eq_some_iff,some.injEq] at h
    obtain ⟨keyagg,-,children,hch,spk,-,rfl⟩ := h
    exact ⟨children,hch,rfl,rfl⟩

section

variable (h : layerChildren secp lspPk fanout slotDeposit activationCltv d users = some children)

include h

theorem layerChildren_length : children.length = fanout.toNat := by
  have hf := (mapM_option_iff _ _ _).mp h
  simpa using hf.length_eq.symm

theorem layerOutputs_length : (layerOutputs children).length = fanout.toNat+1 := by
  simp [layerOutputs,layerChildren_length h]

theorem layerChildren_get
    (hi : i < fanout.toNat) :
    ∃ c, children[i]? = some c ∧ (layerOutputs children)[i]? = some ⟨c.1,c.2.val⟩ ∧
      layerChild secp lspPk fanout slotDeposit activationCltv d users i = some c := by
  have hlen := layerChildren_length h
  have hf := (forall₂_iff_get.mp ((mapM_option_iff _ _ _).mp h)).2 i (by simpa using hi)
    (by omega)
  have hget : children[i]? = some (children.get ⟨i,by omega⟩) := by simp
  refine ⟨_,hget,?_,by simpa using hf⟩
  rw [layerOutputs,getElem?_append_left (by simp; omega),getElem?_map,hget]
  rfl

end

theorem computeLayerTxid_eq (current : OutPoint)
    (h : layerChildren secp lspPk fanout slotDeposit activationCltv d users = some children) :
    computeLayerTxid secp fanout current (serializeChildren children) =
      (distTx current (layerOutputs children)).txid secp.sha256 := by
  have hlt := fanout.toNat_lt
  have hcount := writeOutputCount_eq (fanout.toNat+1) (by omega)
  rw [← layerOutputs_length h] at hcount
  rw [computeLayerTxid,Tx.txid,distTx_serialize,← hcount,layerOutputs_length h,serializeChildren_eq]
  simp [sha256Double,sha256d]

theorem subtree_th_eq (current : OutPoint)
    (h : hierBuildSubtree secp lspPk fanout slotDeposit activationCltv d users = some sub) :
    ∃ children, layerChildren secp lspPk fanout slotDeposit activationCltv d users =
        some children ∧
      (distTx current (layerOutputs children)).templateHash secp.sha256 0 = sub.th := by
  obtain ⟨children,hch,hth,-⟩ := hierBuildSubtree_inv h
  refine ⟨children,hch,?_⟩
  rw [distTx_templateHash,hth,layerOutputs_length hch,serializeChildren_eq]
  congr 1

theorem treeTxs_root
    (h : layerChildren secp lspPk fanout slotDeposit activationCltv d users = some children)
    (current : OutPoint) : distTx current (layerOutputs children) ∈
      treeTxs secp lspPk fanout slotDeposit activationCltv d current users := by
  cases d <;> simp [treeTxs,h]

theorem treeTxs_child
    (h : layerChildren secp lspPk fanout slotDeposit activationCltv (d+1) users = some children)
    (current : OutPoint) (hi : i < fanout.toNat) {t : Tx}
    (ht : t ∈ treeTxs secp lspPk fanout slotDeposit activationCltv d
      ⟨(distTx current (layerOutputs children)).txid secp.sha256,UInt32.ofNat i⟩
      (childSlice users fanout.toNat i)) :
    t ∈ treeTxs secp lspPk fanout slotDeposit activationCltv (d+1) current users := by
  simp only [treeTxs,h,mem_cons,mem_flatMap,mem_range]
  exact Or.inr ⟨i,hi,ht⟩

theorem resolveLayers_zero
    (h : layerChildren secp lspPk fanout slotDeposit activationCltv 0 users = some children)
    (path : List ℕ) (current : OutPoint) :
    resolveLayers secp lspPk fanout slotDeposit activationCltv 0 path current users =
      some ((distTx current (layerOutputs children)).txid secp.sha256) := by
  simp [resolveLayers,h,computeLayerTxid_eq current h]

theorem resolveLayers_succ
    (h : layerChildren secp lspPk fanout slotDeposit activationCltv (d+1) users = some children)
    (hf : 0 < fanout.toNat) (current : OutPoint) (idx : ℕ) :
    resolveLayers secp lspPk fanout slotDeposit activationCltv (d+1)
        (leafPath fanout.toNat (d+1) (fanout.toNat^(d+2)) idx) current users =
      resolveLayers secp lspPk fanout slotDeposit activationCltv d
        (leafPath fanout.toNat d (fanout.toNat^(d+1)) (idx % fanout.toNat^(d+1)))
        ⟨(distTx current (layerOutputs children)).txid secp.sha256,
          UInt32.ofNat (idx/fanout.toNat^(d+1))⟩
        (childSlice users fanout.toNat (idx/fanout.toNat^(d+1))) := by
  simp [resolveLayers,h,computeLayerTxid_eq current h,leafPath,pow_width hf]

theorem slot_lt {k idx : ℕ} (h : idx < k^(d+1)) : idx/k^d < k := by
  apply Nat.div_lt_of_lt_mul
  rwa [← pow_succ]

theorem slot_inj {fanout : UInt8} {j : ℕ} (hi : i < fanout.toNat) (hj : j < fanout.toNat)
    (h : UInt32.ofNat i = UInt32.ofNat j) : i = j := by
  have hn := congrArg UInt32.toNat h
  have hlt := fanout.toNat_lt
  rwa [UInt32.toNat_ofNat',UInt32.toNat_ofNat',mod_eq_of_lt (by omega),
    mod_eq_of_lt (by omega)] at hn

section

variable {txs : Set Tx} (hsha : Set.InjOn secp.sha256 (messagesOf secp.sha256 txs))
  (hok : ∀ t ∈ txs, Tx.wire.ok t) (hf : 0 < fanout.toNat)

include hsha hok

theorem layer_unique {d : ℕ} {users : List Pubkey} {sub : HierSubtree} {current : OutPoint}
    {children : List (UInt64 × Blob 34)}
    (hth : (distTx current (layerOutputs children)).templateHash secp.sha256 0 = sub.th)
    (hch : layerChildren secp lspPk fanout slotDeposit activationCltv d users = some children)
    (hsub : ∀ t ∈ treeTxs secp lspPk fanout slotDeposit activationCltv d current users, t ∈ txs)
    {t : Tx} (ht : Spends secp.sha256 txs t current sub.th) :
    t = distTx current (layerOutputs children) :=
  Spends.unique secp.sha256 hsha hok (hsub _ (treeTxs_root hch current)) rfl rfl rfl hth ht

include hf

theorem resolve_walk (d : ℕ) : ∀ (users : List Pubkey) (current : OutPoint) (idx : ℕ)
    (sub : HierSubtree), users.length = fanout.toNat^(d+1) → idx < fanout.toNat^(d+1) →
    hierBuildSubtree secp lspPk fanout slotDeposit activationCltv d users = some sub →
    (∀ t ∈ treeTxs secp lspPk fanout slotDeposit activationCltv d current users, t ∈ txs) →
    ∃ txid o, resolveLayers secp lspPk fanout slotDeposit activationCltv d
        (leafPath fanout.toNat d (fanout.toNat^(d+1)) idx) current users = some txid ∧
      Walk secp lspPk fanout slotDeposit activationCltv txs d users sub.th current idx
        ⟨txid,UInt32.ofNat (idx % fanout.toNat)⟩ o ∧
      (∀ leaf other, Walk secp lspPk fanout slotDeposit activationCltv txs d users sub.th current
        idx leaf other → leaf = ⟨txid,UInt32.ofNat (idx % fanout.toNat)⟩ ∧ other = o) ∧
      ∃ u ka spk, users[idx]? = some u ∧
        buildUserLeafSpk2of2 secp lspPk u activationCltv = some (ka,spk) ∧
        o = ⟨slotDeposit,spk.val⟩ := by
  induction d with
  | zero =>
    intro users current idx sub hl hidx hsubtree htxs
    obtain ⟨children,hch,hth⟩ := subtree_th_eq current hsubtree
    have hidx' : idx < fanout.toNat := by simpa using hidx
    obtain ⟨c,-,hout,hchild⟩ := layerChildren_get hch hidx'
    have hmod := mod_eq_of_lt hidx'
    refine ⟨_,⟨c.1,c.2.val⟩,resolveLayers_zero hch _ current,?_,?_,?_⟩
    · rw [hmod]
      exact Walk.leaf ⟨htxs _ (treeTxs_root hch current),0,_,rfl,rfl,hth⟩ hidx' hout
    · intro leaf other hw
      cases hw with
      | leaf spends _ output =>
        obtain rfl := layer_unique hsha hok hth hch htxs spends
        rw [hmod]
        exact ⟨rfl,mem_unique output hout⟩
    · simp only [layerChild,leafChild,bind_eq_bind,bind_eq_some_iff,some.injEq] at hchild
      obtain ⟨u,hu,⟨ka,spk⟩,hspk,rfl⟩ := hchild
      exact ⟨u,ka,spk,hu,hspk,rfl⟩
  | succ d ih =>
    intro users current idx sub hl hidx hsubtree htxs
    obtain ⟨children,hch,hth⟩ := subtree_th_eq current hsubtree
    have hslot : idx/fanout.toNat^(d+1) < fanout.toNat := slot_lt hidx
    have hpos : 0 < fanout.toNat^(d+1) := Nat.pow_pos hf
    obtain ⟨c,-,hout,hchild⟩ := layerChildren_get hch hslot
    simp only [layerChild,hierComputeSubtreeSpk,bind_eq_bind,bind_eq_some_iff,some.injEq] at hchild
    obtain ⟨child,hbuilt,rfl⟩ := hchild
    have hwidth := slice_width hf hl
    have hdm := div_add_mod' idx (fanout.toNat^(d+1))
    have hlt := mod_lt idx hpos
    have hrest : idx-idx/fanout.toNat^(d+1)*(users.length/fanout.toNat) =
        idx % fanout.toNat^(d+1) := by
      rw [hwidth]
      exact Nat.sub_eq_of_eq_add' hdm.symm
    have hmm : idx % fanout.toNat^(d+1) % fanout.toNat = idx % fanout.toNat :=
      mod_mod_of_dvd _ (dvd_pow_self _ (succ_ne_zero d))
    have hclen := childSlice_length hf hl hslot
    obtain ⟨txid,o,hres,hwalk,huniq,hleaf⟩ := ih _ ⟨_,_⟩ _ child hclen hlt hbuilt
      (fun t ht => htxs t (treeTxs_child hch current hslot ht))
    rw [hmm] at hwalk huniq
    refine ⟨txid,o,(resolveLayers_succ hch hf current idx).trans hres,?_,?_,?_⟩
    · refine Walk.node ⟨htxs _ (treeTxs_root hch current),0,_,rfl,rfl,hth⟩ hslot ?_ ?_ hbuilt
        hout (by rw [hrest]; exact hwalk)
      · rw [hwidth]
        exact div_mul_le_self _ _
      · rw [hwidth,succ_mul]
        omega
    · intro leaf other hw
      cases hw with
      | @node _ _ _ _ _ _ i _ _ child' spends _ lower upper built _ rest =>
        obtain rfl := layer_unique hsha hok hth hch htxs spends
        obtain rfl : i = idx / fanout.toNat^(d + 1) := by
          rw [hwidth] at lower upper
          exact (Nat.div_eq_of_lt_le lower upper).symm
        obtain rfl := mem_unique built hbuilt
        rw [hrest] at rest
        exact huniq leaf other rest
    · obtain ⟨u,ka,spk,hu,hspk,ho⟩ := hleaf
      rw [childSlice_getElem hf hl] at hu
      exact ⟨u,ka,spk,hu,hspk,ho⟩

theorem resolve_inj (d : ℕ) : ∀ (users users' : List Pubkey) (current current' : OutPoint)
    (idx idx' : ℕ) (sub sub' : HierSubtree) (txid : Blob 32),
    users.length = fanout.toNat^(d+1) → users'.length = fanout.toNat^(d+1) →
    idx < fanout.toNat^(d+1) → idx' < fanout.toNat^(d+1) →
    hierBuildSubtree secp lspPk fanout slotDeposit activationCltv d users = some sub →
    hierBuildSubtree secp lspPk fanout slotDeposit activationCltv d users' = some sub' →
    (∀ t ∈ treeTxs secp lspPk fanout slotDeposit activationCltv d current users, t ∈ txs) →
    (∀ t ∈ treeTxs secp lspPk fanout slotDeposit activationCltv d current' users', t ∈ txs) →
    resolveLayers secp lspPk fanout slotDeposit activationCltv d
      (leafPath fanout.toNat d (fanout.toNat^(d+1)) idx) current users = some txid →
    resolveLayers secp lspPk fanout slotDeposit activationCltv d
      (leafPath fanout.toNat d (fanout.toNat^(d+1)) idx') current' users' = some txid →
    idx % fanout.toNat = idx' % fanout.toNat → current = current' ∧ idx = idx' := by
  have hinj := txid_injOn secp.sha256 hsha hok
  induction d with
  | zero =>
    intro users users' current current' idx idx' sub sub' txid hl hl' hi hi' hb hb' ht ht' hr hr' hm
    obtain ⟨children,hch,-⟩ := hierBuildSubtree_inv hb
    obtain ⟨children',hch',-⟩ := hierBuildSubtree_inv hb'
    rw [resolveLayers_zero hch,some.injEq] at hr
    rw [resolveLayers_zero hch',some.injEq] at hr'
    have htx := hinj (ht _ (treeTxs_root hch current)) (ht' _ (treeTxs_root hch' current'))
      (hr.trans hr'.symm)
    rw [zero_add,pow_one] at hi hi'
    rw [mod_eq_of_lt hi,mod_eq_of_lt hi'] at hm
    exact ⟨by simpa [distTx] using congrArg Tx.inputs htx,hm⟩
  | succ d ih =>
    intro users users' current current' idx idx' sub sub' txid hl hl' hi hi' hb hb' ht ht' hr hr' hm
    obtain ⟨children,hch,-⟩ := hierBuildSubtree_inv hb
    obtain ⟨children',hch',-⟩ := hierBuildSubtree_inv hb'
    have hpos : 0 < fanout.toNat^(d+1) := Nat.pow_pos hf
    have hs := slot_lt hi
    have hs' := slot_lt hi'
    obtain ⟨c,-,-,hc⟩ := layerChildren_get hch hs
    obtain ⟨c',-,-,hc'⟩ := layerChildren_get hch' hs'
    simp only [layerChild,hierComputeSubtreeSpk,bind_eq_bind,bind_eq_some_iff,some.injEq] at hc hc'
    obtain ⟨child,hbuilt,-⟩ := hc
    obtain ⟨child',hbuilt',-⟩ := hc'
    have hdvd : fanout.toNat ∣ fanout.toNat^(d+1) := dvd_pow_self _ (succ_ne_zero d)
    rw [resolveLayers_succ hch hf] at hr
    rw [resolveLayers_succ hch' hf] at hr'
    obtain ⟨hcur,hrem⟩ := ih _ _ _ _ _ _ child child' txid (childSlice_length hf hl hs)
      (childSlice_length hf hl' hs') (mod_lt _ hpos) (mod_lt _ hpos) hbuilt hbuilt'
      (fun t hmem => ht t (treeTxs_child hch current hs hmem))
      (fun t hmem => ht' t (treeTxs_child hch' current' hs' hmem)) hr hr'
      (by simp only [mod_mod_of_dvd _ hdvd,hm])
    simp only [OutPoint.mk.injEq] at hcur
    have htx := hinj (ht _ (treeTxs_root hch current)) (ht' _ (treeTxs_root hch' current')) hcur.1
    have hslots := slot_inj hs hs' hcur.2
    refine ⟨by simpa [distTx] using congrArg Tx.inputs htx,?_⟩
    rw [← div_add_mod' idx (fanout.toNat^(d+1)),hslots,hrem,div_add_mod']

end

end

theorem expectedUsers_eq {fanout layers n m : ℕ} (h : expectedUsers fanout layers n = some m) :
    m = n*fanout^layers := by
  induction layers generalizing n with
  | zero => simpa [expectedUsers] using h.symm
  | succ _ ih =>
    unfold expectedUsers at h
    split_ifs at h
    rw [ih h,pow_succ]
    ring

theorem expectedUsers_le {fanout layers n m : ℕ} (h : expectedUsers fanout layers n = some m)
    (hn : n ≤ ctvHierFactoryMaxUsers) : m ≤ ctvHierFactoryMaxUsers := by
  induction layers generalizing n with
  | zero =>
    cases h
    exact hn
  | succ _ ih =>
    unfold expectedUsers at h
    split_ifs at h with hle
    exact ih h (not_lt.mp hle)

variable {secp : Secp} {f : CtvHierFactory}

theorem ctvHierFactoryBuild_inv {g : CtvHierFactory} {height : UInt32}
    (h : ctvHierFactoryBuild secp f height = some g) :
    2 ≤ g.fanout.toNat ∧ 0 < g.depth.toNat ∧ g.nUsers = g.fanout.toNat^(g.depth.toNat-1+1) ∧
    g.totalFundingSats.toNat = (g.nUsers*g.slotDepositSats.toNat +
      (g.nUsers-1) / (g.fanout.toNat-1) * 240) % 2 ^ 64 ∧
    (∃ sweep, buildFactoryFundingSpk secp g.rootKeyagg (some g.rootTh) sweep =
      some g.fundingSpk) ∧
    ∃ root, hierBuildSubtree secp g.lspPubkey g.fanout g.slotDepositSats g.activationCltvAbsolute
      (g.depth.toNat-1) g.userPubkeys = some root ∧ root.th = g.rootTh := by
  unfold ctvHierFactoryBuild at h
  split_ifs at h with hbad
  simp only [bind_eq_bind,bind_eq_some_iff] at h
  obtain ⟨expectedN,hexp,h⟩ := h
  split_ifs at h with hn
  simp only [bind_eq_some_iff,some.injEq] at h
  obtain ⟨root,hroot,sweep,hsweep,spk,hspk,rfl⟩ := h
  simp only [not_or,not_not] at hbad hn
  have hd : 0 < f.depth.toNat := pos_of_ne_zero (fun hz => hbad.1 (UInt8.toNat_inj.mp hz))
  have hk : 2 ≤ f.fanout.toNat := UInt8.le_iff_toNat_le.mp (UInt8.not_lt.mp hbad.2.2.1)
  refine ⟨hk,hd,?_,?_,⟨sweep,hspk⟩,root,hroot,rfl⟩
  · change f.nUsers = f.fanout.toNat^(f.depth.toNat-1+1)
    rw [hn,expectedUsers_eq hexp,Nat.sub_add_cancel hd,one_mul]
  · change (UInt64.ofNat f.nUsers * f.slotDepositSats +
      (UInt32.ofNat ((expectedN-1)/(f.fanout.toNat-1))).toUInt64 * 240).toNat =
      (f.nUsers*f.slotDepositSats.toNat + (f.nUsers-1)/(f.fanout.toNat-1)*240) % 2 ^ 64
    have hmax := expectedUsers_le hexp (by decide)
    have hnodes : (expectedN-1)/(f.fanout.toNat-1) < 2^32 :=
      (div_le_self _ _).trans_lt (by rw [ctvHierFactoryMaxUsers] at hmax; omega)
    simp only [UInt64.toNat_add,UInt64.toNat_mul,UInt32.toNat_toUInt64,
      UInt32.toNat_ofNat_of_lt' hnodes,UInt64.toNat_ofNat',mod_mul_mod,← add_mod,hn]
    rfl

namespace CtvHierFactory

variable (secp : Secp) (f : CtvHierFactory)

def distTxs (funding : OutPoint) : List Tx :=
  treeTxs secp f.lspPubkey f.fanout f.slotDepositSats f.activationCltvAbsolute
    (f.depth.toNat-1) funding f.userPubkeys

def LeafWalk (txs : Set Tx) (funding : OutPoint) (userIndex : ℕ) (leaf : OutPoint) (o : TxOut) :
    Prop :=
  Walk secp f.lspPubkey f.fanout f.slotDepositSats f.activationCltvAbsolute txs
    (f.depth.toNat-1) f.userPubkeys f.rootTh funding userIndex leaf o

end CtvHierFactory

theorem computeLeafOutpoint_eq {funding : OutPoint} {userIndex : ℕ} {txid : Blob 32}
    (hn : f.nUsers = f.fanout.toNat^(f.depth.toNat-1+1)) (hi : userIndex < f.nUsers)
    (h : resolveLayers secp f.lspPubkey f.fanout f.slotDepositSats f.activationCltvAbsolute
      (f.depth.toNat-1) (leafPath f.fanout.toNat (f.depth.toNat-1)
        (f.fanout.toNat^(f.depth.toNat-1+1)) userIndex) funding f.userPubkeys = some txid) :
    ctvHierFactoryComputeLeafOutpoint secp f userIndex funding =
      some ⟨txid,UInt32.ofNat (userIndex % f.fanout.toNat)⟩ := by
  rw [← hn] at h
  simp [ctvHierFactoryComputeLeafOutpoint,not_le.mpr hi,h]

theorem leaf_outpoint_is_walk_end (secp : Secp) (f g : CtvHierFactory) (height : UInt32)
    (h : ctvHierFactoryBuild secp f height = some g) (funding : OutPoint) (txs : Set Tx)
    (hok : ∀ t ∈ txs, Tx.wire.ok t) (hdist : ∀ t ∈ g.distTxs secp funding, t ∈ txs)
    (hsha : Set.InjOn secp.sha256 (messagesOf secp.sha256 txs)) :
    (∃ sweep, buildFactoryFundingSpk secp g.rootKeyagg (some g.rootTh) sweep =
      some g.fundingSpk) ∧
    (∀ userIndex < g.nUsers, ∃ leaf o,
      ctvHierFactoryComputeLeafOutpoint secp g userIndex funding = some leaf ∧
      g.LeafWalk secp txs funding userIndex leaf o ∧
      (∀ leaf' o', g.LeafWalk secp txs funding userIndex leaf' o' → leaf' = leaf ∧ o' = o) ∧
      ∃ u ka spk, g.userPubkeys[userIndex]? = some u ∧
        buildUserLeafSpk2of2 secp g.lspPubkey u g.activationCltvAbsolute = some (ka,spk) ∧
        o = ⟨g.slotDepositSats,spk.val⟩) ∧
    ∀ i < g.nUsers, ∀ j < g.nUsers, i ≠ j →
      ctvHierFactoryComputeLeafOutpoint secp g i funding ≠
        ctvHierFactoryComputeLeafOutpoint secp g j funding := by
  obtain ⟨hk,-,hn,-,hspk,root,hroot,hth⟩ := ctvHierFactoryBuild_inv h
  have hf : 0 < g.fanout.toNat := by omega
  have hwalk : ∀ i (hi : i < g.nUsers), _ := fun i hi =>
    resolve_walk hsha hok hf _ g.userPubkeys funding i root hn (hn ▸ hi) hroot hdist
  refine ⟨hspk,fun i hi => ?_,fun i hi j hj hij heq => ?_⟩
  · obtain ⟨txid,o,hr,hw,huniq,hleaf⟩ := hwalk i hi
    rw [hth] at hw huniq
    exact ⟨_,o,computeLeafOutpoint_eq hn hi hr,hw,huniq,hleaf⟩
  · obtain ⟨txid,-,hr,-⟩ := hwalk i hi
    obtain ⟨txid',-,hr',-⟩ := hwalk j hj
    rw [computeLeafOutpoint_eq hn hi hr,computeLeafOutpoint_eq hn hj hr',some.injEq,
      OutPoint.mk.injEq] at heq
    obtain ⟨rfl,hv⟩ := heq
    have hm := slot_inj (mod_lt i hf) (mod_lt j hf) hv
    exact hij (resolve_inj hsha hok hf _ _ _ _ _ i j root root txid hn hn (hn ▸ hi) (hn ▸ hj)
      hroot hroot hdist hdist hr hr' hm).2

def sampleHierFactory : CtvHierFactory where
  depth := 2
  fanout := 2
  slotDepositSats := 50000
  recoveryOffsetBlocks := 4320
  activationOffsetBlocks := 144
  lspPubkey := Blob.zero 64
  userPubkeys := [sampleKey 1,sampleKey 2,sampleKey 3,sampleKey 4]
  nInternalNodes := 0
  totalFundingSats := 0
  recoveryCltvAbsolute := 0
  activationCltvAbsolute := 0
  rootTh := Blob.zero 32
  rootKeyagg := ⟨Blob.zero 64,Blob.zero 197⟩
  fundingSpk := Blob.zero 34

theorem leaf_outpoint_is_walk_end_four_users :
    ∃ g, ctvHierFactoryBuild Secp.sample sampleHierFactory 800000 = some g ∧
      ctvHierFactoryComputeLeafOutpoint Secp.sample g 1 ⟨Blob.zero 32,0⟩ ≠
        ctvHierFactoryComputeLeafOutpoint Secp.sample g 3 ⟨Blob.zero 32,0⟩ := by
  obtain ⟨g,hg,hn,hok,hfree⟩ : ∃ g,
      ctvHierFactoryBuild Secp.sample sampleHierFactory 800000 = some g ∧ 3 < g.nUsers ∧
      (∀ t ∈ g.distTxs Secp.sample ⟨Blob.zero 32,0⟩, t.inputs.length < 256^8 ∧
        (∀ i ∈ t.inputs, i.scriptSig.length < 256^8) ∧ t.outputs.length < 256^8 ∧
          ∀ o ∈ t.outputs, o.script.length < 256^8) ∧
      CollisionFree Secp.sample.sha256 (g.distTxs Secp.sample ⟨Blob.zero 32,0⟩) := by
    decide +kernel
  obtain ⟨-,-,hdistinct⟩ := leaf_outpoint_is_walk_end _ _ g _ hg ⟨Blob.zero 32,0⟩
    {t | t ∈ g.distTxs Secp.sample ⟨Blob.zero 32,0⟩}
    (fun t ht => (Tx.ok_iff t).mpr ⟨⟨(hok t ht).1,(hok t ht).2.1⟩,(hok t ht).2.2⟩)
    (fun _ ht => ht) hfree.injOn
  exact ⟨g,hg,hdistinct 1 (by omega) 3 hn (by decide)⟩

end SuperScalar
