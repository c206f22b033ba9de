import SuperScalar.Ctv.LeafOutpoint
import SuperScalar.Foundation.Lists

namespace SuperScalar

open Bitcoin List

def subtreeCost (fanout slot : ℕ) : ℕ → ℕ
  | 0 => fanout*slot+240
  | d+1 => fanout * subtreeCost fanout slot d + 240

theorem subtreeCost_eq {fanout : ℕ} (hf : 2 ≤ fanout) (slot d : ℕ) :
    subtreeCost fanout slot d = fanout ^ (d+1) * slot + (fanout^(d+1)-1)/(fanout-1)*240 := by
  rw [← Nat.geomSum_eq hf]
  induction d with
  | zero => simp [subtreeCost]
  | succ d ih =>
    rw [subtreeCost,ih,geom_sum_succ (n := d+1)]
    ring

def outputSum (t : Tx) : ℕ := (t.outputs.map (fun o => o.amount.toNat)).sum

section

variable (secp : Secp) (lspPk : Pubkey) (fanout : UInt8) (slotDeposit : UInt64)
  (activationCltv : UInt32)

def ZeroFee : ℕ → OutPoint → List Pubkey → UInt64 → Prop
  | 0, current, users, amount =>
    ∃ children, layerChildren secp lspPk fanout slotDeposit activationCltv 0 users =
        some children ∧
      amount.toNat = outputSum (distTx current (layerOutputs children))
  | d+1, current, users, amount =>
    ∃ children, layerChildren secp lspPk fanout slotDeposit activationCltv (d+1) users =
        some children ∧
      amount.toNat = outputSum (distTx current (layerOutputs children)) ∧
      ∀ i c, children[i]? = some c →
        ZeroFee d ⟨(distTx current (layerOutputs children)).txid secp.sha256,UInt32.ofNat i⟩
          (childSlice users fanout.toNat i) c.1

variable {secp lspPk fanout slotDeposit activationCltv}

variable {d i : ℕ} {users : List Pubkey} {children : List (UInt64 × Blob 34)}
  {c : UInt64 × Blob 34}

theorem layer_total {cost : ℕ} (current : OutPoint) (hlen : children.length = fanout.toNat)
    (hall : ∀ c ∈ children, c.1.toNat = cost) (hfit : fanout.toNat*cost+240 < 2^64) :
    ((children.map Prod.fst).foldl (· + ·) 0 + ctvFactoryAnchorSats).toNat =
        fanout.toNat * cost + 240 ∧
      outputSum (distTx current (layerOutputs children)) = fanout.toNat*cost+240 := by
  have hmap : children.map (fun c => c.1.toNat) = replicate fanout.toNat cost := by
    rw [← hlen,← map_const']
    exact map_congr_left hall
  constructor
  · rw [UInt64.toNat_add,Lists.foldl_toNat,map_map]
    change (((0 + (children.map (fun c => c.1.toNat)).sum) % 2 ^ 64)+240) % 2 ^ 64 = _
    rw [hmap,sum_replicate,smul_eq_mul,Nat.zero_add,Nat.mod_add_mod,Nat.mod_eq_of_lt hfit]
  · have hsum := congrArg sum hmap
    rw [sum_replicate,smul_eq_mul] at hsum
    simp only [outputSum,distTx,layerOutputs,map_append,map_map,sum_append]
    exact congrArg (· + 240) hsum

theorem layerChildren_mem
    (h : layerChildren secp lspPk fanout slotDeposit activationCltv d users = some children)
    (hc : children[i]? = some c) :
    layerChild secp lspPk fanout slotDeposit activationCltv d users i = some c := by
  have hi : i < fanout.toNat := by
    rw [← layerChildren_length h]
    exact (List.getElem?_eq_some_iff.mp hc).1
  obtain ⟨c',hc',-,hchild⟩ := layerChildren_get h hi
  rwa [Option.mem_unique hc hc']

theorem subtree_zero_fee {sub : HierSubtree} (hf : 0 < fanout.toNat) (current : OutPoint)
    (hfit : subtreeCost fanout.toNat slotDeposit.toNat d < 2^64)
    (h : hierBuildSubtree secp lspPk fanout slotDeposit activationCltv d users = some sub) :
    sub.amount.toNat = subtreeCost fanout.toNat slotDeposit.toNat d ∧
      ZeroFee secp lspPk fanout slotDeposit activationCltv d current users sub.amount := by
  obtain ⟨children,hch,-,hamount⟩ := hierBuildSubtree_inv h
  have hlen := layerChildren_length hch
  induction d generalizing users sub current children with
  | zero =>
    have hall : ∀ c ∈ children, c.1.toNat = slotDeposit.toNat := by
      intro c hc
      obtain ⟨i,hi⟩ := mem_iff_getElem?.mp hc
      have hleaf := layerChildren_mem hch hi
      simp only [layerChild,leafChild,Option.bind_eq_bind,Option.bind_eq_some_iff,
        Option.some.injEq] at hleaf
      obtain ⟨-,-,-,-,rfl⟩ := hleaf
      rfl
    obtain ⟨htotal,hout⟩ := layer_total current hlen hall hfit
    rw [hamount]
    exact ⟨htotal,children,hch,htotal.trans hout.symm⟩
  | succ d ih =>
    have hle : subtreeCost fanout.toNat slotDeposit.toNat d <
        subtreeCost fanout.toNat slotDeposit.toNat (d+1) :=
      Nat.lt_succ_of_le ((Nat.le_mul_of_pos_left _ hf).trans (Nat.le_add_right _ 239))
    have hchild : ∀ i c, children[i]? = some c →
        c.1.toNat = subtreeCost fanout.toNat slotDeposit.toNat d ∧ ∀ current,
          ZeroFee secp lspPk fanout slotDeposit activationCltv d current
            (childSlice users fanout.toNat i) c.1 := by
      intro i c hc
      obtain ⟨child,hbuilt,hpair⟩ := Option.bind_eq_some_iff.mp (layerChildren_mem hch hc)
      cases hpair
      obtain ⟨grand,hgrand,-,hgrandAmount⟩ := hierBuildSubtree_inv hbuilt
      have hsub := fun current => ih current (hle.trans hfit) hbuilt grand hgrand hgrandAmount
        (layerChildren_length hgrand)
      exact ⟨(hsub current).1,fun current => (hsub current).2⟩
    have hall : ∀ c ∈ children, c.1.toNat = subtreeCost fanout.toNat slotDeposit.toNat d := by
      intro c hc
      obtain ⟨i,hi⟩ := mem_iff_getElem?.mp hc
      exact (hchild i c hi).1
    obtain ⟨htotal,hout⟩ := layer_total current hlen hall hfit
    rw [hamount]
    exact ⟨htotal,children,hch,htotal.trans hout.symm,fun i c hc => (hchild i c hc).2 _⟩

end

theorem hier_funding_covers_tree (secp : Secp) (f g : CtvHierFactory) (height : UInt32)
    (h : ctvHierFactoryBuild secp f height = some g)
    (hfit : g.nUsers*g.slotDepositSats.toNat +
      (g.fanout.toNat^g.depth.toNat-1) / (g.fanout.toNat-1) * 240 < 2^64)
    (funding : OutPoint) :
    g.totalFundingSats.toNat = g.nUsers*g.slotDepositSats.toNat +
      (g.fanout.toNat^g.depth.toNat-1) / (g.fanout.toNat-1) * 240 ∧
    ∃ root, hierBuildSubtree secp g.lspPubkey g.fanout g.slotDepositSats g.activationCltvAbsolute
        (g.depth.toNat-1) g.userPubkeys = some root ∧ root.th = g.rootTh ∧
      root.amount = g.totalFundingSats ∧
      ZeroFee secp g.lspPubkey g.fanout g.slotDepositSats g.activationCltvAbsolute
        (g.depth.toNat-1) funding g.userPubkeys g.totalFundingSats := by
  obtain ⟨hk,hd,hn,htotal,-,root,hroot,hth⟩ := ctvHierFactoryBuild_inv h
  have hcost := subtreeCost_eq hk g.slotDepositSats.toNat (g.depth.toNat-1)
  rw [← hn] at hcost
  rw [← Nat.sub_add_cancel hd,← hn] at hfit ⊢
  rw [Nat.mod_eq_of_lt hfit] at htotal
  obtain ⟨hamount,hzero⟩ := subtree_zero_fee (by omega) funding (hcost.trans_lt hfit) hroot
  have hsame : root.amount = g.totalFundingSats := by
    rw [← UInt64.toNat_inj,hamount,hcost,htotal]
  rw [hsame] at hzero
  exact ⟨htotal,root,hroot,hth,hsame,hzero⟩

theorem hier_funding_covers_tree_four_users :
    ∃ g, ctvHierFactoryBuild Secp.sample sampleHierFactory 800000 = some g ∧
      g.totalFundingSats.toNat = 4*50000+3*240 := by
  obtain ⟨g,hg,hfit,hsum⟩ : ∃ g,
      ctvHierFactoryBuild Secp.sample sampleHierFactory 800000 = some g ∧
      g.nUsers * g.slotDepositSats.toNat +
        (g.fanout.toNat^g.depth.toNat-1) / (g.fanout.toNat-1) * 240 < 2^64 ∧
      g.nUsers * g.slotDepositSats.toNat +
        (g.fanout.toNat^g.depth.toNat-1) / (g.fanout.toNat-1) * 240 = 4*50000+3*240 := by
    decide +kernel
  exact ⟨g,hg,(hier_funding_covers_tree _ _ g _ hg hfit ⟨Blob.zero 32,0⟩).1.trans hsum⟩

end SuperScalar
