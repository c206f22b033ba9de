import SuperScalar.Lsp.Liquidity

namespace SuperScalar

open Bitcoin Option

section

variable (env : Env) (f : Factory) (mgr : LspMgr) (clientIdx : ℕ) (amountSats : UInt64)

structure Bought (ln : FactoryNode) (mgr' : LspMgr) : Prop where
  conserved : lspChannelsCheckConservation mgr' = true
  buyer : ∀ ch ch', mgr.channel? clientIdx = some ch → mgr'.channel? clientIdx = some ch' →
    ch'.remoteAmount = ch.remoteAmount ∧
      ch'.localAmount.toNat = ch.localAmount.toNat + amountSats.toNat
  others : ∀ c ch ch', c ≠ clientIdx → c+1 ∈ ln.signerIndices → mgr.channel? c = some ch →
    mgr'.channel? c = some ch' → ch'.localAmount = ch.localAmount ∧
      ch'.remoteAmount = ch.remoteAmount ∧
      ch'.htlcs.filter Htlc.isActive = ch.htlcs.filter Htlc.isActive

variable (ln : FactoryNode)

def newAmount (c : ℕ) : Option UInt64 :=
  reallocAmount f ln.signerIndices (purchaseAmounts ln (buyerLeaf f clientIdx).2 amountSats) c

def newFunding (c : ℕ) (ch : Channel) : UInt64 :=
  let kept := (newAmount f clientIdx amountSats ln c).getD ch.fundingAmount
  match factoryClientToLeaf f c with
  | none => kept
  | some (ni,vout) =>
    if ni ≠ (buyerLeaf f clientIdx).1 then kept
    else ((purchaseAmounts ln (buyerLeaf f clientIdx).2 amountSats)[vout]?).getD kept

def newSplit (c : ℕ) (ch : Channel) : UInt64 × UInt64 :=
  match newAmount f clientIdx amountSats ln c with
  | none => (ch.localAmount,ch.remoteAmount)
  | some amount => mgr.split amount

def newBalances (c : ℕ) (ch : Channel) : UInt64 × UInt64 :=
  let split := newSplit f mgr clientIdx amountSats ln c ch
  if c = clientIdx then
    (split.1 + amountSats*1000,if split.2 ≥ amountSats*1000 then split.2-amountSats*1000 else 0)
  else split

structure Purchasable (leafSide : ℕ) : Prop where
  advances : (factoryAdvanceLeafUnsigned env f leafSide).2 ≠ -1
  buyer : ∀ ch, mgr.channel? clientIdx = some ch →
    (newBalances f mgr clientIdx amountSats ln clientIdx ch).2 = ch.remoteAmount ∧
      (newBalances f mgr clientIdx amountSats ln clientIdx ch).1.toNat =
        ch.localAmount.toNat + amountSats.toNat
  others : ∀ c ch, c ≠ clientIdx → c+1 ∈ ln.signerIndices → mgr.channel? c = some ch →
    newSplit f mgr clientIdx amountSats ln c ch = (ch.localAmount,ch.remoteAmount)
  funded : ∀ c ch, mgr.channel? c = some ch →
    ({ ch with
      fundingAmount := newFunding f clientIdx amountSats ln c ch
      localAmount :=
        if c = clientIdx then ch.localAmount + amountSats else ch.localAmount } : Channel).conserves =
      true

structure Repriced (c : ℕ) (ch ch' : Channel) : Prop where
  funding : ch'.fundingAmount = newFunding f clientIdx amountSats ln c ch
  balances : (ch'.localAmount,ch'.remoteAmount) = newBalances f mgr clientIdx amountSats ln c ch
  htlcs : ch'.htlcs = ch.htlcs
  ptlcs : ch'.ptlcs = ch.ptlcs
  feeRate : ch'.feeRateSatPerKvb = ch.feeRateSatPerKvb

end

section

variable {env : Env} {f : Factory} {mgr : LspMgr} {clientIdx : ℕ} {amountSats : UInt64}
  {ceremony : Bool}

theorem resplitChannel_balances (amount : Option UInt64) (ch : Channel) :
    ((resplitChannel mgr amount ch).localAmount,(resplitChannel mgr amount ch).remoteAmount) =
      match amount with
      | none => (ch.localAmount,ch.remoteAmount)
      | some amount => mgr.split amount := by
  cases amount <;> rfl

theorem resplitChannel_funding (amount : Option UInt64) (ch : Channel) :
    (resplitChannel mgr amount ch).fundingAmount = amount.getD ch.fundingAmount := by
  cases amount <;> rfl

theorem resplitChannel_rest (mgr : LspMgr) (amount : Option UInt64) (ch : Channel) :
    (resplitChannel mgr amount ch).htlcs = ch.htlcs ∧
      (resplitChannel mgr amount ch).ptlcs = ch.ptlcs ∧
      (resplitChannel mgr amount ch).feeRateSatPerKvb = ch.feeRateSatPerKvb := by
  cases amount <;> exact ⟨rfl,rfl,rfl⟩

theorem refreshChannel_funding (f : Factory) (nodeIdx : ℕ) (node : FactoryNode) (c : ℕ)
    (ch : Channel) :
    (refreshChannel f nodeIdx node c ch).fundingAmount =
      match factoryClientToLeaf f c with
      | none => ch.fundingAmount
      | some (ni,vout) =>
        if ni ≠ nodeIdx then ch.fundingAmount
        else ((node.outputs.map TxOut.amount)[vout]?).getD ch.fundingAmount := by
  unfold refreshChannel
  cases factoryClientToLeaf f c with
  | none => rfl
  | some leaf =>
    dsimp only
    split_ifs with hleaf
    · rfl
    · rw [List.getElem?_map]
      cases node.outputs[leaf.2]? <;> rfl

theorem refreshChannel_updates (f : Factory) (nodeIdx : ℕ) (node : FactoryNode) (c : ℕ)
    (ch : Channel) :
    ∃ txid vout amount spk, refreshChannel f nodeIdx node c ch =
      channelUpdateFunding txid vout amount spk ch := by
  unfold refreshChannel
  split
  · exact ⟨_,_,_,_,rfl⟩
  · split_ifs with hleaf
    · exact ⟨_,_,_,_,rfl⟩
    · split
      · exact ⟨_,_,_,_,rfl⟩
      · exact ⟨_,_,_,_,rfl⟩

theorem repriced {f' : Factory} {ln node' : FactoryNode} (htree : SameTree f f')
    (hamounts : node'.outputs.map TxOut.amount =
      purchaseAmounts ln (buyerLeaf f clientIdx).2 amountSats) (c : ℕ) (ch : Channel) :
    Repriced f mgr clientIdx amountSats ln c ch
      ((fun ch => if c = clientIdx then creditPurchase amountSats ch else ch)
        (refreshChannel f' (buyerLeaf f clientIdx).1 node' c
          (resplitChannel mgr (reallocAmount f' ln.signerIndices
            (purchaseAmounts ln (buyerLeaf f clientIdx).2 amountSats) c) ch))) := by
  have hnew : reallocAmount f' ln.signerIndices
      (purchaseAmounts ln (buyerLeaf f clientIdx).2 amountSats) c =
        newAmount f clientIdx amountSats ln c := by
    unfold newAmount reallocAmount
    rw [htree.clientToLeaf]
  rw [hnew]
  have hfunding := refreshChannel_funding f' (buyerLeaf f clientIdx).1 node' c
    (resplitChannel mgr (newAmount f clientIdx amountSats ln c) ch)
  rw [htree.clientToLeaf,hamounts,resplitChannel_funding] at hfunding
  obtain ⟨txid,vout,amount,spk,hrefresh⟩ := refreshChannel_updates f' (buyerLeaf f clientIdx).1
    node' c (resplitChannel mgr (newAmount f clientIdx amountSats ln c) ch)
  have hsplit : newSplit f mgr clientIdx amountSats ln c ch = _ :=
    (resplitChannel_balances (newAmount f clientIdx amountSats ln c) ch).symm
  obtain ⟨hhtlcs,hptlcs,hfee⟩ :=
    resplitChannel_rest mgr (newAmount f clientIdx amountSats ln c) ch
  rw [hrefresh] at hfunding ⊢
  split_ifs with hc
  · refine ⟨hfunding,?_,hhtlcs,hptlcs,hfee⟩
    unfold newBalances
    rw [hsplit,if_pos hc]
    rfl
  · refine ⟨hfunding,?_,hhtlcs,hptlcs,hfee⟩
    unfold newBalances
    rw [hsplit,if_neg hc]
    rfl

inductive BuyOutcome (env : Env) (f : Factory) (mgr : LspMgr) (clientIdx : ℕ)
    (amountSats : UInt64) : Factory × LspMgr × Bool → Prop
  | refused (f' : Factory) : BuyOutcome env f mgr clientIdx amountSats (f',mgr,false)
  | turned (f' : Factory) (ln : FactoryNode) (leafSide : ℕ)
      (hleaf : f.nodes[(buyerLeaf f clientIdx).1]? = some ln)
      (hside : leafSideOf f (buyerLeaf f clientIdx).1 = some leafSide)
      (hclient : clientIdx < mgr.entries.length) (hamount : amountSats ≠ 0)
      (hturn : (factoryAdvanceLeafUnsigned env f leafSide).2 = -1) :
      BuyOutcome env f mgr clientIdx amountSats (f',mgr.mapChannels (fun c ch =>
        if c = clientIdx then creditPurchase amountSats ch else ch),true)
  | done (f' : Factory) (ln : FactoryNode) (leafSide : ℕ) (mgr' : LspMgr)
      (hleaf : f.nodes[(buyerLeaf f clientIdx).1]? = some ln)
      (hside : leafSideOf f (buyerLeaf f clientIdx).1 = some leafSide)
      (hturn : (factoryAdvanceLeafUnsigned env f leafSide).2 ≠ -1)
      (hchannels : ∀ c, Rel (Repriced f mgr clientIdx amountSats ln c)
        (mgr.channel? c) (mgr'.channel? c)) :
      BuyOutcome env f mgr clientIdx amountSats (f',mgr',true)

theorem lspChannelsBuyLiquidity_outcome : BuyOutcome env f mgr clientIdx amountSats
    (lspChannelsBuyLiquidity env ceremony clientIdx amountSats f mgr) := by
  unfold lspChannelsBuyLiquidity
  split
  · exact .refused f
  rename_i hvalid
  obtain ⟨hclient,hamount⟩ := not_or.mp hvalid
  dsimp only
  split
  · exact .refused f
  rename_i ln hleaf
  split
  · exact .refused f
  split
  · exact .refused f
  split
  · exact .refused f
  split
  · exact .refused f
  rename_i leafSide hside
  have houtcome : ReallocOutcome env f mgr leafSide _
      (lspReallocLeaf env ceremony leafSide
        (purchaseAmounts ln (buyerLeaf f clientIdx).2 amountSats) f mgr) :=
    lspReallocLeaf_outcome _ _
  generalize lspReallocLeaf env ceremony leafSide
    (purchaseAmounts ln (buyerLeaf f clientIdx).2 amountSats) f mgr = r at houtcome ⊢
  cases houtcome with
  | refused f' => exact .refused f'
  | turned f' hturn =>
    exact .turned f' ln leafSide hleaf hside (Nat.not_le.mp hclient) hamount hturn
  | done f' node _ hnode hturn htree hamounts =>
    rw [leafSideOf_some hside] at hnode ⊢
    obtain rfl := mem_unique hleaf hnode
    refine .done f' ln leafSide _ hleaf hside hturn fun c => ?_
    simp only [channel_mapChannels]
    cases mgr.channel? c with
    | none => exact .none
    | some ch => exact .some (repriced htree hamounts c ch)

end

section

variable {env : Env} {f f' : Factory} {mgr mgr' : LspMgr} {clientIdx : ℕ} {amountSats : UInt64}
  {ceremony : Bool} {ln : FactoryNode} {leafSide c : ℕ} {ch ch' : Channel}

theorem conserves_congr (hfunding : ch'.fundingAmount = ch.fundingAmount)
    (hlocal : ch'.localAmount = ch.localAmount) (hremote : ch'.remoteAmount = ch.remoteAmount)
    (hhtlcs : ch'.htlcs = ch.htlcs) (hptlcs : ch'.ptlcs = ch.ptlcs)
    (hfee : ch'.feeRateSatPerKvb = ch.feeRateSatPerKvb) : ch'.conserves = ch.conserves := by
  unfold Channel.conserves Channel.counted Channel.baseCommitFee
  rw [hfunding,hlocal,hremote,hhtlcs,hptlcs,hfee]

theorem newSplit_elsewhere (hsigner : c+1 ∉ ln.signerIndices) :
    newSplit f mgr clientIdx amountSats ln c ch = (ch.localAmount,ch.remoteAmount) := by
  unfold newSplit newAmount reallocAmount
  rw [if_neg hsigner]

namespace Repriced

variable (h : Repriced f mgr clientIdx amountSats ln c ch ch')

include h

theorem newLocal : (newBalances f mgr clientIdx amountSats ln c ch).1 = ch'.localAmount :=
  (congrArg Prod.fst h.balances).symm

theorem newRemote : (newBalances f mgr clientIdx amountSats ln c ch).2 = ch'.remoteAmount :=
  (congrArg Prod.snd h.balances).symm

theorem other (hc : c ≠ clientIdx) :
    newSplit f mgr clientIdx amountSats ln c ch = (ch'.localAmount,ch'.remoteAmount) := by
  rw [h.balances,newBalances,if_neg hc]

theorem conserves_iff (hlocal : ch'.localAmount =
      if c = clientIdx then ch.localAmount + amountSats else ch.localAmount)
    (hremote : ch'.remoteAmount = ch.remoteAmount) : ch'.conserves =
      ({ ch with
        fundingAmount := newFunding f clientIdx amountSats ln c ch
        localAmount := if c = clientIdx then ch.localAmount + amountSats else ch.localAmount } :
          Channel).conserves :=
  conserves_congr h.funding hlocal hremote h.htlcs h.ptlcs h.feeRate

end Repriced

theorem add_of_toNat {a b x : UInt64} (h : x.toNat = a.toNat + b.toNat) : x = a + b := by
  apply UInt64.toNat_inj.mp
  rw [UInt64.toNat_add,← h,Nat.mod_eq_of_lt x.toNat_lt]

theorem Bought.kept (hbought : Bought mgr clientIdx amountSats ln mgr')
    (hch : mgr.channel? c = some ch) (hch' : mgr'.channel? c = some ch')
    (h : Repriced f mgr clientIdx amountSats ln c ch ch') :
    ch'.localAmount = (if c = clientIdx then ch.localAmount + amountSats else ch.localAmount) ∧
      ch'.remoteAmount = ch.remoteAmount := by
  by_cases hc : c = clientIdx
  · subst hc
    obtain ⟨hremote,hlocal⟩ := hbought.buyer ch ch' hch hch'
    rw [if_pos rfl]
    exact ⟨add_of_toNat hlocal,hremote⟩
  · rw [if_neg hc]
    by_cases hsigner : c+1 ∈ ln.signerIndices
    · obtain ⟨hlocal,hremote,-⟩ := hbought.others c ch ch' hc hsigner hch hch'
      exact ⟨hlocal,hremote⟩
    · exact Prod.mk.inj ((h.other hc).symm.trans (newSplit_elsewhere hsigner))

theorem Purchasable.kept (hok : Purchasable env f mgr clientIdx amountSats ln leafSide)
    (hch : mgr.channel? c = some ch) (h : Repriced f mgr clientIdx amountSats ln c ch ch') :
    ch'.localAmount = (if c = clientIdx then ch.localAmount + amountSats else ch.localAmount) ∧
      ch'.remoteAmount = ch.remoteAmount := by
  by_cases hc : c = clientIdx
  · subst hc
    obtain ⟨hremote,hlocal⟩ := hok.buyer ch hch
    rw [h.newLocal] at hlocal
    rw [h.newRemote] at hremote
    rw [if_pos rfl]
    exact ⟨add_of_toNat hlocal,hremote⟩
  · rw [if_neg hc]
    by_cases hsigner : c+1 ∈ ln.signerIndices
    · exact Prod.mk.inj ((h.other hc).symm.trans (hok.others c ch hc hsigner hch))
    · exact Prod.mk.inj ((h.other hc).symm.trans (newSplit_elsewhere hsigner))

theorem bought_iff (hchannels : ∀ c, Rel (Repriced f mgr clientIdx amountSats ln c)
      (mgr.channel? c) (mgr'.channel? c))
    (hturn : (factoryAdvanceLeafUnsigned env f leafSide).2 ≠ -1) :
    Bought mgr clientIdx amountSats ln mgr' ↔
      Purchasable env f mgr clientIdx amountSats ln leafSide := by
  constructor
  · intro hbought
    refine ⟨hturn,fun ch hch => ?_,fun c ch hc hsigner hch => ?_,fun c ch hch => ?_⟩
    · obtain ⟨ch',hch',h⟩ := rel_after (hchannels clientIdx) hch
      rw [h.newLocal,h.newRemote]
      exact hbought.buyer ch ch' hch hch'
    · obtain ⟨ch',hch',h⟩ := rel_after (hchannels c) hch
      obtain ⟨hlocal,hremote,-⟩ := hbought.others c ch ch' hc hsigner hch hch'
      rw [h.other hc,hlocal,hremote]
    · obtain ⟨ch',hch',h⟩ := rel_after (hchannels c) hch
      obtain ⟨hlocal,hremote⟩ := hbought.kept hch hch' h
      rw [← h.conserves_iff hlocal hremote]
      exact checkConservation_iff.mp hbought.conserved c ch' hch'
  · intro hok
    have hafter {c : ℕ} {ch ch' : Channel} (hch : mgr.channel? c = some ch)
        (hch' : mgr'.channel? c = some ch') : Repriced f mgr clientIdx amountSats ln c ch ch' := by
      obtain ⟨found,hfound,h⟩ := rel_after (hchannels c) hch
      obtain rfl := mem_unique hfound hch'
      exact h
    refine ⟨checkConservation_iff.mpr fun c ch' hch' => ?_,fun ch ch' hch hch' => ?_,
      fun c ch ch' hc hsigner hch hch' => ?_⟩
    · obtain ⟨ch,hch,h⟩ := rel_before (hchannels c) hch'
      obtain ⟨hlocal,hremote⟩ := hok.kept hch h
      rw [h.conserves_iff hlocal hremote]
      exact hok.funded c ch hch
    · obtain ⟨hremote,hlocal⟩ := hok.buyer ch hch
      rw [(hafter hch hch').newLocal] at hlocal
      rw [(hafter hch hch').newRemote] at hremote
      exact ⟨hremote,hlocal⟩
    · obtain ⟨hlocal,hremote⟩ := hok.kept hch (hafter hch hch')
      rw [if_neg hc] at hlocal
      exact ⟨hlocal,hremote,by rw [(hafter hch hch').htlcs]⟩

theorem thousandfold {balance amount : ℕ} (hamount : amount < 2^64)
    (h : (balance + amount*1000 % 2 ^ 64) % 2 ^ 64 = balance + amount) : amount = 0 := by
  rw [Nat.add_mod_mod] at h
  have hdvd : 2^64 ∣ balance + amount*1000-(balance + amount*1000) % 2 ^ 64 :=
    Nat.dvd_sub_mod _
  rw [h,Nat.add_sub_add_left,← Nat.mul_sub_one] at hdvd
  have hcoprime : Nat.Coprime (2^64) 999 := by decide
  exact Nat.eq_zero_of_dvd_of_lt (hcoprime.dvd_of_dvd_mul_right hdvd) hamount

theorem turned_not_bought (hclient : clientIdx < mgr.entries.length) (hamount : amountSats ≠ 0) :
    ¬Bought mgr clientIdx amountSats ln (mgr.mapChannels fun c ch =>
      if c = clientIdx then creditPurchase amountSats ch else ch) := by
  intro hbought
  obtain ⟨ch,hch⟩ : ∃ ch, mgr.channel? clientIdx = some ch :=
    ⟨_,by rw [LspMgr.channel?,List.getElem?_eq_getElem hclient]; rfl⟩
  obtain ⟨-,hlocal⟩ := hbought.buyer ch _ hch (by rw [channel_mapChannels,hch]; rfl)
  dsimp only at hlocal
  rw [if_pos rfl,creditPurchase] at hlocal
  rw [UInt64.toNat_add,UInt64.toNat_mul] at hlocal
  exact hamount (UInt64.toNat_inj.mp (thousandfold amountSats.toNat_lt hlocal))

end

def leafChannel (localAmount remoteAmount : UInt64) : Channel :=
  { lspChannel with
    fundingAmount := 166466
    localAmount := localAmount
    remoteAmount := remoteAmount
    feeRateSatPerKvb := 1000 }

theorem channel_pair {a b : Channel} {P : ℕ → Channel → Prop} (ha : P 0 a) (hb : P 1 b) (c : ℕ)
    (ch : Channel) (hch : (LspMgr.sample [a,b]).channel? c = some ch) : P c ch := by
  match c with
  | 0 => exact some.inj hch ▸ ha
  | 1 => exact some.inj hch ▸ hb
  | _+2 => cases hch

def shiftedMgr : LspMgr := LspMgr.sample [leafChannel 84155 82157,leafChannel 83156 83156]

def evenMgr : LspMgr := LspMgr.sample [leafChannel 83156 83156,leafChannel 83156 83156]

end SuperScalar
