import SuperScalar.Factory.LeafAmounts
import SuperScalar.Lsp.Forward

namespace SuperScalar

open Bitcoin

def computeFee (satPerKvb vsizeBytes : UInt64) : UInt64 :=
  if satPerKvb = 0 then 0
  else if satPerKvb > 100000000/(vsizeBytes+1) then 100000000
  else (satPerKvb*vsizeBytes+999)/1000

def feeForCommitmentTx (satPerKvb : UInt64) (nHtlcs : ℕ) : UInt64 :=
  computeFee satPerKvb (154+43 * UInt64.ofNat nHtlcs)

def Channel.counted (ch : Channel) : UInt64 :=
  let htlcs := ch.htlcs.foldl (fun sum h =>
    if h.isActive then sum + h.amountSats + h.feeAtAdd else sum) (ch.localAmount+ch.remoteAmount)
  ch.ptlcs.foldl (fun sum p => if p.isActive then sum + p.amountSats else sum) htlcs

def Channel.baseCommitFee (ch : Channel) : UInt64 := (ch.feeRateSatPerKvb*154+999)/1000

def Channel.conserves (ch : Channel) : Bool :=
  ch.fundingAmount = 0 || ch.counted =
    if ch.fundingAmount > ch.baseCommitFee then ch.fundingAmount-ch.baseCommitFee else 0

def lspChannelsCheckConservation (mgr : LspMgr) : Bool :=
  mgr.entries.all (fun e => e.channel.conserves)

section

variable (env : Env)

def LspMgr.splitPct (mgr : LspMgr) : UInt64 :=
  let pct := if mgr.lspBalancePct = 0 then 50 else mgr.lspBalancePct
  (if pct > 100 then 100 else pct).toUInt64

def LspMgr.commitFee (mgr : LspMgr) : UInt64 :=
  feeForCommitmentTx (mgr.feeRateSatPerKvb.getD 1000) 0

def LspMgr.split (mgr : LspMgr) (amount : UInt64) : UInt64 × UInt64 :=
  let usable := if amount > mgr.commitFee then amount-mgr.commitFee else 0
  let localAmount := usable*mgr.splitPct/100
  (localAmount,usable-localAmount)

def channelUpdateFunding (txid : Blob 32) (vout : UInt32) (amount : UInt64) (spk : Bytes)
    (ch : Channel) : Channel :=
  { ch with fundingTxid := txid, fundingVout := vout, fundingAmount := amount, fundingSpk := spk }

def reallocAmount (f : Factory) (signers : List ℕ) (amounts : List UInt64) (c : ℕ) :
    Option UInt64 :=
  if c+1 ∈ signers then (factoryClientToLeaf f c).bind (fun p => amounts[p.2]?) else none

def resplitChannel (mgr : LspMgr) (amount : Option UInt64) (ch : Channel) : Channel :=
  match amount with
  | none => ch
  | some amount =>
    { ch with
      fundingAmount := amount
      localAmount := (mgr.split amount).1
      remoteAmount := (mgr.split amount).2 }

def refreshChannel (f : Factory) (nodeIdx : ℕ) (node : FactoryNode) (c : ℕ) (ch : Channel) :
    Channel :=
  match factoryClientToLeaf f c with
  | none => ch
  | some (ni,vout) =>
    if ni ≠ nodeIdx then ch
    else
      match node.outputs[vout]? with
      | none => ch
      | some out => channelUpdateFunding node.txid (UInt32.ofNat vout) out.amount out.script ch

-- `ceremony` tells whether the clients answer and the new leaf transaction gets signed.
def lspReallocLeaf (ceremony : Bool) (leafSide : ℕ) (amounts : List UInt64) (f : Factory)
    (mgr : LspMgr) : Factory × LspMgr × Bool :=
  if leafSide ≥ f.nLeafNodes then (f,mgr,false)
  else
    let nodeIdx := f.leafNode leafSide
    match f.nodes[nodeIdx]? with
    | none => (f,mgr,false)
    | some node =>
      if node.signerIndices.length < 2 then (f,mgr,false)
      else if (node.signerIndices.filter (· ≠ 0)).length ≠ node.signerIndices.length-1 then
        (f,mgr,false)
      else
        let advanced := factoryAdvanceLeafUnsigned env f leafSide
        if advanced.2 = 0 then (advanced.1,mgr,false)
        else if advanced.2 = -1 then (advanced.1,mgr,true)
        else
          let f' := factorySetLeafAmounts env advanced.1 leafSide amounts
          if f'.2 = 0 ∨ !ceremony then (f'.1,mgr,false)
          else
            match f'.1.nodes[nodeIdx]? with
            | none => (f'.1,mgr,false)
            | some node' =>
              (f'.1,mgr.mapChannels (fun c ch =>
                refreshChannel f'.1 nodeIdx node' c
                  (resplitChannel mgr (reallocAmount f'.1 node.signerIndices amounts c) ch)),true)

def creditPurchase (amountSats : UInt64) (ch : Channel) : Channel :=
  let addMsat := amountSats*1000
  { ch with
    localAmount := ch.localAmount + addMsat
    remoteAmount := if ch.remoteAmount ≥ addMsat then ch.remoteAmount-addMsat else 0 }

def buyerLeaf (f : Factory) (clientIdx : ℕ) : ℕ × ℕ :=
  (factoryClientToLeaf f clientIdx).getD (0,2^32-1)

def leafSideOf (f : Factory) (nodeIdx : ℕ) : Option ℕ :=
  (List.range f.nLeafNodes).find? (fun i => f.leafNode i = nodeIdx)

def purchaseAmounts (node : FactoryNode) (vout : ℕ) (amountSats : UInt64) : List UInt64 :=
  ((node.outputs.map TxOut.amount).modify vout (· + amountSats)).modify
    (node.outputs.length-1) (· - amountSats)

def lspChannelsBuyLiquidity (ceremony : Bool) (clientIdx : ℕ) (amountSats : UInt64) (f : Factory)
    (mgr : LspMgr) : Factory × LspMgr × Bool :=
  if clientIdx ≥ mgr.entries.length ∨ amountSats = 0 then (f,mgr,false)
  else
    let leaf := buyerLeaf f clientIdx
    match f.nodes[leaf.1]? with
    | none => (f,mgr,false)
    | some ln =>
      if ln.outputs.length < 2 then (f,mgr,false)
      else if leaf.2 = ln.outputs.length-1 then (f,mgr,false)
      else if ((ln.outputs.getLast?).map TxOut.amount).getD 0 < 546 + amountSats then
        (f,mgr,false)
      else
        match leafSideOf f leaf.1 with
        | none => (f,mgr,false)
        | some leafSide =>
          match lspReallocLeaf env ceremony leafSide (purchaseAmounts ln leaf.2 amountSats) f mgr with
          | (f,mgr,false) => (f,mgr,false)
          | (f,mgr,true) =>
            (f,mgr.mapChannels (fun c ch =>
              if c = clientIdx then creditPurchase amountSats ch else ch),true)

end

section

variable {mgr : LspMgr} {change : ℕ → Channel → Channel}

theorem checkConservation_iff : lspChannelsCheckConservation mgr = true ↔
    ∀ c ch, mgr.channel? c = some ch → ch.conserves = true := by
  unfold lspChannelsCheckConservation
  rw [List.all_eq_true]
  constructor
  · intro h c ch hch
    obtain ⟨e,he,rfl⟩ := Option.map_eq_some_iff.mp hch
    exact h e (List.mem_of_getElem? he)
  · intro h e he
    obtain ⟨c,hc⟩ := List.mem_iff_getElem?.mp he
    exact h c e.channel (by rw [LspMgr.channel?,hc]; rfl)

end

section

variable {env : Env} {f : Factory} {mgr : LspMgr} {clientIdx : ℕ} {amountSats : UInt64}
  {ceremony : Bool}

inductive ReallocOutcome (env : Env) (f : Factory) (mgr : LspMgr) (leafSide : ℕ)
    (amounts : List UInt64) : Factory × LspMgr × Bool → Prop
  | refused (f' : Factory) : ReallocOutcome env f mgr leafSide amounts (f',mgr,false)
  | turned (f' : Factory) (hturn : (factoryAdvanceLeafUnsigned env f leafSide).2 = -1) :
      ReallocOutcome env f mgr leafSide amounts (f',mgr,true)
  | done (f' : Factory) (node node' : FactoryNode)
      (hnode : f.nodes[f.leafNode leafSide]? = some node)
      (hturn : (factoryAdvanceLeafUnsigned env f leafSide).2 ≠ -1) (htree : SameTree f f')
      (hamounts : node'.outputs.map TxOut.amount = amounts) :
      ReallocOutcome env f mgr leafSide amounts
        (f',mgr.mapChannels (fun c ch => refreshChannel f' (f.leafNode leafSide) node' c
          (resplitChannel mgr (reallocAmount f' node.signerIndices amounts c) ch)),true)

theorem lspReallocLeaf_outcome (leafSide : ℕ) (amounts : List UInt64) :
    ReallocOutcome env f mgr leafSide amounts
      (lspReallocLeaf env ceremony leafSide amounts f mgr) := by
  unfold lspReallocLeaf
  split
  · exact .refused f
  dsimp only
  split
  · exact .refused f
  rename_i node hnode
  split
  · exact .refused f
  split
  · exact .refused f
  split
  · exact .refused _
  rename_i hcode
  split
  · rename_i hturn
    exact .turned _ hturn
  rename_i hturn
  split
  · exact .refused _
  rename_i hset
  split
  · exact .refused _
  rename_i node' hnode'
  have hadvanced := advanceLeafUnsigned_sameTree
    (Prod.mk.eta).symm hcode hturn
  obtain ⟨hsame,n,hn,hamounts⟩ := setLeafAmounts_node (Prod.mk.eta (p :=
    factorySetLeafAmounts env (factoryAdvanceLeafUnsigned env f leafSide).1 leafSide amounts)).symm
    (not_or.mp hset).1
  rw [hadvanced.leafNode] at hn
  obtain rfl : n = node' := Option.mem_unique hn hnode'
  exact .done _ node n hnode hturn (hadvanced.trans hsame) hamounts

theorem leafSideOf_some {nodeIdx leafSide : ℕ} (h : leafSideOf f nodeIdx = some leafSide) :
    f.leafNode leafSide = nodeIdx := by
  have hfound := List.find?_some h
  exact of_decide_eq_true hfound

end

end SuperScalar
