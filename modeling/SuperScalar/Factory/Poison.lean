import SuperScalar.Factory.Conservation

namespace SuperScalar

open Bitcoin List Option UInt64

section

def Musig.env (m : Musig) (env : Env) : Env := { env with secp := m.toSecp }

def computeLStockPoisonPerClient (lStockAmountSats feeSats : UInt64) (nClients : ℕ) :
    Option (UInt64 × UInt64) :=
  if nClients = 0 ∨ lStockAmountSats ≤ feeSats then none
  else
    let outputTotal := lStockAmountSats-feeSats
    let perClient := ofNat (outputTotal.toNat/nClients)
    if perClient < channelDustLimitSats then none
    else some (perClient,outputTotal-perClient * ofNat nClients)

variable (m : Musig) (env : Env) (f : Factory)

def clientSpk (signerIdx : ℕ) : Option (Blob 34) :=
  if signerIdx ≥ f.nParticipants then none
  else do
    let (clientXonly,_) ← m.xonlyPubkeyFromPubkey (f.pubkey signerIdx)
    let (tweaked,_) ← taprootTweakPubkey (m.env env) clientXonly none
    some (buildP2trScriptPubkey m.toSecp tweaked)

variable (leafNode : FactoryNode) (lStockTxid : Blob 32) (lStockVout : UInt32)
  (lStockAmountSats feeSats : UInt64)

def poisonOutputs : Option (List TxOut) :=
  if leafNode.signerIndices.length < 2 then none
  else do
    let nClients := leafNode.signerIndices.length-1
    let (perClient,lastExtra) ← computeLStockPoisonPerClient lStockAmountSats feeSats nClients
    let outputs ← leafNode.signerIndices.tail.mapM (fun signerIdx =>
      (clientSpk m env f signerIdx).map (fun spk => (⟨perClient,spk.val⟩ : TxOut)))
    some (outputs.modify (nClients-1) (fun o => { o with amount := o.amount + lastExtra }))

def lStockSighash (unsignedTx : Bytes) : Option (Blob 32) := do
  let lStockSpk ← buildLStockSpk (m.env env) f leafNode.keyagg
  some (computeTaprootSighash m unsignedTx 0 lStockSpk.val lStockAmountSats 0xFFFFFFFE)

def factoryBuildLStockPoisonTxUnsigned : Option (Bytes × Blob 32) := do
  let outputs ← poisonOutputs m env f leafNode lStockAmountSats feeSats
  let unsignedTx := (buildUnsignedTx m.toSecp lStockTxid lStockVout 0xFFFFFFFE outputs).1
  let sighash ← lStockSighash m env f leafNode lStockAmountSats unsignedTx
  some (unsignedTx,sighash)

def lStockMerkleRoot : Option (Blob 32) := do
  let (lspXonly,_) ← m.xonlyPubkeyFromPubkey (f.pubkey 0)
  let csv := if f.lStockCsvBlocks > 0 then f.lStockCsvBlocks else lStockCsvDefaultBlocks
  let csvLeaf ← tapscriptBuildCsvDelay m.toSecp csv lspXonly
  tapscriptMerkleRoot m.toSecp [csvLeaf]

-- `sign` is what `musig_sign_taproot` returns for the signers' keypairs, a root and a sighash.
variable (sign : List ℕ → Keyagg → Blob 32 → Blob 32 → Option (Blob 64))

def signLStockSpendWithOutputs (outputs : List TxOut) : Option Bytes :=
  if outputs = [] then none
  else do
    let unsignedTx := (buildUnsignedTx m.toSecp lStockTxid lStockVout 0xFFFFFFFE outputs).1
    let sighash ← lStockSighash m env f leafNode lStockAmountSats unsignedTx
    if leafNode.signerIndices.any (· ≥ f.nParticipants) then none
    else
      let root ← lStockMerkleRoot m f
      let sig64 ← sign leafNode.signerIndices leafNode.keyagg root sighash
      some (finalizeSignedTx unsignedTx sig64)

def factorySignLStockPoisonTx : Option Bytes := do
  let outputs ← poisonOutputs m env f leafNode lStockAmountSats feeSats
  signLStockSpendWithOutputs m env f leafNode lStockTxid lStockVout lStockAmountSats sign outputs

end

section

variable {m : Musig} {env : Env} {f : Factory} {leafNode : FactoryNode}
  {lStockAmountSats feeSats perClient lastExtra : UInt64} {nClients : ℕ} {outputs : List TxOut}

theorem poison_shares
    (h : computeLStockPoisonPerClient lStockAmountSats feeSats nClients =
      some (perClient,lastExtra)) :
    0 < nClients ∧ 546 ≤ perClient.toNat ∧
      nClients * perClient.toNat + lastExtra.toNat + feeSats.toNat = lStockAmountSats.toNat := by
  rw [computeLStockPoisonPerClient] at h
  split_ifs at h with hbad
  rw [not_or,UInt64.not_le] at hbad
  obtain ⟨hpos,hfee⟩ := hbad
  have htotal := UInt64.toNat_sub_of_le _ _ (UInt64.le_of_lt hfee)
  dsimp only at h
  generalize lStockAmountSats - feeSats = total at h htotal
  split_ifs at h with hdust
  obtain ⟨rfl,rfl⟩ := Prod.mk.inj (Option.some.inj h)
  have hper : (UInt64.ofNat (total.toNat/nClients)).toNat = total.toNat/nClients :=
    UInt64.toNat_ofNat_of_lt' ((Nat.div_le_self _ _).trans_lt total.toNat_lt)
  have hlow : 546 ≤ total.toNat/nClients := by
    rw [← hper]
    exact UInt64.le_iff_toNat_le.mp (UInt64.not_lt.mp hdust)
  have hmul : nClients*(total.toNat/nClients) ≤ total.toNat := Nat.mul_div_le _ _
  have hcount : nClients ≤ total.toNat :=
    (Nat.le_mul_of_pos_right _ (by omega)).trans hmul
  have hshares : (UInt64.ofNat (total.toNat/nClients) * UInt64.ofNat nClients).toNat =
      nClients * (total.toNat/nClients) := by
    rw [UInt64.toNat_mul,hper,UInt64.toNat_ofNat_of_lt' (hcount.trans_lt total.toNat_lt),
      Nat.mul_comm,Nat.mod_eq_of_lt (hmul.trans_lt total.toNat_lt)]
  have hextra := UInt64.toNat_sub_of_le total _ (UInt64.le_iff_toNat_le.mpr (hshares.trans_le hmul))
  have hle := UInt64.lt_iff_toNat_lt.mp hfee
  rw [hper,hextra,hshares]
  omega

theorem poison_outputs (h : poisonOutputs m env f leafNode lStockAmountSats feeSats = some outputs) :
    Forall₂ (fun signerIdx o => 546 ≤ o.amount.toNat ∧
        (clientSpk m env f signerIdx).map Subtype.val = some o.script)
        leafNode.signerIndices.tail outputs ∧
      outputTotal outputs + feeSats.toNat = lStockAmountSats.toNat := by
  rw [poisonOutputs] at h
  split_ifs at h
  simp only [bind_eq_bind,bind_eq_some_iff,some.injEq,Prod.exists] at h
  obtain ⟨perClient,lastExtra,hshares,outs,houts,rfl⟩ := h
  obtain ⟨hpos,hdust,hsum⟩ := poison_shares hshares
  have hpaid := (mapM_option_iff _ _ _).mp houts
  have hlen : outs.length = leafNode.signerIndices.length-1 := by
    rw [← hpaid.length_eq,length_tail]
  have hone : perClient.toNat ≤ outs.length*perClient.toNat :=
    Nat.le_mul_of_pos_left _ (hlen ▸ hpos)
  have hlast : (perClient+lastExtra).toNat = perClient.toNat + lastExtra.toNat := by
    have hsize := lStockAmountSats.toNat_lt
    rw [UInt64.toNat_add,Nat.mod_eq_of_lt]
    rw [hlen] at hone
    omega
  have hamount : ∀ o ∈ outs, o.amount = perClient := by
    intro o ho
    obtain ⟨i,hi⟩ := mem_iff_getElem?.mp ho
    obtain ⟨_,-,hx⟩ := hpaid.flip.getElem?_left hi
    obtain ⟨spk,-,rfl⟩ := map_eq_some_iff.mp hx
    rfl
  have htotal : outputTotal outs = outs.length*perClient.toNat := by
    rw [outputTotal,map_congr_left fun o ho => congrArg toNat (hamount o ho),
      map_const',sum_replicate,smul_eq_mul]
  constructor
  · refine Lists.forall₂_modify hpaid (fun signerIdx o ho => ?_) (fun signerIdx o ho => ?_) _
    all_goals obtain ⟨spk,hspk,rfl⟩ := map_eq_some_iff.mp ho
    · exact ⟨hdust,by rw [hspk]; rfl⟩
    · exact ⟨by rw [hlast]; omega,by rw [hspk]; rfl⟩
  · obtain ⟨o,ho⟩ : ∃ o, outs[leafNode.signerIndices.length - 1 - 1]? = some o :=
      ⟨_,getElem?_eq_getElem (by omega)⟩
    have hchanged := outputTotal_modify ho (fun o => { o with amount := o.amount + lastExtra })
    rw [hamount o (mem_of_getElem? ho),hlast,htotal,hlen] at hchanged
    omega

end

end SuperScalar
