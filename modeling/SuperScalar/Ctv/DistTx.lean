import SuperScalar.Ctv.SingleLayer

namespace SuperScalar

open Bitcoin List Option Wire CtvFactory TxOut

def anchorOut : TxOut := ⟨ctvFactoryAnchorSats,ctvFactoryAnchorSpk⟩

def distTx (prevout : OutPoint) (outputs : List TxOut) : Tx :=
  ⟨2,[⟨prevout,[],0xFFFFFFFE⟩],outputs,0⟩

def CtvFactory.distOutputs (f : CtvFactory) : List TxOut :=
  f.users.map (fun u => ⟨f.slotDepositSats,u.spk.val⟩) ++ [anchorOut]

theorem serializeOutput_eq (amountSats : UInt64) (spk : Bytes) (spkLen : UInt8)
    (hl : spk.length = spkLen.toNat) (hs : spkLen.toNat < 253) :
    serializeOutput amountSats spk spkLen = wire.put ⟨amountSats,spk⟩ := by
  have hc : compactSize.put spk.length = [spkLen] := by
    rw [compactSize_put_small _ (by omega),hl]
    simp
  simp [serializeOutput,wU64Le,txBufWriteU64Le_eq,wire,iso,pair,bytes,hc]

theorem serializeAnchor_eq : serializeAnchor = wire.put anchorOut :=
  serializeOutput_eq _ _ 4 rfl (by decide)

theorem serializeUserOutput_eq (f : CtvFactory) (u : CtvUser) :
    serializeUserOutput f u = wire.put ⟨f.slotDepositSats,u.spk.val⟩ :=
  serializeOutput_eq _ _ 34 u.spk.property (by decide)

theorem serializeUserOutput_length (f : CtvFactory) (u : CtvUser) :
    (serializeUserOutput f u).length = 43 := by
  simp [serializeUserOutput,serializeOutput,wU64Le,txBufWriteU64Le]

theorem serializeAnchor_length : serializeAnchor.length = 13 := by
  simp [serializeAnchor,serializeOutput,wU64Le,txBufWriteU64Le,ctvFactoryAnchorSpk]

theorem serializeUsers_eq (f : CtvFactory) :
    (f.users.map (serializeUserOutput f)).flatten ++ serializeAnchor =
      wire.putMany f.distOutputs := by
  have hu : (f.users.map (serializeUserOutput f)).flatten =
      wire.putMany (f.users.map (fun u => ⟨f.slotDepositSats,u.spk.val⟩)) := by
    rw [putMany,flatMap_map,← flatMap_def]
    exact flatMap_congr (fun u _ => serializeUserOutput_eq f u)
  rw [hu,serializeAnchor_eq]
  simp [distOutputs,putMany]

theorem serializeUsers_length (f : CtvFactory) :
    (f.users.map (serializeUserOutput f)).flatten.length = f.nUsers*43 := by
  simp [← flatMap_def,length_flatMap,serializeUserOutput_length,nUsers]

theorem writeOutputCount_eq (n : ℕ) (h : n ≤ 0xffff) :
    (writeOutputCount n).flatten = compactSize.put n := by
  change _ = putSize n
  unfold writeOutputCount putSize
  split_ifs with h1 h2 h3 h4 h5
  · rfl
  · omega
  · omega
  · omega
  · omega
  · simp only [flatten_cons,flatten_nil,cons_append,nil_append,
      leBytes,byte_low,Nat.shiftRight_eq_div_pow,Nat.reducePow]
  · omega
  · omega

theorem writeOutputCount_length (n : ℕ) :
    (writeOutputCount n).flatten.length = if n ≤ 0xfc then 1 else 3 := by
  unfold writeOutputCount
  split_ifs <;> rfl

theorem distTx_inputs (prevout : OutPoint) (outputs : List TxOut) :
    (counted TxIn.wire).put (distTx prevout outputs).inputs =
      [0x01] ++ (prevout.txid.val ++ (wU32Le prevout.vout ++ ([0x00] ++ wU32Le 0xFFFFFFFE))) := by
  simp [distTx,TxIn.wire,OutPoint.wire,iso,pair,counted,putMany,
    bytes,raw,wU32Le,txBufWriteU32Le_eq,compactSize_put_small]

theorem distTx_serialize (prevout : OutPoint) (outputs : List TxOut) :
    (distTx prevout outputs).serialize =
      wU32Le 2 ++ ([0x01] ++ (prevout.txid.val ++ (wU32Le prevout.vout ++ ([0x00] ++
        (wU32Le 0xFFFFFFFE ++ (compactSize.put outputs.length ++
          (wire.putMany outputs ++ wU32Le 0))))))) := by
  have hin := distTx_inputs prevout outputs
  simp only [Tx.serialize,Tx.wire,iso,pair,hin]
  simp [distTx,counted,wU32Le,txBufWriteU32Le_eq]

theorem distTx_ok (prevout : OutPoint) (outputs : List TxOut) (hl : outputs.length < 256^8)
    (hs : ∀ o ∈ outputs, o.script.length < 256^8) : Tx.wire.ok (distTx prevout outputs) := by
  rw [Tx.ok_iff]
  exact ⟨⟨by simp [distTx],by simp [distTx]⟩,hl,hs⟩

theorem distTx_templateHash (secp : Secp) (prevout : OutPoint) (outputs : List TxOut) :
    (distTx prevout outputs).templateHash secp.sha256 0 =
      ctvTemplateHash secp 2 0 1 (secp.sha256 (wU32Le 0xFFFFFFFE)) (UInt32.ofNat outputs.length)
        (secp.sha256 (wire.putMany outputs)) 0 := by
  have hs : (distTx prevout outputs).scriptSigPart secp.sha256 = [] :=
    Tx.scriptSigPart_nil _ (by simp [distTx])
  rw [Tx.templateHash,Tx.preimage,hs]
  simp [templatePreimage,ctvTemplateHash,Tx.sequenceBytes,Tx.outputBytes,distTx,putMany,
    wU32Le,txBufWriteU32Le_eq]

theorem ctvFactoryBuild_inv {secp : Secp} {f g : CtvFactory} {height : UInt32}
    (h : ctvFactoryBuild secp f height = some g) :
    g.nUsers ≤ ctvFactoryMaxUsersSingleLayer ∧ computeDistTxTh secp g = some g.distTxTh ∧
    (∃ keys, musigAggregateKeys secp keys = some g.keyagg) ∧
    ∃ sweep, buildOptionalSweepLeaf secp g.lspPubkey g.recoveryOffsetBlocks
        g.recoveryCltvAbsolute = some sweep ∧
      buildFactoryFundingSpk secp g.keyagg (some g.distTxTh) sweep = some g.fundingSpk := by
  unfold ctvFactoryBuild at h
  split_ifs at h with hbad
  simp only [bind_eq_bind,bind_eq_some_iff,some.injEq] at h
  obtain ⟨keyagg,hka,users,husers,th,hth,sweep,hsweep,spk,hspk,rfl⟩ := h
  have hlen := ((mapM_option_iff _ _ _).mp husers).length_eq.symm
  exact ⟨by simp_all [nUsers],hth,⟨_,hka⟩,sweep,hsweep,hspk⟩

def sweepPath : Option TapscriptLeaf → Bytes
  | none => []
  | some leaf => leaf.leafHash.val

def ctvRoot (secp : Secp) (th : Blob 32) : Option TapscriptLeaf → Blob 32
  | none => (tapscriptBuildCtv secp th).leafHash
  | some leaf => tapBranch secp (tapscriptBuildCtv secp th).leafHash leaf.leafHash

theorem sweepPath_length (sweep : Option TapscriptLeaf) : (sweepPath sweep).length ≤ 32 := by
  cases sweep <;> simp [sweepPath]

theorem ctvPathItems_of_fundingSpk {secp : Secp} {keys : List Pubkey} {ka : Keyagg}
    {th : Blob 32} {sweep : Option TapscriptLeaf} {spk : Blob 34}
    (hka : musigAggregateKeys secp keys = some ka)
    (h : buildFactoryFundingSpk secp ka (some th) sweep = some spk) :
    ∃ ser full xonly parity, secp.xonlyPubkeySerialize ka.aggPubkey = some ser ∧
      secp.xonlyPubkeyTweakAdd ka.aggPubkey (sha256Tagged secp .tapTweak
        (ser.val ++ (ctvRoot secp th sweep).val)) = some full ∧
      secp.xonlyPubkeyFromPubkey full = some (xonly,parity) ∧
      spk = buildP2trScriptPubkey secp xonly ∧
      ctvPathItems secp ka th sweep = some ((tapscriptBuildCtv secp th).script,
        controlByte parity :: (ser.val ++ sweepPath sweep)) := by
  unfold buildFactoryFundingSpk at h
  simp only [bind_eq_bind,bind_eq_some_iff,some.injEq] at h
  obtain ⟨ser,hser,message,hmsg,⟨pk,cache⟩,htweak,⟨xonly,parity⟩,hx,hspk⟩ := h
  have hadd := secp.tweak_agrees hka htweak
  have hroot : ser.val ++ (ctvRoot secp th sweep).val = message := by
    cases sweep <;> exact some.inj hmsg
  rw [← hroot] at hadd
  refine ⟨ser,pk,xonly,parity,hser,hadd,hx,hspk.symm,?_⟩
  cases sweep with
  | none =>
    rw [ctvRoot] at hadd
    simp [ctvPathItems,tapscriptTweakPubkey,tapscriptBuildControlBlock,hser,hadd,hx,sweepPath]
  | some leaf =>
    have hmerkle : tapscriptMerkleRoot secp [tapscriptBuildCtv secp th,leaf] =
        some (ctvRoot secp th (some leaf)) := rfl
    simp [ctvPathItems,tapscriptTweakPubkey,tapscriptBuildControlBlock2leaf,hser,hadd,hx,
      hmerkle,sweepPath]

theorem tapscriptBuildCtv_length (secp : Secp) (th : Blob 32) :
    (tapscriptBuildCtv secp th).script.length = 34 := by
  simp [tapscriptBuildCtv,tapscriptLeaf]

theorem witness_eq (script cb : Bytes) (hs : script.length = 34) (hc : cb.length ≤ 65) :
    [[0x02],[0x22],script,[UInt8.ofNat cb.length],cb].flatten =
      (counted bytes).put [script,cb] := by
  simp [counted,bytes,putMany,hs,compactSize_put_small cb.length (by omega),compactSize_put_small]

theorem buildCtvPathWitness_eq {secp : Secp} {ka : Keyagg} {th : Blob 32}
    {sweep : Option TapscriptLeaf} {script cb : Bytes}
    (h : ctvPathItems secp ka th sweep = some (script,cb)) (hs : script.length = 34)
    (hcb : cb.length ≤ 65) (buf : Bytes) : buildCtvPathWitness secp ka th sweep buf =
      some (Filled.deliver ((counted bytes).put [script,cb]) buf) := by
  rw [← witness_eq _ cb hs hcb]
  simp only [buildCtvPathWitness,h]
  exact Filled.deliver_writeAll _ buf _ (by simp [hs]; omega)

theorem ctvFactoryBuildFundingWitness_eq {secp : Secp} {f g : CtvFactory} {height : UInt32}
    (h : ctvFactoryBuild secp f height = some g) :
    ∃ script cb, script.length = 34 ∧ cb.length ≤ 65 ∧ ∀ buf,
      ctvFactoryBuildFundingWitness secp g buf =
        some (Filled.deliver ((counted bytes).put [script,cb]) buf) := by
  obtain ⟨-,-,⟨keys,hka⟩,sweep,hsweep,hspk⟩ := ctvFactoryBuild_inv h
  obtain ⟨ser,-,-,parity,-,-,-,-,hitems⟩ := ctvPathItems_of_fundingSpk hka hspk
  have hcb : (controlByte parity :: (ser.val ++ sweepPath sweep)).length ≤ 65 := by
    have hpath := sweepPath_length sweep
    simp
    omega
  refine ⟨_,_,tapscriptBuildCtv_length secp g.distTxTh,hcb,fun buf => ?_⟩
  rw [ctvFactoryBuildFundingWitness,hsweep]
  exact buildCtvPathWitness_eq hitems (tapscriptBuildCtv_length secp g.distTxTh) hcb buf

def stripWitness (bs : Bytes) : Option Bytes := (parseSegwitTx bs).map (fun t => t.base.serialize)

section

variable {secp : Secp} {f g : CtvFactory} {height : UInt32}
  (h : ctvFactoryBuild secp f height = some g) (prevout : OutPoint)

include h

theorem nOutputs_le : g.distOutputs.length ≤ 0xffff := by
  have hn := (ctvFactoryBuild_inv h).1
  simp only [ctvFactoryMaxUsersSingleLayer,nUsers] at hn
  simp [distOutputs]
  omega

theorem dist_ok : Tx.wire.ok (distTx prevout g.distOutputs) := by
  have hn := nOutputs_le h
  refine distTx_ok prevout _ (by omega) (fun o ho => ?_)
  simp only [distOutputs,List.mem_append,List.mem_map,List.mem_singleton] at ho
  obtain ⟨u,-,rfl⟩ | rfl := ho
  · simp
  · simp [anchorOut,ctvFactoryAnchorSpk]

theorem dist_templateHash :
    (distTx prevout g.distOutputs).templateHash secp.sha256 0 = g.distTxTh := by
  obtain ⟨hn,hth,-⟩ := ctvFactoryBuild_inv h
  have hcap : ¬ g.nUsers * 43 + 13 > ctvFactoryMaxUsersSingleLayer*43+13 := by omega
  simp only [computeDistTxTh,serializeOutputsConcat,if_neg hcap,serializeUsers_eq,
    bind_eq_bind,bind_some,some.injEq] at hth
  rw [distTx_templateHash,← hth]
  simp [distOutputs,nUsers]

theorem outputCount_eq : (writeOutputCount (g.nUsers+1)).flatten =
    compactSize.put g.distOutputs.length := by
  rw [← writeOutputCount_eq _ (nOutputs_le h)]
  simp [distOutputs,nUsers]

theorem ctvFactoryBuildDistTx_eq (buf : Bytes) :
    ctvFactoryBuildDistTx g prevout.txid prevout.vout buf =
      some (Filled.deliver (distTx prevout g.distOutputs).serialize buf) := by
  have hbytes : ([wU32Le 2,[0x01],prevout.txid.val,wU32Le prevout.vout,[0x00],
      wU32Le 0xFFFFFFFE] ++ writeOutputCount (g.nUsers+1) ++
      g.users.map (serializeUserOutput g) ++ [serializeAnchor] ++ [wU32Le 0]).flatten =
      (distTx prevout g.distOutputs).serialize := by
    rw [distTx_serialize,← outputCount_eq h,← serializeUsers_eq]
    simp
  rw [← hbytes]
  refine Filled.deliver_writeAll _ buf _ ?_
  simp only [flatten_append,length_append,writeOutputCount_length,serializeUsers_length]
  simp [serializeAnchor_length,wU32Le,txBufWriteU32Le_eq]
  omega

theorem ctvFactoryBuildDistTxSegwit_eq :
    ∃ script cb : Bytes, script.length = 34 ∧ cb.length ≤ 65 ∧ ∀ buf,
      ctvFactoryBuildDistTxSegwit secp g prevout.txid prevout.vout buf = some (Filled.deliver
        (SegwitTx.serialize ⟨distTx prevout g.distOutputs,[[script,cb]]⟩) buf) := by
  obtain ⟨script,cb,hs,hc,hwit⟩ := ctvFactoryBuildFundingWitness_eq h
  refine ⟨script,cb,hs,hc,fun buf => ?_⟩
  set w := (counted bytes).put [script,cb] with hw
  have hlen : w.length = 37 + cb.length := by
    rw [hw,← witness_eq script cb hs hc]
    simp [hs]
    omega
  have hfit : ¬ (Blob.zero 128).val.length < w.length := by
    rw [Blob.length_val]
    omega
  have hbytes : ([wU32Le 2,[0x00],[0x01],[0x01],prevout.txid.val,wU32Le prevout.vout,[0x00],
      wU32Le 0xFFFFFFFE] ++ writeOutputCount (g.nUsers+1) ++
      g.users.map (serializeUserOutput g) ++ [serializeAnchor] ++ [w] ++ [wU32Le 0]).flatten =
      SegwitTx.serialize ⟨distTx prevout g.distOutputs,[[script,cb]]⟩ := by
    have hout : (counted wire).put (distTx prevout g.distOutputs).outputs =
        (writeOutputCount (g.nUsers+1)).flatten ++
          ((g.users.map (serializeUserOutput g)).flatten ++ serializeAnchor) := by
      rw [outputCount_eq h,serializeUsers_eq]
      rfl
    rw [SegwitTx.serialize,distTx_inputs,hout]
    simp [distTx,wU32Le,txBufWriteU32Le_eq,putMany,hw]
  rw [← hbytes]
  simp only [ctvFactoryBuildDistTxSegwit,hwit,Filled.deliver,if_neg hfit,bind_eq_bind,
    bind_some,Bool.true_eq_false,if_false,take_left']
  refine Filled.deliver_writeAll _ buf _ ?_
  simp only [flatten_append,length_append,writeOutputCount_length,serializeUsers_length]
  simp [serializeAnchor_length,wU32Le,txBufWriteU32Le_eq]
  omega

end

theorem dist_tx_meets_template (secp : Secp) (f g : CtvFactory) (height : UInt32)
    (h : ctvFactoryBuild secp f height = some g) (prevout : OutPoint) :
    ∃ (t : Tx) (unsigned segwit : Bytes) (stack : List Bytes),
      (∀ buf, ctvFactoryBuildDistTx g prevout.txid prevout.vout buf =
        some (Filled.deliver unsigned buf)) ∧
      parseTx unsigned = some t ∧
      (∃ sequence, t.inputs = [⟨prevout,[],sequence⟩]) ∧
      t.templateHash secp.sha256 0 = g.distTxTh ∧
      (∀ buf, ctvFactoryBuildDistTxSegwit secp g prevout.txid prevout.vout buf =
        some (Filled.deliver segwit buf)) ∧
      parseSegwitTx segwit = some ⟨t,[stack]⟩ ∧ stripWitness segwit = some unsigned := by
  obtain ⟨script,cb,hs,hc,hseg⟩ := ctvFactoryBuildDistTxSegwit_eq h prevout
  have hok := dist_ok h prevout
  have hparse : parseSegwitTx (SegwitTx.serialize ⟨distTx prevout g.distOutputs,[[script,cb]]⟩) =
      some ⟨distTx prevout g.distOutputs,[[script,cb]]⟩ := by
    refine parseSegwitTx_serialize _ hok (fun w hw => ?_) rfl
    obtain rfl := mem_singleton.mp hw
    refine ⟨by simp,fun x hx => ?_⟩
    obtain rfl | rfl : x = script ∨ x = cb := by simpa using hx
    · change x.length < 256^8
      omega
    · change x.length < 256^8
      omega
  exact ⟨_,_,_,_,ctvFactoryBuildDistTx_eq h prevout,parseTx_serialize _ hok,⟨_,rfl⟩,
    dist_templateHash h prevout,hseg,hparse,by rw [stripWitness,hparse]; rfl⟩

def sampleKey (i : UInt8) : Pubkey := (Blob.fill 1 i).append (Blob.zero 63)

def sampleUser (i : UInt8) : CtvUser :=
  ⟨sampleKey i,⟨Blob.zero 64,Blob.zero 197⟩,Blob.zero 34⟩

def sampleCtvFactory : CtvFactory where
  slotDepositSats := 50000
  recoveryOffsetBlocks := 4320
  activationOffsetBlocks := 144
  lspPubkey := Blob.zero 64
  users := [sampleUser 1,sampleUser 2]
  totalFundingSats := 0
  recoveryCltvAbsolute := 0
  activationCltvAbsolute := 0
  keyagg := ⟨Blob.zero 64,Blob.zero 197⟩
  distTxTh := Blob.zero 32
  fundingSpk := Blob.zero 34

theorem dist_tx_meets_template_two_users :
    ∃ g, ctvFactoryBuild Secp.sample sampleCtvFactory 800000 = some g ∧ ∃ t unsigned,
      (∀ buf, ctvFactoryBuildDistTx g (Blob.zero 32) 1 buf = some (Filled.deliver unsigned buf)) ∧
      parseTx unsigned = some t ∧ t.templateHash Secp.sample.sha256 0 = g.distTxTh := by
  have hsome : (ctvFactoryBuild Secp.sample sampleCtvFactory 800000).isSome = true := by
    decide +kernel
  obtain ⟨g,hg⟩ := isSome_iff_exists.mp hsome
  obtain ⟨t,unsigned,_,_,hw,hp,-,hth,-⟩ :=
    dist_tx_meets_template _ _ g _ hg ⟨Blob.zero 32,1⟩
  exact ⟨g,hg,t,unsigned,hw,hp,hth⟩

end SuperScalar
