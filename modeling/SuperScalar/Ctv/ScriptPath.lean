import SuperScalar.Ctv.DistTx

namespace SuperScalar

open List

section

variable (secp : Secp)

def cbNode (cb : Bytes) (start : ℕ) : Blob 32 :=
  ⟨(cb.drop start ++ replicate 32 0).take 32,by simp⟩

def bip341Branch (k e : Blob 32) : Blob 32 :=
  sha256Tagged secp .tapBranch (if k.val < e.val then k.val ++ e.val else e.val ++ k.val)

def bip341Root (script cb : Bytes) : Blob 32 :=
  (range ((cb.length-33)/32)).foldl
    (fun k j => bip341Branch secp k (cbNode cb (33+32*j)))
    (sha256Tagged secp .tapLeaf
      ((cb.headD 0 &&& 0xfe) :: (Wire.compactSize.put script.length ++ script)))

-- `key` is the point that the control block names by its x coordinate.
def Bip341Commits (spk : Blob 34) (script cb : Bytes) : Prop :=
  (∃ n ≤ 128, cb.length = 33+32*n) ∧
  ∃ key full xonly parity, secp.xonlyPubkeySerialize key = some (cbNode cb 1) ∧
    secp.xonlyPubkeyTweakAdd key (sha256Tagged secp .tapTweak
      ((cbNode cb 1).val ++ (bip341Root secp script cb).val)) = some full ∧
    secp.xonlyPubkeyFromPubkey full = some (xonly,parity) ∧
    spk = buildP2trScriptPubkey secp xonly ∧ (cb.headD 0 &&& 1 = 1 ↔ parity = true)

end

section

variable {secp : Secp} {ka : Keyagg} {th : Blob 32} {sweep : Option TapscriptLeaf}

theorem memcmpLe_iff (a b : Bytes) : memcmpLe a b = true ↔ a ≤ b := by
  induction a generalizing b with
  | nil => simp [memcmpLe]
  | cons x a ih =>
    cases b with
    | nil => simp [memcmpLe]
    | cons y b => simp [memcmpLe,ih,cons_le_cons_iff]

theorem tapBranch_eq (k e : Blob 32) : bip341Branch secp k e = tapBranch secp k e := by
  rw [bip341Branch,tapBranch]
  congr 1
  by_cases hlt : k.val < e.val
  · rw [if_pos hlt,if_pos ((memcmpLe_iff _ _).mpr (List.le_of_lt hlt))]
  · rw [if_neg hlt]
    split_ifs with hle
    · rw [List.le_antisymm ((memcmpLe_iff _ _).mp hle) (List.not_lt.mp hlt)]
    · rfl

theorem cbNode_eq {before : Bytes} (node : Blob 32) (after : Bytes) {start : ℕ}
    (h : before.length = start) : cbNode (before ++ (node.val++after)) start = node := by
  apply Subtype.ext
  simp [cbNode,← h]

theorem root_commits (parity : Bool) (ser : Blob 32) :
    bip341Root secp (tapscriptBuildCtv secp th).script
      (controlByte parity :: (ser.val ++ sweepPath sweep)) = ctvRoot secp th sweep := by
  have hversion : controlByte parity &&& 0xfe = 0xc0 := by cases parity <;> decide
  have hleaf : sha256Tagged secp .tapLeaf ((controlByte parity &&& 0xfe) ::
      (Wire.compactSize.put (tapscriptBuildCtv secp th).script.length ++
        (tapscriptBuildCtv secp th).script)) = (tapscriptBuildCtv secp th).leafHash := by
    rw [hversion,Wire.compactSize_put_small _ (by rw [tapscriptBuildCtv_length]; decide)]
    rfl
  rw [bip341Root,headD_cons,hleaf]
  cases sweep with
  | none => simp [sweepPath,ctvRoot]
  | some leaf =>
    have hnode : cbNode ((controlByte parity :: ser.val) ++ (leaf.leafHash.val ++ [])) 33 =
        leaf.leafHash := cbNode_eq leaf.leafHash [] (by simp)
    rw [append_nil,cons_append] at hnode
    simp [sweepPath,ctvRoot,hnode,tapBranch_eq]

theorem ctv_witness_opens_funding (secp : Secp) (keys : List Pubkey) (ka : Keyagg) (th : Blob 32)
    (sweep : Option TapscriptLeaf) (spk : Blob 34) (hka : musigAggregateKeys secp keys = some ka)
    (hspk : buildFactoryFundingSpk secp ka (some th) sweep = some spk) :
    ∃ script cb witness, (∀ buf, buildCtvPathWitness secp ka th sweep buf =
        some (Filled.deliver witness buf)) ∧
      (Wire.counted Wire.bytes).get witness = some ([script,cb],[]) ∧
      script = 0x20 :: (th.val ++ [0xb3]) ∧ script.length = 34 ∧
      cb.length = (if sweep.isSome then 65 else 33) ∧ Bip341Commits secp spk script cb := by
  obtain ⟨ser,full,xonly,parity,hser,hadd,hx,rfl,hitems⟩ :=
    ctvPathItems_of_fundingSpk hka hspk
  have hscript := tapscriptBuildCtv_length secp th
  have hcb : (controlByte parity :: (ser.val ++ sweepPath sweep)).length =
      if sweep.isSome then 65 else 33 := by
    cases sweep <;> simp [sweepPath]
  have hshort : (controlByte parity :: (ser.val ++ sweepPath sweep)).length ≤ 65 := by
    rw [hcb]
    split_ifs <;> decide
  have hkey : cbNode (controlByte parity :: (ser.val ++ sweepPath sweep)) 1 = ser :=
    cbNode_eq ser (sweepPath sweep) (show [controlByte parity].length = 1 from rfl)
  have hok : (Wire.counted Wire.bytes).ok
      [(tapscriptBuildCtv secp th).script,controlByte parity :: (ser.val ++ sweepPath sweep)] := by
    refine ⟨show 2 < 256^8 by decide,fun x hx => ?_⟩
    rcases mem_pair.mp hx with rfl | rfl
    · exact hscript.trans_lt (by decide)
    · exact hshort.trans_lt (by decide)
  have hparse := (Wire.counted Wire.bytes).get_put _ [] hok
  rw [append_nil] at hparse
  refine ⟨_,_,_,buildCtvPathWitness_eq hitems hscript hshort,hparse,rfl,hscript,hcb,?_,
    ka.aggPubkey,full,xonly,parity,hkey.symm ▸ hser,?_,hx,rfl,?_⟩
  · exact ⟨if sweep.isSome then 1 else 0,by split_ifs <;> decide,by rw [hcb]; split_ifs <;> rfl⟩
  · rw [hkey,root_commits]
    exact hadd
  · rw [headD_cons]
    cases parity <;> decide

theorem ctv_witness_opens_funding_swept :
    ∃ spk script cb, buildFactoryFundingSpk Secp.sample ⟨Secp.sampleHash 64 [],Blob.zero 197⟩
      (some (Blob.zero 32)) (some (tapscriptLeaf Secp.sample [0x51])) = some spk ∧
      cb.length = 65 ∧ Bip341Commits Secp.sample spk script cb := by
  obtain ⟨spk,hspk⟩ : ∃ spk, buildFactoryFundingSpk Secp.sample
      ⟨Secp.sampleHash 64 [],Blob.zero 197⟩ (some (Blob.zero 32))
      (some (tapscriptLeaf Secp.sample [0x51])) = some spk := ⟨_,rfl⟩
  obtain ⟨script,cb,-,-,-,-,-,hcb,hcommits⟩ :=
    ctv_witness_opens_funding Secp.sample [] _ _ _ spk rfl hspk
  exact ⟨spk,script,cb,hspk,hcb,hcommits⟩

end

end SuperScalar
