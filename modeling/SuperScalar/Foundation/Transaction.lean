import SuperScalar.Foundation.Wire

namespace Bitcoin

open List UInt32 Wire

structure OutPoint where
  txid : Blob 32
  vout : UInt32
deriving DecidableEq

structure TxIn where
  prevout : OutPoint
  scriptSig : Bytes
  sequence : UInt32
deriving DecidableEq

structure TxOut where
  amount : UInt64
  script : Bytes
deriving DecidableEq

structure Tx where
  version : UInt32
  inputs : List TxIn
  outputs : List TxOut
  locktime : UInt32
deriving DecidableEq

def OutPoint.wire : Wire OutPoint :=
  ((raw 32).pair u32).iso (fun p => ⟨p.1,p.2⟩) (fun o => (o.txid,o.vout)) (fun _ => rfl)

def TxIn.wire : Wire TxIn :=
  (OutPoint.wire.pair (bytes.pair u32)).iso (fun p => ⟨p.1,p.2.1,p.2.2⟩)
    (fun i => (i.prevout,i.scriptSig,i.sequence)) (fun _ => rfl)

def TxOut.wire : Wire TxOut :=
  (u64.pair bytes).iso (fun p => ⟨p.1,p.2⟩) (fun o => (o.amount,o.script)) (fun _ => rfl)

def Tx.wire : Wire Tx :=
  (u32.pair ((counted TxIn.wire).pair ((counted TxOut.wire).pair u32))).iso
    (fun p => ⟨p.1,p.2.1,p.2.2.1,p.2.2.2⟩)
    (fun t => (t.version,t.inputs,t.outputs,t.locktime)) (fun _ => rfl)

def Tx.serialize (t : Tx) : Bytes := Tx.wire.put t

def parseTx (bs : Bytes) : Option Tx :=
  match Tx.wire.get bs with
  | some (t,[]) => some t
  | _ => none

theorem parseTx_serialize (t : Tx) (h : Tx.wire.ok t) : parseTx t.serialize = some t := by
  have hg := Tx.wire.get_put t [] h
  rw [append_nil] at hg
  simp [parseTx,Tx.serialize,hg]

theorem Tx.serialize_inj {t u : Tx} (ht : Tx.wire.ok t) (hu : Tx.wire.ok u)
    (h : t.serialize = u.serialize) : t = u := Tx.wire.put_inj ht hu h

theorem TxOut.ok_iff (o : TxOut) : TxOut.wire.ok o ↔ o.script.length < 256^8 := by
  simp [TxOut.wire,iso,pair,u64,bytes]

theorem TxIn.ok_iff (i : TxIn) : TxIn.wire.ok i ↔ i.scriptSig.length < 256^8 := by
  simp [TxIn.wire,OutPoint.wire,iso,pair,u32,raw,bytes]

theorem Tx.ok_iff (t : Tx) : Tx.wire.ok t ↔
    (t.inputs.length < 256^8 ∧ ∀ i ∈ t.inputs, i.scriptSig.length < 256^8) ∧
    (t.outputs.length < 256^8 ∧ ∀ o ∈ t.outputs, o.script.length < 256^8) := by
  simp [Tx.wire,iso,pair,u32,counted,TxIn.ok_iff,TxOut.ok_iff]

theorem TxOut.put_ne_nil (o : TxOut) : TxOut.wire.put o ≠ [] := by
  intro h
  have hl := congrArg length h
  simp [TxOut.wire,iso,pair] at hl

structure SegwitTx where
  base : Tx
  witnesses : List (List Bytes)
deriving DecidableEq

def SegwitTx.serialize (t : SegwitTx) : Bytes :=
  u32.put t.base.version ++ [0x00,0x01] ++ (counted TxIn.wire).put t.base.inputs ++
    (counted TxOut.wire).put t.base.outputs ++
    (counted bytes).putMany t.witnesses ++ u32.put t.base.locktime

def getMarker : Bytes → Option Bytes
  | m :: f :: rest => if m = 0x00 ∧ f = 0x01 then some rest else none
  | _ => none

def parseSegwitTx (bs : Bytes) : Option SegwitTx := do
  let (version,bs) ← u32.get bs
  let bs ← getMarker bs
  let (inputs,bs) ← (counted TxIn.wire).get bs
  let (outputs,bs) ← (counted TxOut.wire).get bs
  let (witnesses,bs) ← (counted bytes).getMany inputs.length bs
  let (locktime,bs) ← u32.get bs
  if bs = [] then some ⟨⟨version,inputs,outputs,locktime⟩,witnesses⟩ else none

theorem parseSegwitTx_serialize (t : SegwitTx) (h : Tx.wire.ok t.base)
    (hw : ∀ w ∈ t.witnesses, (counted bytes).ok w)
    (hl : t.witnesses.length = t.base.inputs.length) : parseSegwitTx t.serialize = some t := by
  obtain ⟨_,hi,ho,_⟩ := h
  have hlock := u32.get_put t.base.locktime [] trivial
  rw [append_nil] at hlock
  have hmany := (counted bytes).getMany_putMany t.witnesses
    (u32.put t.base.locktime) hw
  rw [hl] at hmany
  have hout := (counted TxOut.wire).get_put t.base.outputs
    ((counted bytes).putMany t.witnesses ++ u32.put t.base.locktime) ho
  have hin := (counted TxIn.wire).get_put t.base.inputs
    ((counted TxOut.wire).put t.base.outputs ++
      ((counted bytes).putMany t.witnesses ++ u32.put t.base.locktime)) hi
  simp only [parseSegwitTx,SegwitTx.serialize,append_assoc,u32.get_put _ _ trivial,
    Option.bind_eq_bind,Option.bind_some,cons_append,nil_append,getMarker,and_self,
    if_true,hin,hout,hmany,hlock]

section

variable (sha : Bytes → Blob 32)

def sha256d (bs : Bytes) : Blob 32 := sha (sha bs).val

def Tx.txid (t : Tx) : Blob 32 := sha256d sha t.serialize

def Tx.sequenceBytes (t : Tx) : Bytes := u32.putMany (t.inputs.map TxIn.sequence)

def Tx.outputBytes (t : Tx) : Bytes := TxOut.wire.putMany t.outputs

def Tx.scriptSigPart (t : Tx) : Bytes :=
  if t.inputs.all (fun i => i.scriptSig.isEmpty) then []
  else (sha (bytes.putMany (t.inputs.map TxIn.scriptSig))).val

def templatePreimage (version locktime : UInt32) (scriptSigs : Bytes) (nInputs : UInt32)
    (sequences : Blob 32) (nOutputs : UInt32) (outputs : Blob 32) (index : UInt32) : Bytes :=
  u32.put version ++ (u32.put locktime ++ (scriptSigs ++ (u32.put nInputs ++
    (sequences.val ++ (u32.put nOutputs ++ (outputs.val ++ u32.put index))))))

def Tx.preimage (t : Tx) (index : UInt32) : Bytes :=
  templatePreimage t.version t.locktime (t.scriptSigPart sha) (ofNat t.inputs.length)
    (sha t.sequenceBytes) (ofNat t.outputs.length) (sha t.outputBytes) index

def Tx.templateHash (t : Tx) (index : UInt32) : Blob 32 := sha (t.preimage sha index)

def Tx.templateMessages (t : Tx) (index : UInt32) : Set Bytes :=
  {t.preimage sha index,t.sequenceBytes,t.outputBytes}

def Tx.txidMessages (t : Tx) : Set Bytes := {t.serialize,(sha t.serialize).val}

theorem Tx.scriptSigPart_nil {t : Tx} (h : ∀ i ∈ t.inputs, i.scriptSig = []) :
    t.scriptSigPart sha = [] := by
  have ha : t.inputs.all (fun i => i.scriptSig.isEmpty) = true := by simpa using h
  rw [Tx.scriptSigPart,if_pos ha]

theorem Tx.scriptSigs_empty {t : Tx} (h : (t.scriptSigPart sha).length = 0) :
    ∀ i ∈ t.inputs, i.scriptSig = [] := by
  unfold Tx.scriptSigPart at h
  split_ifs at h with ha
  · simpa using ha
  · simp at h

theorem Tx.preimage_length (t : Tx) (index : UInt32) :
    (t.preimage sha index).length = 84 + (t.scriptSigPart sha).length := by
  simp only [Tx.preimage,templatePreimage,length_append,u32_put_length,Blob.length_val]
  omega

theorem template_unique {t u : Tx} {i j : UInt32}
    (hsha : Set.InjOn sha (t.templateMessages sha i ∪ u.templateMessages sha j))
    (ht : ∀ x ∈ t.inputs, x.scriptSig = [])
    (hto : ∀ o ∈ t.outputs, TxOut.wire.ok o) (huo : ∀ o ∈ u.outputs, TxOut.wire.ok o)
    (h : t.templateHash sha i = u.templateHash sha j) :
    t.version = u.version ∧ t.locktime = u.locktime ∧ t.outputs = u.outputs ∧
      t.inputs.map TxIn.sequence = u.inputs.map TxIn.sequence ∧
      ∀ x ∈ u.inputs, x.scriptSig = [] := by
  have hp := hsha (by simp [Tx.templateMessages]) (by simp [Tx.templateMessages]) h
  have hl := congrArg length hp
  simp only [Tx.preimage_length,Tx.scriptSigPart_nil sha ht] at hl
  have hus : (u.scriptSigPart sha).length = 0 := by simpa using hl.symm
  have hun := length_eq_zero_iff.mp hus
  simp only [Tx.preimage,Tx.scriptSigPart_nil sha ht,hun] at hp
  unfold templatePreimage at hp
  simp only [nil_append] at hp
  obtain ⟨hv,hp⟩ := u32.put_append_inj trivial trivial hp
  obtain ⟨hk,hp⟩ := u32.put_append_inj trivial trivial hp
  obtain ⟨_,hp⟩ := u32.put_append_inj trivial trivial hp
  obtain ⟨hseq,hp⟩ := (raw 32).put_append_inj trivial trivial hp
  obtain ⟨_,hp⟩ := u32.put_append_inj trivial trivial hp
  obtain ⟨hout,_⟩ := (raw 32).put_append_inj trivial trivial hp
  have hsb := hsha (by simp [Tx.templateMessages]) (by simp [Tx.templateMessages]) hseq
  have hob := hsha (by simp [Tx.templateMessages]) (by simp [Tx.templateMessages]) hout
  refine ⟨hv,hk,?_,?_,Tx.scriptSigs_empty sha hus⟩
  · exact TxOut.wire.putMany_inj TxOut.put_ne_nil hto huo hob
  · exact u32.putMany_inj (fun v hv => by simpa using congrArg length hv)
      (fun _ _ => trivial) (fun _ _ => trivial) hsb

theorem txid_inj {t u : Tx}
    (hsha : Set.InjOn sha (t.txidMessages sha ∪ u.txidMessages sha))
    (ht : Tx.wire.ok t) (hu : Tx.wire.ok u) (h : t.txid sha = u.txid sha) : t = u := by
  have h1 := hsha (by simp [Tx.txidMessages]) (by simp [Tx.txidMessages]) h
  have h2 := hsha (by simp [Tx.txidMessages]) (by simp [Tx.txidMessages]) (Subtype.ext h1)
  exact Tx.serialize_inj ht hu h2

def messagesOf (txs : Set Tx) : Set Bytes :=
  {m | ∃ t ∈ txs, m ∈ t.txidMessages sha ∨
    ∃ k < t.inputs.length, m ∈ t.templateMessages sha (ofNat k)}

theorem txid_injOn {txs : Set Tx} (hsha : Set.InjOn sha (messagesOf sha txs))
    (hok : ∀ t ∈ txs, Tx.wire.ok t) : Set.InjOn (Tx.txid sha) txs := by
  intro t ht u hu h
  refine txid_inj sha (hsha.mono ?_) (hok t ht) (hok u hu) h
  rintro m (hm | hm)
  · exact ⟨t,ht,Or.inl hm⟩
  · exact ⟨u,hu,Or.inl hm⟩

def Tx.messageList (t : Tx) : List Bytes :=
  [t.serialize,(sha t.serialize).val,t.sequenceBytes,t.outputBytes] ++
    (range t.inputs.length).map (fun k => t.preimage sha (ofNat k))

def CollisionFree (txs : List Tx) : Prop :=
  ∀ a ∈ txs.flatMap (Tx.messageList sha), ∀ b ∈ txs.flatMap (Tx.messageList sha),
    sha a = sha b → a = b

instance (txs : List Tx) : Decidable (CollisionFree sha txs) :=
  inferInstanceAs (Decidable (∀ a ∈ _, ∀ b ∈ _, _))

theorem CollisionFree.injOn {txs : List Tx} (h : CollisionFree sha txs) :
    Set.InjOn sha (messagesOf sha {t | t ∈ txs}) := by
  have hsub : ∀ m ∈ messagesOf sha {t | t ∈ txs}, m ∈ txs.flatMap (Tx.messageList sha) := by
    rintro m ⟨t,ht,hm⟩
    refine mem_flatMap.mpr ⟨t,ht,?_⟩
    simp only [Tx.messageList,mem_append,mem_cons,mem_map,mem_range]
    obtain (rfl | rfl) | ⟨k,hk,rfl | rfl | rfl⟩ := hm
    · simp
    · simp
    · exact Or.inr ⟨k,hk,rfl⟩
    · simp
    · simp
  intro a ha b hb hab
  exact h a (hsub a ha) b (hsub b hb) hab

structure Spends (txs : Set Tx) (t : Tx) (prevout : OutPoint) (th : Blob 32) : Prop where
  mem : t ∈ txs
  template : ∃ (k : ℕ) (input : TxIn), t.inputs[k]? = some input ∧ input.prevout = prevout ∧
    t.templateHash sha (ofNat k) = th

theorem Spends.unique {txs : Set Tx} {t u : Tx} {input : TxIn} {prevout : OutPoint} {th : Blob 32}
    (hsha : Set.InjOn sha (messagesOf sha txs)) (hok : ∀ t ∈ txs, Tx.wire.ok t)
    (ht : t ∈ txs) (hin : t.inputs = [input]) (hsig : input.scriptSig = [])
    (hprev : input.prevout = prevout) (hth : t.templateHash sha 0 = th)
    (hu : Spends sha txs u prevout th) : u = t := by
  obtain ⟨hmem,k,other,hk,hprev',hth'⟩ := hu
  have hkl : k < u.inputs.length := (List.getElem?_eq_some_iff.mp hk).1
  have hinj : Set.InjOn sha (t.templateMessages sha 0 ∪
      u.templateMessages sha (ofNat k)) := by
    refine hsha.mono ?_
    rintro m (hm | hm)
    · exact ⟨t,ht,Or.inr ⟨0,by simp [hin],hm⟩⟩
    · exact ⟨u,hmem,Or.inr ⟨k,hkl,hm⟩⟩
  obtain ⟨hv,hl,ho,hs,hsigs⟩ := template_unique sha hinj (by simp [hin,hsig])
    (hok t ht).2.2.1.2 (hok u hmem).2.2.1.2 (hth.trans hth'.symm)
  obtain ⟨single,huin⟩ : ∃ x, u.inputs = [x] := by
    have hlen := congrArg length hs
    simp only [hin,map_cons,map_nil,length_cons,length_nil,length_map] at hlen
    exact length_eq_one_iff.mp hlen.symm
  obtain rfl : k = 0 := by simpa [huin] using hkl
  obtain rfl : single = other := by simpa [huin] using hk
  have hsin : single = input := by
    obtain ⟨p,sg,sq⟩ := single
    obtain ⟨p',sg',sq'⟩ := input
    simp_all
  cases t
  cases u
  simp_all

end

end Bitcoin
