import SuperScalar.Lsp.Manager
import SuperScalar.Factory.Setup

namespace SuperScalar

open Bitcoin List

def hexDigit (c : Char) : Option UInt8 :=
  if '0' ≤ c ∧ c ≤ '9' then some (UInt8.ofNat (c.toNat - '0'.toNat))
  else if 'a' ≤ c ∧ c ≤ 'f' then some (UInt8.ofNat (c.toNat - 'a'.toNat + 10))
  else if 'A' ≤ c ∧ c ≤ 'F' then some (UInt8.ofNat (c.toNat - 'A'.toNat + 10))
  else none

def hexPairs : List Char → Option Bytes
  | [] => some []
  | [_] => none
  | hi :: lo :: rest => do
    let hi ← hexDigit hi
    let lo ← hexDigit lo
    let bytes ← hexPairs rest
    some ((hi <<< 4 ||| lo) :: bytes)

def hexDecode (hex : List Char) (outLen : ℕ) : Bytes :=
  if hex.length % 2 ≠ 0 ∨ hex.length/2 > outLen then [] else (hexPairs hex).getD []

-- The fields of one entry of `outputs`; `none` if a field is missing or of another type.
structure CloseOutputItem where
  amount : Option ℕ
  spk : Option (List Char)
deriving DecidableEq

structure CloseProposal where
  outputs : Option (List CloseOutputItem)
  currentHeight : Option ℕ
deriving DecidableEq

inductive CloseMsg where
  | error
  | lspRevokeAndAck
  | leafAdvancePropose (payload : Bytes)
  | stateAdvancePropose (payload : Bytes)
  | leafAdvanceDone
  | pathSignDone
  | closePropose (proposal : CloseProposal)
  | closeAllNonces (nonces : Option (List (Option (List Char))))
  | closeDone
  | other (msgType : UInt8)
deriving DecidableEq

inductive CloseSend where
  | closeNonce (pubnonce : Pubnonce)
  | closePsig (psig : Blob 32)
deriving DecidableEq

structure CloseRun where
  code : Int
  sends : List CloseSend
deriving DecidableEq

structure AdvanceHandlers where
  leafAdvance : Factory → ℕ → Bytes → Option Factory
  stateAdvance : Factory → ℕ → Bytes → Option Factory

structure CloseInput where
  factory : Factory
  nParticipants : ℕ
  keypair : Keypair
  myPubkey : Pubkey
  initialMsg : Option CloseProposal
  currentHeight : UInt32
  ch : Option UInt64
  incoming : List CloseMsg
  nonce : Option (Secnonce × Pubnonce)
  nonceSent : Bool
  psigSent : Bool

section

variable (m : Musig) (handlers : AdvanceHandlers)

def participantIndex (f : Factory) (myPubkey : Pubkey) : Option ℕ :=
  f.pubkeys.findIdx? (fun pk => m.ecPubkeySerialize pk = m.ecPubkeySerialize myPubkey)

def receivePropose (myPubkey : Pubkey) (f : Factory) :
    List CloseMsg → Option (CloseProposal × Factory × List CloseMsg)
  | .lspRevokeAndAck :: rest => receivePropose myPubkey f rest
  | .leafAdvancePropose payload :: rest =>
    match (participantIndex m f myPubkey).bind (handlers.leafAdvance f · payload) with
    | none => none
    | some f => receivePropose myPubkey f rest
  | .stateAdvancePropose payload :: rest =>
    match (participantIndex m f myPubkey).bind (handlers.stateAdvance f · payload) with
    | none => none
    | some f => receivePropose myPubkey f rest
  | .leafAdvanceDone :: rest => receivePropose myPubkey f rest
  | .pathSignDone :: rest => receivePropose myPubkey f rest
  | .closePropose proposal :: rest => some (proposal,f,rest)
  | _ => none

def receiveNonces (myPubkey : Pubkey) (f : Factory) :
    List CloseMsg → Option (List (Option (List Char)) × List CloseMsg)
  | .lspRevokeAndAck :: rest => receiveNonces myPubkey f rest
  | .leafAdvanceDone :: rest => receiveNonces myPubkey f rest
  | .leafAdvancePropose payload :: rest =>
    match (participantIndex m f myPubkey).bind (handlers.leafAdvance f · payload) with
    | none => none
    | some f => receiveNonces myPubkey f rest
  | .stateAdvancePropose payload :: rest =>
    match (participantIndex m f myPubkey).bind (handlers.stateAdvance f · payload) with
    | none => none
    | some f => receiveNonces myPubkey f rest
  | .closeAllNonces nonces :: rest => nonces.map (·,rest)
  | _ => none

def CloseOutputItem.output (item : CloseOutputItem) : Option TxOut :=
  item.amount.map (fun amount =>
    ⟨ofJsonNumber amount,((item.spk.map (hexDecode · 34)).getD [])⟩)

def closeOutputs (proposal : CloseProposal) : Option (List TxOut) :=
  match proposal.outputs with
  | none => none
  | some items =>
    if items.length = 0 ∨ items.length > factoryMaxSigners then none
    else items.mapM CloseOutputItem.output

def refusesClose (ch : Option UInt64) (outputs : List TxOut) : Bool :=
  match ch with
  | none => false
  | some localAmount => localAmount > 0 && !outputs.any (fun o => o.amount ≥ localAmount)

def closeHeight (proposal : CloseProposal) (currentHeight : UInt32) : UInt32 :=
  (proposal.currentHeight.map UInt32.ofNat).getD currentHeight

def factoryBuildCooperativeCloseUnsigned (f : Factory) (outputs : List TxOut)
    (currentHeight : UInt32) : Bytes × Blob 32 :=
  let tx := (buildUnsignedTxWithLocktime m.toSecp f.fundingTxid f.fundingVout 0xFFFFFFFE
    currentHeight outputs).1
  (tx,computeTaprootSighash m tx 0 f.fundingSpk f.fundingAmountSats 0xFFFFFFFE)

def parsePubnonce (hex : Option (List Char)) : Option Pubnonce :=
  hex.bind (fun hex =>
    let bytes := hexDecode hex 66
    if h : bytes.length = 66 then m.musigPubnonceParse ⟨bytes,h⟩ else none)

def collectNonces (nSigners : ℕ) (nonces : List (Option (List Char))) : Option (List Pubnonce) :=
  let pubnonces := (nonces.take (min nSigners factoryMaxSigners)).filterMap (parsePubnonce m)
  if pubnonces.length = nSigners then some pubnonces else none

def closePartialSig (keyagg : Keyagg) (nSigners : ℕ) (secnonce : Secnonce) (keypair : Keypair)
    (sighash : Blob 32) (nonces : List (Option (List Char))) : Option PartialSig := do
  let pubnonces ← collectNonces m nSigners nonces
  let (session,cache) ← musigSessionFinalizeNonces m keyagg pubnonces sighash none
  m.musigPartialSign secnonce keypair cache session

def rootKeyagg (f : Factory) : Keyagg :=
  ((f.nodes[0]?).map FactoryNode.keyagg).getD ⟨Blob.zero 64,Blob.zero 197⟩

def proposedClose (x : CloseInput) : Option (CloseProposal × Factory × List CloseMsg) :=
  match x.initialMsg with
  | some proposal => some (proposal,x.factory,x.incoming)
  | none => receivePropose m handlers x.myPubkey x.factory x.incoming

def clientDoCloseCeremony (x : CloseInput) : CloseRun :=
  match proposedClose m handlers x with
  | none => ⟨0,[]⟩
  | some (proposal,f,rest) =>
    match closeOutputs proposal with
    | none => ⟨0,[]⟩
    | some outputs =>
      if refusesClose x.ch outputs then ⟨0,[]⟩
      else
        let (_,sighash) := factoryBuildCooperativeCloseUnsigned m f outputs
          (closeHeight proposal x.currentHeight)
        match x.nonce with
        | none => ⟨0,[]⟩
        | some (secnonce,pubnonce) =>
          if x.nonceSent = false then ⟨0,[.closeNonce pubnonce]⟩
          else
            match receiveNonces m handlers x.myPubkey f rest with
            | none => ⟨0,[.closeNonce pubnonce]⟩
            | some (nonces,rest) =>
              match closePartialSig m (rootKeyagg f) x.nParticipants secnonce x.keypair sighash
                  nonces with
              | none => ⟨0,[.closeNonce pubnonce]⟩
              | some psig =>
                let ser := (m.musigPartialSigSerialize psig).getD (Blob.zero 32)
                ⟨if x.psigSent ∧ rest.head? = some .closeDone then 1 else 0,
                  [.closeNonce pubnonce,.closePsig ser]⟩

end

section

variable (m : Musig) (handlers : AdvanceHandlers) (x : CloseInput)

def ReleasesSignature : Prop :=
  ∃ psig, CloseSend.closePsig psig ∈ (clientDoCloseCeremony m handlers x).sends

structure PaysClient (mine : Bytes → Prop) (localAmount : UInt64) (f : Factory)
    (outputs : List TxOut) : Prop where
  paid : ∃ o ∈ outputs, localAmount ≤ o.amount ∧ mine o.script
  funded : (outputs.map (fun o => o.amount.toNat)).sum ≤ f.fundingAmountSats.toNat

def SignsOnlyIfPaid (mine : Bytes → Prop) (localAmount : UInt64) : Prop :=
  (∃ proposal f rest outputs, proposedClose m handlers x = some (proposal,f,rest) ∧
    closeOutputs proposal = some outputs ∧ PaysClient mine localAmount f outputs) ∨
  ¬ReleasesSignature m handlers x ∧ (clientDoCloseCeremony m handlers x).code = 0

structure SessionCloses (proposal : CloseProposal) (f : Factory) (rest : List CloseMsg)
    (outputs : List TxOut) : Prop where
  large : ∀ localAmount, x.ch = some localAmount → localAmount ≠ 0 →
    ∃ o ∈ outputs, localAmount ≤ o.amount
  sent : x.nonceSent = true
  signed : ∃ secnonce pubnonce nonces rest', x.nonce = some (secnonce,pubnonce) ∧
    receiveNonces m handlers x.myPubkey f rest = some (nonces,rest') ∧
    (closePartialSig m (rootKeyagg f) x.nParticipants secnonce x.keypair
      (factoryBuildCooperativeCloseUnsigned m f outputs
        (closeHeight proposal x.currentHeight)).2 nonces).isSome

def CloseGuarded (mine : Bytes → Prop) (localAmount : UInt64) : Prop :=
  ∀ proposal f rest outputs, proposedClose m handlers x = some (proposal,f,rest) →
    closeOutputs proposal = some outputs → SessionCloses m handlers x proposal f rest outputs →
    PaysClient mine localAmount f outputs

end

section

variable {m : Musig} {handlers : AdvanceHandlers} {x : CloseInput}

theorem refusesClose_iff {ch : Option UInt64} {outputs : List TxOut} :
    refusesClose ch outputs = false ↔ ∀ localAmount, ch = some localAmount → localAmount ≠ 0 →
      ∃ o ∈ outputs, localAmount ≤ o.amount := by
  cases ch with
  | none => exact iff_of_true rfl nofun
  | some b =>
    have hpos : b > 0 ↔ b ≠ 0 := UInt64.pos_iff_ne_zero
    simp only [refusesClose,Bool.and_eq_false_iff,decide_eq_false_iff_not,Bool.not_eq_false',
      any_eq_true,decide_eq_true_eq,hpos,not_not,Option.some.injEq]
    constructor
    · rintro (rfl | hany) localAmount rfl hne
      · exact absurd rfl hne
      · exact hany
    · intro h
      by_cases hzero : b = 0
      · exact .inl hzero
      · exact .inr (h b rfl hzero)

inductive CloseOutcome (m : Musig) (handlers : AdvanceHandlers) (x : CloseInput) : CloseRun → Prop
  | signed {proposal : CloseProposal} {f : Factory} {rest : List CloseMsg} {outputs : List TxOut}
      {run : CloseRun} (hproposed : proposedClose m handlers x = some (proposal,f,rest))
      (houtputs : closeOutputs proposal = some outputs)
      (hcloses : SessionCloses m handlers x proposal f rest outputs)
      (hsent : ∃ psig, CloseSend.closePsig psig ∈ run.sends) : CloseOutcome m handlers x run
  | failed {sends : List CloseSend} (hnone : ∀ psig, CloseSend.closePsig psig ∉ sends)
      (hnot : ∀ proposal f rest outputs, proposedClose m handlers x = some (proposal,f,rest) →
        closeOutputs proposal = some outputs →
        ¬SessionCloses m handlers x proposal f rest outputs) :
      CloseOutcome m handlers x ⟨0,sends⟩

theorem clientDoCloseCeremony_outcome :
    CloseOutcome m handlers x (clientDoCloseCeremony m handlers x) := by
  unfold clientDoCloseCeremony
  cases hproposed : proposedClose m handlers x with
  | none =>
    refine .failed nofun fun proposal f rest outputs h => ?_
    rw [hproposed] at h
    cases h
  | some proposed =>
    obtain ⟨proposal,f,rest⟩ := proposed
    dsimp only
    cases houtputs : closeOutputs proposal with
    | none =>
      refine .failed nofun fun proposal' f' rest' outputs h h' => ?_
      rw [hproposed] at h
      cases h
      rw [houtputs] at h'
      cases h'
    | some outputs =>
      dsimp only
      -- What is left to show in the failing cases: this proposal does not come to a signature.
      have hfailed : ∀ sends, (∀ psig, CloseSend.closePsig psig ∉ sends) →
          ¬SessionCloses m handlers x proposal f rest outputs →
          CloseOutcome m handlers x ⟨0,sends⟩ := by
        intro sends hnone hnot
        refine .failed hnone fun proposal' f' rest' outputs' h h' => ?_
        rw [hproposed] at h
        cases h
        rw [houtputs] at h'
        cases h'
        exact hnot
      cases hrefuses : refusesClose x.ch outputs with
      | true =>
        refine hfailed [] nofun fun hcloses => ?_
        rw [refusesClose_iff.mpr hcloses.large] at hrefuses
        cases hrefuses
      | false =>
        rw [if_neg Bool.false_ne_true]
        cases hnonce : x.nonce with
        | none =>
          refine hfailed [] nofun fun hcloses => ?_
          obtain ⟨_,_,_,_,hsome,-⟩ := hcloses.signed
          rw [hnonce] at hsome
          cases hsome
        | some pair =>
          obtain ⟨secnonce,pubnonce⟩ := pair
          dsimp only
          have hnonceOnly : ∀ psig, CloseSend.closePsig psig ∉ [CloseSend.closeNonce pubnonce] := by
            intro psig hmem
            cases mem_singleton.mp hmem
          cases hsent : x.nonceSent with
          | false =>
            refine hfailed _ hnonceOnly fun hcloses => ?_
            rw [hcloses.sent] at hsent
            cases hsent
          | true =>
            rw [if_neg (by decide)]
            cases hnonces : receiveNonces m handlers x.myPubkey f rest with
            | none =>
              refine hfailed _ hnonceOnly fun hcloses => ?_
              obtain ⟨_,_,_,_,-,hsome,-⟩ := hcloses.signed
              rw [hnonces] at hsome
              cases hsome
            | some received =>
              obtain ⟨nonces,rest'⟩ := received
              dsimp only
              cases hpsig : closePartialSig m (rootKeyagg f) x.nParticipants secnonce x.keypair
                  (factoryBuildCooperativeCloseUnsigned m f outputs
                    (closeHeight proposal x.currentHeight)).2 nonces with
              | none =>
                refine hfailed _ hnonceOnly fun hcloses => ?_
                obtain ⟨_,_,_,_,hsome,hsome',hsigned⟩ := hcloses.signed
                rw [hnonce] at hsome
                cases hsome
                rw [hnonces] at hsome'
                cases hsome'
                rw [hpsig] at hsigned
                cases hsigned
              | some psig =>
                refine .signed hproposed houtputs ⟨refusesClose_iff.mp hrefuses,hsent,secnonce,
                  pubnonce,nonces,rest',hnonce,hnonces,by rw [hpsig]; rfl⟩
                  ⟨(m.musigPartialSigSerialize psig).getD (Blob.zero 32),?_⟩
                exact mem_cons_of_mem _ mem_cons_self

end

def stolenOutput : CloseOutputItem := ⟨some 999000,some (replicate 68 '2')⟩

def stolenClose : CloseInput where
  factory := Factory.sample 1 1 1
  nParticipants := 2
  keypair := Blob.zero 96
  myPubkey := Blob.zero 64
  initialMsg := none
  currentHeight := 0
  ch := some 50000
  incoming := [.closePropose ⟨some [stolenOutput],none⟩,
    .closeAllNonces (some (replicate 2 (some (replicate 132 '1')))),.closeDone]
  nonce := some (Blob.zero 132,Blob.zero 132)
  nonceSent := true
  psigSent := true

end SuperScalar
