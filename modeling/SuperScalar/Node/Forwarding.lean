import SuperScalar.Onion.Packet

namespace SuperScalar

def forwardTableMax : ℕ := 256

inductive ForwardState where
  | pendingOut
  | inflight
  | settled
  | failed
deriving DecidableEq

structure ForwardEntry where
  inHtlcId : UInt64
  inChanId : UInt64
  outHtlcId : UInt64
  outChanId : UInt64
  paymentHash : Blob 32
  onionSharedSecret : Blob 32
  inAmountMsat : UInt64
  outAmountMsat : UInt64
  inCltv : UInt32
  outCltv : UInt32
  nextHopScid : UInt64
  state : ForwardState
  nextOnion : Onion
  inChannelId : Blob 32
  paymentSecret : Option (Blob 32)
deriving DecidableEq

def ForwardEntry.zero : ForwardEntry where
  inHtlcId := 0
  inChanId := 0
  outHtlcId := 0
  outChanId := 0
  paymentHash := Blob.zero 32
  onionSharedSecret := Blob.zero 32
  inAmountMsat := 0
  outAmountMsat := 0
  inCltv := 0
  outCltv := 0
  nextHopScid := 0
  state := .pendingOut
  nextOnion := Blob.zero 1366
  inChannelId := Blob.zero 32
  paymentSecret := none

inductive ForwardResult where
  | fail
  | final (e : ForwardEntry)
  | relay (e : ForwardEntry)
deriving DecidableEq

section

variable (sphinx : Sphinx) (turns : ℕ)

def trampolineTerms (payload : OnionHopPayload) : Option OnionHopPayload :=
  match payload.trampolinePayload with
  | none => some payload
  | some inner =>
    match onionParseTlvPayload turns inner with
    | none => none
    | some none => none
    | some (some (_,false)) => some payload
    | some (some (tp,true)) =>
      some { payload with
        amtToForward := tp.amtToForward <|> payload.amtToForward
        outgoingCltvValue := tp.outgoingCltvValue <|> payload.outgoingCltvValue }

def finalEntry (payload : OnionHopPayload) (ss : Blob 32) (inHtlcId inChanId amountMsat : UInt64)
    (cltv : UInt32) : ForwardEntry :=
  { ForwardEntry.zero with
    inHtlcId := inHtlcId
    inChanId := inChanId
    inAmountMsat := amountMsat
    outAmountMsat := amountMsat
    inCltv := cltv
    state := .settled
    onionSharedSecret := ss
    paymentSecret := payload.paymentData.map Prod.fst }

def relayEntry (payload : OnionHopPayload) (outAmountMsat : UInt64) (outCltv : UInt32)
    (nextOnion : Bytes) (ss : Blob 32) (inHtlcId inChanId amountMsat : UInt64) (cltv : UInt32) :
    ForwardEntry :=
  { ForwardEntry.zero with
    inHtlcId := inHtlcId
    inChanId := inChanId
    inAmountMsat := amountMsat
    outAmountMsat := outAmountMsat
    inCltv := cltv
    outCltv := outCltv
    state := .pendingOut
    onionSharedSecret := ss
    nextOnion := copyBytes 1366 nextOnion
    nextHopScid := payload.shortChannelId.getD 0 }

-- `none` if a record loop has not come back after `turns` turns.
def htlcForwardProcess (ourPrivkey : Blob 32) (onion : Onion) (inHtlcId inChanId amountMsat : UInt64)
    (cltv : UInt32) (fwd : List ForwardEntry) : Option (List ForwardEntry × ForwardResult) :=
  if fwd.length ≥ forwardTableMax then some (fwd,.fail)
  else
    match onionPeel sphinx turns ourPrivkey onion.val with
    | none => none
    | some none => some (fwd,.fail)
    | some (some peeled) =>
      match onionEcdhSharedSecret sphinx ourPrivkey (copyBytes 33 (onion.val.drop 1)) with
      | none => some (fwd,.fail)
      | some ss =>
        if peeled.isFinal then
          let e := finalEntry peeled.payload ss inHtlcId inChanId amountMsat cltv
          some (fwd ++ [e],.final e)
        else
          match trampolineTerms turns peeled.payload with
          | none => none
          | some payload =>
            match payload.amtToForward, payload.outgoingCltvValue with
            | some amt, some outCltv =>
              let e := relayEntry payload amt outCltv peeled.next ss inHtlcId inChanId amountMsat cltv
              some (fwd ++ [e],.relay e)
            | _, _ => some (fwd,.fail)

end

section

variable {sphinx : Sphinx} {turns : ℕ} {ourPrivkey : Blob 32} {onion : Onion}
  {inHtlcId inChanId amountMsat : UInt64} {cltv : UInt32} {fwd : List ForwardEntry}

inductive ForwardOutcome (sphinx : Sphinx) (turns : ℕ) (ourPrivkey : Blob 32) (onion : Onion)
    (inHtlcId inChanId amountMsat : UInt64) (cltv : UInt32) (fwd : List ForwardEntry) :
    List ForwardEntry → ForwardResult → Prop
  | fail : ForwardOutcome sphinx turns ourPrivkey onion inHtlcId inChanId amountMsat cltv fwd fwd .fail
  | final (peeled : Peeled) (ss : Blob 32)
      (hpeel : onionPeel sphinx turns ourPrivkey onion.val = some (some peeled))
      (hfinal : peeled.isFinal = true) :
      ForwardOutcome sphinx turns ourPrivkey onion inHtlcId inChanId amountMsat cltv fwd
        (fwd ++ [finalEntry peeled.payload ss inHtlcId inChanId amountMsat cltv])
        (.final (finalEntry peeled.payload ss inHtlcId inChanId amountMsat cltv))
  | relay (peeled : Peeled) (ss : Blob 32) (payload : OnionHopPayload) (amt : UInt64)
      (outCltv : UInt32) (hpeel : onionPeel sphinx turns ourPrivkey onion.val = some (some peeled))
      (hfinal : peeled.isFinal = false) (hterms : trampolineTerms turns peeled.payload = some payload)
      (hamt : payload.amtToForward = some amt) (hcltv : payload.outgoingCltvValue = some outCltv) :
      ForwardOutcome sphinx turns ourPrivkey onion inHtlcId inChanId amountMsat cltv fwd
        (fwd ++ [relayEntry payload amt outCltv peeled.next ss inHtlcId inChanId amountMsat cltv])
        (.relay (relayEntry payload amt outCltv peeled.next ss inHtlcId inChanId amountMsat cltv))

theorem htlcForwardProcess_cases {fwd' : List ForwardEntry} {result : ForwardResult}
    (h : htlcForwardProcess sphinx turns ourPrivkey onion inHtlcId inChanId amountMsat cltv fwd =
      some (fwd',result)) :
    ForwardOutcome sphinx turns ourPrivkey onion inHtlcId inChanId amountMsat cltv fwd fwd' result := by
  unfold htlcForwardProcess at h
  split_ifs at h
  · cases h
    exact .fail
  · split at h
    · cases h
    · cases h
      exact .fail
    · rename_i peeled hpeel
      split at h
      · cases h
        exact .fail
      · rename_i ss hss
        split_ifs at h with hfinal
        · cases h
          exact .final peeled ss hpeel hfinal
        · split at h
          · cases h
          · rename_i payload hterms
            split at h
            · rename_i amt outCltv hamt hcltv
              cases h
              exact .relay peeled ss payload amt outCltv hpeel (Bool.eq_false_iff.mpr hfinal) hterms
                hamt hcltv
            · cases h
              exact .fail

theorem onionPeel_final {onion : Bytes} {peeled : Peeled}
    (h : onionPeel sphinx turns ourPrivkey onion = some (some peeled)) :
    peeled.isFinal = peeled.payload.paymentData.isSome := by
  unfold onionPeel at h
  dsimp only at h
  split_ifs at h
  · cases h
  · split at h
    · cases h
    · split_ifs at h
      · cases h
      · split at h
        · cases h
        · split_ifs at h
          · cases h
          · split at h
            · cases h
            · cases h
            · cases h
            · split at h
              · cases h
              · obtain rfl := Option.some.inj (Option.some.inj h)
                rfl

end

def ForwardEntry.awaits (outHtlcId outChanId : UInt64) (e : ForwardEntry) : Bool :=
  e.outHtlcId = outHtlcId && e.outChanId = outChanId && e.state = .inflight

def resolveForward (state : ForwardState) (outHtlcId outChanId : UInt64) :
    List ForwardEntry → List ForwardEntry
  | [] => []
  | e :: rest =>
    if e.awaits outHtlcId outChanId then { e with state := state } :: rest
    else e :: resolveForward state outHtlcId outChanId rest

def htlcForwardSettle (outHtlcId outChanId : UInt64) (fwd : List ForwardEntry) : List ForwardEntry :=
  resolveForward .settled outHtlcId outChanId fwd

def ammagTag : Bytes := [0x61,0x6d,0x6d,0x61,0x67]

def wrapError (sphinx : Sphinx) (reason : Bytes) (ss : Blob 32) : Bytes :=
  xorBytes (copyBytes 256 reason).val
    (sphinx.chacha20Stream (bolt4GenerateKey sphinx ammagTag ss) 256).val

def htlcForwardFail (sphinx : Sphinx) (outHtlcId outChanId : UInt64) (reason : Bytes)
    (fwd : List ForwardEntry) : List ForwardEntry × Option Bytes :=
  (resolveForward .failed outHtlcId outChanId fwd,
    (fwd.find? (fun e => e.awaits outHtlcId outChanId)).map (fun e =>
      wrapError sphinx reason e.onionSharedSecret))

end SuperScalar
