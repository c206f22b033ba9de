import SuperScalar.Node.Forwarding
import SuperScalar.Node.Invoices

namespace SuperScalar

structure Peer where
  connected : Bool
  channelScid : UInt64
deriving DecidableEq

-- `channels` are the channels of the peers, by the peer's index.
structure LnDispatch where
  fwd : List ForwardEntry
  invoices : Option Bolt11InvoiceTable
  peers : List Peer
  channels : List (Option Channel)

structure PeerSend where
  peerIdx : ℕ
  msg : Bytes
deriving DecidableEq

structure AddMsg where
  channelId : Blob 32
  htlcId : UInt64
  amountMsat : UInt64
  paymentHash : Blob 32
  cltv : UInt32
  onion : Onion
deriving DecidableEq

def parseAdd (msg : Bytes) : Option AddMsg :=
  if msg.length < 2+32+8+8+32+4+1366 then none
  else
    let p := msg.drop 2
    some
      { channelId := copyBytes 32 p
        htlcId := getU64 (p.drop 32)
        amountMsat := getU64 (p.drop 40)
        paymentHash := copyBytes 32 (p.drop 48)
        cltv := getU32 (p.drop 80)
        onion := copyBytes 1366 (p.drop 84) }

def updateFailMalformedHtlc (channelId : Blob 32) (htlcId : UInt64) (sha256OfOnion : Blob 32)
    (failureCode : UInt16) : Bytes :=
  putU16 bolt2UpdateFailMalformedHtlc ++ channelId.val ++ putU64 htlcId ++ sha256OfOnion.val ++
    putU16 failureCode

def badSecret : Bytes := [0x40,0x0f]

def unknownPayment : Bytes := [0x40,0x04]

section

variable (sphinx : Sphinx) (ourPrivkey : Blob 32)

structure Claim where
  invoices : Bolt11InvoiceTable
  preimage : Option (Blob 32)

def claimInvoice (now : UInt32) (add : AddMsg) (secret : Option (Blob 32)) (found : Option ℕ)
    (tbl : Bolt11InvoiceTable) : Claim :=
  let derived := do
    let slot ← found
    let e ← tbl.entries[slot]?
    let presented ← secret
    if e.hasStatelessPreimage then
      (statelessInvoiceClaim sphinx ourPrivkey e.statelessNonce add.paymentHash presented).map
        (fun preimage => (slot,preimage))
    else none
  match derived with
  | some (slot,preimage) => ⟨tbl.settleAt slot,some preimage⟩
  | none =>
    let r := invoiceClaim add.paymentHash now add.amountMsat tbl
    ⟨r.1,r.2⟩

def secretRefused (add : AddMsg) (secret : Option (Blob 32)) (found : Option ℕ)
    (tbl : Bolt11InvoiceTable) : Bool :=
  match found.bind (fun slot => tbl.entries[slot]?), secret with
  | some e, some presented =>
    e.hasStatelessSecret &&
      !statelessInvoiceVerifySecret sphinx ourPrivkey add.paymentHash presented
  | _, _ => false

def finalHop (peerIdx : ℕ) (now : UInt32) (add : AddMsg) (secret : Option (Blob 32))
    (tbl : Bolt11InvoiceTable) : Bolt11InvoiceTable × List PeerSend :=
  let found := tbl.counted? add.paymentHash
  if secretRefused sphinx ourPrivkey add secret found tbl then
    (tbl,[⟨peerIdx,updateFailHtlc add.channelId add.htlcId badSecret⟩])
  else
    let claim := claimInvoice sphinx ourPrivkey now add secret found tbl
    match claim.preimage with
    | some preimage =>
      (invoiceSettle add.paymentHash claim.invoices,
        [⟨peerIdx,updateFulfillHtlc add.channelId add.htlcId preimage⟩])
    | none =>
      (claim.invoices,[⟨peerIdx,updateFailHtlc add.channelId add.htlcId unknownPayment⟩])

end

section

variable (sphinx : Sphinx) (ourPrivkey : Blob 32) (turns : ℕ)

structure Processed where
  node : LnDispatch
  sends : List PeerSend
  type : Option UInt16

def setInChannelId (channelId : Blob 32) (fwd : List ForwardEntry) : List ForwardEntry :=
  fwd.modify (fwd.length-1) (fun e => { e with inChannelId := channelId })

def processAdd (peerIdx : ℕ) (now : UInt32) (msg : Bytes) (d : LnDispatch) : Option Processed :=
  match parseAdd msg with
  | none => some ⟨d,[],none⟩
  | some add =>
    match htlcForwardProcess sphinx turns ourPrivkey add.onion add.htlcId (UInt64.ofNat peerIdx)
      add.amountMsat add.cltv d.fwd with
    | none => none
    | some (fwd,.final e) =>
      match d.invoices with
      | none => some ⟨{ d with fwd := fwd },[],some bolt2UpdateAddHtlc⟩
      | some tbl =>
        let r := finalHop sphinx ourPrivkey peerIdx now add e.paymentSecret tbl
        some ⟨{ d with fwd := fwd, invoices := some r.1 },r.2,some bolt2UpdateAddHtlc⟩
    | some (fwd,.relay _) =>
      some ⟨{ d with fwd := setInChannelId add.channelId fwd },[],some bolt2UpdateAddHtlc⟩
    | some (fwd,.fail) =>
      some ⟨{ d with fwd := fwd },
        [⟨peerIdx,updateFailMalformedHtlc add.channelId add.htlcId (sphinx.sha256 add.onion.val)
          0x8003⟩],some bolt2UpdateAddHtlc⟩

def processFulfill (peerIdx : ℕ) (msg : Bytes) (d : LnDispatch) : Processed :=
  if msg.length < 2+32+8+32 then ⟨d,[],none⟩
  else
    ⟨{ d with fwd := htlcForwardSettle (getU64 (msg.drop 34)) (UInt64.ofNat peerIdx) d.fwd },[],
      some bolt2UpdateFulfillHtlc⟩

def processFail (peerIdx : ℕ) (msg : Bytes) (d : LnDispatch) : Processed :=
  if msg.length < 2+32+8+2 then ⟨d,[],none⟩
  else
    let reasonLen := (getU16 (msg.drop 42)).toNat
    if msg.length < 2+32+8+2 + reasonLen then ⟨d,[],none⟩
    else
      ⟨{ d with fwd := (htlcForwardFail sphinx (getU64 (msg.drop 34)) (UInt64.ofNat peerIdx)
          ((msg.drop 44).take reasonLen) d.fwd).1 },[],some bolt2UpdateFailHtlc⟩

def processFailMalformed (peerIdx : ℕ) (msg : Bytes) (d : LnDispatch) : Processed :=
  if msg.length ≥ 2+74 then
    ⟨{ d with fwd := (htlcForwardFail sphinx (getU64 (msg.drop 34)) (UInt64.ofNat peerIdx) []
        d.fwd).1 },[],some bolt2UpdateFailMalformedHtlc⟩
  else ⟨d,[],some bolt2UpdateFailMalformedHtlc⟩

def lnDispatchProcessMsg (peerIdx : ℕ) (now : UInt32) (msg : Bytes) (d : LnDispatch) :
    Option Processed :=
  if msg.length < 2 then some ⟨d,[],none⟩
  else if getU16 msg = bolt2UpdateAddHtlc then
    processAdd sphinx ourPrivkey turns peerIdx now msg d
  else if getU16 msg = bolt2UpdateFulfillHtlc then some (processFulfill peerIdx msg d)
  else if getU16 msg = bolt2UpdateFailHtlc then some (processFail sphinx peerIdx msg d)
  else if getU16 msg = bolt2UpdateFailMalformedHtlc then
    some (processFailMalformed sphinx peerIdx msg d)
  else some ⟨d,[],some 0⟩

end

section

variable (m : Musig)

def peerMgrFindByScid (scid : UInt64) (peers : List Peer) : Option ℕ :=
  if scid = 0 then none else peers.findIdx? (fun p => p.connected && p.channelScid = scid)

structure Answers where
  luck : Luck
  oks : List Bool
  inbox : List (Option Bytes)

def relayCall (luck : Luck) (e : ForwardEntry) (ch : Channel) : PeerCall :=
  htlcCommitAddAndSign m luck ch.fundingTxid e.outAmountMsat e.paymentHash e.outCltv e.nextOnion ch

def relayedId (luck : Luck) (e : ForwardEntry) (ch : Channel) : UInt64 :=
  (channelAddHtlc .offered (e.outAmountMsat/1000) e.paymentHash e.outCltv luck.growHtlcs luck.draw
    ch).2.getD 0

structure Flushed where
  channels : List (Option Channel)
  entry : ForwardEntry
  offer : Option PeerSend

def flushEntry (answers : Answers) (peers : List Peer) (channels : List (Option Channel))
    (e : ForwardEntry) : Flushed :=
  if e.state ≠ .pendingOut then ⟨channels,e,none⟩
  else
    match peerMgrFindByScid e.nextHopScid peers with
    | none => ⟨channels,e,none⟩
    | some outIdx =>
      match channels[outIdx]?.join with
      | none => ⟨channels,e,none⟩
      | some ch =>
        let call := relayCall m answers.luck e ch
        let r := call.play answers.oks answers.inbox
        ⟨channels.set outIdx (some r.1),if r.2 then
            { e with
              outHtlcId := relayedId answers.luck e ch
              outChanId := e.nextHopScid
              state := .inflight }
          else { e with state := .failed },call.firstSend.map (fun msg => ⟨outIdx,msg⟩)⟩

def flushEntries (answers : ℕ → Answers) (peers : List Peer) :
    ℕ → List (Option Channel) → List ForwardEntry →
    List (Option Channel) × List (ForwardEntry × Option PeerSend)
  | _, channels, [] => (channels,[])
  | i, channels, e :: rest =>
    let f := flushEntry m (answers i) peers channels e
    let r := flushEntries answers peers (i+1) f.channels rest
    (r.1,(f.entry,f.offer) :: r.2)

structure FlushRun where
  node : LnDispatch
  offers : List (Option PeerSend)

def lnDispatchFlushRelay (answers : ℕ → Answers) (d : LnDispatch) : FlushRun :=
  let r := flushEntries m answers d.peers 0 d.channels d.fwd
  ⟨{ d with fwd := r.2.map Prod.fst, channels := r.1 },r.2.map Prod.snd⟩

end

end SuperScalar
