import SuperScalar.Invoice.Amount
import SuperScalar.Invoice.Bech32
import SuperScalar.Invoice.Stream
import SuperScalar.Peer.HtlcCommit

namespace SuperScalar

open Decimal List

def bolt11MaxDescription : ℕ := 640

def bolt11MaxRouteHints : ℕ := 8

def bolt11MaxHopsPerHint : ℕ := 8

structure HopHint where
  pubkey : Blob 33
  shortChannelId : UInt64
  feeBaseMsat : UInt32
  feePpm : UInt32
  cltvExpiryDelta : UInt16
deriving DecidableEq

abbrev RouteHint := {hops : List HopHint // hops.length ≤ bolt11MaxHopsPerHint}

abbrev RouteHints := {hints : List RouteHint // hints.length ≤ bolt11MaxRouteHints}

abbrev Description := {text : Bytes // text.length < bolt11MaxDescription ∧ 0 ∉ text}

abbrev Metadata := {bytes : Bytes // bytes.length ≤ 64}

structure Bolt11Invoice where
  network : Network
  amountMsat : UInt64
  timestamp : UInt32
  expiry : UInt32
  paymentHash : Blob 32
  paymentSecret : Blob 32
  description : Description
  descriptionHash : Blob 32
  payeePubkey : Blob 33
  hints : RouteHints
  features : UInt16
  hasPaymentSecret : Bool
  hasAmount : Bool
  hasDescriptionHash : Bool
  minFinalCltvExpiry : Int32
  metadata : Metadata
  hasMetadata : Bool
deriving DecidableEq

def Bolt11Invoice.blank (network : Network) (amountMsat : UInt64) (timestamp : UInt32) :
    Bolt11Invoice where
  network := network
  amountMsat := amountMsat
  timestamp := timestamp
  expiry := 3600
  paymentHash := Blob.zero 32
  paymentSecret := Blob.zero 32
  description := ⟨[],by decide,not_mem_nil⟩
  descriptionHash := Blob.zero 32
  payeePubkey := Blob.zero 33
  hints := ⟨[],by decide⟩
  features := 0
  hasPaymentSecret := false
  hasAmount := amountMsat > 0
  hasDescriptionHash := false
  minFinalCltvExpiry := 18
  metadata := ⟨[],by decide⟩
  hasMetadata := false

structure Recovery extends Secp where
  RecSig : Type
  signRecoverable : Blob 32 → Blob 32 → Option RecSig
  serializeCompact : RecSig → Blob 64 × UInt8
  parseCompact : Blob 64 → UInt8 → Option RecSig
  recover : RecSig → Blob 32 → Option Pubkey

def Recovery.sample : Recovery where
  toSecp := Secp.sample
  RecSig := Blob 64 × UInt8
  signRecoverable msg key := some (Secp.sampleHash 64 (msg.val++key.val),0)
  serializeCompact := id
  parseCompact compact recoveryId := some (compact,recoveryId)
  recover sig msg := some (Secp.sampleHash 64 (sig.1.val++msg.val))

def HopHint.bytes (hop : HopHint) : Bytes :=
  hop.pubkey.val ++ putU64 hop.shortChannelId ++ putU32 hop.feeBaseMsat ++ putU32 hop.feePpm ++
    putU16 hop.cltvExpiryDelta

def readHop (b : Bytes) : HopHint where
  pubkey := copyBytes 33 b
  shortChannelId := getU64 (b.drop 33)
  feeBaseMsat := getU32 (b.drop 41)
  feePpm := getU32 (b.drop 45)
  cltvExpiryDelta := getU16 (b.drop 49)

def readHops : ℕ → Bytes → List HopHint
  | 0, _ => []
  | n+1, b => if 51 ≤ b.length then readHop b :: readHops n (b.drop 51) else []

theorem length_readHops (n : ℕ) (b : Bytes) : (readHops n b).length ≤ n := by
  induction n generalizing b with
  | zero => exact le_rfl
  | succ n ih =>
    rw [readHops]
    split_ifs
    · exact Nat.succ_le_succ (ih _)
    · exact Nat.zero_le _

def readHint (b : Bytes) : RouteHint :=
  ⟨readHops bolt11MaxHopsPerHint b,length_readHops bolt11MaxHopsPerHint b⟩

section

def groupsValue (groups : Bytes) : UInt64 :=
  groups.foldl (fun v g => v <<< 5 ||| g.toUInt64) 0

def groupsValue16 (groups : Bytes) : UInt16 :=
  groups.foldl (fun v g => v <<< 5 ||| g.toUInt16) 0

def asDescription (bytes : Bytes) : Description :=
  ⟨(bytes.take (bolt11MaxDescription-1)).takeWhile (· ≠ 0),by
    constructor
    · refine (List.takeWhile_prefix _).length_le.trans_lt ?_
      rw [length_take,bolt11MaxDescription]
      omega
    · intro hmem
      exact absurd (all_eq_true.mp all_takeWhile _ hmem) (by decide)⟩

def asMetadata (bytes : Bytes) : Metadata :=
  ⟨bytes.take 64,(length_take_le _ _)⟩

def addHint (hints : RouteHints) (hint : RouteHint) : RouteHints :=
  if h : hints.val.length < bolt11MaxRouteHints then
    ⟨hints.val ++ [hint],by rw [length_append]; exact h⟩
  else hints

def fixedField (n : ℕ) (groups : Bytes) (set : Blob n → Bolt11Invoice) (out : Bolt11Invoice) :
    Bolt11Invoice :=
  if h : (fivebitToBytes groups n).length = n then set ⟨fivebitToBytes groups n,h⟩ else out

def applyField (out : Bolt11Invoice) (tag : UInt8) (groups : Bytes) : Bolt11Invoice :=
  if tag = 1 then
    if groups.length = 52 then fixedField 32 groups (fun b => { out with paymentHash := b }) out
    else out
  else if tag = 4 then { out with expiry := (groupsValue groups).toUInt32 }
  else if tag = 5 then
    if groups.length = 52 then
      fixedField 32 groups (fun b => { out with descriptionHash := b, hasDescriptionHash := true })
        out
    else out
  else if tag = 6 then
    { out with minFinalCltvExpiry := Int32.ofNat (groupsValue groups).toNat }
  else if tag = 13 then
    let bytes := fivebitToBytes groups (bolt11MaxDescription-1)
    if bytes ≠ [] then { out with description := asDescription bytes } else out
  else if tag = 16 then
    if groups.length = 52 then
      fixedField 32 groups (fun b => { out with paymentSecret := b, hasPaymentSecret := true }) out
    else out
  else if tag = 19 then
    if groups.length = 53 then fixedField 33 groups (fun b => { out with payeePubkey := b }) out
    else out
  else if tag = 27 then
    let bytes := fivebitToBytes groups 64
    if bytes ≠ [] then { out with metadata := asMetadata bytes, hasMetadata := true } else out
  else if tag = 20 then
    if groups.length ≤ 4 then { out with features := groupsValue16 groups } else out
  else if tag = 3 then
    { out with hints := addHint out.hints (readHint (fivebitToBytes groups 512)) }
  else out

def readGroups (d5 : Bytes) : ℕ → ℕ → Bytes × ℕ
  | 0, off => ([],off)
  | n+1, off =>
    let g := readBits d5 5 off 0
    let rest := readGroups d5 n g.2
    (g.1.toUInt8 :: rest.1,rest.2)

def parseFields (d5 : Bytes) : ℕ → ℕ → Bolt11Invoice → Bolt11Invoice
  | 0, _, out => out
  | turns+1, off, out =>
    if off+15 > d5.length*5 then out
    else
      let tag := readBits d5 5 off 0
      let flen := readBits d5 10 tag.2 0
      if flen.2 + flen.1.toNat*5 > d5.length*5 then out
      else if flen.1.toNat > 512 then parseFields d5 turns (flen.2 + flen.1.toNat*5) out
      else
        let groups := readGroups d5 flen.1.toNat flen.2
        parseFields d5 turns groups.2 (applyField out tag.1.toUInt8 groups.1)

def splitInvoice (invoiceStr : Bytes) : Option (Bytes × Bytes) :=
  let chars := (invoiceStr.reverse.takeWhile (· ≠ 49)).reverse
  let front := invoiceStr.reverse.dropWhile (· ≠ 49)
  let hrp := front.tail.reverse.map toLower
  if front = [] ∨ hrp.length < 4 ∨ hrp.length ≥ 128 ∨ chars.length < 110 ∨ chars.length > 4096 then
    none
  else (chars.mapM (fun c => charsetRev (toLower c))).map (hrp,·)

variable (r : Recovery)

def signedHash (hrp data : Bytes) : Blob 32 := r.sha256 (hrp++data)

def recoverPayee (hrp data sig5 : Bytes) : Option Pubkey := do
  let sig := fivebitToBytes sig5 66
  if sig.length < 65 then none
  else
    let recSig ← r.parseCompact (copyBytes 64 sig) (sig.getD 64 0 &&& 1)
    r.recover recSig (signedHash r hrp data)

def readInvoice (network : Network) (amount : UInt64) (body : Bytes) : Bolt11Invoice :=
  parseFields body body.length 35 (.blank network amount (readBits body 35 0 0).1.toUInt32)

def checkedData (d5 : Bytes) : Bytes := d5.take (d5.length-6)

def signedData (d5 : Bytes) : Bytes := (checkedData d5).take ((checkedData d5).length-104)

def signatureGroups (d5 : Bytes) : Bytes := (checkedData d5).drop ((checkedData d5).length-104)

def bolt11Decode (invoiceStr : Bytes) : Option Bolt11Invoice :=
  match splitInvoice invoiceStr with
  | none => none
  | some (hrp,d5) =>
    if bech32ChecksumVal hrp (checkedData d5) ≠ packChecksum (d5.drop (d5.length-6)) then none
    else
      match parseNetwork hrp with
      | none => none
      | some (network,amount) =>
        if (checkedData d5).length < 7+104 then none
        else
          let out := readInvoice network amount (signedData d5)
          (recoverPayee r hrp (signedData d5) (signatureGroups d5)).map (fun key =>
            if out.payeePubkey.val.head? = some 0 then
              { out with payeePubkey := r.ecPubkeySerialize key }
            else out)

end

section

def expiryGroups (expiry : UInt32) : Bytes :=
  if expiry < 32 then [expiry.toUInt8]
  else if expiry < 1024 then [(expiry >>> 5).toUInt8,(expiry &&& 0x1f).toUInt8]
  else if expiry < 32768 then
    [(expiry >>> 10).toUInt8,((expiry >>> 5) &&& 0x1f).toUInt8,(expiry &&& 0x1f).toUInt8]
  else
    [(expiry >>> 15).toUInt8,((expiry >>> 10) &&& 0x1f).toUInt8,((expiry >>> 5) &&& 0x1f).toUInt8,
      (expiry &&& 0x1f).toUInt8]

def cltvGroups (clv : Int32) : Bytes :=
  let u := clv.toUInt32
  if clv < 32 then [u.toUInt8]
  else if clv < 1024 then [(u >>> 5).toUInt8,(u &&& 0x1f).toUInt8]
  else [(u >>> 10).toUInt8,((u >>> 5) &&& 0x1f).toUInt8,(u &&& 0x1f).toUInt8]

def optionalField (present : Bool) (tag : UInt8) (groups : Bytes) : List (UInt8 × Bytes) :=
  if present then [(tag,groups)] else []

def hintFields (hints : List RouteHint) : List (UInt8 × Bytes) :=
  hints.flatMap (fun hint =>
    let rbuf := hint.val.flatMap HopHint.bytes
    optionalField (rbuf ≠ []) 3 (bytesTo5bit rbuf 512))

def fieldsOf (inv : Bolt11Invoice) : List (UInt8 × Bytes) :=
  let metadata := bytesTo5bit inv.metadata.val 128
  let description := bytesTo5bit inv.description.val 512
  [(1,bytesTo5bit inv.paymentHash.val 52)] ++
    optionalField inv.hasPaymentSecret 16 (bytesTo5bit inv.paymentSecret.val 52) ++
    optionalField (inv.hasMetadata && inv.metadata.val ≠ [] && metadata ≠ []) 27 metadata ++
    optionalField (inv.description.val ≠ [] && !inv.hasDescriptionHash && description ≠ []) 13
      description ++
    optionalField inv.hasDescriptionHash 5 (bytesTo5bit inv.descriptionHash.val 52) ++
    optionalField (inv.expiry ≠ 3600) 4 (expiryGroups inv.expiry) ++
    optionalField (inv.minFinalCltvExpiry ≠ 18) 6 (cltvGroups inv.minFinalCltvExpiry) ++
    optionalField (inv.payeePubkey.val.head? ≠ some 0) 19 (bytesTo5bit inv.payeePubkey.val 54) ++
    hintFields inv.hints.val

def writeField (w : BitWriter) (field : UInt8 × Bytes) : BitWriter :=
  field.2.foldl (fun w g => writeBits w g.toUInt64 5)
    (writeBits (writeBits w field.1.toUInt64 5) (UInt64.ofNat field.2.length) 10)

def encodeData (inv : Bolt11Invoice) : BitWriter :=
  (fieldsOf inv).foldl writeField (writeBits ⟨replicate 4096 0,0⟩ inv.timestamp.toUInt64 35)

variable (r : Recovery)

def bolt11Encode (inv : Bolt11Invoice) (nodePrivkey : Blob 32) (outCap : ℕ) : Option Bytes :=
  let hrp := buildHrp inv.network inv.hasAmount inv.amountMsat
  let w := encodeData inv
  let data := w.d5.take ((w.off+4)/5)
  match r.signRecoverable (signedHash r hrp data) nodePrivkey with
  | none => none
  | some sig =>
    let compact := r.serializeCompact sig
    let sig5 := bytesTo5bit (compact.1.val ++ [compact.2]) 104
    if sig5.length ≠ 104 ∨ data.length+104+6 > 4096 then none
    else
      let d5 := data ++ sig5
      let d5 := d5 ++ checksumGroups (bech32ChecksumVal hrp d5)
      if outCap < hrp.length+1 + d5.length+1 then none
      else some (hrp ++ [49] ++ d5.map charOf)

end

end SuperScalar
