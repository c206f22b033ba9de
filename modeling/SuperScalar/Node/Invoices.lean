import SuperScalar.Onion.Packet

namespace SuperScalar

def invoiceTableMax : ℕ := 64

structure Bolt11InvoiceEntry where
  paymentHash : Blob 32
  preimage : Blob 32
  paymentSecret : Blob 32
  amountMsat : UInt64
  createdAt : UInt32
  expiry : UInt32
  settled : Bool
  active : Bool
  hasStatelessSecret : Bool
  hasStatelessPreimage : Bool
  statelessNonce : Blob 32
deriving DecidableEq

structure Bolt11InvoiceTable where
  entries : List Bolt11InvoiceEntry
  count : ℕ
  entries_length : entries.length = invoiceTableMax
  count_le : count ≤ invoiceTableMax

section

variable (sphinx : Sphinx) (nodeKey : Blob 32)

def statelessLabelSecret : Bytes :=
  [0x73,0x74,0x61,0x74,0x65,0x6c,0x65,0x73,0x73,0x3a,0x70,0x61,0x79,0x6d,0x65,0x6e,
    0x74,0x5f,0x73,0x65,0x63,0x72,0x65,0x74]

def statelessLabelPreimage : Bytes :=
  [0x73,0x74,0x61,0x74,0x65,0x6c,0x65,0x73,0x73,0x3a,0x70,0x72,0x65,0x69,0x6d,0x61,0x67,0x65]

def statelessInvoiceDeriveSecret (paymentHash : Blob 32) : Blob 32 :=
  sphinx.hmacSha256 nodeKey.val (statelessLabelSecret++paymentHash.val)

def statelessInvoiceVerifySecret (paymentHash presentedSecret : Blob 32) : Bool :=
  statelessInvoiceDeriveSecret sphinx nodeKey paymentHash = presentedSecret

def statelessInvoiceDerivePreimage (nonce : Blob 32) : Blob 32 :=
  sphinx.hmacSha256 nodeKey.val (statelessLabelPreimage++nonce.val)

def statelessInvoiceClaim (nonce paymentHash presentedSecret : Blob 32) : Option (Blob 32) :=
  let preimage := statelessInvoiceDerivePreimage sphinx nodeKey nonce
  if sphinx.sha256 preimage.val ≠ paymentHash then none
  else if statelessInvoiceVerifySecret sphinx nodeKey paymentHash presentedSecret then some preimage
  else none

end

section

variable (paymentHash : Blob 32)

def Bolt11InvoiceEntry.isFor (e : Bolt11InvoiceEntry) : Bool :=
  e.active && e.paymentHash = paymentHash

def Bolt11InvoiceTable.slot? (tbl : Bolt11InvoiceTable) : Option ℕ :=
  tbl.entries.findIdx? (Bolt11InvoiceEntry.isFor paymentHash)

def Bolt11InvoiceTable.counted? (tbl : Bolt11InvoiceTable) : Option ℕ :=
  (tbl.entries.take tbl.count).findIdx? (Bolt11InvoiceEntry.isFor paymentHash)

def Bolt11InvoiceTable.settleAt (slot : ℕ) (tbl : Bolt11InvoiceTable) : Bolt11InvoiceTable where
  entries := tbl.entries.modify slot (fun e => { e with settled := true })
  count := tbl.count
  entries_length := by rw [List.length_modify,tbl.entries_length]
  count_le := tbl.count_le

-- The sum of creation time and expiry is 32 bits wide.
def Bolt11InvoiceEntry.claimable (now : UInt32) (amountMsat : UInt64)
    (e : Bolt11InvoiceEntry) : Bool :=
  !e.settled && !(now ≥ e.createdAt + e.expiry) && !(e.amountMsat > 0 && amountMsat < e.amountMsat)

def invoiceClaim (now : UInt32) (amountMsat : UInt64) (tbl : Bolt11InvoiceTable) :
    Bolt11InvoiceTable × Option (Blob 32) :=
  match tbl.slot? paymentHash with
  | none => (tbl,none)
  | some slot =>
    match tbl.entries[slot]? with
    | none => (tbl,none)
    | some e =>
      if e.claimable now amountMsat then (tbl.settleAt slot,some e.preimage) else (tbl,none)

def invoiceSettle (tbl : Bolt11InvoiceTable) : Bolt11InvoiceTable :=
  match tbl.slot? paymentHash with
  | none => tbl
  | some slot => tbl.settleAt slot

end

section

variable (sphinx : Sphinx) (nodeKey : Blob 32)

def Bolt11InvoiceEntry.zero : Bolt11InvoiceEntry where
  paymentHash := Blob.zero 32
  preimage := Blob.zero 32
  paymentSecret := Blob.zero 32
  amountMsat := 0
  createdAt := 0
  expiry := 0
  settled := false
  active := false
  hasStatelessSecret := false
  hasStatelessPreimage := false
  statelessNonce := Blob.zero 32

def invoiceInit : Bolt11InvoiceTable where
  entries := List.replicate invoiceTableMax .zero
  count := 0
  entries_length := List.length_replicate
  count_le := Nat.zero_le _

def createdInvoice (nonce : Blob 32) (amountMsat : UInt64) (expirySecs now : UInt32) :
    Bolt11InvoiceEntry :=
  let preimage := statelessInvoiceDerivePreimage sphinx nodeKey nonce
  let paymentHash := sphinx.sha256 preimage.val
  { paymentHash := paymentHash
    preimage := preimage
    paymentSecret := statelessInvoiceDeriveSecret sphinx nodeKey paymentHash
    amountMsat := amountMsat
    createdAt := now
    expiry := if expirySecs > 0 then expirySecs else 3600
    settled := false
    active := true
    hasStatelessSecret := true
    hasStatelessPreimage := true
    statelessNonce := nonce }

-- The nonce is what the system draws, and `encodes` is what the BOLT 11 encoder returns.
def invoiceCreate (nonce : Blob 32) (encodes : Bool) (amountMsat : UInt64) (expirySecs now : UInt32)
    (tbl : Bolt11InvoiceTable) : Bolt11InvoiceTable × Bool :=
  if hcount : tbl.count ≥ invoiceTableMax then (tbl,false)
  else
    match tbl.entries.findIdx? (fun e => !e.active) with
    | none => (tbl,false)
    | some slot =>
      let e := createdInvoice sphinx nodeKey nonce amountMsat expirySecs now
      if encodes then
        ({ entries := tbl.entries.set slot e
           count := tbl.count+1
           entries_length := by rw [List.length_set,tbl.entries_length]
           count_le := Nat.lt_of_not_le hcount },true)
      else
        ({ entries := tbl.entries.set slot { e with active := false }
           count := tbl.count
           entries_length := by rw [List.length_set,tbl.entries_length]
           count_le := tbl.count_le },false)

end

end SuperScalar
