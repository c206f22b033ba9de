import SuperScalar.Crypto.Secp

namespace SuperScalar

open Bitcoin List Wire

inductive RawTx where
  | legacy (t : Tx)
  | segwit (t : SegwitTx)

def RawTx.bytes : RawTx → Bytes
  | .legacy t => t.serialize
  | .segwit t => t.serialize

def RawTx.base : RawTx → Tx
  | .legacy t => t
  | .segwit t => t.base

inductive PeerMsg where
  | ping | getdata | other

-- The list ends where `p2p_recv_msg` fails.
def awaitGetdata : ℕ → List PeerMsg → Bool
  | 0, _ | _, [] => false
  | _+1, .getdata :: _ => true
  | tries+1, _ :: msgs => awaitGetdata tries msgs

structure P2pConn where
  connected : Bool
  invSent : Bool
  msgs : List PeerMsg
  txSent : Bool

section

variable (sha : Bytes → Blob 32)

def p2pBroadcastTx (conn : P2pConn) (txBytes : Bytes) : Option (Blob 32) :=
  if conn.invSent && awaitGetdata 8 conn.msgs && conn.txSent then some (sha256d sha txBytes) else none

def displayOrder (txid : Blob 32) : Bytes := txid.val.reverse

def cbSendRawTx (conn : P2pConn) (txBytes : Bytes) : Option Bytes :=
  if conn.connected then (p2pBroadcastTx sha conn txBytes).map displayOrder else none

def ioBytes (t : Tx) : Bytes :=
  (counted TxIn.wire).put t.inputs ++ (counted TxOut.wire).put t.outputs

-- The identifier in `p2p_scan_block_txs`; the walk over the transaction has set the three pointers.
def scanTxid (x : RawTx) : Blob 32 :=
  match x with
  | .legacy t => sha256d sha t.serialize
  | .segwit t =>
    let raw := t.serialize
    sha256d sha (raw.take 4 ++ (raw.drop 6).take (ioBytes t.base).length ++ raw.drop (raw.length-4))

theorem serialize_eq (t : Tx) : t.serialize = u32.put t.version ++ ioBytes t ++
    u32.put t.locktime := by
  simp [Tx.serialize,Tx.wire,iso,pair,ioBytes]

theorem segwit_serialize_eq (t : SegwitTx) : t.serialize = u32.put t.base.version ++
    ([0x00,0x01] ++ (ioBytes t.base ++ ((counted bytes).putMany t.witnesses ++
      u32.put t.base.locktime))) := by
  simp [SegwitTx.serialize,ioBytes]

theorem segwit_longer (t : SegwitTx) : t.base.serialize.length < t.serialize.length := by
  rw [serialize_eq,segwit_serialize_eq]
  simp only [length_append,length_cons,length_nil]
  omega

theorem scanTxid_eq (x : RawTx) : scanTxid sha x = x.base.txid sha := by
  cases x with
  | legacy t => rfl
  | segwit t =>
    have hfront : t.serialize.take 4 = u32.put t.base.version := by
      rw [segwit_serialize_eq,take_left' (by simp)]
    have hmiddle : (t.serialize.drop 6).take (ioBytes t.base).length = ioBytes t.base := by
      rw [segwit_serialize_eq,← append_assoc,drop_left' (by simp),take_left' rfl]
    have hlast : t.serialize.drop (t.serialize.length-4) = u32.put t.base.locktime := by
      rw [segwit_serialize_eq,← append_assoc,← append_assoc,← append_assoc]
      refine drop_left' ?_
      simp only [length_append,length_cons,length_nil,u32_put_length]
      omega
    change sha256d sha (_++_++_) = sha256d sha t.base.serialize
    rw [hfront,hmiddle,hlast,serialize_eq]

theorem cbSendRawTx_eq {conn : P2pConn} {bytes id : Bytes} (h : cbSendRawTx sha conn bytes = some id) :
    id = displayOrder (sha256d sha bytes) := by
  simp only [cbSendRawTx,p2pBroadcastTx] at h
  split_ifs at h
  · exact (Option.some.inj h).symm
  · cases h

theorem displayOrder_inj {a b : Blob 32} (h : displayOrder a = displayOrder b) : a = b :=
  Subtype.ext (reverse_injective h)

end

def spendTx : Tx := ⟨2,[⟨⟨Blob.zero 32,0⟩,[],0xFFFFFFFF⟩],[⟨1000,[]⟩],0⟩

def openConn : P2pConn := ⟨true,true,[.ping,.getdata],true⟩

end SuperScalar
