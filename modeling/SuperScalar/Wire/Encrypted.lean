import SuperScalar.Bolt8.Sessions

namespace SuperScalar

open List Function

section

structure NoiseState where
  sendKey : Blob 32
  recvKey : Blob 32
  sendNonce : UInt64
  recvNonce : UInt64

structure Cjson (J : Type) where
  printUnformatted : J → Option Bytes
  parse : Bytes → Option J

def wireMaxFrameSize : ℕ := 16*1024*1024

-- What `write` returns, call after call; a list that ends is a timeout.
def writeAll : List ℤ → ℕ → Option (List ℤ)
  | writes, 0 => some writes
  | [], _+1 => none
  | n :: writes, len+1 => if n ≤ 0 then none else writeAll writes (len+1-n.toNat)

def readAll (incoming : Bytes) (len : ℕ) : Option (Bytes × Bytes) :=
  if incoming.length < len then none else some (incoming.take len,incoming.drop len)

def makeNonce (seq : UInt64) : Blob 12 := bolt8Nonce seq

variable {J : Type} (noise : Noise) (cjson : Cjson J)

abbrev WireMsg (J : Type) := UInt8 × J

def plaintextOf (msg : WireMsg J) : Option Bytes :=
  (cjson.printUnformatted msg.2).map (fun payload =>
    let payloadLen := UInt32.ofNat payload.length
    let ptLen := 1 + payloadLen
    (msg.1 :: payload.take payloadLen.toNat).take ptLen.toNat)

def messageOf (plaintext : Bytes) : Option (WireMsg J) :=
  (cjson.parse (plaintext.tail.takeWhile (· ≠ 0))).map (fun json => (plaintext.headD 0,json))

-- The arguments of one call of `aead_encrypt`.
structure Encryption where
  key : Blob 32
  nonce : Blob 12
  plaintext : Bytes
deriving DecidableEq

structure Sent where
  ns : NoiseState
  ok : Bool
  encrypted : List Encryption
  frame : Bytes

def frameWritten (plaintext : Bytes) (writes : List ℤ) : Bool :=
  (do
    let writes ← writeAll writes 4
    let writes ← writeAll writes plaintext.length
    writeAll writes 16).isSome

def sendSealed (ns : NoiseState) (plaintext : Bytes) (writes : List ℤ) : Sent :=
  let sealed := noise.aeadEncrypt ns.sendKey (makeNonce ns.sendNonce) [] plaintext
  { ns := if frameWritten plaintext writes then { ns with sendNonce := ns.sendNonce+1 } else ns
    ok := frameWritten plaintext writes
    encrypted := [⟨ns.sendKey,makeNonce ns.sendNonce,plaintext⟩]
    frame := putU32 (UInt32.ofNat plaintext.length + 16) ++ sealed.1.val ++ sealed.2.val }

def wireSend (ns : NoiseState) (msg : WireMsg J) (writes : List ℤ) : Sent :=
  match plaintextOf cjson msg with
  | none => ⟨ns,false,[],[]⟩
  | some plaintext => sendSealed noise ns plaintext writes

def readFrame (incoming : Bytes) : Option (Bytes × Blob 16) :=
  match readAll incoming 4 with
  | none => none
  | some (header,rest) =>
    let frameLen := (getU32 header).toNat
    if frameLen < 1 ∨ frameLen > wireMaxFrameSize then none
    else if frameLen < 17 then none
    else (readAll rest frameLen).map (fun read =>
      (read.1.take (frameLen-16),copyBytes 16 (read.1.drop (frameLen-16))))

def wireRecv (ns : NoiseState) (incoming : Bytes) : NoiseState × Option (WireMsg J) :=
  match readFrame incoming with
  | none => (ns,none)
  | some (ct,tag) =>
    match noise.aeadDecrypt ns.recvKey (makeNonce ns.recvNonce) [] ct tag with
    | none => (ns,none)
    | some plaintext => ({ ns with recvNonce := ns.recvNonce+1 },messageOf cjson plaintext)

theorem wireRecv_cases (ns : NoiseState) (incoming : Bytes) :
    wireRecv noise cjson ns incoming = (ns,none) ∨
      ∃ ct tag plaintext, readFrame incoming = some (ct,tag) ∧
        noise.aeadDecrypt ns.recvKey (makeNonce ns.recvNonce) [] ct tag = some plaintext ∧
        wireRecv noise cjson ns incoming =
          ({ ns with recvNonce := ns.recvNonce+1 },messageOf cjson plaintext) := by
  rw [wireRecv]
  split
  · exact .inl rfl
  · rename_i ct tag hframe
    split
    · exact .inl rfl
    · rename_i plaintext hopen
      exact .inr ⟨ct,tag,plaintext,hframe,hopen,rfl⟩

theorem wireSend_cases (ns : NoiseState) (msg : WireMsg J) (writes : List ℤ) :
    (wireSend noise cjson ns msg writes).encrypted = [] ∧
      (wireSend noise cjson ns msg writes).ok = false ∨
    ∃ plaintext, plaintextOf cjson msg = some plaintext ∧
      (wireSend noise cjson ns msg writes).encrypted =
        [⟨ns.sendKey,makeNonce ns.sendNonce,plaintext⟩] := by
  rw [wireSend]
  split
  · exact .inl ⟨rfl,rfl⟩
  · rename_i plaintext hprint
    exact .inr ⟨plaintext,hprint,rfl⟩

theorem wireSend_ns (ns : NoiseState) (msg : WireMsg J) (writes : List ℤ) :
    (wireSend noise cjson ns msg writes).ns =
      if (wireSend noise cjson ns msg writes).ok then
        { ns with sendNonce := ns.sendNonce+1 } else ns := by
  rw [wireSend]
  split <;> rfl

end

section

variable {J : Type}

-- The two ends; for each the messages passed to `wire_send` with what it returned, and the messages
-- that `wire_recv` returned; and every call of `aead_encrypt`.
structure WireLink (J : Type) where
  ends : End → NoiseState
  passed : End → List (WireMsg J × Bool)
  returned : End → List (WireMsg J)
  encryptions : List Encryption

-- `derive_keys` at the two ends.
def WireLink.start (keyInit keyResp : Blob 32) : WireLink J where
  ends e := match e with
    | .initiator => ⟨keyInit,keyResp,0,0⟩
    | .responder => ⟨keyResp,keyInit,0,0⟩
  passed _ := []
  returned _ := []
  encryptions := []

inductive LinkCall (J : Type) where
  | send (e : End) (msg : WireMsg J) (writes : List ℤ)
  | recv (e : End) (incoming : Bytes)

variable (noise : Noise) (cjson : Cjson J)

def WireLink.step (L : WireLink J) : LinkCall J → WireLink J
  | .send e msg writes =>
    let sent := wireSend noise cjson (L.ends e) msg writes
    { L with
      ends := update L.ends e sent.ns
      passed := update L.passed e (L.passed e ++ [(msg,sent.ok)])
      encryptions := L.encryptions ++ sent.encrypted }
  | .recv e incoming =>
    let got := wireRecv noise cjson (L.ends e) incoming
    { L with
      ends := update L.ends e got.1
      returned := update L.returned e (L.returned e ++ got.2.toList) }

def WireLink.Ideal (L : WireLink J) : LinkCall J → Prop
  | .send .. => True
  | .recv e incoming => ∀ ct tag plaintext, readFrame incoming = some (ct,tag) →
      noise.aeadDecrypt (L.ends e).recvKey (makeNonce (L.ends e).recvNonce) [] ct tag =
        some plaintext →
      ⟨(L.ends e).recvKey,makeNonce (L.ends e).recvNonce,plaintext⟩ ∈ L.encryptions

def Readable (msg : WireMsg J) : Prop :=
  ∀ plaintext, plaintextOf cjson msg = some plaintext → messageOf cjson plaintext = some msg

def Resumes (passed : List (WireMsg J × Bool)) (msg : WireMsg J) : Prop :=
  passed.length < 2^64-1 ∧ Readable cjson msg ∧ ∀ p ∈ passed, p.2 = false → p.1 = msg

def WireLink.Repeats (L : WireLink J) : LinkCall J → Prop
  | .send e msg _ => Resumes cjson (L.passed e) msg
  | .recv .. => True

def WireLink.messages (L : WireLink J) (e : End) : List (WireMsg J) := (L.passed e).map Prod.fst

def NoncesUsedOnce (L : WireLink J) : Prop :=
  ∀ a ∈ L.encryptions, ∀ b ∈ L.encryptions,
    a.key = b.key → a.nonce = b.nonce → a.plaintext = b.plaintext

def InOrder (L : WireLink J) : Prop := ∀ e : End, L.returned e <+: L.messages e.peer

end

open WireLink

section

variable {J : Type} {noise : Noise} {cjson : Cjson J} {ns : NoiseState}
variable {passed : List (WireMsg J × Bool)} {msg : WireMsg J}

structure Counting (cjson : Cjson J) (ns : NoiseState) (passed : List (WireMsg J × Bool)) :
    Prop where
  short : passed.length < 2^64
  readable : ∀ p ∈ passed, Readable cjson p.1
  behind : ns.sendNonce.toNat ≤ passed.length
  tail : ∀ i p, ns.sendNonce.toNat ≤ i → passed[i]? = some p → (p.1,false) ∈ passed

variable (h : Counting cjson ns passed)

include h

theorem Counting.failed (hlt : ns.sendNonce.toNat < passed.length) :
    (passed[ns.sendNonce.toNat].1,false) ∈ passed :=
  h.tail _ _ le_rfl (getElem?_eq_getElem hlt)

variable (hg : Resumes cjson passed msg)

include hg

theorem Counting.nonce_succ : (ns.sendNonce+1).toNat = ns.sendNonce.toNat+1 := by
  have hroom := lt_of_le_of_lt h.behind hg.1
  rw [UInt64.toNat_add]
  exact Nat.mod_eq_of_lt (Nat.add_lt_of_lt_sub hroom)

theorem Counting.counts (ok : Bool) :
    ∃ p, (passed ++ [(msg,ok)])[ns.sendNonce.toNat]? = some p ∧ p.1 = msg := by
  rcases h.behind.lt_or_eq with hlt | heq
  · refine ⟨passed[ns.sendNonce.toNat],?_,hg.2.2 (_,false) (h.failed hlt) rfl⟩
    rw [getElem?_append_left hlt,getElem?_eq_getElem hlt]
  · exact ⟨(msg,ok),heq ▸ getElem?_concat_length,rfl⟩

theorem Counting.readable_append
    (ok : Bool) : ∀ p ∈ passed ++ [(msg,ok)], Readable cjson p.1 := by
  intro p hp
  rcases mem_append.mp hp with hold | hnew
  · exact h.readable p hold
  · exact mem_singleton.mp hnew ▸ hg.2.1

theorem Counting.failure : Counting cjson ns (passed ++ [(msg,false)]) := by
  refine ⟨?_,h.readable_append hg false,?_,?_⟩
  · have hroom := hg.1
    rw [length_append,length_singleton]
    omega
  · rw [length_append]
    exact h.behind.trans (Nat.le_add_right _ _)
  · intro i p hi hp
    rcases lt_or_ge i passed.length with hlt | hge
    · rw [getElem?_append_left hlt] at hp
      exact mem_append_left _ (h.tail i p hi hp)
    · rw [getElem?_append_right hge] at hp
      obtain rfl := mem_singleton.mp (mem_of_getElem? hp)
      exact mem_append_right _ (mem_singleton.mpr rfl)

theorem Counting.success :
    Counting cjson { ns with sendNonce := ns.sendNonce+1 } (passed ++ [(msg,true)]) := by
  have hroom := hg.1
  have hnext := h.nonce_succ hg
  refine ⟨?_,h.readable_append hg true,?_,?_⟩
  · rw [length_append,length_singleton]
    omega
  · rw [length_append,hnext]
    exact Nat.succ_le_succ h.behind
  · intro i p hi hp
    rw [hnext] at hi
    rcases lt_or_ge i passed.length with hlt | hge
    · rw [getElem?_append_left hlt] at hp
      exact mem_append_left _ (h.tail i p (Nat.le_of_succ_le hi) hp)
    · rw [getElem?_append_right hge] at hp
      have hzero : i-passed.length = 0 := by
        simpa using (List.getElem?_eq_some_iff.mp hp).1
      obtain rfl := mem_singleton.mp (mem_of_getElem? hp)
      have hlt : ns.sendNonce.toNat < passed.length := by omega
      have hfailed := h.failed hlt
      rw [hg.2.2 _ hfailed rfl] at hfailed
      exact mem_append_left _ hfailed

theorem Counting.send
    (writes : List ℤ) : Counting cjson (wireSend noise cjson ns msg writes).ns
      (passed ++ [(msg,(wireSend noise cjson ns msg writes).ok)]) := by
  rw [wireSend_ns]
  cases (wireSend noise cjson ns msg writes).ok with
  | false => exact h.failure hg
  | true => exact h.success hg

end

section

variable {J : Type} {noise : Noise} {cjson : Cjson J} {keyInit keyResp : Blob 32}

def sendKeyOf (keyInit keyResp : Blob 32) : End → Blob 32
  | .initiator => keyInit
  | .responder => keyResp

theorem sendKeyOf_inj (hkeys : keyInit ≠ keyResp) {e e' : End}
    (h : sendKeyOf keyInit keyResp e = sendKeyOf keyInit keyResp e') : e = e' := by
  cases e <;> cases e'
  · rfl
  · exact absurd h hkeys
  · exact absurd h.symm hkeys
  · rfl

def Encryption.Of (cjson : Cjson J) (passed : List (WireMsg J × Bool)) (key : Blob 32)
    (a : Encryption) : Prop :=
  a.key = key ∧ ∃ n : UInt64, ∃ p, a.nonce = makeNonce n ∧ passed[n.toNat]? = some p ∧
    plaintextOf cjson p.1 = some a.plaintext

theorem Encryption.Of.append {a : Encryption} {passed : List (WireMsg J × Bool)} {key : Blob 32}
    (h : a.Of cjson passed key) (p : WireMsg J × Bool) : a.Of cjson (passed ++ [p]) key := by
  obtain ⟨hkey,n,q,hnonce,hget,hpt⟩ := h
  refine ⟨hkey,n,q,hnonce,?_,hpt⟩
  rwa [List.getElem?_append_left (List.getElem?_eq_some_iff.mp hget).1]

structure NumberedFrames (cjson : Cjson J) (keyInit keyResp : Blob 32) (L : WireLink J) : Prop where
  sendKey : ∀ e, (L.ends e).sendKey = sendKeyOf keyInit keyResp e
  recvKey : ∀ e : End, (L.ends e).recvKey = sendKeyOf keyInit keyResp e.peer
  counting : ∀ e, Counting cjson (L.ends e) (L.passed e)
  encrypted : ∀ a ∈ L.encryptions, ∃ e, a.Of cjson (L.passed e) (sendKeyOf keyInit keyResp e)
  returned : ∀ e : End, (L.ends e).recvNonce.toNat = (L.returned e).length ∧
    L.returned e <+: L.messages e.peer

theorem numbered_start : NumberedFrames cjson keyInit keyResp (start keyInit keyResp) where
  sendKey e := by cases e <;> rfl
  recvKey e := by cases e <;> rfl
  counting e := by cases e <;> exact ⟨by simp [start],by simp [start],
    by simp [start],by simp [start]⟩
  encrypted := by simp [start]
  returned e := by cases e <;> simp [start,messages]

variable {L : WireLink J} {e : End} {msg : WireMsg J} {writes : List ℤ} {incoming : Bytes}

theorem wireSend_keys (noise : Noise) (cjson : Cjson J) (ns : NoiseState) (msg : WireMsg J)
    (writes : List ℤ) : (wireSend noise cjson ns msg writes).ns.sendKey = ns.sendKey ∧
      (wireSend noise cjson ns msg writes).ns.recvKey = ns.recvKey ∧
      (wireSend noise cjson ns msg writes).ns.recvNonce = ns.recvNonce := by
  rw [wireSend_ns]
  split <;> exact ⟨rfl,rfl,rfl⟩

theorem NumberedFrames.encrypted_send (h : NumberedFrames cjson keyInit keyResp L)
    (hg : Resumes cjson (L.passed e) msg) (a : Encryption)
    (ha : a ∈ (L.step noise cjson (.send e msg writes)).encryptions) :
    ∃ e', a.Of cjson ((L.step noise cjson (.send e msg writes)).passed e')
      (sendKeyOf keyInit keyResp e') := by
  rcases mem_append.mp ha with hold | hnew
  · obtain ⟨e',hof⟩ := h.encrypted a hold
    refine ⟨e',?_⟩
    by_cases he : e' = e
    · subst he
      simpa only [step,update_self] using hof.append _
    · simpa only [step,update_of_ne he] using hof
  · rcases wireSend_cases noise cjson (L.ends e) msg writes with ⟨hnil,-⟩ | ⟨pt,hpt,hone⟩
    · simp [hnil] at hnew
    · rw [hone] at hnew
      obtain rfl := mem_singleton.mp hnew
      obtain ⟨p,hget,rfl⟩ := (h.counting e).counts hg (wireSend noise cjson (L.ends e) msg writes).ok
      refine ⟨e,h.sendKey e,(L.ends e).sendNonce,p,rfl,?_,hpt⟩
      simpa only [step,update_self] using hget

theorem NumberedFrames.send (h : NumberedFrames cjson keyInit keyResp L)
    (hg : Resumes cjson (L.passed e) msg) :
    NumberedFrames cjson keyInit keyResp (L.step noise cjson (.send e msg writes)) := by
  obtain ⟨hsend,hrecv,hnonce⟩ := wireSend_keys noise cjson (L.ends e) msg writes
  refine ⟨fun e' => ?_,fun e' => ?_,fun e' => ?_,h.encrypted_send hg,fun e' => ⟨?_,?_⟩⟩
  · by_cases he : e' = e
    · subst he
      simpa only [step,update_self,hsend] using h.sendKey e'
    · simpa only [step,update_of_ne he] using h.sendKey e'
  · by_cases he : e' = e
    · subst he
      simpa only [step,update_self,hrecv] using h.recvKey e'
    · simpa only [step,update_of_ne he] using h.recvKey e'
  · by_cases he : e' = e
    · subst he
      simpa only [step,update_self] using (h.counting e').send hg writes
    · simpa only [step,update_of_ne he] using h.counting e'
  · by_cases he : e' = e
    · subst he
      simpa only [step,update_self,hnonce] using (h.returned e').1
    · simpa only [step,update_of_ne he] using (h.returned e').1
  · refine (h.returned e').2.trans ?_
    by_cases he : e'.peer = e
    · subst he
      simp [messages,step]
    · simp [messages,step,update_of_ne he]

theorem prefix_snoc {α : Type} {xs ys : List α} {a : α} (h : xs <+: ys)
    (ha : ys[xs.length]? = some a) : xs ++ [a] <+: ys := by
  obtain ⟨rest,rfl⟩ := h
  cases rest with
  | nil => simp at ha
  | cons b rest =>
    obtain rfl : b = a := by simpa using ha
    exact ⟨rest,by simp⟩

theorem NumberedFrames.receives (hkeys : keyInit ≠ keyResp) (h : NumberedFrames cjson keyInit keyResp L)
    {pt : Bytes} (henc : ⟨(L.ends e).recvKey,makeNonce (L.ends e).recvNonce,pt⟩ ∈ L.encryptions) :
    ∃ msg, messageOf cjson pt = some msg ∧
      (L.messages e.peer)[(L.ends e).recvNonce.toNat]? = some msg ∧
      (L.ends e).recvNonce.toNat < 2^64-1 := by
  obtain ⟨e',hkey,n,p,hnonce,hget,hpt⟩ := h.encrypted _ henc
  obtain rfl := sendKeyOf_inj hkeys ((h.recvKey e).symm.trans hkey)
  obtain rfl := bolt8Nonce_inj hnonce
  have hlt := (List.getElem?_eq_some_iff.mp hget).1
  have hshort := (h.counting e.peer).short
  refine ⟨p.1,(h.counting e.peer).readable p (List.mem_of_getElem? hget) pt hpt,?_,by omega⟩
  rw [messages,List.getElem?_map,hget]
  rfl

theorem NumberedFrames.recv (hkeys : keyInit ≠ keyResp) (h : NumberedFrames cjson keyInit keyResp L)
    (hideal : L.Ideal noise (.recv e incoming)) :
    NumberedFrames cjson keyInit keyResp (L.step noise cjson (.recv e incoming)) := by
  rcases wireRecv_cases noise cjson (L.ends e) incoming with
    hsame | ⟨ct,tag,pt,hframe,hopen,hgot⟩
  · have hstep : L.step noise cjson (.recv e incoming) = L := by simp [step,hsame]
    rwa [hstep]
  · obtain ⟨msg,hread,hget,hroom⟩ := h.receives hkeys (hideal ct tag pt hframe hopen)
    obtain ⟨hcount, hprefix⟩ := h.returned e
    have hstep : L.step noise cjson (.recv e incoming) = { L with
        ends := update L.ends e
          { L.ends e with recvNonce := (L.ends e).recvNonce+1 }
        returned := update L.returned e (L.returned e ++ [msg]) } := by
      simp [step,hgot,hread]
    rw [hstep]
    refine ⟨fun e' => ?_,fun e' => ?_,fun e' => ?_,h.encrypted,fun e' => ?_⟩
    all_goals by_cases he : e' = e
    · simpa only [he,update_self] using h.sendKey e
    · simpa only [update_of_ne he] using h.sendKey e'
    · simpa only [he,update_self] using h.recvKey e
    · simpa only [update_of_ne he] using h.recvKey e'
    · have hcounting := h.counting e
      simpa only [he,update_self] using
        ⟨hcounting.short,hcounting.readable,hcounting.behind,hcounting.tail⟩
    · simpa only [update_of_ne he] using h.counting e'
    · subst he
      simp only [update_self]
      refine ⟨?_,prefix_snoc hprefix (hcount ▸ hget)⟩
      rw [UInt64.toNat_add,length_append,hcount]
      exact Nat.mod_eq_of_lt (Nat.add_lt_of_lt_sub (hcount ▸ hroom))
    · simpa only [update_of_ne he,messages] using h.returned e'

end

section

variable {J : Type}

theorem wire_links (noise : Noise) (cjson : Cjson J) (keyInit keyResp : Blob 32)
    (hkeys : keyInit ≠ keyResp) (L : WireLink J)
    (h : Runs.Reaches (step noise cjson)
      (fun L call => L.Ideal noise call ∧ L.Repeats cjson call) (start keyInit keyResp) L) :
    NoncesUsedOnce L ∧ InOrder L := by
  have hL : NumberedFrames cjson keyInit keyResp L := h.invariant (fun L call hL hg => by
    cases call with
    | send e msg writes => exact hL.send hg.2
    | recv e incoming => exact hL.recv hkeys hg.1) numbered_start
  refine ⟨?_,fun e => (hL.returned e).2⟩
  intro a ha b hb hkey hnonce
  obtain ⟨e,hae,n,p,han,hget,hpt⟩ := hL.encrypted a ha
  obtain ⟨e',hbe,n',p',hbn,hget',hpt'⟩ := hL.encrypted b hb
  obtain rfl := sendKeyOf_inj hkeys (hae.symm.trans (hkey.trans hbe))
  obtain rfl := bolt8Nonce_inj (han.symm.trans (hnonce.trans hbn))
  obtain rfl := Option.mem_unique hget hget'
  exact Option.mem_unique hpt hpt'

def Cjson.texts : Cjson Bytes := ⟨some,some⟩

def keyOnes : Blob 32 := Blob.fill 32 1

def emptyObject : WireMsg Bytes := (1,[123,125])

def emptyArray : WireMsg Bytes := (1,[91,93])

def arrayFrame : Bytes :=
  (wireSend Noise.sample Cjson.texts ⟨Blob.zero 32,keyOnes,0,0⟩ emptyArray [4,3,16]).frame

def newLink : WireLink Bytes := start (Blob.zero 32) keyOnes

abbrev WireLink.next (L : WireLink Bytes) (call : LinkCall Bytes) : WireLink Bytes :=
  L.step Noise.sample Cjson.texts call

theorem arrayFrame_opens {ct : Bytes} {tag : Blob 16} {pt : Bytes}
    (hframe : readFrame arrayFrame = some (ct,tag))
    (hopen : Noise.sample.aeadDecrypt (Blob.zero 32) (makeNonce 0) [] ct tag = some pt) :
    pt = [1,91,93] := by
  have hread : (readFrame arrayFrame).map Prod.fst = some [1,91,93] := by decide +kernel
  rw [hframe] at hread
  obtain rfl : ct = [1,91,93] := Option.some.inj hread
  simp only [Noise.sample] at hopen
  split at hopen
  · exact (Option.some.inj hopen).symm
  · cases hopen

theorem array_read_in_order :
    NoncesUsedOnce ((newLink.next (.send .initiator emptyArray [4,3,16])).next
        (.recv .responder arrayFrame)) ∧
      InOrder ((newLink.next (.send .initiator emptyArray [4,3,16])).next
        (.recv .responder arrayFrame)) := by
  refine wire_links Noise.sample Cjson.texts (Blob.zero 32) keyOnes (by decide) _
    (.tail (.tail .refl ⟨.send .initiator emptyArray [4,3,16],⟨trivial,?_⟩,rfl⟩)
      ⟨.recv .responder arrayFrame,⟨?_,trivial⟩,rfl⟩)
  · refine ⟨by decide,?_,by simp [start]⟩
    intro pt hpt
    cases hpt
    decide
  · intro ct tag pt hframe hopen
    obtain rfl := arrayFrame_opens hframe hopen
    decide +kernel

theorem failed_write_reuses_nonce :
    ∃ L, Runs.Reaches (step Noise.sample Cjson.texts) (Ideal Noise.sample)
        (start (Blob.zero 32) keyOnes) L ∧ ¬ NoncesUsedOnce L ∧ ¬ InOrder L := by
  refine ⟨((newLink.next (.send .initiator emptyObject [-1])).next
      (.send .initiator emptyArray [4,3,16])).next (.recv .responder arrayFrame),
    .tail (.tail (.tail .refl ⟨.send .initiator emptyObject [-1],trivial,rfl⟩)
      ⟨.send .initiator emptyArray [4,3,16],trivial,rfl⟩)
      ⟨.recv .responder arrayFrame,?_,rfl⟩,?_,?_⟩
  · intro ct tag pt hframe hopen
    obtain rfl := arrayFrame_opens hframe hopen
    decide +kernel
  · intro h
    have hsame := h ⟨Blob.zero 32,makeNonce 0,[1,123,125]⟩ (by decide +kernel)
      ⟨Blob.zero 32,makeNonce 0,[1,91,93]⟩ (by decide +kernel) rfl rfl
    exact absurd hsame (by decide)
  · intro h
    have hreturned : (((newLink.next (.send .initiator emptyObject [-1])).next
        (.send .initiator emptyArray [4,3,16])).next (.recv .responder arrayFrame)).returned
          .responder = [emptyArray] := by decide +kernel
    have hpassed : (((newLink.next (.send .initiator emptyObject [-1])).next
        (.send .initiator emptyArray [4,3,16])).next (.recv .responder arrayFrame)).messages
          .initiator = [emptyObject,emptyArray] := by decide +kernel
    have hprefix := h .responder
    rw [hreturned,show End.responder.peer = .initiator from rfl,hpassed] at hprefix
    revert hprefix
    decide

end

end SuperScalar
