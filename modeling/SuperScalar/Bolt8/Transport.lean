import SuperScalar.Bolt8.Handshake
import SuperScalar.Foundation.Flight

namespace SuperScalar

open Flight Nat Function

section

variable (noise : Noise)

def rotateKey (ck key : Blob 32) : Blob 32 × Blob 32 := bolt8Hkdf2 noise ck key.val

def Bolt8State.toWrite (st : Bolt8State) : Bolt8State :=
  if st.sn = 1000 then
    { st with ck := (rotateKey noise st.ck st.sk).1, sk := (rotateKey noise st.ck st.sk).2, sn := 0 }
  else st

def Bolt8State.toRead (st : Bolt8State) : Bolt8State :=
  if st.rn = 1000 then
    { st with ck := (rotateKey noise st.ck st.rk).1, rk := (rotateKey noise st.ck st.rk).2, rn := 0 }
  else st

def lenBe (n : ℕ) : Bytes := [UInt8.ofNat (n >>> 8),UInt8.ofNat n]

def framed (key : Blob 32) (n : UInt64) (msg : Bytes) : Bytes :=
  (b8Encrypt noise key n [] (lenBe msg.length)).val ++ (b8Encrypt noise key (n+1) [] msg).val

def bolt8WriteMessage (st : Bolt8State) (msg : Bytes) : Option (Bolt8State × Bytes) :=
  if msg.length > 65535 then none
  else
    let st := st.toWrite noise
    some ({ st with sn := st.sn+1+1 },framed noise st.sk st.sn msg)

def bolt8ReadMessage (st : Bolt8State) (inBuf : Bytes) : Bolt8State × Option Bytes :=
  if inBuf.length < 18+16 then (st,none)
  else
    let st := st.toRead noise
    match b8Decrypt noise st.rk st.rn [] inBuf 2 with
    | none => (st,none)
    | some header =>
      let st := { st with rn := st.rn+1 }
      let msgLen := (header.getD 0 0).toNat <<< 8 ||| (header.getD 1 0).toNat
      if inBuf.length < 18 + msgLen+16 then (st,none)
      else
        match b8Decrypt noise st.rk st.rn [] (inBuf.drop 18) msgLen with
        | none => (st,none)
        | some msg => ({ st with rn := st.rn+1 },some msg)

end

section

inductive End where
  | initiator
  | responder
deriving DecidableEq

def End.peer : End → End
  | .initiator => .responder
  | .responder => .initiator

structure Sealing where
  side : End
  turns : ℕ
  key : Blob 32
  n : UInt64
deriving DecidableEq

def Sealing.pair (s : Sealing) : Blob 32 × Blob 12 := (s.key,bolt8Nonce s.n)

structure Session where
  ends : End → Bolt8State
  wire : End → List (Bytes × Bytes)
  turns : End → ℕ
  seen : End → ℕ
  reads : List (Bytes × Option Bytes)
  sealings : List Sealing

def Session.start (initiator responder : Bolt8State) : Session where
  ends e := match e with
    | .initiator => initiator
    | .responder => responder
  wire _ := []
  turns _ := 0
  seen _ := 0
  reads := []
  sealings := []

inductive Call where
  | write (e : End) (msg : Bytes)
  | read (e : End)

def rotation (n : UInt64) : ℕ := if n = 1000 then 1 else 0

variable (noise : Noise)

def Session.sealed (S : Session) (e : End) : List Sealing :=
  let st := (S.ends e).toWrite noise
  let turns := S.turns e + rotation (S.ends e).sn
  [⟨e,turns,st.sk,st.sn⟩,⟨e,turns,st.sk,st.sn+1⟩]

def Session.step (S : Session) : Call → Session
  | .write e msg =>
    match bolt8WriteMessage noise (S.ends e) msg with
    | none => S
    | some (st,frame) =>
      { S with
        ends := update S.ends e st
        wire := update S.wire e (S.wire e ++ [(msg,frame)])
        turns := update S.turns e (S.turns e + rotation (S.ends e).sn)
        sealings := S.sealings ++ S.sealed noise e }
  | .read e =>
    match S.wire e.peer with
    | [] => S
    | (msg,frame) :: rest =>
      let r := bolt8ReadMessage noise (S.ends e) frame
      { S with
        ends := update S.ends e r.1
        wire := update S.wire e.peer rest
        seen := update S.seen e (S.seen e + rotation (S.ends e).rn)
        reads := S.reads ++ [(msg,r.2)] }

def RotationWaits (S : Session) : Call → Prop
  | .write e msg => msg.length ≤ 65535 → (S.ends e).sn = 1000 → S.turns e.peer = S.seen e
  | .read _ => True

def AllRead (S : Session) : Prop := ∀ r ∈ S.reads, r.2 = some r.1

def KeysDistinct (S : Session) : Prop :=
  ∀ s ∈ S.sealings, ∀ t ∈ S.sealings, s.key = t.key → s.side = t.side ∧ s.turns = t.turns

end

section

structure Ratchet where
  ck : Blob 32
  key : Blob 32
  n : UInt64
  turns : ℕ

variable (noise : Noise)

def Ratchet.turned (r : Ratchet) : Ratchet :=
  if r.n = 1000 then ⟨(rotateKey noise r.ck r.key).1,(rotateKey noise r.ck r.key).2,0,r.turns+1⟩
  else r

def Ratchet.send (r : Ratchet) (msg : Bytes) : Bytes × Ratchet :=
  let r := r.turned noise
  (framed noise r.key r.n msg,{ r with n := r.n+1+1 })

def Session.writePos (S : Session) (e : End) : Ratchet :=
  ⟨(S.ends e).ck,(S.ends e).sk,(S.ends e).sn,S.turns e⟩

def Session.readPos (S : Session) (e : End) : Ratchet :=
  ⟨(S.ends e).ck,(S.ends e).rk,(S.ends e).rn,S.seen e⟩

variable {noise} {r q : Ratchet} {msg : Bytes} {frames : List (Bytes × Bytes)}

theorem turned_of_ne (hn : r.n ≠ 1000) : r.turned noise = r := if_neg hn

theorem send_turns (r : Ratchet) (msg : Bytes) :
    (r.send noise msg).2.turns = r.turns + rotation r.n := by
  unfold Ratchet.send Ratchet.turned rotation
  split_ifs <;> rfl

theorem turns_le (h : InFlight (Ratchet.send noise) r frames q) : r.turns ≤ q.turns :=
  h.le (f := Ratchet.turns) fun r msg => by
    rw [send_turns]
    exact le_add_right _ _

theorem ne_of_no_turn (hframe : InFlight (Ratchet.send noise) (r.send noise msg).2 frames q)
    (hturns : q.turns = r.turns) : r.n ≠ 1000 := by
  intro hn
  have hle := turns_le hframe
  rw [send_turns,rotation,if_pos hn] at hle
  omega

theorem send_of_ne (noise : Noise) (r : Ratchet) (hn : r.n ≠ 1000) (msg : Bytes) :
    r.send noise msg = (framed noise r.key r.n msg,{ r with n := r.n+1+1 }) := by
  rw [Ratchet.send,turned_of_ne hn]

theorem inFlight_quiet (h : InFlight (Ratchet.send noise) r frames q) (hturns : q.turns = r.turns) :
    q.ck = r.ck ∧ q.key = r.key ∧
      ∀ ck, InFlight (Ratchet.send noise) { r with ck := ck } frames { q with ck := ck } := by
  induction h with
  | nil => exact ⟨rfl,rfl,fun _ => .nil _⟩
  | cons r msg hrest ih =>
    have hn := ne_of_no_turn hrest hturns
    rw [send_of_ne noise r hn] at ih ⊢
    obtain ⟨hck,hkey,hall⟩ := ih hturns
    refine ⟨hck,hkey,fun ck => ?_⟩
    exact .push (send_of_ne noise { r with ck := ck } hn msg) (hall ck)

end

open Ratchet

section

variable {noise : Noise} (laws : NoiseLaws noise)

theorem length_lenBe (n : ℕ) : (lenBe n).length = 2 := rfl

theorem lenBe_value {n : ℕ} (hn : n ≤ 65535) :
    ((lenBe n).getD 0 0).toNat <<< 8 ||| ((lenBe n).getD 1 0).toNat = n := by
  change (UInt8.ofNat (n >>> 8)).toNat <<< 8 ||| (UInt8.ofNat n).toNat = n
  have hlow : n % 2 ^ 8 < 2^8 := mod_lt _ (by norm_num)
  rw [UInt8.toNat_ofNat',UInt8.toNat_ofNat',shiftRight_eq_div_pow,
    mod_eq_of_lt (show n/2^8 < 2^8 by omega),← shiftLeft_add_eq_or_of_lt hlow,shiftLeft_eq]
  omega

theorem length_framed (noise : Noise) (key : Blob 32) (n : UInt64) (msg : Bytes) :
    (framed noise key n msg).length = 18 + (msg.length+16) := by
  simp only [framed,List.length_append,Blob.length_val,length_lenBe]

theorem b8Decrypt_append (key : Blob 32) (n : UInt64) (aad : Bytes) {inBuf : Bytes} {ctLen : ℕ}
    (hlen : inBuf.length = ctLen+16) (rest : Bytes) :
    b8Decrypt noise key n aad (inBuf++rest) ctLen = b8Decrypt noise key n aad inBuf ctLen := by
  have htag : copyBytes 16 (inBuf.drop ctLen ++ rest) = copyBytes 16 (inBuf.drop ctLen) := by
    have hsixteen : (inBuf.drop ctLen).length = 16 := by rw [List.length_drop]; omega
    have hwhole := copyBytes_append ⟨inBuf.drop ctLen,hsixteen⟩
    have hnil := hwhole []
    rw [List.append_nil] at hnil
    exact (hwhole rest).trans hnil.symm
  rw [b8Decrypt,b8Decrypt,List.take_append_of_le_length (by omega),
    List.drop_append_of_le_length (by omega),htag]

include laws

theorem bolt8ReadMessage_framed {st : Bolt8State} {msg : Bytes} (hmsg : msg.length ≤ 65535) :
    bolt8ReadMessage noise st (framed noise (st.toRead noise).rk (st.toRead noise).rn msg) =
      ({ st.toRead noise with rn := (st.toRead noise).rn+1+1 },some msg) := by
  have hlength := length_framed noise (st.toRead noise).rk (st.toRead noise).rn msg
  unfold bolt8ReadMessage
  rw [if_neg (by omega)]
  dsimp only
  rw [hlength]
  generalize st.toRead noise = st
  have hheader := b8Decrypt_b8Encrypt laws st.rk st.rn [] (length_lenBe msg.length)
  have hbody := b8Decrypt_b8Encrypt laws st.rk (st.rn+1) [] (show msg.length = msg.length from rfl)
  have hhead : (b8Encrypt noise st.rk st.rn [] (lenBe msg.length)).val.length = 2+16 :=
    Blob.length_val _
  rw [framed,b8Decrypt_append _ _ _ hhead,hheader]
  dsimp only
  rw [lenBe_value hmsg,if_neg (by omega),List.drop_left' hhead,hbody]

end

section

variable {noise : Noise} {S : Session} {x : End} {msg : Bytes}

theorem End.peer_peer (x : End) : x.peer.peer = x := by cases x <;> rfl

theorem End.peer_ne (x : End) : x.peer ≠ x := by cases x <;> decide

structure LedBy (noise : Noise) (S : Session) (x : End) : Prop where
  full : InFlight (send noise) (S.readPos x.peer) (S.wire x) (S.writePos x)
  settled : S.turns x.peer = S.seen x
  quiet : ∀ ck, InFlight (send noise) { S.readPos x with ck := ck } (S.wire x.peer)
    { S.writePos x.peer with ck := ck }

theorem LedBy.switch (h : LedBy noise S x) (hseen : S.turns x = S.seen x.peer) :
    LedBy noise S x.peer := by
  obtain ⟨hck,-,hquiet⟩ := inFlight_quiet h.full hseen
  have hback := h.quiet (S.ends x).ck
  refine ⟨?_,?_,?_⟩
  · rw [End.peer_peer]
    have hwrite : { S.writePos x.peer with ck := (S.ends x).ck } = S.writePos x.peer := by
      rw [show (S.ends x).ck = (S.ends x.peer).ck from hck]
      rfl
    rwa [hwrite] at hback
  · rw [End.peer_peer,hseen]
  · rw [End.peer_peer]
    exact hquiet

theorem bolt8WriteMessage_some (st : Bolt8State) (hmsg : msg.length ≤ 65535) :
    bolt8WriteMessage noise st msg = some ({ st.toWrite noise with
      sn := (st.toWrite noise).sn+1+1 },
        framed noise (st.toWrite noise).sk (st.toWrite noise).sn msg) := by
  rw [bolt8WriteMessage,if_neg (not_lt.mpr hmsg)]

theorem step_write (noise : Noise) (S : Session) (e : End) (hmsg : msg.length ≤ 65535) :
    S.step noise (.write e msg) = { S with
      ends := update S.ends e { (S.ends e).toWrite noise with
        sn := ((S.ends e).toWrite noise).sn+1+1 }
      wire := update S.wire e (S.wire e ++
        [(msg,((S.writePos e).send noise msg).1)])
      turns := update S.turns e (S.turns e + rotation (S.ends e).sn)
      sealings := S.sealings ++ S.sealed noise e } := by
  have hframe : framed noise ((S.ends e).toWrite noise).sk ((S.ends e).toWrite noise).sn msg =
      ((S.writePos e).send noise msg).1 := by
    unfold send turned Session.writePos Bolt8State.toWrite
    split_ifs <;> rfl
  rw [Session.step,bolt8WriteMessage_some _ hmsg,← hframe]

theorem step_write_long (noise : Noise) (S : Session) (e : End) (hmsg : ¬msg.length ≤ 65535) :
    S.step noise (.write e msg) = S := by
  rw [Session.step,bolt8WriteMessage,if_pos (not_le.mp hmsg)]

theorem writePos_write (noise : Noise) (S : Session) (e : End) (hmsg : msg.length ≤ 65535) :
    (S.step noise (.write e msg)).writePos e = ((S.writePos e).send noise msg).2 := by
  rw [step_write noise S e hmsg]
  unfold Session.writePos send turned Bolt8State.toWrite rotation
  dsimp only
  simp only [update_self]
  split_ifs <;> rfl

theorem write_unchanged (noise : Noise) (S : Session) (e : End) (hmsg : msg.length ≤ 65535) :
    (S.step noise (.write e msg)).writePos e.peer = S.writePos e.peer ∧
      (S.step noise (.write e msg)).readPos e.peer = S.readPos e.peer ∧
      (S.step noise (.write e msg)).wire e.peer = S.wire e.peer ∧
      (∀ ck, { (S.step noise (.write e msg)).readPos e with ck := ck } =
        { S.readPos e with ck := ck }) ∧
      ((S.ends e).sn ≠ 1000 → (S.step noise (.write e msg)).readPos e = S.readPos e) := by
  rw [step_write noise S e hmsg]
  unfold Session.writePos Session.readPos
  dsimp only
  rw [update_of_ne e.peer_ne,update_of_ne e.peer_ne,update_of_ne e.peer_ne,update_self]
  unfold Bolt8State.toWrite
  refine ⟨rfl,rfl,rfl,fun ck => ?_,fun hn => ?_⟩
  · split_ifs <;> rfl
  · rw [if_neg hn]

theorem write_wire (noise : Noise) (S : Session) (e : End) (hmsg : msg.length ≤ 65535) :
    (S.step noise (.write e msg)).wire e =
      S.wire e ++ [(msg,((S.writePos e).send noise msg).1)] := by
  rw [step_write noise S e hmsg]
  exact update_self _ _ _

theorem LedBy.write (h : LedBy noise S x) (hmsg : msg.length ≤ 65535) :
    LedBy noise (S.step noise (.write x msg)) x := by
  obtain ⟨hwrite,hread,hwire,hback,-⟩ := write_unchanged noise S x hmsg
  have hpos := writePos_write noise S x hmsg
  refine ⟨?_,?_,fun ck => ?_⟩
  · rw [hread,write_wire noise S x hmsg,hpos]
    exact h.full.snoc msg
  · have hturns := congrArg turns hwrite
    have hseen := congrArg turns (hback (Blob.zero 32))
    exact hturns.trans (h.settled.trans hseen.symm)
  · rw [hback,hwire,hwrite]
    exact h.quiet ck

theorem LedBy.write_back (h : LedBy noise S x) (hmsg : msg.length ≤ 65535)
    (hn : (S.ends x.peer).sn ≠ 1000) : LedBy noise (S.step noise (.write x.peer msg)) x := by
  obtain ⟨hwrite,hread,hwire,-,hkept⟩ := write_unchanged noise S x.peer hmsg
  rw [End.peer_peer] at hwrite hread hwire
  have hpos := writePos_write noise S x.peer hmsg
  have hsend (ck : Blob 32) := send_of_ne noise { S.writePos x.peer with ck := ck } hn msg
  refine ⟨?_,?_,fun ck => ?_⟩
  · rw [hkept hn,hwire,hwrite]
    exact h.full
  · have hturns := congrArg turns hpos
    rw [send_turns,show rotation (S.writePos x.peer).n = 0 from if_neg hn,add_zero] at hturns
    exact hturns.trans (h.settled.trans (congrArg turns hread).symm)
  · have hsnoc := (h.quiet ck).snoc msg
    rw [hsend] at hsnoc
    rw [hread,write_wire noise S x.peer hmsg,hpos,send_of_ne noise _ hn]
    exact hsnoc


section

variable (laws : NoiseLaws noise)

include laws

variable {rest : List (Bytes × Bytes)} {e : End} {frame : Bytes}

theorem step_read (hmsg : msg.length ≤ 65535)
    (hwire : S.wire e.peer = (msg,((S.readPos e).send noise msg).1) :: rest) :
    S.step noise (.read e) = { S with
      ends := update S.ends e { (S.ends e).toRead noise with
        rn := ((S.ends e).toRead noise).rn+1+1 }
      wire := update S.wire e.peer rest
      seen := update S.seen e (S.seen e + rotation (S.ends e).rn)
      reads := S.reads ++ [(msg,some msg)] } := by
  have hframe : ((S.readPos e).send noise msg).1 =
      framed noise ((S.ends e).toRead noise).rk ((S.ends e).toRead noise).rn msg := by
    unfold send turned Session.readPos Bolt8State.toRead
    split_ifs <;> rfl
  rw [Session.step,hwire]
  dsimp only
  rw [hframe,bolt8ReadMessage_framed laws hmsg]

theorem read_moves (hmsg : msg.length ≤ 65535)
    (hwire : S.wire e.peer = (msg,((S.readPos e).send noise msg).1) :: rest) :
    (S.step noise (.read e)).readPos e = ((S.readPos e).send noise msg).2 ∧
      (S.step noise (.read e)).wire e.peer = rest ∧
      (S.step noise (.read e)).wire e = S.wire e ∧
      (S.step noise (.read e)).readPos e.peer = S.readPos e.peer ∧
      (S.step noise (.read e)).writePos e.peer = S.writePos e.peer ∧
      (∀ ck, { (S.step noise (.read e)).writePos e with ck := ck } =
        { S.writePos e with ck := ck }) ∧
      ((S.ends e).rn ≠ 1000 → (S.step noise (.read e)).writePos e = S.writePos e) := by
  rw [step_read laws hmsg hwire]
  unfold Session.writePos Session.readPos
  dsimp only
  rw [update_self,update_self,update_self,update_of_ne e.peer_ne,update_of_ne e.peer_ne,
    update_of_ne e.peer_ne.symm]
  unfold send turned Bolt8State.toRead rotation
  refine ⟨?_,rfl,rfl,rfl,rfl,fun ck => ?_,fun hn => ?_⟩
  · split_ifs <;> rfl
  · split_ifs <;> rfl
  · rw [if_neg hn]

theorem LedBy.read (h : LedBy noise S x) (hmsg : msg.length ≤ 65535)
    (hwire : S.wire x = (msg,frame) :: rest) :
    LedBy noise (S.step noise (.read x.peer)) x ∧
      (S.step noise (.read x.peer)).reads = S.reads ++ [(msg,some msg)] := by
  have hfull := h.full
  rw [hwire] at hfull
  obtain ⟨rfl,hrest⟩ := hfull.head
  have hwire' : S.wire x.peer.peer = (msg,((S.readPos x.peer).send noise msg).1) :: rest := by
    rw [End.peer_peer,hwire]
  obtain ⟨hread,hleft,hback,hother,hwrite,hquiet,-⟩ := read_moves laws hmsg hwire'
  rw [End.peer_peer] at hleft hother hwrite
  refine ⟨⟨?_,?_,fun ck => ?_⟩,by rw [step_read laws hmsg hwire']⟩
  · rw [hread,hleft,hwrite]
    exact hrest
  · have hturns := congrArg turns (hquiet (Blob.zero 32))
    exact hturns.trans (h.settled.trans (congrArg turns hother).symm)
  · rw [hother,hback,hquiet]
    exact h.quiet ck

theorem LedBy.read_back (h : LedBy noise S x) (hmsg : msg.length ≤ 65535)
    (hwire : S.wire x.peer = (msg,frame) :: rest) :
    LedBy noise (S.step noise (.read x)) x ∧
      (S.step noise (.read x)).reads = S.reads ++ [(msg,some msg)] := by
  have hquiet := h.quiet
  rw [hwire] at hquiet
  have hown := (hquiet (S.ends x).ck).head
  obtain rfl := hown.1
  have hn : (S.ends x).rn ≠ 1000 := ne_of_no_turn hown.2 h.settled
  have hsend (ck : Blob 32) := send_of_ne noise { S.readPos x with ck := ck } hn msg
  obtain ⟨hread,hleft,hback,hother,hwrite,-,hkept⟩ := read_moves laws hmsg hwire
  refine ⟨⟨?_,?_,fun ck => ?_⟩,by rw [step_read laws hmsg hwire]⟩
  · rw [hother,hback,hkept hn]
    exact h.full
  · have hseen := congrArg turns hread
    rw [send_turns,show rotation (S.readPos x).n = 0 from if_neg hn,add_zero] at hseen
    exact (congrArg turns hwrite).trans (h.settled.trans hseen.symm)
  · have hrest := (hquiet ck).head.2
    rw [hsend] at hrest
    rw [hread,hleft,hwrite,send_of_ne noise _ hn]
    exact hrest

end


end

end SuperScalar
