import SuperScalar.Bolt8.Transport

namespace SuperScalar

open List UInt64 Function Session Noise

section

variable {noise : Noise} {S : Session}

theorem End.cases (x e : End) : e = x ∨ e = x.peer := by
  cases x <;> cases e <;> decide

structure InStep (noise : Noise) (S : Session) : Prop where
  led : ∃ x, LedBy noise S x
  short : ∀ e, ∀ p ∈ S.wire e, p.1.length ≤ 65535
  reads : AllRead S

theorem InStep.write (h : InStep noise S) {e : End} {msg : Bytes} (hmsg : msg.length ≤ 65535)
    (hsettled : (S.ends e).sn = 1000 → S.turns e.peer = S.seen e) :
    InStep noise (S.step noise (.write e msg)) := by
  have hreads : (S.step noise (.write e msg)).reads = S.reads := by rw [step_write noise S e hmsg]
  refine ⟨?_,fun e' p hp => ?_,?_⟩
  · obtain ⟨x,hx⟩ := h.led
    rcases End.cases x e with rfl | rfl
    · exact ⟨e,hx.write hmsg⟩
    · by_cases hn : (S.ends x.peer).sn = 1000
      · have hseen := hsettled hn
        rw [End.peer_peer] at hseen
        exact ⟨x.peer,(hx.switch hseen).write hmsg⟩
      · exact ⟨x,hx.write_back hmsg hn⟩
  · rcases End.cases e e' with rfl | rfl
    · rw [write_wire noise S e' hmsg] at hp
      rcases mem_append.mp hp with hp | hp
      · exact h.short e' p hp
      · rw [mem_singleton.mp hp]
        exact hmsg
    · rw [(write_unchanged noise S e hmsg).2.2.1] at hp
      exact h.short e.peer p hp
  · unfold AllRead
    rw [hreads]
    exact h.reads

theorem InStep.read (laws : NoiseLaws noise) (h : InStep noise S) (e : End) :
    InStep noise (S.step noise (.read e)) := by
  cases hwire : S.wire e.peer with
  | nil =>
    have hsame : S.step noise (.read e) = S := by rw [step,hwire]
    rwa [hsame]
  | cons p =>
    obtain ⟨msg,frame⟩ := p
    have hmsg : msg.length ≤ 65535 := h.short e.peer (msg,frame) (hwire ▸ mem_cons_self)
    obtain ⟨x,hx⟩ := h.led
    have hmoved : LedBy noise (S.step noise (.read e)) x ∧
        (S.step noise (.read e)).reads = S.reads ++ [(msg,some msg)] := by
      rcases End.cases x e with rfl | rfl
      · exact hx.read_back laws hmsg hwire
      · rw [End.peer_peer] at hwire
        exact hx.read laws hmsg hwire
    refine ⟨⟨x,hmoved.1⟩,fun e' p hp => h.short e' p ?_,fun r hr => ?_⟩
    · rw [step,hwire] at hp
      rcases End.cases e.peer e' with rfl | rfl
      · dsimp only at hp
        rw [update_self] at hp
        rw [hwire]
        exact mem_cons_of_mem _ hp
      · dsimp only at hp
        rwa [update_of_ne (End.peer_ne _)] at hp
    · rw [hmoved.2] at hr
      rcases mem_append.mp hr with hr | hr
      · exact h.reads r hr
      · rw [mem_singleton.mp hr]

theorem InStep.step (laws : NoiseLaws noise) (h : InStep noise S) {call : Call}
    (hsettled : RotationWaits S call) : InStep noise (S.step noise call) := by
  cases call with
  | write e msg =>
    by_cases hmsg : msg.length ≤ 65535
    · exact h.write hmsg (hsettled hmsg)
    · rwa [step_write_long noise S e hmsg]
  | read e => exact h.read laws e

theorem inStep_start {st : Bolt8State} (hsn : st.sn = 0) (hrn : st.rn = 0) :
    InStep noise (start st { st with sk := st.rk, rk := st.sk }) := by
  refine ⟨⟨.initiator,?_,rfl,fun ck => ?_⟩,nofun,nofun⟩
  · have hsame : (start st { st with sk := st.rk, rk := st.sk }).writePos .initiator =
        (start st { st with sk := st.rk, rk := st.sk }).readPos .responder := by
      unfold writePos readPos start
      rw [hsn,hrn]
    rw [hsame]
    exact .nil _
  · have hsame : { (start st { st with sk := st.rk, rk := st.sk }).writePos .responder with
          ck := ck } =
        { (start st { st with sk := st.rk, rk := st.sk }).readPos .initiator with
          ck := ck } := by
      unfold writePos readPos start
      rw [hsn,hrn]
    rw [show End.initiator.peer = .responder from rfl,hsame]
    exact .nil _

end

section

variable {noise : Noise} {S : Session}

variable {n : UInt64}

theorem bolt8Nonce_inj {m : UInt64} (h : bolt8Nonce n = bolt8Nonce m) : n = m := by
  have hbytes := append_cancel_left (congrArg Subtype.val h)
  have hnat := congrArg Wire.leNat hbytes
  rw [Wire.leNat_leBytes 8 _ n.toNat_lt,Wire.leNat_leBytes 8 _ m.toNat_lt] at hnat
  exact UInt64.toNat_inj.mp hnat

def Sealing.place (s : Sealing) : End × ℕ × UInt64 := (s.side,s.turns,s.n)

def Sealing.Behind (s : Sealing) (S : Session) : Prop :=
  s.turns < S.turns s.side ∨ s.turns = S.turns s.side ∧ s.n < (S.ends s.side).sn

structure Ordered (S : Session) : Prop where
  even : ∀ e, (S.ends e).sn.toNat ≤ 1000 ∧ (S.ends e).sn.toNat % 2 = 0
  behind : ∀ s ∈ S.sealings, s.Behind S
  nodup : (S.sealings.map Sealing.place).Nodup

theorem toNat_succ (hn : n.toNat < 2000) : (n+1).toNat = n.toNat+1 := by
  rw [UInt64.toNat_add]
  exact Nat.mod_eq_of_lt (show n.toNat+1 < 2^64 by omega)

theorem toWrite_bounds (noise : Noise) {st : Bolt8State}
    (h : st.sn.toNat ≤ 1000 ∧ st.sn.toNat % 2 = 0) :
    (st.toWrite noise).sn.toNat < 1000 ∧ (st.toWrite noise).sn.toNat % 2 = 0 := by
  unfold Bolt8State.toWrite
  split_ifs with hn
  · exact ⟨Nat.zero_lt_succ _,rfl⟩
  · have hne : st.sn.toNat ≠ 1000 := fun heq => hn (UInt64.toNat_inj.mp heq)
    exact ⟨by omega,h.2⟩

theorem Sealing.Behind.write (noise : Noise) {s : Sealing} (h : s.Behind S) :
    s.turns < S.turns s.side + rotation (S.ends s.side).sn ∨
      s.turns = S.turns s.side + rotation (S.ends s.side).sn ∧
        s.n < ((S.ends s.side).toWrite noise).sn := by
  unfold rotation Bolt8State.toWrite
  rcases h with hlt | ⟨heq,hn⟩
  · left
    omega
  · split_ifs
    · left
      omega
    · exact .inr ⟨heq,hn⟩

theorem Ordered.write (h : Ordered S) {e : End} {msg : Bytes} (hmsg : msg.length ≤ 65535) :
    Ordered (S.step noise (.write e msg)) := by
  obtain ⟨hlt,heven⟩ := toWrite_bounds noise (h.even e)
  have hone := toNat_succ (n := ((S.ends e).toWrite noise).sn) (by omega)
  have htwo := toNat_succ (n := ((S.ends e).toWrite noise).sn+1) (by omega)
  rw [step_write noise S e hmsg]
  refine ⟨fun e' => ?_,fun s hs => ?_,?_⟩
  · dsimp only
    rcases End.cases e e' with rfl | rfl
    · rw [update_self]
      dsimp only
      omega
    · rw [update_of_ne e.peer_ne]
      exact h.even e.peer
  · unfold Sealing.Behind
    dsimp only at hs ⊢
    rcases mem_append.mp hs with hold | hnew
    · have hbehind := h.behind s hold
      rcases End.cases e s.side with hside | hside
      · have hwrite := hbehind.write noise
        rw [hside] at hwrite ⊢
        rw [update_self,update_self]
        refine hwrite.imp_right fun hn => ⟨hn.1,?_⟩
        rw [lt_iff_toNat_lt] at hn ⊢
        dsimp only
        omega
      · rw [hside,update_of_ne e.peer_ne,update_of_ne e.peer_ne,← hside]
        exact hbehind
    · have hplace : s.side = e ∧ s.turns = S.turns e + rotation (S.ends e).sn ∧
          (s.n = ((S.ends e).toWrite noise).sn ∨ s.n = ((S.ends e).toWrite noise).sn+1) := by
        rcases mem_pair.mp hnew with rfl | rfl
        · exact ⟨rfl,rfl,.inl rfl⟩
        · exact ⟨rfl,rfl,.inr rfl⟩
      obtain ⟨hside,hturns,hn⟩ := hplace
      rw [hside,update_self,update_self]
      refine .inr ⟨hturns,?_⟩
      rw [lt_iff_toNat_lt]
      dsimp only
      rcases hn with hn | hn
      · rw [hn]
        omega
      · rw [hn]
        omega
  · rw [map_append,nodup_append]
    refine ⟨h.nodup,?_,fun place hold place' hnew heq => ?_⟩
    · refine nodup_cons.mpr ⟨fun hmem => ?_,nodup_singleton _⟩
      have hsame : ((S.ends e).toWrite noise).sn = ((S.ends e).toWrite noise).sn+1 :=
        congrArg (fun place => place.2.2) (mem_singleton.mp hmem)
      rw [← hsame] at hone
      omega
    · obtain ⟨s,hs,rfl⟩ := mem_map.mp hold
      have hplace : s.side = e ∧ s.turns = S.turns e + rotation (S.ends e).sn ∧
          ((S.ends e).toWrite noise).sn.toNat ≤ s.n.toNat := by
        rcases mem_pair.mp hnew with rfl | rfl
        · obtain ⟨hside,hrest⟩ := Prod.mk.inj heq
          obtain ⟨hturns,hn⟩ := Prod.mk.inj hrest
          exact ⟨hside,hturns,(congrArg toNat hn).ge⟩
        · obtain ⟨hside,hrest⟩ := Prod.mk.inj heq
          obtain ⟨hturns,hn⟩ := Prod.mk.inj hrest
          have hnat := congrArg toNat hn
          exact ⟨hside,hturns,by dsimp only at hnat; omega⟩
      obtain ⟨rfl,hturns,hn⟩ := hplace
      rcases (h.behind s hs).write noise with hlt | ⟨-,hlt⟩
      · omega
      · rw [lt_iff_toNat_lt] at hlt
        omega

theorem Ordered.step (h : Ordered S) (call : Call) : Ordered (S.step noise call) := by
  cases call with
  | write e msg =>
    by_cases hmsg : msg.length ≤ 65535
    · exact h.write hmsg
    · rwa [step_write_long noise S e hmsg]
  | read e =>
    have hkept (st : Bolt8State) (frame : Bytes) : (bolt8ReadMessage noise st frame).1.sn = st.sn := by
      have hread : (st.toRead noise).sn = st.sn := by
        unfold Bolt8State.toRead
        split_ifs <;> rfl
      unfold bolt8ReadMessage
      dsimp only
      split_ifs
      · rfl
      · split
        · exact hread
        · split_ifs
          · exact hread
          · split
            · exact hread
            · exact hread
    unfold Session.step
    dsimp only
    split
    · exact h
    next msg frame rest _ =>
      have hsn (e' : End) : (update S.ends e
          (bolt8ReadMessage noise (S.ends e) frame).1 e').sn = (S.ends e').sn := by
        rcases End.cases e e' with rfl | rfl
        · rw [update_self,hkept]
        · rw [update_of_ne e.peer_ne]
      refine ⟨fun e' => ?_,fun s hs => ?_,h.nodup⟩
      · rw [hsn]
        exact h.even e'
      · unfold Sealing.Behind
        rw [hsn]
        exact h.behind s hs

theorem Ordered.pairs_nodup (h : Ordered S) (hkeys : KeysDistinct S) :
    (S.sealings.map Sealing.pair).Nodup := by
  refine Nodup.map_on (fun s hs t ht hpair => ?_) (Nodup.of_map _ h.nodup)
  obtain ⟨hkey,hnonce⟩ := Prod.mk.inj hpair
  obtain ⟨hside,hturns⟩ := hkeys s hs t ht hkey
  have hplace : s.place = t.place := by
    unfold Sealing.place
    rw [hside,hturns,bolt8Nonce_inj hnonce]
  exact inj_on_of_nodup_map h.nodup hs ht hplace

theorem ordered_start {initiator responder : Bolt8State} (hsn : initiator.sn = 0)
    (hsn' : responder.sn = 0) : Ordered (start initiator responder) := by
  refine ⟨fun e => ?_,nofun,nodup_nil⟩
  have hzero : ((start initiator responder).ends e).sn = 0 := by
    cases e with
    | initiator => exact hsn
    | responder => exact hsn'
  rw [hzero]
  decide

end

theorem bolt8_sessions (noise : Noise) (laws : NoiseLaws noise) (keys : HandshakeKeys)
    (initiator responder : Bolt8State)
    (h : bolt8Handshake noise keys = some (initiator,responder)) :
    (∀ S, Runs.Reaches (step noise) RotationWaits (start initiator responder) S →
        AllRead S) ∧
      ∀ S, Runs.Reaches (step noise) (fun _ _ => True) (start initiator responder) S →
        KeysDistinct S → (S.sealings.map Sealing.pair).Nodup := by
  obtain ⟨rfl,hsn,hrn⟩ := bolt8Handshake_synced laws h
  refine ⟨fun S hrun => ?_,fun S hrun => ?_⟩
  · have hstep (S : Session) (call : Call) (hinv : InStep noise S) (hsettled : RotationWaits S call) :
        InStep noise (S.step noise call) := hinv.step laws hsettled
    exact (hrun.invariant hstep (inStep_start hsn hrn)).reads
  · have hstep (S : Session) (call : Call) (hinv : Ordered S) (_ : True) :
        Ordered (S.step noise call) := hinv.step call
    exact (hrun.invariant hstep (ordered_start hsn hsn)).pairs_nodup

section

def Noise.sample : Noise where
  sha256 := Secp.sampleHash 32
  hmacSha256 key data := Secp.sampleHash 32 (key++data)
  ecPubkeyCreate priv := some ⟨priv.val ++ replicate 32 0,by simp⟩
  ecPubkeySerialize pub := ⟨pub.val.take 32 ++ [2],by simp⟩
  ecPubkeyParse pub := some ⟨pub.val.take 32 ++ replicate 32 0,by simp⟩
  ecdh pub priv := some ⟨zipWith (· + ·) (pub.val.take 32) priv.val,by simp⟩
  aeadEncrypt key nonce aad pt :=
    (⟨pt,rfl⟩,Secp.sampleHash 16 (key.val++nonce.val++aad++pt))
  aeadDecrypt key nonce aad ct tag :=
    if tag = Secp.sampleHash 16 (key.val++nonce.val++aad++ct) then some ct else none

theorem sample_noiseLaws : NoiseLaws sample where
  parse_serialize k p hp := by
    cases hp
    refine congrArg some (Subtype.ext ?_)
    change (((k.val ++ replicate 32 0).take 32 ++ [2]).take 32) ++ replicate 32 0 = _
    simp only [take_left' k.length_val]
  ecdh_comm a b pa pb ha hb := by
    cases ha
    cases hb
    refine congrArg some (Subtype.ext ?_)
    change zipWith (· + ·) ((b.val ++ replicate 32 0).take 32) a.val =
      zipWith (· + ·) ((a.val ++ replicate 32 0).take 32) b.val
    rw [take_left' a.length_val,take_left' b.length_val,zipWith_comm]
    exact congrArg (fun f => zipWith f a.val b.val) (funext₂ fun x y => UInt8.add_comm y x)
  decrypt_encrypt key nonce aad pt := if_pos rfl

def sampleKeys : HandshakeKeys :=
  ⟨Blob.zero 32,Blob.fill 32 1,Blob.fill 32 2,Blob.fill 32 3⟩

theorem sample_handshake :
    ∃ initiator responder, bolt8Handshake sample sampleKeys = some (initiator,responder) := by
  have hsome : (bolt8Handshake sample sampleKeys).isSome = true := by decide +kernel
  obtain ⟨⟨initiator,responder⟩,h⟩ := Option.isSome_iff_exists.mp hsome
  exact ⟨initiator,responder,h⟩

theorem first_message_read :
    ∃ initiator responder, bolt8Handshake sample sampleKeys = some (initiator,responder) ∧
      AllRead (((start initiator responder).step sample (.write .initiator [7])).step
        sample (.read .responder)) ∧
      ((((start initiator responder).step sample (.write .initiator [7])).step
        sample (.read .responder)).sealings.map Sealing.pair).Nodup := by
  obtain ⟨initiator,responder,h⟩ := sample_handshake
  obtain ⟨hread,hnodup⟩ := bolt8_sessions sample sample_noiseLaws sampleKeys initiator
    responder h
  obtain ⟨-,hsn,-⟩ := bolt8Handshake_synced sample_noiseLaws h
  have hsettled : RotationWaits (start initiator responder) (.write .initiator [7]) :=
    fun _ hn => absurd (hsn.symm.trans hn) (by decide)
  have hreads := step_write sample (start initiator responder) .initiator
    (show [7].length ≤ 65535 by decide)
  refine ⟨initiator,responder,h,hread _ ?_,hnodup _ ?_ ?_⟩
  · exact .tail (.tail .refl ⟨_,hsettled,rfl⟩) ⟨.read .responder,trivial,rfl⟩
  · exact .tail (.tail .refl ⟨_,trivial,rfl⟩) ⟨.read .responder,trivial,rfl⟩
  · have hsealed : (((start initiator responder).step sample
        (.write .initiator [7])).step sample (.read .responder)).sealings =
          (start initiator responder).sealed sample .initiator := by
      rw [hreads]
      rfl
    intro s hs t ht _
    rw [hsealed] at hs ht
    rcases mem_pair.mp hs with rfl | rfl <;> rcases mem_pair.mp ht with rfl | rfl <;>
      exact ⟨rfl,rfl⟩

variable {noise : Noise} {S : Session} {n : UInt64} {st : Bolt8State}

theorem delivered (laws : NoiseLaws noise) {e : End} (hn : n ≠ 1000) (hsn : (S.ends e).sn = n)
    (hrn : (S.ends e.peer).rn = n) (hkey : (S.ends e).sk = (S.ends e.peer).rk)
    (hwire : S.wire e = []) :
    ((S.step noise (.write e [])).step noise (.read e.peer)).ends e =
        { S.ends e with sn := n+1+1 } ∧
      ((S.step noise (.write e [])).step noise (.read e.peer)).ends e.peer =
        { S.ends e.peer with rn := n+1+1 } ∧
      ((S.step noise (.write e [])).step noise (.read e.peer)).wire e = [] ∧
      ((S.step noise (.write e [])).step noise (.read e.peer)).wire e.peer = S.wire e.peer := by
  have hempty : ([] : Bytes).length ≤ 65535 := Nat.zero_le _
  have hwrite : (S.ends e).toWrite noise = S.ends e := if_neg (hsn ▸ hn)
  have hread : (S.ends e.peer).toRead noise = S.ends e.peer := if_neg (hrn ▸ hn)
  obtain ⟨-,hpos,hother,-⟩ := write_unchanged noise S e hempty
  have hsend := send_of_ne noise (S.writePos e) (show (S.ends e).sn ≠ 1000 from hsn ▸ hn) []
  have hrecv := send_of_ne noise (S.readPos e.peer) (show (S.ends e.peer).rn ≠ 1000 from hrn ▸ hn) []
  have hframe : ((S.writePos e).send noise []).1 = ((S.readPos e.peer).send noise []).1 := by
    rw [hsend,hrecv]
    unfold writePos readPos
    rw [hsn,hrn,hkey]
  have hnext : (S.step noise (.write e [])).wire e.peer.peer =
      [([],(((S.step noise (.write e [])).readPos e.peer).send noise []).1)] := by
    rw [End.peer_peer,write_wire noise S e hempty,hwire,hpos,hframe]
    rfl
  rw [step_read laws hempty hnext,step_write noise S e hempty,hwrite,hsn]
  dsimp only
  rw [update_of_ne e.peer_ne,hread,hrn,End.peer_peer,update_self,
    update_of_ne e.peer_ne.symm,update_self,update_self,
    update_of_ne e.peer_ne,update_of_ne e.peer_ne]
  exact ⟨rfl,rfl,rfl,rfl⟩

structure Calm (st : Bolt8State) (n : UInt64) (S : Session) : Prop where
  initiator : S.ends .initiator = { st with sn := n, rn := n }
  responder : S.ends .responder = { st with sk := st.rk, rk := st.sk, sn := n, rn := n }
  wire : ∀ e, S.wire e = []

def exchange : List Call :=
  [.write .initiator [],.read .responder,.write .responder [],.read .initiator]

theorem Calm.exchange (laws : NoiseLaws noise) (h : Calm st n S) (hn : n ≠ 1000) :
    Calm st (n+1+1) (exchange.foldl (step noise) S) := by
  obtain ⟨hI,hR,hwireI,hwireR⟩ := delivered laws (e := .initiator) hn
    (by rw [h.initiator]) (by rw [show End.initiator.peer = .responder from rfl,h.responder])
    (by rw [show End.initiator.peer = .responder from rfl,h.initiator,h.responder])
    (h.wire .initiator)
  change ((S.step noise (.write .initiator [])).step noise (.read .responder)).ends .responder = _
    at hR
  change ((S.step noise (.write .initiator [])).step noise (.read .responder)).wire .responder = _
    at hwireR
  change ((S.step noise (.write .initiator [])).step noise (.read .responder)).ends .initiator = _
    at hI
  change ((S.step noise (.write .initiator [])).step noise (.read .responder)).wire .initiator = _
    at hwireI
  have hthen : SuperScalar.exchange.foldl (step noise) S =
      (((S.step noise (.write .initiator [])).step noise (.read .responder)).step noise
        (.write .responder [])).step noise (.read .initiator) := rfl
  rw [hthen]
  generalize (S.step noise (.write .initiator [])).step noise (.read .responder) = T at *
  rw [h.initiator] at hI
  rw [show End.initiator.peer = .responder from rfl,h.responder] at hR
  obtain ⟨hR',hI',hwireR',hwireI'⟩ := delivered laws (S := T) (e := .responder) hn
    (by rw [hR]) (by rw [show End.responder.peer = .initiator from rfl,hI])
    (by rw [show End.responder.peer = .initiator from rfl,hI,hR])
    (hwireR.trans (h.wire .responder))
  rw [hR] at hR'
  rw [show End.responder.peer = .initiator from rfl] at hI' hwireI' hR' hwireR'
  rw [hI] at hI'
  refine ⟨hI',hR',fun e => ?_⟩
  cases e with
  | initiator => rw [hwireI',hwireI]
  | responder => exact hwireR'

def exchanges (k : ℕ) : List Call := (replicate k exchange).flatten

theorem calm_exchanges (laws : NoiseLaws noise) (hsn : st.sn = 0) (hrn : st.rn = 0) {k : ℕ}
    (hk : k ≤ 500) :
    Calm st (ofNat (2*k)) ((exchanges k).foldl (step noise)
      (start st { st with sk := st.rk, rk := st.sk })) := by
  induction k with
  | zero =>
    obtain ⟨sk,rk,ck,sn,rn⟩ := st
    obtain rfl : sn = 0 := hsn
    obtain rfl : rn = 0 := hrn
    exact ⟨rfl,rfl,fun _ => rfl⟩
  | succ k ih =>
    have hsplit : exchanges (k+1) = exchanges k ++ exchange := by
      rw [exchanges,replicate_succ',flatten_append,flatten_singleton]
      rfl
    have hn : ofNat (2*k) ≠ 1000 := by
      intro heq
      have hnat := congrArg toNat heq
      rw [toNat_ofNat',Nat.mod_eq_of_lt (by omega)] at hnat
      exact absurd hnat (show 2*k ≠ 1000 by omega)
    have hnext : ofNat (2*(k+1)) = ofNat (2*k) + 1+1 := by
      rw [Nat.mul_succ,UInt64.ofNat_add,UInt64.add_assoc]
      rfl
    rw [hsplit,foldl_append,hnext]
    exact (ih (by omega)).exchange laws hn

def crossedRead (noise : Noise) (st : Bolt8State) : Option Bytes :=
  let i := { st with sn := 1000, rn := 1000 }
  let r := { st with sk := st.rk, rk := st.sk, sn := 1000, rn := 1000 }
  (bolt8ReadMessage noise { r.toWrite noise with sn := (r.toWrite noise).sn+1+1 }
    (framed noise (i.toWrite noise).sk (i.toWrite noise).sn [1])).2

def crossing : List Call := [.write .initiator [1],.write .responder [2],.read .responder]

theorem crossing_reads (h : Calm st 1000 S) :
    (crossing.foldl (step noise) S).reads = S.reads ++ [([1],crossedRead noise st)] := by
  have hone : ([1] : Bytes).length ≤ 65535 := by decide
  have htwo : ([2] : Bytes).length ≤ 65535 := by decide
  have hends := h.initiator
  have hends' := h.responder
  have hfirst : (S.step noise (.write .initiator [1])).ends .responder = S.ends .responder := by
    rw [step_write noise S _ hone]
    dsimp only
    rw [update_of_ne (show End.responder ≠ .initiator by decide)]
  have hwire : ((S.step noise (.write .initiator [1])).step noise (.write .responder [2])).wire
      .initiator = [([1],framed noise ((S.ends .initiator).toWrite noise).sk
        ((S.ends .initiator).toWrite noise).sn [1])] := by
    have hkept := (write_unchanged noise (S.step noise (.write .initiator [1])) .responder htwo).2.2.1
    rw [show End.responder.peer = .initiator from rfl] at hkept
    rw [hkept,step,bolt8WriteMessage_some _ hone]
    dsimp only
    rw [update_self,h.wire]
    rfl
  have hread : ((S.step noise (.write .initiator [1])).step noise (.write .responder [2])).ends
      .responder = { (S.ends .responder).toWrite noise with
        sn := ((S.ends .responder).toWrite noise).sn+1+1 } := by
    rw [step_write noise (S.step noise (.write .initiator [1])) _ htwo]
    dsimp only
    rw [update_self,hfirst]
  have hreads : ((S.step noise (.write .initiator [1])).step noise (.write .responder [2])).reads =
      S.reads := by
    rw [step_write noise (S.step noise (.write .initiator [1])) _ htwo,step_write noise S _ hone]
  change (step noise ((S.step noise (.write .initiator [1])).step noise
    (.write .responder [2])) (.read .responder)).reads = _
  generalize (S.step noise (.write .initiator [1])).step noise (.write .responder [2]) = T at *
  rw [step,show End.responder.peer = .initiator from rfl,hwire]
  rw [hread,hreads,hends,hends']
  rfl

theorem crossed_rotations_lost :
    ∃ initiator responder, bolt8Handshake sample sampleKeys = some (initiator,responder) ∧
      ([1],none) ∈ ((exchanges 500 ++ crossing).foldl (step sample)
        (start initiator responder)).reads := by
  obtain ⟨⟨initiator,responder⟩,h,hnone⟩ : ∃ ends, bolt8Handshake sample sampleKeys =
      some ends ∧ (crossedRead sample ends.1).isNone = true := by decide +kernel
  refine ⟨initiator,responder,h,?_⟩
  obtain ⟨rfl,hsn,hrn⟩ := bolt8Handshake_synced sample_noiseLaws h
  have hcalm := calm_exchanges sample_noiseLaws hsn hrn (le_refl 500)
  rw [foldl_append,crossing_reads hcalm,Option.isNone_iff_eq_none.mp hnone]
  exact mem_append_right _ mem_cons_self

end

end SuperScalar
