import SuperScalar.Channel.Value
import SuperScalar.Lsp.Fulfill

namespace SuperScalar

open List Option

open Ledger (Side Book)

def satsHeld (direction : HtlcDirection) (htlcs : List Htlc) : ℕ :=
  ((htlcs.filter (fun h => h.isActive && h.direction = direction)).map
    (fun h => h.amountSats.toNat)).sum

def Channel.hubFunds (ch : Channel) : ℕ := ch.localAmount.toNat + satsHeld .received ch.htlcs

def hubSum (value : Channel → ℕ) (mgr : LspMgr) : ℕ :=
  (mgr.entries.map (fun e => value e.channel)).sum

def hubFunds (mgr : LspMgr) : ℕ := hubSum Channel.hubFunds mgr

def hubOffered (mgr : LspMgr) : ℕ := hubSum (fun ch => satsHeld .offered ch.htlcs) mgr

def lspFee (ch : Channel) : ℕ := if ch.funder = .mine then ch.perEntryFee.toNat else 0

-- The HTLC with id `outgoing` in channel `dest` was made for the one with id `incoming` in
-- channel `sender`.
structure HubForward where
  sender : ℕ
  incoming : UInt64
  dest : ℕ
  outgoing : UInt64
deriving DecidableEq

def HubForward.Backed (mgr : LspMgr) (fw : HubForward) : Prop :=
  ∀ chd h, mgr.channel? fw.dest = some chd → h ∈ chd.htlcs → h.isActive = true →
    h.direction = .offered → h.id = fw.outgoing →
    ∃ ch g, mgr.channel? fw.sender = some ch ∧ g ∈ ch.htlcs ∧ g.isActive = true ∧
      g.direction = .received ∧ g.id = fw.incoming ∧ g.paymentHash = h.paymentHash ∧
      h.amountSats ≤ g.amountSats

structure HubRun where
  mgr : LspMgr
  forwards : List HubForward

structure HubOp where
  factory : Factory
  clientIdx : ℕ
  msg : ClientMsg

def announcedForward (clientIdx : ℕ) (incoming : UInt64) : LspAction → Option HubForward
  | .send dest (.updateAddHtlc id _ _ _) => some ⟨clientIdx,incoming,dest,id⟩
  | _ => none

def forwardsMade (mgr : LspMgr) (clientIdx : ℕ) (actions : List LspAction) : List HubForward :=
  match mgr.channel? clientIdx with
  | none => []
  | some ch => actions.filterMap (announcedForward clientIdx ch.nextHtlcId)

def HubOp.handle (m : Musig) (o : HubOp) (mgr : LspMgr) : Handled :=
  lspChannelsHandleMsg m o.factory o.clientIdx o.msg mgr

def hubStep (m : Musig) (s : HubRun) (o : HubOp) : HubRun where
  mgr := (o.handle m s.mgr).mgr
  forwards := forwardsMade s.mgr o.clientIdx (o.handle m s.mgr).actions ++ s.forwards

structure StepSafe (mgr mgr' : LspMgr) (clientIdx : ℕ) : Prop where
  own : ∀ ch ch' h, mgr.channel? clientIdx = some ch → mgr'.channel? clientIdx = some ch' →
    h ∈ ch.htlcs → h.isActive = true → h.direction = .received → h ∈ ch'.htlcs
  funds : hubFunds mgr ≤ hubFunds mgr' + (hubOffered mgr' - hubOffered mgr)

section

def Htlc.outgoing (h : Htlc) (paymentHash : Blob 32) : Bool :=
  h.isActive && h.direction = .offered && h.paymentHash = paymentHash

variable (m : Musig) (clientIdx : ℕ) (mgr : LspMgr)

def AddOk (f : Factory) (w : AddWorld) (parsed : Option AddHtlcMsg) : Prop :=
  ∀ msg ch, SenderAdds w clientIdx msg mgr parsed ch →
    IdsLeft ch ∧ lspFee ch ≤ (msg.amountMsat/1000).toNat ∧
    ∀ destIdx dest chd terms cltv, SenderCommits m w msg ch →
      Forwardable f w clientIdx msg mgr destIdx dest chd terms cltv →
      dest = .factory ∧ IdsLeft chd ∧ lspFee ch + lspFee chd ≤ (msg.amountMsat/1000).toNat

def FulfillOk (parsed : Option FulfillHtlcMsg) : Prop :=
  ∀ msg ch before h after, parsed = some msg → mgr.channel? clientIdx = some ch →
    HtlcAt ch msg.htlcId before h after → m.sha256 msg.preimage.val = h.paymentHash →
    h.direction = .offered ∧ (∀ x ∈ before ++ after, x.outgoing h.paymentHash = false) ∧
      ∀ i chi, i ≠ clientIdx → mgr.channel? i = some chi →
        ∀ x ∈ chi.htlcs, x.outgoing h.paymentHash = false

def FailOk (parsed : Option UInt64) : Prop :=
  ∀ id ch before h after, parsed = some id → mgr.channel? clientIdx = some ch →
    HtlcAt ch id before h after → h.direction = .offered

def HubGuard (s : HubRun) (o : HubOp) : Prop :=
  match o.msg with
  | .updateAddHtlc w parsed => AddOk m o.clientIdx s.mgr o.factory w parsed
  | .updateFulfillHtlc _ parsed => FulfillOk m o.clientIdx s.mgr parsed
  | .updateFailHtlc _ parsed => FailOk o.clientIdx s.mgr parsed

structure ChannelOk (ch : Channel) : Prop where
  ids : ∀ h ∈ ch.htlcs, h.isActive = true → h.id < ch.nextHtlcId
  total : ch.book.total < 2^64

end

section

variable {direction : HtlcDirection} {before after : List Htlc} {h : Htlc}

theorem satsHeld_split (hactive : h.isActive = true) :
    satsHeld direction (before ++ h :: after) = satsHeld direction (before++after) +
      if h.direction = direction then h.amountSats.toNat else 0 := by
  unfold satsHeld
  simp only [filter_append,filter_cons,hactive,Bool.true_and]
  split_ifs with hd hdir hdir
  · simp only [map_append,map_cons,sum_append,sum_cons]
    omega
  · exact absurd (of_decide_eq_true hd) hdir
  · exact absurd (decide_eq_true hdir) hd
  · rfl

theorem satsHeld_filter (htlcs : List Htlc) :
    satsHeld direction (htlcs.filter Htlc.isActive) = satsHeld direction htlcs := by
  unfold satsHeld
  rw [List.filter_filter]
  congr 2
  refine List.filter_congr fun x _ => ?_
  cases x.isActive <;> simp

theorem satsHeld_append (htlcs : List Htlc) (hactive : h.isActive = true) :
    satsHeld direction (htlcs ++ [h]) = satsHeld direction htlcs +
      if h.direction = direction then h.amountSats.toNat else 0 := by
  rw [satsHeld_split hactive,append_nil]

theorem SameFunds.book {ch ch' : Channel} (hsame : SameFunds ch ch') : ch'.book = ch.book := by
  have heq := congrArg Channel.book hsame
  exact heq

end

section

variable {ch ch' ch'' : Channel} {keep : Htlc → Prop}

structure Eased (keep : Htlc → Prop) (ch ch' : Channel) : Prop where
  subset : ∀ x ∈ ch'.htlcs, x ∈ ch.htlcs
  kept : ∀ x ∈ ch.htlcs, x.isActive = true → keep x → x ∈ ch'.htlcs
  next : ch'.nextHtlcId = ch.nextHtlcId
  ok : ChannelOk ch'
  funds : ch.hubFunds ≤ ch'.hubFunds
  offered : satsHeld .offered ch'.htlcs ≤ satsHeld .offered ch.htlcs

theorem Eased.refl (hok : ChannelOk ch) : Eased keep ch ch :=
  ⟨fun _ h => h,fun _ h _ _ => h,rfl,hok,Nat.le_refl _,Nat.le_refl _⟩

theorem Eased.trans (h : Eased keep ch ch') (h' : Eased keep ch' ch'') : Eased keep ch ch'' where
  subset x hx := h.subset x (h'.subset x hx)
  kept x hx hactive hkeep := h'.kept x (h.kept x hx hactive hkeep) hactive hkeep
  next := h'.next.trans h.next
  ok := h'.ok
  funds := h.funds.trans h'.funds
  offered := h'.offered.trans h.offered

theorem Eased.mono {keep' : Htlc → Prop} (h : Eased keep ch ch')
    (hkeep : ∀ x ∈ ch.htlcs, keep' x → keep x) : Eased keep' ch ch' :=
  { h with kept := fun x hx hactive hk => h.kept x hx hactive (hkeep x hx hk) }

def Recapped (ch ch' : Channel) : Prop := ∃ cap, ch' = { ch with htlcsCap := cap }

theorem Recapped.refl (ch : Channel) : Recapped ch ch := ⟨ch.htlcsCap,rfl⟩

theorem Recapped.eased (hok : ChannelOk ch) (h : Recapped ch ch') : Eased keep ch ch' := by
  obtain ⟨cap,rfl⟩ := h
  exact ⟨fun _ h => h,fun _ h _ _ => h,rfl,⟨hok.ids,hok.total⟩,Nat.le_refl _,Nat.le_refl _⟩

variable {h : Htlc} {before after : List Htlc} {m : Musig} {preimage : Blob 32}

theorem withoutHtlc_eased {payee : Side} {draw : PcsDraw} (hok : ChannelOk ch)
    (hsplit : ch.htlcs = before ++ h :: after) (hactive : h.isActive = true)
    (hpayee : h.direction = .received → payee = .mine)
    (hsame : SameFunds ((ch.withoutHtlc h payee (before++after)).nextCommitment draw) ch') :
    Eased (fun x => x ≠ h) ch ch' := by
  have hhtlcs := hsame.htlcs.trans (htlcs_withoutHtlc _ _ _ _ _)
  have hnext : ch'.nextHtlcId = ch.nextHtlcId := by
    rw [hsame.nextHtlcId,(nextCommitment_sameHtlcs _ draw).nextHtlcId]
    unfold Channel.withoutHtlc
    cases payee <;> cases hf : ch.funder <;> rfl
  have hbook : ch'.book = (ch.withoutHtlc h payee (before++after)).book := by
    rw [hsame.book,Channel.book_nextCommitment]
  have hsubset : ∀ x ∈ ch'.htlcs, x ∈ ch.htlcs := by
    intro x hx
    rw [hhtlcs] at hx
    rw [hsplit]
    exact ((Sublist.refl before).append (sublist_cons_self h after)).subset
      (mem_filter.mp hx).1
  obtain ⟨rest,hbefore,hafter⟩ := withoutHtlc_books payee hsplit hactive hok.total
  refine ⟨hsubset,?_,hnext,⟨?_,?_⟩,?_,?_⟩
  · intro x hx hxactive hne
    rw [hsplit] at hx
    rw [hhtlcs,mem_filter]
    refine ⟨?_,hxactive⟩
    rcases mem_append.mp hx with hx | hx
    · exact mem_append_left _ hx
    · exact mem_append_right _ ((mem_cons.mp hx).resolve_left hne)
  · intro x hx hxactive
    rw [hnext]
    exact hok.ids x (hsubset x hx) hxactive
  · rw [hbook,(withoutHtlc_moves payee hsplit hactive hok.total).total]
    exact hok.total
  · have hmine : ch'.localAmount.toNat = ((rest.credit payee h.escrow.amount).credit ch.funder
        h.escrow.fee).mine := congrArg Book.mine (hbook.trans hafter)
    have hmine₀ : ch.localAmount.toNat = rest.mine := congrArg Book.mine hbefore
    unfold Channel.hubFunds
    rw [hhtlcs,satsHeld_filter,hsplit,satsHeld_split hactive,hmine,hmine₀]
    split_ifs with hreceived
    · rw [hpayee hreceived]
      cases ch.funder <;> simp only [Book.credit,Htlc.escrow] <;> omega
    · cases payee <;> cases ch.funder <;> simp only [Book.credit] <;> omega
  · rw [hhtlcs,satsHeld_filter,hsplit,satsHeld_split hactive]
    exact Nat.le_add_right _ _

def Claims (secp : Secp) (preimage : Blob 32) (ch ch' : Channel) : Prop :=
  ∃ id before h after, PaidOut secp preimage id before h after ch ch'

theorem PaidOut.eased {id : UInt64} (hok : ChannelOk ch)
    (hpaid : PaidOut m.toSecp preimage id before h after ch ch') :
    Eased (fun x => x ≠ h) ch ch' := by
  obtain ⟨draw,heffect⟩ := hpaid.effect
  refine withoutHtlc_eased hok hpaid.entry.split hpaid.entry.active (fun hreceived => ?_) heffect
  rw [hreceived]
  rfl

theorem claims_eased (hok : ChannelOk ch)
    (h : Relation.ReflTransGen (Claims m.toSecp preimage) ch ch') :
    Eased (fun x => x.paymentHash ≠ m.sha256 preimage.val) ch ch' := by
  induction h with
  | refl => exact .refl hok
  | tail _ hlast ih =>
    obtain ⟨id,before,h,after,hpaid⟩ := hlast
    refine ih.trans ((hpaid.eased ih.ok).mono fun x _ hx hxh => ?_)
    rw [hxh,hpaid.hash] at hx
    exact hx rfl

structure Grown (ch ch' : Channel) (g : Htlc) : Prop where
  appended : ch'.htlcs = ch.htlcs ++ [g]
  active : g.isActive = true
  id : g.id = ch.nextHtlcId
  next : ch'.nextHtlcId = ch.nextHtlcId+1
  ok : ChannelOk ch'
  funds : ch.hubFunds + (if g.direction = .received then g.amountSats.toNat else 0) =
    ch'.hubFunds + lspFee ch + if g.direction = .offered then g.amountSats.toNat else 0

theorem Added.grown {direction : HtlcDirection} {amountSats : UInt64} {paymentHash : Blob 32}
    {cltvExpiry : UInt32} (hok : ChannelOk ch) (hleft : IdsLeft ch)
    (h : Added direction amountSats paymentHash cltvExpiry ch ch') :
    Grown ch ch' (newHtlc direction amountSats paymentHash cltvExpiry ch) := by
  have happended := h.appended
  obtain ⟨cap,draw,heffect⟩ := h.effect
  let wide : Channel := { ch with htlcsCap := cap }
  have haccepted : AddAccepted wide direction amountSats := h.accepted.setCap
  have hbook : ch'.book = (wide.withHtlc (newHtlc direction amountSats paymentHash cltvExpiry
      wide)).book := by
    rw [heffect.book,Channel.book_nextCommitment]
    rfl
  have hnext : ch'.nextHtlcId = ch.nextHtlcId+1 := by
    rw [heffect.nextHtlcId,(nextCommitment_sameHtlcs _ draw).nextHtlcId]
    rfl
  obtain ⟨left,hbefore,hafter⟩ := withHtlc_books paymentHash cltvExpiry haccepted
  refine ⟨happended,rfl,rfl,hnext,⟨?_,?_⟩,?_⟩
  · intro x hx hactive
    have hsum : (ch.nextHtlcId+1).toNat = ch.nextHtlcId.toNat+1 := by
      exact Nat.mod_eq_of_lt hleft
    rw [hnext,UInt64.lt_iff_toNat_lt,hsum]
    rw [happended,mem_append,mem_singleton] at hx
    rcases hx with hx | rfl
    · exact Nat.lt_succ_of_lt (UInt64.lt_iff_toNat_lt.mp (hok.ids x hx hactive))
    · exact Nat.lt_succ_self _
  · rw [hbook,(withHtlc_moves paymentHash cltvExpiry haccepted).total]
    exact hok.total
  · have hmine : ch'.localAmount.toNat = left.mine := congrArg Book.mine (hbook.trans hafter)
    have hmine₀ : ch.localAmount.toNat = ((left.credit direction.offerer amountSats.toNat).credit
        ch.funder ch.perEntryFee.toNat).mine := congrArg Book.mine hbefore
    unfold Channel.hubFunds lspFee
    rw [happended,satsHeld_append _ rfl,hmine,hmine₀]
    cases direction <;> cases ch.funder <;>
      simp [Book.credit,HtlcDirection.offerer,newHtlc] <;> omega

end

section

variable {m : Musig} {w : FulfillWorld} {clientIdx : ℕ} {mgr mgr' : LspMgr}

theorem scanHtlcs_claims (m : Musig) (preimage : Blob 32) (rounds : ℕ → Round) (s fuel i : ℕ)
    (ch : Channel) : Relation.ReflTransGen (Claims m.toSecp preimage) ch
      (scanHtlcs m preimage rounds s fuel i ch).1 := by
  induction fuel generalizing i ch with
  | zero => exact .refl
  | succ _ ih =>
    by_cases hhit : ∃ before h after, Hit m preimage rounds ch i before h after
    · obtain ⟨before,h,after,hhit⟩ := hhit
      obtain ⟨x,-,-,hat⟩ := hhit.slot
      have hsame := createSig_sameFunds (m := m) (paidChannel rounds ch i before h after)
      rw [scanHtlcs_hit hhit]
      split
      · rename_i unsigned hsig
        rw [hsig] at hsame
        exact .head ⟨x.id,before,h,after,hat,hhit.hash,_,hsame⟩ (ih _ _)
      · rename_i signed sig hsig
        rw [hsig] at hsame
        exact .single ⟨x.id,before,h,after,hat,hhit.hash,_,
          hsame.trans (receiveAck_sameFunds false (rounds i) signed)⟩
    · rw [scanHtlcs_quiet fun before h after hh => hhit ⟨before,h,after,hh⟩]
      exact ih (i+1) ch

structure Resolved (clientIdx : ℕ) (spared : Blob 32 → Prop) (mgr mgr' : LspMgr) : Prop where
  eased : ∀ i, Rel (Eased (fun x => x.direction = .received ∧
    (i = clientIdx ∨ spared x.paymentHash))) (mgr.channel? i) (mgr'.channel? i)
  clear : ∀ i ch x, mgr'.channel? i = some ch → x ∈ ch.htlcs → x.isActive = true →
    x.direction = .offered → spared x.paymentHash

inductive HubChange (clientIdx : ℕ) (mgr mgr' : LspMgr) : List HubForward → Prop
  | resolved (spared : Blob 32 → Prop) (h : Resolved clientIdx spared mgr mgr') :
      HubChange clientIdx mgr mgr' []
  | received (ch ch' : Channel) (g : Htlc) (hch : mgr.channel? clientIdx = some ch)
      (hch' : mgr'.channel? clientIdx = some ch') (hgrown : Grown ch ch' g)
      (hreceived : g.direction = .received) (hfee : lspFee ch ≤ g.amountSats.toNat)
      (hothers : ∀ i, i ≠ clientIdx → Rel Recapped (mgr.channel? i) (mgr'.channel? i)) :
      HubChange clientIdx mgr mgr' []
  | forwarded (dest : ℕ) (ch ch' chd chd' : Channel) (g h : Htlc) (hne : dest ≠ clientIdx)
      (hch : mgr.channel? clientIdx = some ch) (hch' : mgr'.channel? clientIdx = some ch')
      (hchd : mgr.channel? dest = some chd) (hchd' : mgr'.channel? dest = some chd')
      (hgrown : Grown ch ch' g) (hgrown' : Grown chd chd' h) (hreceived : g.direction = .received)
      (hoffered : h.direction = .offered) (hhash : g.paymentHash = h.paymentHash)
      (hle : h.amountSats ≤ g.amountSats)
      (hfee : lspFee ch + lspFee chd ≤ g.amountSats.toNat)
      (hothers : ∀ i, i ≠ clientIdx → i ≠ dest → Rel Recapped (mgr.channel? i) (mgr'.channel? i)) :
      HubChange clientIdx mgr mgr' [⟨clientIdx,g.id,dest,h.id⟩]

def ChannelsOk (mgr : LspMgr) : Prop := ∀ i ch, mgr.channel? i = some ch → ChannelOk ch

theorem recapped_of_eq {i : ℕ} (heq : mgr'.channel? i = mgr.channel? i) :
    Rel Recapped (mgr.channel? i) (mgr'.channel? i) :=
  rel_of_eq heq.symm Recapped.refl

theorem HubChange.idle (hok : ChannelsOk mgr)
    (h : ∀ i, Rel Recapped (mgr.channel? i) (mgr'.channel? i)) : HubChange clientIdx mgr mgr' [] :=
  .resolved (fun _ => True) ⟨fun i => rel_mono (h i) fun ch _ hch hcap => hcap.eased (hok i ch hch),
    fun _ _ _ _ _ _ _ => trivial⟩

theorem Htlc.hash_ne_of_outgoing {x : Htlc} {paymentHash : Blob 32}
    (h : x.outgoing paymentHash = false) (hactive : x.isActive = true)
    (hoffered : x.direction = .offered) : x.paymentHash ≠ paymentHash := by
  intro heq
  rw [Htlc.outgoing,hactive,decide_eq_true hoffered,decide_eq_true heq] at h
  cases h

theorem HubChange.paid {msg : FulfillHtlcMsg} {ch ch' : Channel} {before after : List Htlc}
    {h : Htlc} (hok : ChannelsOk mgr) (hguard : FulfillOk m clientIdx mgr (some msg))
    (hch : mgr.channel? clientIdx = some ch) (hch' : mgr'.channel? clientIdx = some ch')
    (hpaid : PaidOut m.toSecp msg.preimage msg.htlcId before h after ch ch')
    (hothers : ∀ i, i ≠ clientIdx → Rel
      (Relation.ReflTransGen (Claims m.toSecp msg.preimage)) (mgr.channel? i) (mgr'.channel? i)) :
    HubChange clientIdx mgr mgr' [] := by
  obtain ⟨hoffered,hown,hrest⟩ := hguard msg ch before h after rfl hch hpaid.entry hpaid.hash
  refine .resolved (fun hash => hash ≠ h.paymentHash) ⟨fun i => ?_,fun i chi x hchi hx hactive
    hdirection => ?_⟩
  · by_cases hi : i = clientIdx
    · subst hi
      rw [hch,hch']
      refine .some ((hpaid.eased (hok _ ch hch)).mono fun x _ hx hxh => ?_)
      rw [hxh,hoffered] at hx
      cases hx.1
    · refine rel_mono (hothers i hi) fun chi chi' hchi hclaims => ?_
      refine (claims_eased (hok i chi hchi) hclaims).mono fun x _ hx => ?_
      rw [hpaid.hash]
      exact hx.2.resolve_left hi
  · by_cases hi : i = clientIdx
    · subst hi
      obtain rfl := mem_unique hch' hchi
      rw [hpaid.htlcs] at hx
      exact Htlc.hash_ne_of_outgoing (hown x (mem_filter.mp hx).1) hactive hdirection
    · obtain ⟨chi₀,hbefore,hclaims⟩ := rel_before (hothers i hi) hchi
      have hmem := (claims_eased (hok i chi₀ hbefore) hclaims).subset x hx
      exact Htlc.hash_ne_of_outgoing (hrest i chi₀ hi hbefore x hmem) hactive hdirection

end

section

variable {m : Musig} {f : Factory} {clientIdx : ℕ} {mgr : LspMgr}

theorem announcedForward_none {incoming : UInt64} {a : LspAction} (h : a.isAdd = false) :
    announcedForward clientIdx incoming a = none := by
  unfold announcedForward
  split
  · cases h
  · rfl

variable {actions : List LspAction} {ch : Channel} {P : LspAction → Prop} {preimage : Blob 32}
  {w : AddWorld}

theorem forwardsMade_nil (h : actions.filter LspAction.isAdd = []) :
    forwardsMade mgr clientIdx actions = [] := by
  unfold forwardsMade
  split
  · rfl
  · rw [filterMap_eq_nil_iff]
    intro a ha
    exact announcedForward_none (Bool.eq_false_iff.mpr (filter_eq_nil_iff.mp h a ha))

theorem forwardsMade_one {dest : ℕ} {msat : UInt64} {hash : Blob 32} {cltv : UInt32} {id : UInt64}
    (hch : mgr.channel? clientIdx = some ch)
    (h : actions.filter LspAction.isAdd = [announcement dest msat hash cltv id]) :
    forwardsMade mgr clientIdx actions = [⟨clientIdx,ch.nextHtlcId,dest,id⟩] := by
  have hfilter : actions.filterMap (announcedForward clientIdx ch.nextHtlcId) =
      (actions.filter LspAction.isAdd).filterMap (announcedForward clientIdx ch.nextHtlcId) := by
    rw [filterMap_filter]
    refine filterMap_congr fun a _ => ?_
    split_ifs with hadd
    · rfl
    · exact announcedForward_none (Bool.eq_false_iff.mpr hadd)
  unfold forwardsMade
  rw [hch]
  dsimp only
  rw [hfilter,h]
  rfl

theorem destChannel_factory {i : ℕ} (h : destChannel mgr i = some (.factory,ch)) :
    mgr.channel? i = some ch := by
  unfold destChannel at h
  unfold LspMgr.channel?
  split at h
  · cases h
  · rename_i e he
    rw [he]
    split_ifs at h with hready
    · exact congrArg some (Prod.mk.inj (some.inj h)).2
    · split at h
      · cases h
      · split at h
        · cases h
        · split_ifs at h
          cases h

theorem rel_setDest {R : Channel → Channel → Prop} {mgr' : LspMgr} {dest : DestChannel}
    {chd chd' : Channel} {destIdx i : ℕ} (hsame : mgr'.channel? i = mgr.channel? i)
    (hfound : destChannel mgr destIdx = some (dest,chd)) (h : R chd chd') (hrefl : ∀ x, R x x) :
    Rel R (mgr.channel? i) ((mgr'.setDest destIdx dest chd').channel? i) := by
  by_cases hi : destIdx = i
  · subst hi
    cases dest with
    | factory =>
      have hchd := destChannel_factory hfound
      dsimp only [LspMgr.setDest]
      rw [channel_setChannel_self (hsame.trans hchd),hchd]
      exact .some h
    | jit => exact rel_of_eq hsame.symm hrefl
  · exact rel_of_eq ((channel_setDest_other hi).trans hsame).symm hrefl

theorem scanHtlcs_forall {s : ℕ} (hsend : ∀ id, P (.send s (.updateFulfillHtlc id preimage)))
    (hsave : ∀ ch, P (savedBalance s ch)) (hdelete : ∀ id, P (.deleteHtlc s id)) (m : Musig)
    (rounds : ℕ → Round) (fuel i : ℕ) (ch : Channel) :
    ∀ a ∈ (scanHtlcs m preimage rounds s fuel i ch).2, P a := by
  induction fuel generalizing i ch with
  | zero => exact fun a ha => absurd ha not_mem_nil
  | succ _ ih =>
    by_cases hhit : ∃ before h after, Hit m preimage rounds ch i before h after
    · obtain ⟨before,h,after,hhit⟩ := hhit
      rw [scanHtlcs_hit hhit]
      split
      · rintro a ha
        rcases mem_cons.mp ha with rfl | hlater
        · exact hsend _
        · exact ih _ _ a hlater
      · rintro a ha
        simp only [mem_cons,not_mem_nil,or_false] at ha
        rcases ha with rfl | rfl | rfl
        · exact hsend _
        · exact hsave _
        · exact hdelete _
    · rw [scanHtlcs_quiet fun before h after hh => hhit ⟨before,h,after,hh⟩]
      exact ih (i+1) ch

theorem backPropagate_forall (hsend : ∀ s id, P (.send s (.updateFulfillHtlc id preimage)))
    (hsave : ∀ s ch, P (savedBalance s ch)) (hdelete : ∀ s id, P (.deleteHtlc s id))
    (w : FulfillWorld) (mgr : LspMgr) :
    ∀ a ∈ (backPropagate m w clientIdx preimage mgr).2, P a := by
  intro a ha
  obtain ⟨l,hl,hal⟩ := mem_flatten.mp ha
  obtain ⟨k,hk,rfl⟩ := mem_mapIdx.mp hl
  unfold scanChannel at hal
  split_ifs at hal
  · exact absurd hal not_mem_nil
  · exact scanHtlcs_forall (hsend k) (hsave k) (hdelete k) _ _ _ _ _ a hal

theorem backPropagate_noAdd (w : FulfillWorld) (preimage : Blob 32) (mgr : LspMgr) :
    (backPropagate m w clientIdx preimage mgr).2.filter LspAction.isAdd = [] := by
  rw [filter_eq_nil_iff]
  intro a ha
  refine Bool.eq_false_iff.mp ?_
  exact backPropagate_forall (P := fun a => a.isAdd = false) (fun _ _ => rfl) (fun _ _ => rfl)
    (fun _ _ => rfl) w mgr a ha

theorem fulfill_change (hok : ChannelsOk mgr) {w : FulfillWorld} {parsed : Option FulfillHtlcMsg}
    (hguard : FulfillOk m clientIdx mgr parsed) :
    HubChange clientIdx mgr (handleFulfillHtlc m w clientIdx parsed mgr).mgr
      (forwardsMade mgr clientIdx (handleFulfillHtlc m w clientIdx parsed mgr).actions) := by
  have houtcome : FulfillOutcome m w clientIdx mgr parsed _ := handleFulfillHtlc_outcome parsed
  generalize handleFulfillHtlc m w clientIdx parsed mgr = r at houtcome ⊢
  have hsame {mgr' : LspMgr} {preimage : Blob 32} {i : ℕ}
      (heq : mgr'.channel? i = mgr.channel? i) : Rel
        (Relation.ReflTransGen (Claims m.toSecp preimage)) (mgr.channel? i) (mgr'.channel? i) :=
    rel_of_eq heq.symm fun _ => .refl
  cases houtcome with
  | dropped =>
    rw [forwardsMade_nil rfl]
    exact .idle hok fun _ => recapped_of_eq rfl
  | broken _ _ _ _ _ _ hfound hpaid =>
    rw [forwardsMade_nil rfl]
    exact .paid hok hguard hfound (channel_setChannel_self hfound) hpaid
      fun i hi => hsame (channel_setChannel_other (Ne.symm hi))
  | bridge msg _ _ _ _ _ _ _ actions hfound hpaid _ hsent =>
    have hnone : actions.filter LspAction.isAdd = [] := by
      rw [filter_eq_nil_iff]
      intro a ha hadd
      cases a with
      | send i msg => exact hsent i msg ha
      | sendPay => cases hadd
      | sendBridgeFulfill => cases hadd
      | sendBridgeFail => cases hadd
      | saveBalance => cases hadd
      | saveHtlc => cases hadd
      | deleteHtlc => cases hadd
    rw [forwardsMade_nil hnone]
    refine .paid hok hguard hfound ?_ hpaid fun i hi => hsame ?_
    · exact channel_setChannel_self hfound
    · exact channel_setChannel_other (Ne.symm hi)
  | scanned _ _ ch' _ _ _ _ _ hfound hpaid =>
    rw [forwardsMade_nil (by rw [filter_append,backPropagate_noAdd]; rfl)]
    refine .paid hok hguard hfound ?_ hpaid fun i hi => ?_
    · rw [backPropagate_channel]
      have hself : (mgr.setChannel clientIdx ch').channel? clientIdx = some ch' :=
        channel_setChannel_self hfound
      change Option.map _ ((mgr.setChannel clientIdx ch').channel? clientIdx) = _
      rw [hself,map_some,scanChannel,if_pos rfl]
    · rw [backPropagate_channel]
      change Option.Rel _ _ (Option.map _ ((mgr.setChannel clientIdx ch').channel? i))
      rw [channel_setChannel_other (Ne.symm hi)]
      refine rel_mapped fun ch _ => ?_
      rw [scanChannel,if_neg hi]
      exact scanHtlcs_claims _ _ _ _ _ _ _

theorem fail_change (hok : ChannelsOk mgr) {draw : PcsDraw} {parsed : Option UInt64}
    (hguard : FailOk clientIdx mgr parsed) :
    HubChange clientIdx mgr (handleFailHtlc draw clientIdx parsed mgr).mgr
      (forwardsMade mgr clientIdx (handleFailHtlc draw clientIdx parsed mgr).actions) := by
  unfold handleFailHtlc
  split
  · rename_i id ch hch
    rw [forwardsMade_nil rfl]
    refine .resolved (fun _ => True) ⟨fun i => ?_,fun _ _ _ _ _ _ _ => trivial⟩
    by_cases hi : i = clientIdx
    · subst hi
      rw [channel_setChannel_self hch,hch]
      refine .some ?_
      rcases channelFailHtlc_cases id draw ch with ⟨-,heq⟩ | ⟨before,h,after,hat,heq⟩
      · rw [heq]
        exact .refl (hok i ch hch)
      · have hoffered := hguard id ch before h after rfl hch hat
        rw [heq]
        refine (withoutHtlc_eased (hok i ch hch) hat.split hat.active (fun hreceived => ?_)
          (SameFunds.refl _)).mono fun x _ hx hxh => ?_
        · rw [hoffered] at hreceived
          cases hreceived
        · rw [hxh,hoffered] at hx
          cases hx.1
    · exact rel_mono (recapped_of_eq (channel_setChannel_other (Ne.symm hi)))
        fun ch _ hch hcap => hcap.eased (hok i ch hch)
  · rw [forwardsMade_nil rfl]
    exact .idle hok fun _ => recapped_of_eq rfl

theorem RouteOutcome.placed_or {msg : AddHtlcMsg} {added : Channel} {newHtlcId : UInt64}
    {r : Handled} (h : RouteOutcome m f w clientIdx msg mgr added newHtlcId r) :
    (r.actions.filter LspAction.isAdd = [] ∧ ∀ i, i ≠ clientIdx →
      Rel Recapped (mgr.channel? i) (r.mgr.channel? i)) ∨
    ∃ destIdx dest chd chd' terms cltv,
      Forwardable f w clientIdx msg mgr destIdx dest chd terms cltv ∧
      Added .offered terms.amountSats msg.paymentHash cltv chd chd' ∧
      r.actions.filter LspAction.isAdd =
        [announcement destIdx terms.amountMsat msg.paymentHash cltv chd.nextHtlcId] ∧
      r.mgr = ((mgr.setChannel clientIdx added).accrue clientIdx terms.feeSats).setDest destIdx
        dest chd' := by
  have hset (i : ℕ) (hi : i ≠ clientIdx) :
      (mgr.setChannel clientIdx added).channel? i = mgr.channel? i :=
    channel_setChannel_other (Ne.symm hi)
  cases h with
  | kept => exact .inl ⟨rfl,fun i hi => recapped_of_eq (hset i hi)⟩
  | charged =>
    exact .inl ⟨rfl,fun i hi => recapped_of_eq ((channel_accrue _).trans (hset i hi))⟩
  | destRefused destIdx dest chd terms cap _ haccrues =>
    exact .inl ⟨rfl,fun i hi => rel_setDest ((channel_accrue _).trans (hset i hi)) haccrues.found
      ⟨cap,rfl⟩ Recapped.refl⟩
  | placed destIdx dest chd chd' terms cltv _ _ hforward hadded hannounced =>
    exact .inr ⟨destIdx,dest,chd,chd',terms,cltv,hforward,hadded,hannounced,rfl⟩
  | bridge => exact .inl ⟨rfl,fun i hi => recapped_of_eq (hset i hi)⟩

theorem add_change (hok : ChannelsOk mgr) {parsed : Option AddHtlcMsg}
    (hguard : AddOk m clientIdx mgr f w parsed) :
    HubChange clientIdx mgr (handleAddHtlc m f w clientIdx parsed mgr).mgr
      (forwardsMade mgr clientIdx (handleAddHtlc m f w clientIdx parsed mgr).actions) := by
  have houtcome : AddOutcome m f w clientIdx mgr parsed _ := handleAddHtlc_outcome parsed
  generalize handleAddHtlc m f w clientIdx parsed mgr = r at houtcome ⊢
  cases houtcome with
  | dropped =>
    rw [forwardsMade_nil rfl]
    exact .idle hok fun _ => recapped_of_eq rfl
  | refused _ _ cap _ hfound =>
    rw [forwardsMade_nil rfl]
    exact .idle hok (rel_setChannel hfound ⟨cap,rfl⟩ Recapped.refl)
  | broken msg ch ch' hadds hadded =>
    obtain ⟨hleft,hfee,-⟩ := hguard msg ch hadds
    rw [forwardsMade_nil rfl]
    exact .received ch ch' _ hadds.found (channel_setChannel_self hadds.found)
      (hadded.grown (hok _ ch hadds.found) hleft) rfl hfee
      fun i hi => recapped_of_eq (channel_setChannel_other (Ne.symm hi))
  | routed msg ch ch' saved r hadds hadded hcommit hroute hsaved =>
    obtain ⟨hleft,hfee,hforwards⟩ := hguard msg ch hadds
    have hch' := hroute.senderChannel hadds.found
    have hgrown := hadded.grown (hok _ ch hadds.found) hleft
    have hactions : (r.after saved).actions.filter LspAction.isAdd =
        r.actions.filter LspAction.isAdd := by
      rw [Handled.after,filter_append,hsaved.1,nil_append]
    rcases hroute.placed_or with ⟨hnone,hothers⟩ |
      ⟨destIdx,dest,chd,chd',terms,cltv,hforward,hplaced,hannounced,hmgr⟩
    · rw [forwardsMade_nil (hactions.trans hnone)]
      exact .received ch ch' _ hadds.found hch' hgrown rfl hfee hothers
    · obtain ⟨rfl,hleftd,hfees⟩ := hforwards _ _ _ _ _ hcommit hforward
      have hchd := destChannel_factory hforward.found
      have hset (i : ℕ) (hi : i ≠ clientIdx) : ((mgr.setChannel clientIdx ch').accrue clientIdx
          terms.feeSats).channel? i = mgr.channel? i :=
        (channel_accrue _).trans (channel_setChannel_other (Ne.symm hi))
      have hchd' : r.mgr.channel? destIdx = some chd' := by
        rw [hmgr]
        exact channel_setChannel_self ((hset destIdx hforward.other).trans hchd)
      obtain ⟨-,hsats,hle⟩ := forwardTerms_some hforward.priced
      rw [forwardsMade_one hadds.found (hactions.trans hannounced)]
      refine .forwarded destIdx ch ch' chd chd' _ _ hforward.other hadds.found hch' hchd hchd' hgrown
        (hplaced.grown (hok _ chd hchd) hleftd) rfl rfl rfl ?_ hfees fun i hi hid => ?_
      · rw [hsats]
        exact div_thousand_le hle
      · refine recapped_of_eq ?_
        rw [hmgr]
        exact (channel_setDest_other (Ne.symm hid)).trans (hset i hi)

end

end SuperScalar
