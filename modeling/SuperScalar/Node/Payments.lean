import SuperScalar.Node.Dispatch
import SuperScalar.Onion.Route
import SuperScalar.Foundation.Lists

namespace SuperScalar

open List Option PeerSend

section

variable (sphinx : Sphinx) (ourPrivkey : Blob 32)

structure NodeMsg where
  peerIdx : ℕ
  now : UInt32
  turns : ℕ
  msg : Bytes

def NodeMsg.processed (s : NodeMsg) (d : LnDispatch) : Option Processed :=
  lnDispatchProcessMsg sphinx ourPrivkey s.turns s.peerIdx s.now s.msg d

def PeerSend.isFulfill (p : PeerSend) : Bool := getU16 p.msg = bolt2UpdateFulfillHtlc

def NodeMsg.paid (s : NodeMsg) (d : LnDispatch) : Option ℕ := do
  let add ← parseAdd s.msg
  let tbl ← d.invoices
  let p ← s.processed sphinx ourPrivkey d
  if p.sends.any isFulfill then tbl.slot? add.paymentHash else none

def NodeMsg.payments : List NodeMsg → LnDispatch → List ℕ
  | [], _ => []
  | s :: rest, d =>
    match s.processed sphinx ourPrivkey d with
    | none => []
    | some p => (s.paid sphinx ourPrivkey d).toList ++ NodeMsg.payments rest p.node

def NodeMsg.secret (s : NodeMsg) (d : LnDispatch) : Option (Blob 32) := do
  let add ← parseAdd s.msg
  let r ← htlcForwardProcess sphinx s.turns ourPrivkey add.onion add.htlcId
    (UInt64.ofNat s.peerIdx) add.amountMsat add.cltv d.fwd
  match r.2 with
  | .final e => e.paymentSecret
  | _ => none

structure Bolt11InvoiceEntry.Honoured (e : Bolt11InvoiceEntry) (now : UInt32) (amountMsat : UInt64)
    (secret : Blob 32) : Prop where
  amount : e.amountMsat ≤ amountMsat
  time : now.toNat < e.createdAt.toNat + e.expiry.toNat
  secret_eq : secret = e.paymentSecret

def NodeMsg.Honest (s : NodeMsg) (d : LnDispatch) : Prop :=
  ∀ k, s.paid sphinx ourPrivkey d = some k → ∃ tbl add e secret, d.invoices = some tbl ∧
    parseAdd s.msg = some add ∧ tbl.entries[k]? = some e ∧ e.paymentHash = add.paymentHash ∧
    s.secret sphinx ourPrivkey d = some secret ∧ e.Honoured s.now add.amountMsat secret

def HonestRun : List NodeMsg → LnDispatch → Prop
  | [], _ => True
  | s :: rest, d => s.Honest sphinx ourPrivkey d ∧
    ∀ p, s.processed sphinx ourPrivkey d = some p → HonestRun rest p.node

def LnDispatch.isSettled (d : LnDispatch) (k : ℕ) : Bool :=
  (d.invoices.bind (fun tbl => tbl.entries[k]?)).any (fun e => e.settled)

def PaidOnce (steps : List NodeMsg) (d : LnDispatch) : Prop :=
  ∀ k, (NodeMsg.payments sphinx ourPrivkey steps d).count k + (d.isSettled k).toNat ≤ 1

def Bolt11InvoiceTable.Derives (tbl : Bolt11InvoiceTable) (k : ℕ) (e : Bolt11InvoiceEntry)
    (add : AddMsg) (secret : Blob 32) : Prop :=
  k < tbl.count ∧ e.hasStatelessPreimage = true ∧
    sphinx.sha256 (statelessInvoiceDerivePreimage sphinx ourPrivkey e.statelessNonce).val =
      add.paymentHash ∧
    statelessInvoiceDeriveSecret sphinx ourPrivkey add.paymentHash = secret

def Bolt11InvoiceTable.Refuses (tbl : Bolt11InvoiceTable) (k : ℕ) (e : Bolt11InvoiceEntry)
    (add : AddMsg) (secret : Blob 32) : Prop :=
  k < tbl.count ∧ e.hasStatelessSecret = true ∧
    statelessInvoiceDeriveSecret sphinx ourPrivkey add.paymentHash ≠ secret

structure SafePaths (now : UInt32) (tbl : Bolt11InvoiceTable) (k : ℕ) (e : Bolt11InvoiceEntry)
    (add : AddMsg) (secret : Blob 32) : Prop where
  derived : tbl.Derives sphinx ourPrivkey k e add secret →
    e.settled = false ∧ e.Honoured now add.amountMsat secret
  stored : ¬ tbl.Refuses sphinx ourPrivkey k e add secret →
    e.claimable now add.amountMsat = true →
    now.toNat < e.createdAt.toNat + e.expiry.toNat ∧ secret = e.paymentSecret

def NodeMsg.Safe (s : NodeMsg) (d : LnDispatch) : Prop :=
  getU16 s.msg = bolt2UpdateAddHtlc → ∀ tbl add k e secret, d.invoices = some tbl →
    parseAdd s.msg = some add → tbl.slot? add.paymentHash = some k → tbl.entries[k]? = some e →
    s.secret sphinx ourPrivkey d = some secret →
    SafePaths sphinx ourPrivkey s.now tbl k e add secret

def SafeRun : List NodeMsg → LnDispatch → Prop
  | [], _ => True
  | s :: rest, d => s.Safe sphinx ourPrivkey d ∧
    ∀ p, s.processed sphinx ourPrivkey d = some p → SafeRun rest p.node

end

section

variable {sphinx : Sphinx} {ourPrivkey : Blob 32} {tbl : Bolt11InvoiceTable} {add : AddMsg} {k : ℕ}
  {e : Bolt11InvoiceEntry} {secret : Blob 32} {now : UInt32} {hash : Blob 32}

theorem counted_eq (htbl : tbl.slot? hash = some k) :
    tbl.counted? hash = if k < tbl.count then some k else none := by
  unfold Bolt11InvoiceTable.counted?
  obtain ⟨hlt,hk,hbefore⟩ := findIdx?_eq_some_iff_getElem.mp htbl
  split_ifs with hcount
  · refine findIdx?_eq_some_iff_getElem.mpr ⟨?_,?_,?_⟩
    · rw [length_take]
      omega
    · rw [getElem_take]
      exact hk
    · intro j hj
      rw [getElem_take]
      exact hbefore j hj
  · rw [findIdx?_eq_none_iff]
    intro x hx
    obtain ⟨j,hj,rfl⟩ := mem_iff_getElem.mp hx
    rw [length_take] at hj
    rw [getElem_take]
    exact Bool.eq_false_iff.mpr (hbefore j (by omega))

theorem counted_none (htbl : tbl.slot? hash = none) : tbl.counted? hash = none := by
  unfold Bolt11InvoiceTable.slot? at htbl
  unfold Bolt11InvoiceTable.counted?
  rw [findIdx?_eq_none_iff] at htbl ⊢
  exact fun x hx => htbl x (mem_of_mem_take hx)

theorem slot_isFor (htbl : tbl.slot? hash = some k) :
    ∃ e, tbl.entries[k]? = some e ∧ e.paymentHash = hash := by
  obtain ⟨hlt,hk,-⟩ := findIdx?_eq_some_iff_getElem.mp htbl
  refine ⟨tbl.entries[k],getElem?_eq_getElem hlt,?_⟩
  exact of_decide_eq_true (Bool.and_eq_true_iff.mp hk).2

theorem entries_settleAt (tbl : Bolt11InvoiceTable) (k j : ℕ) :
    (tbl.settleAt k).entries[j]? =
      if k = j then tbl.entries[j]?.map (fun e => { e with settled := true })
      else tbl.entries[j]? := by
  change (tbl.entries.modify k _)[j]? = _
  rw [getElem?_modify]
  split_ifs with h
  · rfl
  · exact map_id'

theorem slot_settleAt (tbl : Bolt11InvoiceTable) (j : ℕ) :
    (tbl.settleAt j).slot? hash = tbl.slot? hash := by
  have hkey (e : Bolt11InvoiceEntry) : Bolt11InvoiceEntry.isFor hash { e with settled := true } =
      Bolt11InvoiceEntry.isFor hash e := rfl
  exact Lists.findIdx_modify hkey tbl.entries j

structure SettledAt (k : ℕ) (tbl tbl' : Bolt11InvoiceTable) : Prop where
  entries : ∀ j, tbl'.entries[j]? =
    if k = j then tbl.entries[j]?.map (fun e => { e with settled := true }) else tbl.entries[j]?
  slot : ∀ hash, tbl'.slot? hash = tbl.slot? hash

theorem settledAt_settleAt (tbl : Bolt11InvoiceTable) (k : ℕ) : SettledAt k tbl (tbl.settleAt k) :=
  ⟨entries_settleAt tbl k,fun _ => slot_settleAt tbl k⟩

theorem SettledAt.invoiceSettle {tbl' : Bolt11InvoiceTable} (h : SettledAt k tbl tbl')
    (hslot : tbl.slot? hash = some k) : SettledAt k tbl (invoiceSettle hash tbl') := by
  unfold SuperScalar.invoiceSettle
  rw [h.slot,hslot]
  refine ⟨fun j => ?_,fun hash' => (slot_settleAt tbl' k).trans (h.slot hash')⟩
  rw [entries_settleAt,h.entries]
  split_ifs with hj
  · cases tbl.entries[j]? <;> rfl
  · rfl

def Bolt11InvoiceTable.Opens (sphinx : Sphinx) (ourPrivkey : Blob 32) (now : UInt32)
    (tbl : Bolt11InvoiceTable) (k : ℕ) (e : Bolt11InvoiceEntry) (add : AddMsg) (secret : Blob 32) : Prop :=
  tbl.Derives sphinx ourPrivkey k e add secret ∨
    (¬ tbl.Refuses sphinx ourPrivkey k e add secret ∧ e.claimable now add.amountMsat = true)

section

variable (hslot : tbl.slot? add.paymentHash = some k)

include hslot

variable (he : tbl.entries[k]? = some e)

include he

theorem secretRefused_iff :
    secretRefused sphinx ourPrivkey add (some secret) (tbl.counted? add.paymentHash) tbl = true ↔
      tbl.Refuses sphinx ourPrivkey k e add secret := by
  unfold secretRefused Bolt11InvoiceTable.Refuses
  rw [counted_eq hslot]
  split_ifs with hk
  · simp [he,hk,statelessInvoiceVerifySecret]
  · simp [hk]

theorem claimInvoice_derives (h : tbl.Derives sphinx ourPrivkey k e add secret) :
    claimInvoice sphinx ourPrivkey now add (some secret) (tbl.counted? add.paymentHash) tbl =
      ⟨tbl.settleAt k,
        some (statelessInvoiceDerivePreimage sphinx ourPrivkey e.statelessNonce)⟩ := by
  obtain ⟨hk,hflag,hhash,hsecret⟩ := h
  unfold claimInvoice
  simp [counted_eq hslot,hk,he,hflag,statelessInvoiceClaim,hhash,statelessInvoiceVerifySecret,
    hsecret]

theorem claimInvoice_stored (h : ¬ tbl.Derives sphinx ourPrivkey k e add secret) :
    claimInvoice sphinx ourPrivkey now add (some secret) (tbl.counted? add.paymentHash) tbl =
      if e.claimable now add.amountMsat then ⟨tbl.settleAt k,some e.preimage⟩ else ⟨tbl,none⟩ := by
  have hclaim : invoiceClaim add.paymentHash now add.amountMsat tbl =
      if e.claimable now add.amountMsat then (tbl.settleAt k,some e.preimage) else (tbl,none) := by
    unfold invoiceClaim
    simp only [hslot,he]
  have hderived : (do
      let slot ← tbl.counted? add.paymentHash
      let e ← tbl.entries[slot]?
      let presented ← some secret
      if e.hasStatelessPreimage then
        (statelessInvoiceClaim sphinx ourPrivkey e.statelessNonce add.paymentHash presented).map
          (fun preimage => (slot,preimage))
      else none) = none := by
    rw [counted_eq hslot]
    by_cases hk : k < tbl.count
    · by_cases hflag : e.hasStatelessPreimage = true
      · by_cases hhash : sphinx.sha256
            (statelessInvoiceDerivePreimage sphinx ourPrivkey e.statelessNonce).val =
            add.paymentHash
        · have hsecret : statelessInvoiceDeriveSecret sphinx ourPrivkey add.paymentHash ≠ secret :=
            fun heq => h ⟨hk,hflag,hhash,heq⟩
          simp [hk,statelessInvoiceClaim,statelessInvoiceVerifySecret,hsecret]
        · simp [hk,he,hflag,statelessInvoiceClaim,hhash]
      · simp [hk,he,hflag]
    · simp [hk]
  unfold claimInvoice
  simp only [hderived,hclaim]
  split_ifs <;> rfl

end

theorem fulfill_isFulfill (peerIdx : ℕ) (channelId : Blob 32) (htlcId : UInt64)
    (preimage : Blob 32) :
    [mk peerIdx (updateFulfillHtlc channelId htlcId preimage)].any isFulfill = true := by
  simp only [any_cons,any_nil,Bool.or_false,isFulfill,updateFulfillHtlc,
    append_assoc,getU16_putU16,decide_true]

theorem fail_isFulfill (peerIdx : ℕ) (channelId : Blob 32) (htlcId : UInt64) (reason : Bytes) :
    [mk peerIdx (updateFailHtlc channelId htlcId reason)].any isFulfill = false := by
  simp only [any_cons,any_nil,Bool.or_false,isFulfill,updateFailHtlc,append_assoc,getU16_putU16]
  decide

theorem malformed_isFulfill (peerIdx : ℕ) (channelId : Blob 32) (htlcId : UInt64) (hash : Blob 32)
    (code : UInt16) :
    [mk peerIdx (updateFailMalformedHtlc channelId htlcId hash code)].any
      isFulfill = false := by
  simp only [any_cons,any_nil,Bool.or_false,isFulfill,
    updateFailMalformedHtlc,append_assoc,getU16_putU16]
  decide

theorem finalHop_opens (peerIdx : ℕ) (hslot : tbl.slot? add.paymentHash = some k)
    (he : tbl.entries[k]? = some e) (h : tbl.Opens sphinx ourPrivkey now k e add secret) :
    SettledAt k tbl (finalHop sphinx ourPrivkey peerIdx now add (some secret) tbl).1 ∧
      (finalHop sphinx ourPrivkey peerIdx now add (some secret) tbl).2.any isFulfill = true := by
  have hrefused : ¬ tbl.Refuses sphinx ourPrivkey k e add secret := by
    rcases h with hderives | hstored
    · exact fun hrefuses => hrefuses.2.2 hderives.2.2.2
    · exact hstored.1
  have hclaim : ∃ preimage, claimInvoice sphinx ourPrivkey now add (some secret)
      (tbl.counted? add.paymentHash) tbl = ⟨tbl.settleAt k,some preimage⟩ := by
    by_cases hderives : tbl.Derives sphinx ourPrivkey k e add secret
    · exact ⟨_,claimInvoice_derives hslot he hderives⟩
    · rw [claimInvoice_stored hslot he hderives,if_pos (h.resolve_left hderives).2]
      exact ⟨_,rfl⟩
  obtain ⟨preimage,hclaim⟩ := hclaim
  unfold finalHop
  simp only [mt (secretRefused_iff hslot he).mp hrefused,hclaim]
  exact ⟨(settledAt_settleAt tbl k).invoiceSettle hslot,fulfill_isFulfill _ _ _ _⟩

theorem finalHop_closed (peerIdx : ℕ) (hslot : tbl.slot? add.paymentHash = some k)
    (he : tbl.entries[k]? = some e) (h : ¬ tbl.Opens sphinx ourPrivkey now k e add secret) :
    (finalHop sphinx ourPrivkey peerIdx now add (some secret) tbl).1 = tbl ∧
      (finalHop sphinx ourPrivkey peerIdx now add (some secret) tbl).2.any isFulfill = false := by
  unfold finalHop
  by_cases hrefused : tbl.Refuses sphinx ourPrivkey k e add secret
  · simp only [(secretRefused_iff hslot he).mpr hrefused,if_true]
    exact ⟨trivial,fail_isFulfill _ _ _ _⟩
  · have hderives : ¬ tbl.Derives sphinx ourPrivkey k e add secret := fun hd => h (.inl hd)
    have hclaimable : ¬ e.claimable now add.amountMsat = true := fun hc => h (.inr ⟨hrefused,hc⟩)
    simp only [mt (secretRefused_iff hslot he).mp hrefused,claimInvoice_stored hslot he hderives,
      if_neg hclaimable]
    exact ⟨rfl,fail_isFulfill _ _ _ _⟩

theorem finalHop_unknown (peerIdx : ℕ) (hslot : tbl.slot? add.paymentHash = none) :
    (finalHop sphinx ourPrivkey peerIdx now add (some secret) tbl).1 = tbl ∧
      (finalHop sphinx ourPrivkey peerIdx now add (some secret) tbl).2.any isFulfill = false := by
  have hrefused : secretRefused sphinx ourPrivkey add (some secret) none tbl = false := rfl
  have hclaim : claimInvoice sphinx ourPrivkey now add (some secret) none tbl = ⟨tbl,none⟩ := by
    change Claim.mk (invoiceClaim add.paymentHash now add.amountMsat tbl).1
      (invoiceClaim add.paymentHash now add.amountMsat tbl).2 = _
    unfold invoiceClaim
    simp only [hslot]
  unfold finalHop
  simp only [counted_none hslot,hrefused,hclaim]
  exact ⟨rfl,fail_isFulfill _ _ _ _⟩

end

section

variable {sphinx : Sphinx} {ourPrivkey : Blob 32} {s : NodeMsg} {d : LnDispatch} {p : Processed}
  {tbl : Bolt11InvoiceTable} {add : AddMsg} {k : ℕ} {secret : Blob 32}

theorem htlcForwardProcess_final {turns : ℕ} {onion : Onion} {inHtlcId inChanId amountMsat : UInt64}
    {cltv : UInt32} {fwd fwd' : List ForwardEntry} {e : ForwardEntry}
    (h : htlcForwardProcess sphinx turns ourPrivkey onion inHtlcId inChanId amountMsat cltv fwd =
      some (fwd',.final e)) : ∃ secret, e.paymentSecret = some secret := by
  cases htlcForwardProcess_cases h with
  | final _ _ hpeel hfinal =>
    rw [onionPeel_final hpeel] at hfinal
    obtain ⟨data,hdata⟩ := isSome_iff_exists.mp hfinal
    exact ⟨data.1,by simp [finalEntry,hdata]⟩

theorem processed_final (htype : getU16 s.msg = bolt2UpdateAddHtlc) (htbl : d.invoices = some tbl)
    (hadd : parseAdd s.msg = some add) (hsecret : s.secret sphinx ourPrivkey d = some secret) :
    ∃ fwd, s.processed sphinx ourPrivkey d = some
      ⟨{ d with
          fwd := fwd
          invoices := some
            (finalHop sphinx ourPrivkey s.peerIdx s.now add (some secret) tbl).1 },
        (finalHop sphinx ourPrivkey s.peerIdx s.now add (some secret) tbl).2,
        some bolt2UpdateAddHtlc⟩ := by
  have hlen : ¬ s.msg.length < 2 := by
    unfold parseAdd at hadd
    split_ifs at hadd with hshort
    omega
  unfold NodeMsg.secret at hsecret
  rw [hadd,bind_eq_bind,bind_some] at hsecret
  obtain ⟨⟨fwd,result⟩,hresult,hfinal⟩ := bind_eq_some_iff.mp hsecret
  cases result with
  | final e =>
    refine ⟨fwd,?_⟩
    unfold NodeMsg.processed lnDispatchProcessMsg
    rw [if_neg hlen,if_pos htype]
    unfold processAdd
    simp only [hadd,hresult,htbl,show e.paymentSecret = some secret from hfinal]
  | fail => cases hfinal
  | relay => cases hfinal

theorem processed_quiet (h : s.processed sphinx ourPrivkey d = some p)
    (hnot : ¬ (getU16 s.msg = bolt2UpdateAddHtlc ∧ (∃ tbl, d.invoices = some tbl) ∧
      ∃ secret, s.secret sphinx ourPrivkey d = some secret)) :
    p.node.invoices = d.invoices ∧ p.sends.any isFulfill = false := by
  unfold NodeMsg.processed lnDispatchProcessMsg at h
  split_ifs at h with hlen hadd hfulfill hfail hmalformed
  · cases h
    exact ⟨rfl,rfl⟩
  · unfold processAdd at h
    split at h
    · cases h
      exact ⟨rfl,rfl⟩
    · rename_i add hparse
      split at h
      · cases h
      · rename_i fwd e hprocess
        split at h
        · cases h
          exact ⟨rfl,rfl⟩
        · rename_i tbl htbl
          obtain ⟨secret,hsecret⟩ := htlcForwardProcess_final hprocess
          refine absurd ⟨hadd,⟨tbl,htbl⟩,secret,?_⟩ hnot
          unfold NodeMsg.secret
          rw [hparse,bind_eq_bind,bind_some,hprocess]
          exact hsecret
      · cases h
        exact ⟨rfl,rfl⟩
      · cases h
        exact ⟨rfl,malformed_isFulfill _ _ _ _ _⟩
  · cases h
    unfold processFulfill
    split_ifs
    · exact ⟨rfl,rfl⟩
    · exact ⟨rfl,rfl⟩
  · cases h
    unfold processFail
    dsimp only
    split_ifs
    · exact ⟨rfl,rfl⟩
    · exact ⟨rfl,rfl⟩
    · exact ⟨rfl,rfl⟩
  · cases h
    unfold processFailMalformed
    split_ifs
    · exact ⟨rfl,rfl⟩
    · exact ⟨rfl,rfl⟩
  · cases h
    exact ⟨rfl,rfl⟩

theorem paid_eq (hadd : parseAdd s.msg = some add) (htbl : d.invoices = some tbl)
    (hp : s.processed sphinx ourPrivkey d = some p) :
    s.paid sphinx ourPrivkey d =
      if p.sends.any isFulfill then tbl.slot? add.paymentHash else none := by
  unfold NodeMsg.paid
  rw [hadd,htbl,hp]
  rfl

theorem paid_iff : s.paid sphinx ourPrivkey d = some k ↔
    ∃ tbl add e secret, getU16 s.msg = bolt2UpdateAddHtlc ∧ d.invoices = some tbl ∧
      parseAdd s.msg = some add ∧ tbl.slot? add.paymentHash = some k ∧ tbl.entries[k]? = some e ∧
      s.secret sphinx ourPrivkey d = some secret ∧
      tbl.Opens sphinx ourPrivkey s.now k e add secret := by
  constructor
  · intro h
    obtain ⟨add,hadd,h'⟩ := bind_eq_some_iff.mp h
    obtain ⟨tbl,htbl,h'⟩ := bind_eq_some_iff.mp h'
    obtain ⟨p,hp,h'⟩ := bind_eq_some_iff.mp h'
    split_ifs at h' with hsent
    by_cases hfinal : getU16 s.msg = bolt2UpdateAddHtlc ∧ (∃ tbl, d.invoices = some tbl) ∧
        ∃ secret, s.secret sphinx ourPrivkey d = some secret
    · obtain ⟨htype,-,secret,hsecret⟩ := hfinal
      obtain ⟨fwd,hprocessed⟩ := processed_final htype htbl hadd hsecret
      rw [hp] at hprocessed
      cases hprocessed
      obtain ⟨e,he,-⟩ := slot_isFor h'
      refine ⟨tbl,add,e,secret,htype,htbl,hadd,h',he,hsecret,?_⟩
      by_contra hclosed
      have hnone := (finalHop_closed s.peerIdx h' he hclosed).2
      exact absurd (hsent.symm.trans hnone) (by decide)
    · have hnone := (processed_quiet hp hfinal).2
      exact absurd (hsent.symm.trans hnone) (by decide)
  · rintro ⟨tbl,add,e,secret,htype,htbl,hadd,hslot,he,hsecret,hopens⟩
    obtain ⟨fwd,hprocessed⟩ := processed_final htype htbl hadd hsecret
    rw [paid_eq hadd htbl hprocessed,if_pos (finalHop_opens s.peerIdx hslot he hopens).2,hslot]

theorem isSettled_of_entries {d d' : LnDispatch} {tbl tbl' : Bolt11InvoiceTable}
    (htbl : d.invoices = some tbl) (htbl' : d'.invoices = some tbl') (h : SettledAt k tbl tbl')
    (hk : ∃ e, tbl.entries[k]? = some e) (j : ℕ) :
    d'.isSettled j = (d.isSettled j || decide (k = j)) := by
  unfold LnDispatch.isSettled
  simp only [htbl,htbl',bind_some,h.entries]
  split_ifs with hj
  · subst hj
    obtain ⟨e,he⟩ := hk
    rw [he]
    simp
  · simp [hj]

theorem isSettled_after (hp : s.processed sphinx ourPrivkey d = some p) (j : ℕ) :
    p.node.isSettled j = (d.isSettled j || decide (s.paid sphinx ourPrivkey d = some j)) := by
  have hsame (hinvoices : p.node.invoices = d.invoices)
      (hunpaid : s.paid sphinx ourPrivkey d = none) :
      p.node.isSettled j = (d.isSettled j || decide (s.paid sphinx ourPrivkey d = some j)) := by
    unfold LnDispatch.isSettled
    rw [hinvoices,hunpaid]
    simp
  by_cases hfinal : getU16 s.msg = bolt2UpdateAddHtlc ∧ (∃ tbl, d.invoices = some tbl) ∧
      ∃ secret, s.secret sphinx ourPrivkey d = some secret
  · obtain ⟨htype,⟨tbl,htbl⟩,secret,hsecret⟩ := hfinal
    obtain ⟨add,hadd,-⟩ := bind_eq_some_iff.mp hsecret
    obtain ⟨fwd,hprocessed⟩ := processed_final htype htbl hadd hsecret
    have hpaid := paid_eq hadd htbl hprocessed
    rw [hp] at hprocessed
    cases hprocessed
    cases hslot : tbl.slot? add.paymentHash with
    | none =>
      have hunknown : (finalHop sphinx ourPrivkey s.peerIdx s.now add (some secret) tbl).1 = tbl ∧
          _ := finalHop_unknown s.peerIdx hslot
      rw [hunknown.2,if_neg (by decide)] at hpaid
      refine hsame ?_ hpaid
      rw [htbl]
      exact congrArg some hunknown.1
    | some k =>
      obtain ⟨e,he,-⟩ := slot_isFor hslot
      by_cases hopens : tbl.Opens sphinx ourPrivkey s.now k e add secret
      · have hdone := finalHop_opens s.peerIdx hslot he hopens
        rw [hdone.2,if_pos rfl,hslot] at hpaid
        rw [isSettled_of_entries htbl rfl hdone.1 ⟨e,he⟩ j,hpaid]
        simp
      · have hclosed := finalHop_closed s.peerIdx hslot he hopens
        rw [hclosed.2,if_neg (by decide)] at hpaid
        refine hsame ?_ hpaid
        rw [htbl]
        exact congrArg some hclosed.1
  · obtain ⟨hinvoices,hquiet⟩ := processed_quiet hp hfinal
    refine hsame hinvoices ?_
    cases hpaid : s.paid sphinx ourPrivkey d with
    | none => rfl
    | some =>
      obtain ⟨tbl,add,e,secret,htype,htbl,-,-,-,hsecret,-⟩ := paid_iff.mp hpaid
      exact absurd ⟨htype,⟨tbl,htbl⟩,secret,hsecret⟩ hfinal

theorem claimable_iff {e : Bolt11InvoiceEntry} {now : UInt32} {amountMsat : UInt64} :
    e.claimable now amountMsat = true ↔
      e.settled = false ∧ now < e.createdAt + e.expiry ∧ e.amountMsat ≤ amountMsat := by
  have hamount : (e.amountMsat > 0 ∧ amountMsat < e.amountMsat) ↔ ¬ e.amountMsat ≤ amountMsat := by
    rw [UInt64.not_le]
    constructor
    · exact fun h => h.2
    · exact fun h => ⟨UInt64.lt_iff_toNat_lt.mpr
        (Nat.lt_of_le_of_lt (Nat.zero_le _) (UInt64.lt_iff_toNat_lt.mp h)),h⟩
  unfold Bolt11InvoiceEntry.claimable
  simp only [Bool.and_eq_true,Bool.not_eq_true',decide_eq_false_iff_not,ge_iff_le,UInt32.not_le,
    ← Bool.decide_and,hamount,not_not,and_assoc]

theorem safe_iff : s.Safe sphinx ourPrivkey d ↔ s.Honest sphinx ourPrivkey d ∧
    ∀ k, s.paid sphinx ourPrivkey d = some k → d.isSettled k = false := by
  constructor
  · intro hsafe
    have hgood (k : ℕ) (hk : s.paid sphinx ourPrivkey d = some k) :
        ∃ tbl add e secret, d.invoices = some tbl ∧ parseAdd s.msg = some add ∧
          tbl.entries[k]? = some e ∧ e.paymentHash = add.paymentHash ∧
          s.secret sphinx ourPrivkey d = some secret ∧ e.Honoured s.now add.amountMsat secret ∧
          e.settled = false := by
      obtain ⟨tbl,add,e,secret,htype,htbl,hadd,hslot,he,hsecret,hopens⟩ := paid_iff.mp hk
      obtain ⟨e',he',hhash⟩ := slot_isFor hslot
      rw [he] at he'
      cases he'
      have hpaths := hsafe htype tbl add k e secret htbl hadd hslot he hsecret
      refine ⟨tbl,add,e,secret,htbl,hadd,he,hhash,hsecret,?_⟩
      rcases hopens with hderives | ⟨hrefuses,hclaimable⟩
      · obtain ⟨hsettled,hhonoured⟩ := hpaths.derived hderives
        exact ⟨hhonoured,hsettled⟩
      · obtain ⟨htime,hsec⟩ := hpaths.stored hrefuses hclaimable
        obtain ⟨hsettled,-,hamount⟩ := claimable_iff.mp hclaimable
        exact ⟨⟨hamount,htime,hsec⟩,hsettled⟩
    constructor
    · intro k hk
      obtain ⟨tbl,add,e,secret,htbl,hadd,he,hhash,hsecret,hhonoured,-⟩ := hgood k hk
      exact ⟨tbl,add,e,secret,htbl,hadd,he,hhash,hsecret,hhonoured⟩
    · intro k hk
      obtain ⟨tbl,add,e,secret,htbl,-,he,-,-,-,hsettled⟩ := hgood k hk
      unfold LnDispatch.isSettled
      rw [htbl,bind_some,he]
      exact hsettled
  · rintro ⟨hhonest,hunsettled⟩ htype tbl add k e secret htbl hadd hslot he hsecret
    have hgood (hopens : tbl.Opens sphinx ourPrivkey s.now k e add secret) :
        e.settled = false ∧ e.Honoured s.now add.amountMsat secret := by
      have hk := paid_iff.mpr ⟨tbl,add,e,secret,htype,htbl,hadd,hslot,he,hsecret,hopens⟩
      obtain ⟨tbl',add',e',secret',htbl',hadd',he',-,hsecret',hhonoured⟩ := hhonest k hk
      rw [htbl] at htbl'
      cases htbl'
      rw [hadd] at hadd'
      cases hadd'
      rw [he] at he'
      cases he'
      rw [hsecret] at hsecret'
      cases hsecret'
      have hsettled := hunsettled k hk
      unfold LnDispatch.isSettled at hsettled
      rw [htbl,bind_some,he] at hsettled
      exact ⟨hsettled,hhonoured⟩
    refine ⟨fun hderives => hgood (.inl hderives),fun hrefuses hclaimable => ?_⟩
    have hhonoured := (hgood (.inr ⟨hrefuses,hclaimable⟩)).2
    exact ⟨hhonoured.time,hhonoured.secret_eq⟩

theorem paidOnce_cons {rest : List NodeMsg} (hp : s.processed sphinx ourPrivkey d = some p) :
    PaidOnce sphinx ourPrivkey (s :: rest) d ↔
      (∀ k, s.paid sphinx ourPrivkey d = some k → d.isSettled k = false) ∧
        PaidOnce sphinx ourPrivkey rest p.node := by
  have hpayments : NodeMsg.payments sphinx ourPrivkey (s :: rest) d =
      (s.paid sphinx ourPrivkey d).toList ++ NodeMsg.payments sphinx ourPrivkey rest p.node := by
    rw [NodeMsg.payments,hp]
  unfold PaidOnce
  rw [hpayments,← forall_and]
  refine forall_congr' fun k => ?_
  rw [count_append,isSettled_after hp k]
  by_cases hk : s.paid sphinx ourPrivkey d = some k
  · have hcount : (s.paid sphinx ourPrivkey d).toList.count k = 1 := by
      rw [hk]
      simp
    rw [hcount]
    cases hsettled : d.isSettled k with
    | false =>
      simp only [hk,decide_true,Bool.or_true,Bool.toNat_true,Bool.toNat_false,implies_true,true_and]
      omega
    | true =>
      simp only [hk,Bool.toNat_true,forall_const,Bool.true_eq_false,false_and,iff_false]
      omega
  · have hcount : (s.paid sphinx ourPrivkey d).toList.count k = 0 := by
      cases hpaid : s.paid sphinx ourPrivkey d with
      | none => rfl
      | some j =>
        have hne : j ≠ k := fun heq => hk (hpaid.trans (congrArg some heq))
        simp [hne]
    rw [hcount]
    simp only [hk,decide_false,Bool.or_false,Nat.zero_add,false_implies,true_and]

theorem invoices_paid_iff (steps : List NodeMsg) (d : LnDispatch) :
    (HonestRun sphinx ourPrivkey steps d ∧ PaidOnce sphinx ourPrivkey steps d) ↔
      SafeRun sphinx ourPrivkey steps d := by
  induction steps generalizing d with
  | nil =>
    refine iff_of_true ⟨trivial,fun k => ?_⟩ trivial
    cases d.isSettled k <;> simp [NodeMsg.payments]
  | cons s rest ih =>
    cases hp : s.processed sphinx ourPrivkey d with
    | none =>
      have hunpaid : s.paid sphinx ourPrivkey d = none := by
        cases hpaid : s.paid sphinx ourPrivkey d with
        | none => rfl
        | some =>
          obtain ⟨tbl,add,e,secret,htype,htbl,hadd,-,-,hsecret,-⟩ := paid_iff.mp hpaid
          obtain ⟨fwd,hprocessed⟩ := processed_final htype htbl hadd hsecret
          exact nomatch hp.symm.trans hprocessed
      have hhonest : s.Honest sphinx ourPrivkey d := fun k hk => nomatch hunpaid.symm.trans hk
      have hsafe := safe_iff.mpr ⟨hhonest,fun k hk => nomatch hunpaid.symm.trans hk⟩
      have hnever (p : Processed) : some p ≠ s.processed sphinx ourPrivkey d :=
        fun heq => nomatch heq.trans hp
      refine iff_of_true ⟨⟨hhonest,fun p hp' => absurd hp'.symm (hnever p)⟩,fun k => ?_⟩
        ⟨hsafe,fun p hp' => absurd hp'.symm (hnever p)⟩
      rw [NodeMsg.payments,hp]
      cases d.isSettled k <;> simp
    | some p =>
      have hrun : HonestRun sphinx ourPrivkey (s :: rest) d ↔
          s.Honest sphinx ourPrivkey d ∧ HonestRun sphinx ourPrivkey rest p.node := by
        simp only [HonestRun,hp,some.injEq,forall_eq']
      have hsafe : SafeRun sphinx ourPrivkey (s :: rest) d ↔
          s.Safe sphinx ourPrivkey d ∧ SafeRun sphinx ourPrivkey rest p.node := by
        simp only [SafeRun,hp,some.injEq,forall_eq']
      rw [hrun,hsafe,paidOnce_cons hp,safe_iff,← ih p.node]
      constructor
      · rintro ⟨⟨hhonest,hlater⟩,honce,honce'⟩
        exact ⟨⟨hhonest,honce⟩,hlater,honce'⟩
      · rintro ⟨⟨hhonest,honce⟩,hlater,honce'⟩
        exact ⟨⟨hhonest,hlater⟩,honce,honce'⟩

end

def sampleInvoices : Bolt11InvoiceTable :=
  (invoiceCreate Sphinx.sample (samplePriv 1) (samplePriv 8) true 1000 3600 1000000 invoiceInit).1

def sampleInvoice : Bolt11InvoiceEntry :=
  createdInvoice Sphinx.sample (samplePriv 1) (samplePriv 8) 1000 3600 1000000

def sampleFinalOnion : Onion :=
  copyBytes 1366 ((onionBuild Sphinx.sample
    [{ (sampleHop 1 true).1 with paymentSecret := sampleInvoice.paymentSecret }]
    (samplePriv 5)).getD [])

def latePayment (htlcId : UInt64) : NodeMsg :=
  { peerIdx := 0
    now := 2000000
    turns := 6
    msg := updateAddHtlc (Blob.zero 32) htlcId 1 sampleInvoice.paymentHash 144 sampleFinalOnion }

def sampleNode : LnDispatch := ⟨[],some sampleInvoices,[⟨true,5⟩],[none]⟩

theorem latePayment_payments :
    NodeMsg.payments Sphinx.sample (samplePriv 1) [latePayment 0,latePayment 1] sampleNode =
      [0,0] := by
  decide +kernel

theorem latePayment_paid :
    (latePayment 0).paid Sphinx.sample (samplePriv 1) sampleNode = some 0 := by
  decide +kernel

theorem latePayment_amount : (parseAdd (latePayment 0).msg).map AddMsg.amountMsat = some 1 := by
  decide +kernel

theorem sampleInvoices_amount :
    (sampleInvoices.entries[0]?).map Bolt11InvoiceEntry.amountMsat = some 1000 := by
  decide +kernel

theorem invoice_underpaid_twice :
    ¬ HonestRun Sphinx.sample (samplePriv 1) [latePayment 0,latePayment 1] sampleNode ∧
      ¬ PaidOnce Sphinx.sample (samplePriv 1) [latePayment 0,latePayment 1] sampleNode := by
  constructor
  · rintro ⟨hhonest,-⟩
    obtain ⟨tbl,add,e,secret,htbl,hadd,he,-,-,hhonoured⟩ := hhonest 0 latePayment_paid
    obtain rfl := some.inj htbl
    have hpaid := latePayment_amount
    rw [hadd] at hpaid
    have hdue := sampleInvoices_amount
    rw [he] at hdue
    have hle := hhonoured.amount
    rw [show e.amountMsat = 1000 from some.inj hdue,
      show add.amountMsat = 1 from some.inj hpaid] at hle
    exact absurd hle (by decide)
  · intro honce
    have htwice := honce 0
    rw [latePayment_payments] at htwice
    exact absurd (Nat.le_of_add_right_le htwice) (by decide)

end SuperScalar
