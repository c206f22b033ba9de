import SuperScalar.Lsp.Forward

namespace SuperScalar

open Option LspAction

def Forwarded (r : Handled) : Prop :=
  r.actions.any isAdd = true ∨ (r.ok = true ∧ r.actions.any isPay = true)

instance (r : Handled) : Decidable (Forwarded r) := inferInstanceAs (Decidable (_ ∨ _))

structure SenderUntouched (mgr : LspMgr) (senderIdx : ℕ) (mgr' : LspMgr) : Prop where
  funds : ∀ ch ch', mgr.channel? senderIdx = some ch → mgr'.channel? senderIdx = some ch' →
    ch'.localAmount = ch.localAmount ∧ ch'.remoteAmount = ch.remoteAmount ∧ ch'.htlcs = ch.htlcs
  fees : mgr'.accumulatedFeesSats = mgr.accumulatedFeesSats
  counters : mgr'.counters = mgr.counters

section

variable {m : Musig} {f : Factory} {w : AddWorld} {senderIdx : ℕ} {msg : AddHtlcMsg} {mgr : LspMgr}
  {added : Channel} {newHtlcId : UInt64} {r : Handled} {saved : List LspAction}

theorem forwarded_after (hsaved : saved.filter isAdd = [] ∧
    saved.any isPay = false) : Forwarded (r.after saved) ↔ Forwarded r := by
  have hadd : saved.any isAdd = false := by
    rw [List.any_eq_false]
    exact fun a ha hadd => List.filter_eq_nil_iff.mp hsaved.1 a ha hadd
  unfold Forwarded Handled.after
  simp only [List.any_append,hadd,hsaved.2,Bool.false_or]

theorem RouteOutcome.forwarded (h : RouteOutcome m f w senderIdx msg mgr added newHtlcId r) :
    Forwarded r ↔ Routable f w senderIdx msg mgr := by
  cases h with
  | kept hroute => exact iff_of_false (by simp [Forwarded]) hroute
  | charged _ _ _ _ hroute => exact iff_of_false (by simp [Forwarded]) hroute
  | destRefused _ _ _ _ _ hroute =>
    exact iff_of_false (by simp [Forwarded]) hroute
  | placed destIdx _ ch _ terms cltv actions _ hforward _ hannounced =>
    refine iff_of_true (.inl ?_) (.inl ⟨_,_,_,_,_,hforward⟩)
    rw [List.any_eq_true]
    have hmem : announcement destIdx terms.amountMsat msg.paymentHash cltv ch.nextHtlcId ∈
        actions.filter isAdd := by
      rw [hannounced]
      exact List.mem_singleton.mpr rfl
    exact ⟨_,(List.mem_filter.mp hmem).1,rfl⟩
  | bridge _ _ hroute =>
    rw [hroute]
    simp [Forwarded,isAdd,isPay]

theorem added_touches {direction : HtlcDirection} {amountSats : UInt64} {paymentHash : Blob 32}
    {cltvExpiry : UInt32} {ch ch' : Channel} {mgr' : LspMgr}
    (hfound : mgr.channel? senderIdx = some ch) (hafter : mgr'.channel? senderIdx = some ch')
    (hadded : Added direction amountSats paymentHash cltvExpiry ch ch') :
    ¬ SenderUntouched mgr senderIdx mgr' := by
  intro h
  obtain ⟨-,-,hhtlcs⟩ := h.funds ch ch' hfound hafter
  have hlen := congrArg List.length (hadded.appended.symm.trans hhtlcs)
  simp at hlen

end

def unknownDest : AddHtlcMsg := ⟨0,20000000,Blob.zero 32,500,some 7,none⟩

end SuperScalar
