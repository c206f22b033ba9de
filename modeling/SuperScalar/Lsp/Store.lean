import SuperScalar.Lsp.Bridge
import Mathlib.Data.List.Sort

namespace SuperScalar

open List

structure ChannelRow where
  localAmount : UInt64
  remoteAmount : UInt64
  commitmentNumber : UInt64
deriving DecidableEq

structure Db where
  channels : List ChannelRow
  htlcs : List (ℕ × Htlc)
deriving DecidableEq

def persistUpdateChannelBalance (channelId : ℕ) (localAmount remoteAmount commitmentNumber : UInt64)
    (db : Db) : Db :=
  { db with channels := db.channels.set channelId ⟨localAmount,remoteAmount,commitmentNumber⟩ }

def persistDeleteHtlc (channelId : ℕ) (htlcId : UInt64) (db : Db) : Db :=
  { db with htlcs := db.htlcs.filter (fun r => ¬ (r.1 = channelId ∧ r.2.id = htlcId)) }

def persistSaveHtlc (channelId : ℕ) (htlc : Htlc) (db : Db) : Db :=
  let rest := persistDeleteHtlc channelId htlc.id db
  { rest with htlcs := rest.htlcs ++ [(channelId,htlc)] }

def persistLoadChannelState (channelId : ℕ) (db : Db) : Option ChannelRow :=
  (db.channels[channelId]?).filter (fun row => ¬ (row.localAmount = 0 ∧ row.remoteAmount = 0))

def persistLoadHtlcs (channelId maxCount : ℕ) (db : Db) : List Htlc :=
  (((db.htlcs.filter (fun r => r.1 = channelId)).map Prod.snd).insertionSort
    (fun a b => a.id.toInt64 ≤ b.id.toInt64)).take maxCount

def Db.apply (db : Db) : LspAction → Db
  | .saveBalance c l r n => persistUpdateChannelBalance c l r n db
  | .saveHtlc c h => persistSaveHtlc c h db
  | .deleteHtlc c id => persistDeleteHtlc c id db
  | _ => db

def Db.record (db : Db) (actions : List LspAction) : Db := actions.foldl Db.apply db

section

variable (m : Musig)

structure Basepoints where
  payment : Pubkey
  delayed : Pubkey
  revocation : Pubkey
  htlc : Pubkey

structure InitInput where
  params : ChannelParams
  alloc : Bool
  draw0 : PcsDraw
  draw1 : PcsDraw
  keyagg : Keyagg
  signerIdx : ℕ
  merkleRoot : Option (Blob 32)
  ours : Basepoints
  theirs : Basepoints
  nonces : List (Secnonce × Pubnonce)

def initChannel (i : InitInput) : Option Channel :=
  (channelInit m i.params i.alloc i.draw0 i.draw1).map (fun ch =>
    { ch with
      funderIsLocal := true
      fundingKeyagg := i.keyagg
      localFundingSignerIdx := i.signerIdx
      chanMerkleRoot := i.merkleRoot
      localPaymentBasepoint := i.ours.payment
      localDelayedPaymentBasepoint := i.ours.delayed
      localRevocationBasepoint := i.ours.revocation
      localHtlcBasepoint := i.ours.htlc
      remotePaymentBasepoint := i.theirs.payment
      remoteDelayedPaymentBasepoint := i.theirs.delayed
      remoteRevocationBasepoint := i.theirs.revocation
      remoteHtlcBasepoint := i.theirs.htlc })

def restoreChannel (i : InitInput) (channelId : ℕ) (db : Db) : Option Channel := do
  let ch ← initChannel m i
  let row ← persistLoadChannelState channelId db
  let loaded := (persistLoadHtlcs channelId maxHtlcs db).filter Htlc.isActive
  if loaded.length > ch.htlcsCap then none
  some (channelInitNoncePool i.nonces
    { ch with
      localAmount := row.localAmount
      remoteAmount := row.remoteAmount
      commitmentNumber := row.commitmentNumber
      htlcs := loaded })

def lspChannelsInitFromDb (inputs : ℕ → InitInput) (nClients : ℕ) (db : Db) :
    Option (List LspEntry) :=
  (range nClients).mapM (fun c =>
    (restoreChannel m (inputs c) c db).map (fun ch => ⟨ch,UInt32.ofNat c,true,0⟩))

def Channel.loadState (ch : Channel) (channelId : ℕ) (db : Db) (row : ChannelRow) :
    Option Channel :=
  let loaded := persistLoadHtlcs channelId maxHtlcs db
  if loaded.length > ch.htlcsCap then none
  else
    some
      { ch with
        localAmount := row.localAmount
        remoteAmount := row.remoteAmount
        commitmentNumber := row.commitmentNumber
        htlcs := loaded }

def reconcile (commitmentNumber : UInt64) (channelId : ℕ) (db : Db) (ch : Channel) :
    Option Channel :=
  if commitmentNumber = ch.commitmentNumber then some ch
  else if ch.commitmentNumber-commitmentNumber = 1 then
    (persistLoadChannelState channelId db).bind (ch.loadState channelId db)
  else if commitmentNumber-ch.commitmentNumber = 1 then
    match persistLoadChannelState channelId db with
    | none => some { ch with commitmentNumber := commitmentNumber }
    | some row => ch.loadState channelId db { row with commitmentNumber := commitmentNumber }
  else none

end

section

structure View where
  row : Option ChannelRow
  htlcs : List Htlc

def Db.view (db : Db) (c : ℕ) : View :=
  ⟨db.channels[c]?,(db.htlcs.filter (fun r => r.1 = c)).map Prod.snd⟩

def LspAction.write (c : ℕ) (v : View) : LspAction → View
  | .saveBalance c' l r n => if c' = c then { v with row := v.row.map (fun _ => ⟨l,r,n⟩) } else v
  | .saveHtlc c' h =>
    if c' = c then { v with htlcs := v.htlcs.filter (fun x => x.id ≠ h.id) ++ [h] } else v
  | .deleteHtlc c' id =>
    if c' = c then { v with htlcs := v.htlcs.filter (fun x => x.id ≠ id) } else v
  | _ => v

def writes (c : ℕ) (v : View) (actions : List LspAction) : View :=
  actions.foldl (LspAction.write c) v

def LspAction.target : LspAction → Option ℕ
  | .saveBalance c _ _ _ => some c
  | .saveHtlc c _ => some c
  | .deleteHtlc c _ => some c
  | _ => none

variable {c : ℕ} {v : View} {db : Db} {a : LspAction} {actions : List LspAction}

theorem rows_delete (channelId : ℕ) (id : UInt64) :
    ((db.htlcs.filter (fun r => ¬ (r.1 = channelId ∧ r.2.id = id))).filter
      (fun r => r.1 = c)).map Prod.snd =
      if channelId = c then (db.view c).htlcs.filter (fun x => x.id ≠ id) else (db.view c).htlcs := by
  unfold Db.view
  rw [filter_filter]
  split_ifs with hc
  · subst hc
    rw [filter_map,filter_filter]
    congr 1
    refine filter_congr fun r _ => ?_
    by_cases hr : r.1 = channelId <;> simp [hr]
  · congr 1
    refine filter_congr fun r _ => ?_
    by_cases hr : r.1 = c
    · have hne : ¬ r.1 = channelId := fun h => hc (h.symm.trans hr)
      simp [hr,Ne.symm hc]
    · simp [hr]

theorem view_apply (db : Db) (c : ℕ) (a : LspAction) :
    (db.apply a).view c = a.write c (db.view c) := by
  cases a with
  | saveBalance =>
    unfold Db.apply LspAction.write persistUpdateChannelBalance Db.view
    dsimp only
    split_ifs with hc
    · subst hc
      congr 1
      rw [getElem?_set_self']
      rfl
    · rw [getElem?_set_ne hc]
  | saveHtlc c' h =>
    have hrows := @rows_delete c db c' h.id
    unfold Db.apply LspAction.write persistSaveHtlc persistDeleteHtlc
    unfold Db.view
    rw [filter_append,map_append,hrows]
    split_ifs with hc
    · subst hc
      simp [Db.view]
    · simp [Db.view,hc]
  | deleteHtlc c' id =>
    have hrows := @rows_delete c db c' id
    unfold Db.apply LspAction.write persistDeleteHtlc
    dsimp only
    unfold Db.view at hrows ⊢
    rw [hrows]
    split_ifs <;> rfl
  | send => rfl
  | sendPay => rfl
  | sendBridgeFulfill => rfl
  | sendBridgeFail => rfl

theorem view_record (db : Db) (c : ℕ) (actions : List LspAction) :
    (db.record actions).view c = writes c (db.view c) actions := by
  induction actions generalizing db with
  | nil => rfl
  | cons a _ ih =>
    have hrest := ih (db.apply a)
    rw [view_apply] at hrest
    exact hrest

theorem write_other (h : a.target ≠ some c) : a.write c v = v := by
  cases a with
  | saveBalance c' l r n => exact if_neg fun hc => h (congrArg some hc)
  | saveHtlc c' x => exact if_neg fun hc => h (congrArg some hc)
  | deleteHtlc c' id => exact if_neg fun hc => h (congrArg some hc)
  | send => rfl
  | sendPay => rfl
  | sendBridgeFulfill => rfl
  | sendBridgeFail => rfl

theorem writes_append (xs ys : List LspAction) :
    writes c v (xs++ys) = writes c (writes c v xs) ys := foldl_append

theorem writes_other (h : ∀ a ∈ actions, a.target ≠ some c) : writes c v actions = v := by
  induction actions with
  | nil => rfl
  | cons a rest ih =>
    have hfirst : a.write c v = v := write_other (h a mem_cons_self)
    change writes c (a.write c v) rest = v
    rw [hfirst]
    exact ih fun b hb => h b (mem_cons_of_mem _ hb)

theorem writes_flatten {lists : List (List LspAction)} {own : List LspAction}
    (hown : lists[c]? = some own)
    (h : ∀ k l, k ≠ c → lists[k]? = some l → ∀ a ∈ l, a.target ≠ some c) (v : View) :
    writes c v lists.flatten = writes c v own := by
  obtain ⟨hlt,hget⟩ := List.getElem?_eq_some_iff.mp hown
  have hsplit : lists = lists.take c ++ own :: lists.drop (c+1) := by
    rw [← hget,← drop_eq_getElem_cons hlt,take_append_drop]
  have hbefore : ∀ a ∈ (lists.take c).flatten, a.target ≠ some c := by
    intro a ha
    obtain ⟨l,hl,hal⟩ := mem_flatten.mp ha
    obtain ⟨k,hk⟩ := mem_iff_getElem?.mp hl
    rw [getElem?_take] at hk
    split_ifs at hk with hlt'
    exact h k l (Nat.ne_of_lt hlt') hk a hal
  have hafter : ∀ a ∈ (lists.drop (c+1)).flatten, a.target ≠ some c := by
    intro a ha
    obtain ⟨l,hl,hal⟩ := mem_flatten.mp ha
    obtain ⟨k,hk⟩ := mem_iff_getElem?.mp hl
    rw [getElem?_drop] at hk
    exact h (c+1 + k) l (by omega) hk a hal
  rw [hsplit,flatten_append,flatten_cons,writes_append,writes_append,
    writes_other hbefore,writes_other hafter]

end

end SuperScalar
