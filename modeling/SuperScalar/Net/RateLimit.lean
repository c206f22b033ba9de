import SuperScalar.Foundation.Runs
import SuperScalar.Foundation.Wire

namespace SuperScalar

open List

-- `timestamps` is the ring of 64 entries, the oldest first.
structure RateLimitBucket where
  ipHash : UInt32
  timestamps : List ℤ

structure RateLimiter where
  maxPerWindow : ℕ
  windowSecs : ℤ

def rateLimiterInit (maxPerWindow windowSecs : ℤ) : RateLimiter :=
  ⟨if maxPerWindow > 0 then maxPerWindow.toNat else 10,if windowSecs > 0 then windowSecs else 60⟩

def hashIp (ip : Bytes) : UInt32 := ip.foldl (fun h c => ((h <<< 5)+h) ^^^ c.toUInt32) 5381

abbrev Buckets := UInt32 → RateLimitBucket

-- A bucket of another hash is reset; an empty one has nothing to lose.
def Buckets.held (bs : Buckets) (h : UInt32) : List ℤ :=
  if (bs (h % 256)).ipHash = h then (bs (h % 256)).timestamps else []

def Buckets.write (bs : Buckets) (h : UInt32) (timestamps : List ℤ) : Buckets :=
  Function.update bs (h % 256) ⟨h,timestamps⟩

def pushStamp (timestamps : List ℤ) (now : ℤ) : List ℤ :=
  (if timestamps.length < 64 then timestamps else timestamps.tail) ++ [now]

structure RateRun where
  buckets : Buckets
  now : ℤ
  log : List (Bytes × ℤ)

section

variable (rl : RateLimiter)

def countRecent (timestamps : List ℤ) (now : ℤ) : ℕ :=
  timestamps.countP (fun t => now-rl.windowSecs ≤ t)

def rateLimiterAllow (bs : Buckets) (ip : Bytes) (now : ℤ) : Buckets × Bool :=
  let held := bs.held (hashIp ip)
  if countRecent rl held now ≥ rl.maxPerWindow then (bs.write (hashIp ip) held,false)
  else (bs.write (hashIp ip) (pushStamp held now),true)

def rateStep (s : RateRun) (o : Bytes × ℤ) : RateRun :=
  let (buckets,ok) := rateLimiterAllow rl s.buckets o.1 o.2
  ⟨buckets,o.2,if ok then s.log ++ [o] else s.log⟩

def RateStart (now : ℤ) : RateRun := ⟨fun _ => ⟨0,[]⟩,now,[]⟩

-- Time does not run back, and a bucket of another address has no entry within the window.
def AttemptOk (s : RateRun) (o : Bytes × ℤ) : Prop :=
  s.now ≤ o.2 ∧ ((s.buckets (hashIp o.1 % 256)).ipHash ≠ hashIp o.1 →
    ∀ t ∈ (s.buckets (hashIp o.1 % 256)).timestamps, t < o.2-rl.windowSecs)

def RateBounded (s : RateRun) : Prop :=
  ∀ ip t, s.log.countP (fun a => a.1 = ip ∧ t ≤ a.2 ∧ a.2 ≤ t + rl.windowSecs) ≤ rl.maxPerWindow

end

def RateRun.own (s : RateRun) (h : UInt32) : List ℤ :=
  (s.log.filter (fun a => hashIp a.1 = h)).map Prod.snd

-- What has left the ring is older than the window.
structure RateKept (rl : RateLimiter) (s : RateRun) (h : UInt32) : Prop where
  split : ∃ old, s.own h = old ++ s.buckets.held h ∧ ∀ t ∈ old, t < s.now-rl.windowSecs
  sorted : (s.own h).Pairwise (· ≤ ·)
  past : ∀ t ∈ s.own h, t ≤ s.now
  bounded : ∀ t, (s.own h).countP (fun x => t ≤ x ∧ x ≤ t + rl.windowSecs) ≤ rl.maxPerWindow

section

variable {rl : RateLimiter} {s : RateRun} {o : Bytes × ℤ} {h : UInt32} {now : ℤ}

theorem held_write (bs : Buckets) (h : UInt32) (ts : List ℤ) : (bs.write h ts).held h = ts := by
  simp [Buckets.held,Buckets.write]

theorem held_start (now : ℤ) (h : UInt32) : (RateStart now).buckets.held h = [] := ite_self []

theorem step_admitted (h : countRecent rl (s.buckets.held (hashIp o.1)) o.2 < rl.maxPerWindow) :
    rateStep rl s o = ⟨s.buckets.write (hashIp o.1) (pushStamp (s.buckets.held (hashIp o.1)) o.2),
      o.2,s.log ++ [o]⟩ := by
  simp [rateStep,rateLimiterAllow,not_le.mpr h]

theorem step_refused (h : rl.maxPerWindow ≤ countRecent rl (s.buckets.held (hashIp o.1)) o.2) :
    rateStep rl s o = ⟨s.buckets.write (hashIp o.1) (s.buckets.held (hashIp o.1)),o.2,s.log⟩ := by
  simp [rateStep,rateLimiterAllow,h]

theorem held_other (hguard : AttemptOk rl s o) (hne : hashIp o.1 ≠ h) (ts : List ℤ) :
    (s.buckets.write (hashIp o.1) ts).held h = s.buckets.held h ∨
      (s.buckets.write (hashIp o.1) ts).held h = [] ∧
      ∀ t ∈ s.buckets.held h, t < o.2-rl.windowSecs := by
  by_cases hslot : h % 256 = hashIp o.1 % 256
  · refine .inr ⟨by simp [Buckets.held,Buckets.write,hslot,hne],fun t ht => ?_⟩
    simp only [Buckets.held,hslot] at ht
    split_ifs at ht with howner
    · exact hguard.2 (fun heq => hne (heq.symm.trans howner)) t ht
    · cases ht
  · exact .inl (by simp [Buckets.held,Buckets.write,hslot])

namespace RateKept

variable (hk : RateKept rl s h)

include hk

theorem older (hnow : s.now ≤ now) :
    ∃ old, s.own h = old ++ s.buckets.held h ∧ ∀ t ∈ old, t < now-rl.windowSecs := by
  obtain ⟨old,heq,hold⟩ := hk.split
  exact ⟨old,heq,fun t ht => by have := hold t ht; omega⟩

theorem recent (hnow : s.now ≤ now) :
    countRecent rl (s.own h) now = countRecent rl (s.buckets.held h) now := by
  obtain ⟨old,heq,hold⟩ := hk.older hnow
  have hnone : countRecent rl old now = 0 := by
    refine countP_eq_zero.mpr fun t ht => ?_
    simpa using Int.not_le.mpr (hold t ht)
  rw [heq,countRecent,countP_append,← countRecent,hnone,Nat.zero_add,countRecent]

theorem oldest {x : ℤ} {rest : List ℤ} (hheld : s.buckets.held h = x :: rest)
    (hfew : countRecent rl (x :: rest) now < rest.length+1) : x < now-rl.windowSecs := by
  obtain ⟨old,heq,-⟩ := hk.split
  have hsorted := hk.sorted
  rw [heq,hheld,pairwise_append,pairwise_cons] at hsorted
  by_contra hx
  refine hfew.ne (countP_eq_length.mpr ?_)
  simp only [forall_mem_cons,decide_eq_true_eq]
  exact ⟨by omega,fun t ht => by have := hsorted.2.1.1 t ht; omega⟩

theorem same (hnow : s.now ≤ now) {bs : Buckets} {log : List (Bytes × ℤ)}
    (hown : RateRun.own ⟨bs,now,log⟩ h = s.own h) (hheld : bs.held h = s.buckets.held h ∨
      bs.held h = [] ∧ ∀ t ∈ s.buckets.held h, t < now-rl.windowSecs) :
    RateKept rl ⟨bs,now,log⟩ h := by
  obtain ⟨old,heq,hold⟩ := hk.older hnow
  refine ⟨?_,hown ▸ hk.sorted,fun t ht => (hk.past t (hown ▸ ht)).trans hnow,hown ▸ hk.bounded⟩
  rw [hown,heq]
  rcases hheld with hheld | ⟨hheld,hall⟩
  · exact ⟨old,by rw [hheld],hold⟩
  · exact ⟨old ++ s.buckets.held h,by rw [hheld,append_nil],forall_mem_append.mpr ⟨hold,hall⟩⟩

theorem admitted (hmax : rl.maxPerWindow ≤ 64) (hnow : s.now ≤ now) {bs : Buckets}
    {log : List (Bytes × ℤ)} (hown : RateRun.own ⟨bs,now,log⟩ h = s.own h ++ [now])
    (hheld : bs.held h = pushStamp (s.buckets.held h) now)
    (hfew : countRecent rl (s.buckets.held h) now < rl.maxPerWindow) :
    RateKept rl ⟨bs,now,log⟩ h := by
  refine ⟨?_,?_,?_,fun t => ?_⟩ <;> rw [hown]
  · obtain ⟨old,heq,hold⟩ := hk.older hnow
    rw [hheld,heq,pushStamp]
    split_ifs with hroom
    · exact ⟨old,append_assoc ..,hold⟩
    · cases hring : s.buckets.held h with
      | nil => simp [hring] at hroom
      | cons x rest =>
        rw [hring] at hfew hroom
        rw [length_cons] at hroom
        have hx := hk.oldest hring (by omega : countRecent rl (x :: rest) now < rest.length+1)
        exact ⟨old ++ [x],by simp,forall_mem_append.mpr ⟨hold,by simpa using hx⟩⟩
  · refine pairwise_append.mpr ⟨hk.sorted,pairwise_singleton ..,fun t ht u hu => ?_⟩
    rw [mem_singleton.mp hu]
    exact (hk.past t ht).trans hnow
  · exact forall_mem_append.mpr ⟨fun t ht => (hk.past t ht).trans hnow,by simp⟩
  · rw [countP_append,countP_singleton]
    split_ifs with hin
    · have hmono : (s.own h).countP (fun x => t ≤ x ∧ x ≤ t + rl.windowSecs) ≤
          countRecent rl (s.own h) now := countP_mono_left fun x _ hx => by
        simp only [decide_eq_true_eq] at hx hin ⊢
        omega
      rw [hk.recent hnow] at hmono
      omega
    · exact hk.bounded t

theorem step (hmax : rl.maxPerWindow ≤ 64) (hguard : AttemptOk rl s o) :
    RateKept rl (rateStep rl s o) h := by
  rcases lt_or_ge (countRecent rl (s.buckets.held (hashIp o.1)) o.2) rl.maxPerWindow with hfew | hfull
  · rw [step_admitted hfew]
    by_cases heq : hashIp o.1 = h
    · subst heq
      exact hk.admitted hmax hguard.1 (by simp [RateRun.own]) (held_write ..) hfew
    · exact hk.same hguard.1 (by simp [RateRun.own,heq]) (held_other hguard heq _)
  · rw [step_refused hfull]
    refine hk.same hguard.1 rfl ?_
    by_cases heq : hashIp o.1 = h
    · exact .inl (heq ▸ held_write ..)
    · exact held_other hguard heq _

end RateKept

theorem bounded_of_kept (hk : ∀ h, RateKept rl s h) : RateBounded rl s := by
  intro ip t
  refine le_trans ?_ ((hk (hashIp ip)).bounded t)
  rw [RateRun.own,countP_map,countP_filter]
  refine countP_mono_left fun a _ ha => ?_
  simp only [decide_eq_true_eq,Function.comp_apply,Bool.and_eq_true] at ha ⊢
  exact ⟨ha.2,congrArg hashIp ha.1⟩

theorem unlimited_run (hmax : 64 < rl.maxPerWindow) (now : ℤ) (n : ℕ) :
    ∃ s, Runs.Reaches (rateStep rl) (AttemptOk rl) (RateStart now) s ∧ s.now = now ∧
      s.log = replicate n ([],now) ∧ (s.buckets.held (hashIp [])).length ≤ 64 ∧
      ((s.buckets (hashIp [] % 256)).ipHash ≠ hashIp [] →
        (s.buckets (hashIp [] % 256)).timestamps = []) := by
  induction n with
  | zero => exact ⟨_,.refl,rfl,rfl,by simp [held_start],fun _ => rfl⟩
  | succ n ih =>
    obtain ⟨s,hrun,hnow,hlog,hheld,hfree⟩ := ih
    have hfew : countRecent rl (s.buckets.held (hashIp [])) now < rl.maxPerWindow :=
      countP_le_length.trans_lt (hheld.trans_lt hmax)
    have hstep : rateStep rl s ([],now) = _ := step_admitted hfew
    refine ⟨_,hrun.tail ⟨([],now),⟨hnow.le,fun hne => by simp [hfree hne]⟩,hstep⟩,rfl,?_,?_,?_⟩
    · simp only [hlog,replicate_succ']
    · simp only [held_write,pushStamp]
      split_ifs <;> simp <;> omega
    · simp [Buckets.write]

end

theorem rate_bounded_iff (maxPerWindow windowSecs now : ℤ) :
    (∀ s, Runs.Reaches (rateStep (rateLimiterInit maxPerWindow windowSecs))
      (AttemptOk (rateLimiterInit maxPerWindow windowSecs)) (RateStart now) s →
        RateBounded (rateLimiterInit maxPerWindow windowSecs) s) ↔
      (rateLimiterInit maxPerWindow windowSecs).maxPerWindow ≤ 64 := by
  have hpos : 0 ≤ (rateLimiterInit maxPerWindow windowSecs).windowSecs := by
    simp only [rateLimiterInit]
    split_ifs <;> omega
  generalize rateLimiterInit maxPerWindow windowSecs = rl at hpos ⊢
  refine ⟨fun h => ?_,fun hmax s hrun => bounded_of_kept ?_⟩
  · by_contra hmax
    obtain ⟨s,hrun,-,hlog,-⟩ := unlimited_run (not_le.mp hmax) now (rl.maxPerWindow+1)
    have hbound := h s hrun [] now
    rw [hlog,countP_replicate,if_pos (by simpa using hpos)] at hbound
    omega
  · refine hrun.invariant (I := fun t => ∀ h, RateKept rl t h)
      (fun _ _ hk hguard h => (hk h).step hmax hguard) fun h => ?_
    exact ⟨⟨[],by rw [held_start]; rfl,nofun⟩,.nil,nofun,fun _ => Nat.zero_le _⟩

-- "10.0.0.1" and "10.0.2.3" share a bucket.
theorem collision_resets :
    let ip := [49,48,46,48,46,48,46,49]
    let s := [(ip,0),([49,48,46,48,46,50,46,51],0),(ip,0)].foldl (rateStep (rateLimiterInit 1 60))
      (RateStart 0)
    s.log.countP (fun a => a.1 = ip ∧ 0 ≤ a.2 ∧ a.2 ≤ 0+60) = 2 := by
  decide +kernel

end SuperScalar
