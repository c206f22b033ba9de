import Mathlib.Tactic

abbrev Bytes := List UInt8

abbrev Blob (n : ℕ) := {bs : Bytes // bs.length = n}

def Blob.fill (n : ℕ) (x : UInt8) : Blob n := ⟨List.replicate n x,List.length_replicate⟩

def Blob.zero (n : ℕ) : Blob n := ⟨List.replicate n 0,List.length_replicate⟩

@[simp] theorem Blob.length_val {n : ℕ} (b : Blob n) : b.val.length = n := b.property

def Blob.append {m n : ℕ} (a : Blob m) (b : Blob n) : Blob (m+n) :=
  ⟨a.val ++ b.val,by rw [List.length_append,a.length_val,b.length_val]⟩

structure Wire (α : Type) where
  put : α → Bytes
  get : Bytes → Option (α × Bytes)
  ok : α → Prop
  get_put : ∀ a rest, ok a → get (put a ++ rest) = some (a,rest)

namespace Wire

open List UInt8

variable {α β : Type}

theorem put_append_inj (c : Wire α) {a b : α} {r s : Bytes} (ha : c.ok a) (hb : c.ok b)
    (h : c.put a ++ r = c.put b ++ s) : a = b ∧ r = s := by
  have hg := c.get_put a r ha
  rw [h,c.get_put b s hb] at hg
  simp only [Option.some.injEq,Prod.mk.injEq] at hg
  exact ⟨hg.1.symm,hg.2.symm⟩

theorem put_inj (c : Wire α) {a b : α} (ha : c.ok a) (hb : c.ok b)
    (h : c.put a = c.put b) : a = b :=
  (c.put_append_inj (r := []) (s := []) ha hb (by simpa using h)).1

def iso (c : Wire α) (f : α → β) (g : β → α) (h : ∀ b, f (g b) = b) : Wire β where
  put b := c.put (g b)
  get bs := (c.get bs).map (fun p => (f p.1,p.2))
  ok b := c.ok (g b)
  get_put b rest hb := by simp [c.get_put _ rest hb,h]

def pair (c : Wire α) (d : Wire β) : Wire (α × β) where
  put p := c.put p.1 ++ d.put p.2
  get bs := (c.get bs).bind (fun p => (d.get p.2).map (fun q => ((p.1,q.1),q.2)))
  ok p := c.ok p.1 ∧ d.ok p.2
  get_put p rest hp := by
    rw [append_assoc,c.get_put _ _ hp.1]
    simp [d.get_put _ rest hp.2]

def getMany (c : Wire α) : ℕ → Bytes → Option (List α × Bytes)
  | 0, bs => some ([],bs)
  | n+1, bs => (c.get bs).bind (fun p => (getMany c n p.2).map (fun q => (p.1 :: q.1,q.2)))

def putMany (c : Wire α) (xs : List α) : Bytes := xs.flatMap c.put

theorem getMany_putMany (c : Wire α) (xs : List α) (rest : Bytes) (h : ∀ x ∈ xs, c.ok x) :
    c.getMany xs.length (c.putMany xs ++ rest) = some (xs,rest) := by
  induction xs with
  | nil => rfl
  | cons x _ ih =>
    have hx := h x (by simp)
    have hxs := ih (fun y hy => h y (by simp [hy]))
    simp only [putMany,flatMap_cons,append_assoc,length_cons,getMany] at hxs ⊢
    rw [c.get_put _ _ hx]
    simp [hxs]

theorem putMany_inj (c : Wire α) (hne : ∀ x, c.put x ≠ []) {xs ys : List α}
    (hx : ∀ x ∈ xs, c.ok x) (hy : ∀ y ∈ ys, c.ok y) (h : c.putMany xs = c.putMany ys) :
    xs = ys := by
  induction xs generalizing ys with
  | nil =>
    cases ys with
    | nil => rfl
    | cons y => exact absurd h.symm (by simp [putMany,hne y])
  | cons x xs ih =>
    cases ys with
    | nil => exact absurd h (by simp [putMany,hne x])
    | cons y ys =>
      have hs : c.put x ++ c.putMany xs = c.put y ++ c.putMany ys := by
        simpa [putMany] using h
      obtain ⟨rfl,ht⟩ := c.put_append_inj (hx x (by simp)) (hy y (by simp)) hs
      rw [ih (fun z hz => hx z (by simp [hz])) (fun z hz => hy z (by simp [hz])) ht]

def leBytes : ℕ → ℕ → Bytes
  | 0, _ => []
  | w+1, v => ofNat v :: leBytes w (v/256)

def leNat : Bytes → ℕ
  | [] => 0
  | b :: bs => b.toNat+256*leNat bs

@[simp] theorem leBytes_length (w v : ℕ) : (leBytes w v).length = w := by
  induction w generalizing v with
  | zero => rfl
  | succ _ ih => simp [leBytes,ih]

theorem leBytes_eq_map (w v : ℕ) : leBytes w v = (range w).map (fun i => ofNat (v/256^i)) := by
  induction w generalizing v with
  | zero => rfl
  | succ _ ih =>
    rw [leBytes,ih,range_succ_eq_map]
    simp [Nat.div_div_eq_div_mul,pow_succ']

theorem leNat_leBytes (w v : ℕ) (h : v < 256^w) : leNat (leBytes w v) = v := by
  induction w generalizing v with
  | zero => simp_all [leBytes,leNat]
  | succ w ih =>
    have hq : v/256 < 256^w := by
      rw [Nat.div_lt_iff_lt_mul (by norm_num)]
      rwa [pow_succ] at h
    simp only [leBytes,leNat,ih _ hq,toNat_ofNat']
    omega

def raw (n : ℕ) : Wire (Blob n) where
  put b := b.val
  get bs := if h : n ≤ bs.length then some (⟨bs.take n,by simp [h]⟩,bs.drop n) else none
  ok _ := True
  get_put b rest _ := by
    obtain ⟨bs,rfl⟩ := b
    simp

def word (w : ℕ) : Wire ℕ where
  put v := leBytes w v
  get bs := if w ≤ bs.length then some (leNat (bs.take w),bs.drop w) else none
  ok v := v < 256^w
  get_put v rest hv := by
    have ht : (leBytes w v ++ rest).take w = leBytes w v := by
      simp
    have hd : (leBytes w v ++ rest).drop w = rest := by
      simp
    rw [if_pos (by simp),ht,hd,leNat_leBytes w v hv]

def u32 : Wire UInt32 where
  put v := leBytes 4 v.toNat
  get bs := ((word 4).get bs).map (fun p => (UInt32.ofNat p.1,p.2))
  ok _ := True
  get_put v rest _ := by
    have h := (word 4).get_put v.toNat rest (by simpa [word] using v.toNat_lt)
    change ((word 4).get ((word 4).put v.toNat ++ rest)).map _ = _
    simp [h]

def u64 : Wire UInt64 where
  put v := leBytes 8 v.toNat
  get bs := ((word 8).get bs).map (fun p => (UInt64.ofNat p.1,p.2))
  ok _ := True
  get_put v rest _ := by
    have h := (word 8).get_put v.toNat rest (by simpa [word] using v.toNat_lt)
    change ((word 8).get ((word 8).put v.toNat ++ rest)).map _ = _
    simp [h]

@[simp] theorem u32_put_length (v : UInt32) : (u32.put v).length = 4 := leBytes_length 4 _

@[simp] theorem u64_put_length (v : UInt64) : (u64.put v).length = 8 := leBytes_length 8 _

def getWide (w lo : ℕ) (bs : Bytes) : Option (ℕ × Bytes) :=
  ((word w).get bs).bind (fun p => if lo ≤ p.1 then some p else none)

theorem getWide_put (w lo v : ℕ) (rest : Bytes) (hlo : lo ≤ v) (hv : v < 256^w) :
    getWide w lo (leBytes w v ++ rest) = some (v,rest) := by
  have h : (word w).get (leBytes w v ++ rest) = some (v,rest) := (word w).get_put v rest hv
  simp [getWide,h,hlo]

def putSize (n : ℕ) : Bytes :=
  if n < 253 then [ofNat n]
  else if n < 0x10000 then 0xfd :: leBytes 2 n
  else if n < 0x100000000 then 0xfe :: leBytes 4 n
  else 0xff :: leBytes 8 n

def getSize : Bytes → Option (ℕ × Bytes)
  | [] => none
  | b :: bs =>
    if b.toNat < 253 then some (b.toNat,bs)
    else if b = 0xfd then getWide 2 253 bs
    else if b = 0xfe then getWide 4 0x10000 bs
    else getWide 8 0x100000000 bs

theorem getSize_putSize (n : ℕ) (rest : Bytes) (hn : n < 256^8) :
    getSize (putSize n ++ rest) = some (n,rest) := by
  unfold putSize
  split_ifs with h1 h2 h3
  · have hb : (ofNat n).toNat = n := by
      rw [toNat_ofNat']
      omega
    simp [getSize,hb,h1]
  · exact getWide_put 2 253 n rest (by omega) (by omega)
  · exact getWide_put 4 0x10000 n rest (by omega) (by omega)
  · exact getWide_put 8 0x100000000 n rest (by omega) hn

def compactSize : Wire ℕ where
  put := putSize
  get := getSize
  ok n := n < 256^8
  get_put := getSize_putSize

theorem compactSize_put_small (n : ℕ) (h : n < 253) : compactSize.put n = [ofNat n] := by
  simp [compactSize,putSize,h]

def counted (c : Wire α) : Wire (List α) where
  put xs := compactSize.put xs.length ++ c.putMany xs
  get bs := (compactSize.get bs).bind (fun p => c.getMany p.1 p.2)
  ok xs := xs.length < 256^8 ∧ ∀ x ∈ xs, c.ok x
  get_put xs rest h := by
    rw [append_assoc,compactSize.get_put _ _ h.1]
    exact c.getMany_putMany xs rest h.2

def bytes : Wire Bytes where
  put bs := compactSize.put bs.length ++ bs
  get bs := (compactSize.get bs).bind (fun p =>
    if p.1 ≤ p.2.length then some (p.2.take p.1,p.2.drop p.1) else none)
  ok bs := bs.length < 256^8
  get_put bs rest h := by
    rw [append_assoc,compactSize.get_put _ _ h]
    simp

end Wire
