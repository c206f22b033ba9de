import SuperScalar.Foundation.Decimal

namespace SuperScalar

open Decimal List Option UInt64 Nat

inductive Network where
  | bc
  | bs
  | tb
  | tbs
  | tb4
  | bcrt
deriving DecidableEq

def Network.name : Network → Bytes
  | .bc => [98,99]
  | .bs => [98,115]
  | .tb => [116,98]
  | .tbs => [116,98,115]
  | .tb4 => [116,98,52]
  | .bcrt => [98,99,114,116]

-- In the order of the table `nets`.
def nets : List Network := [.bc,.bs,.tb,.tbs,.tb4,.bcrt]

def lnPrefix : Bytes := [108,110]

def charMilli : UInt8 := 109

def charMicro : UInt8 := 117

def charNano : UInt8 := 110

def charPico : UInt8 := 112

def matchesNet (hrp : Bytes) (net : Network) : Bool :=
  net.name.isPrefixOf (hrp.drop 2) && (hrp[2 + net.name.length]?).all isDigit

def readDigits (ds : Bytes) : UInt64 :=
  ds.foldl (fun n c => n*10 + ofNat (digitValue c)) 0

def scaleAmount (n : UInt64) : Bytes → Option UInt64
  | [] => some (n*100000000*1000)
  | [c] =>
    if c = charMilli then some (n*100000)
    else if c = charMicro then some (n*100)
    else if c = charNano then some (n/10)
    else if c = charPico then some (n/10000)
    else none
  | _ => none

def parseNetwork (hrp : Bytes) : Option (Network × UInt64) :=
  if hrp.length < 4 ∨ lnPrefix.isPrefixOf hrp = false then none
  else
    match nets.find? (matchesNet hrp) with
    | none => none
    | some net =>
      let amt := hrp.drop (2+net.name.length)
      if amt = [] then some (net,0)
      else (scaleAmount (readDigits (amt.takeWhile isDigit)) (amt.dropWhile isDigit)).map (net,·)

-- The buffer of 128 bytes holds every name with every 64-bit number.
def buildHrp (net : Network) (hasAmount : Bool) (amountMsat : UInt64) : Bytes :=
  lnPrefix ++ net.name ++
    if hasAmount ∧ amountMsat > 0 then
      if amountMsat % 100000 = 0 then print (amountMsat/100000).toNat ++ [charMilli]
      else if amountMsat % 100 = 0 then print (amountMsat/100).toNat ++ [charMicro]
      else if amountMsat % 10 = 0 ∧ amountMsat ≥ 10 then print (amountMsat/10).toNat ++ [charNano]
      else print (amountMsat*10).toNat ++ [charPico]
    else []

inductive Multiplier where
  | milli
  | micro
  | nano
  | pico
deriving DecidableEq

def Multiplier.char : Multiplier → UInt8
  | .milli => charMilli
  | .micro => charMicro
  | .nano => charNano
  | .pico => charPico

def suffixOf (mult : Option Multiplier) : Bytes := (mult.map Multiplier.char).toList

def hrpOf (net : Network) (ds : Bytes) (mult : Option Multiplier) : Bytes :=
  lnPrefix ++ net.name ++ (ds ++ suffixOf mult)

def bolt11Amount (n : ℕ) : Option Multiplier → Option ℕ
  | none => some (n*10^11)
  | some .milli => some (n*10^8)
  | some .micro => some (n*10^5)
  | some .nano => some (n*100)
  | some .pico => if n % 10 = 0 then some (n/10) else none

def AmountExact (net : Network) (ds : Bytes) (mult : Option Multiplier) : Prop :=
  ∀ r, parseNetwork (hrpOf net ds mult) = some r → bolt11Amount (value ds) mult = some r.2.toNat

-- What the code computes in 64 bits from the number it reads.
def computedAmount (n : ℕ) : Option Multiplier → ℕ
  | none => n*10^11 % 2 ^ 64
  | some .milli => n*100000 % 2 ^ 64
  | some .micro => n*100 % 2 ^ 64
  | some .nano => n % 2 ^ 64 / 10
  | some .pico => n % 2 ^ 64 / 10000

-- The last character of `tb4` is read as the first digit of the number.
def AmountReadable (net : Network) (ds : Bytes) (mult : Option Multiplier) : Prop :=
  if net = .tb4 then
    bolt11Amount (value ds) mult = some (computedAmount (4*10^ds.length + value ds) mult)
  else
    match mult with
    | none => value ds * 10 ^ 11 < 2^64
    | some _ => value ds = 0

def HrpRoundTrips (net : Network) (amountMsat : UInt64) : Prop :=
  (parseNetwork (buildHrp net true amountMsat)).map Prod.snd = some amountMsat

section

variable {net : Network} {ds : Bytes} {mult : Option Multiplier}

theorem readDigits_toNat (ds : Bytes) : (readDigits ds).toNat = value ds % 2 ^ 64 := by
  have hfold (n : UInt64) (m : ℕ) (h : n.toNat = m % 2 ^ 64) :
      (ds.foldl (fun n c => n*10 + ofNat (digitValue c)) n).toNat =
        ds.foldl (fun n c => n*10 + digitValue c) m % 2 ^ 64 := by
    induction ds generalizing n m with
    | nil => exact h
    | cons c _ ih =>
      refine ih _ _ ?_
      rw [UInt64.toNat_add,UInt64.toNat_mul,h,UInt64.toNat_ofNat']
      change (m % 2 ^ 64 * 10 % 2 ^ 64 + digitValue c % 2 ^ 64) % 2 ^ 64 =
        (m*10 + digitValue c) % 2 ^ 64
      rw [mod_mul_mod,← add_mod]
  exact hfold 0 0 rfl

def Network.read : Network → Network
  | .tb4 => .tb
  | net => net

def Network.digits : Network → Bytes
  | .tb4 => [52]
  | _ => []

theorem nets_find (net : Network) (rest : Bytes) {d : UInt8} (hd : isDigit d = true) :
    nets.find? (matchesNet (lnPrefix ++ net.name ++ (d :: rest))) = some net.read ∧
      (lnPrefix ++ net.name ++ (d :: rest)).drop (2+net.read.name.length) =
        net.digits ++ (d :: rest) := by
  cases net <;>
    simp [nets,matchesNet,Network.name,lnPrefix,Network.read,Network.digits,hd,
      show isDigit 52 = true from rfl,show isDigit 115 = false from rfl,
      show isDigit 114 = false from rfl]

theorem suffixOf_not_digit (mult : Option Multiplier) :
    ∀ c ∈ (suffixOf mult).head?, isDigit c = false := by
  intro c hc
  cases mult with
  | none => cases hc
  | some mult =>
    cases hc
    cases mult <;> rfl

variable {suffix : Bytes} {n v a k len : ℕ} {amountMsat : UInt64}

theorem takeWhile_digits (hds : ∀ c ∈ ds, isDigit c = true)
    (hsuffix : ∀ c ∈ suffix.head?, isDigit c = false) :
    (ds++suffix).takeWhile isDigit = ds ∧ (ds++suffix).dropWhile isDigit = suffix := by
  rw [takeWhile_append_of_pos hds,dropWhile_append_of_pos hds]
  cases suffix with
  | nil => exact ⟨append_nil ds,rfl⟩
  | cons c =>
    have hc := hsuffix c rfl
    rw [takeWhile_cons,dropWhile_cons,hc]
    exact ⟨append_nil ds,rfl⟩

theorem networkDigits_isDigit : ∀ c ∈ net.digits, isDigit c = true := by
  have hall : net.digits.all isDigit = true := by cases net <;> decide
  exact all_eq_true.mp hall

theorem value_digits_append (net : Network) (ds : Bytes) : value (net.digits++ds) =
    if net = .tb4 then 4*10^ds.length + value ds else value ds := by
  rw [value_append]
  cases net <;> simp [Network.digits,value,digitValue]

theorem parseNetwork_hrp (net : Network) (hds : ∀ c ∈ ds, isDigit c = true) (hne : ds ≠ [])
    (hsuffix : ∀ c ∈ suffix.head?, isDigit c = false) :
    parseNetwork (lnPrefix ++ net.name ++ (ds++suffix)) =
      (scaleAmount (readDigits (net.digits++ds)) suffix).map (net.read,·) := by
  obtain ⟨d,rest,rfl⟩ := exists_cons_of_ne_nil hne
  obtain ⟨hfind,hdrop⟩ := nets_find net (rest ++ suffix) (hds d mem_cons_self)
  rw [cons_append] at *
  unfold parseNetwork
  rw [if_neg,hfind]
  · dsimp only
    rw [hdrop,if_neg (by simp),← cons_append,← append_assoc]
    have hall : ∀ c ∈ net.digits ++ (d :: rest), isDigit c = true := by
      intro c hc
      rcases mem_append.mp hc with hnet | hc
      · exact networkDigits_isDigit c hnet
      · exact hds c hc
    rw [(takeWhile_digits hall hsuffix).1,(takeWhile_digits hall hsuffix).2]
  · cases net <;> simp [lnPrefix,Network.name]

theorem scaleAmount_toNat (n : UInt64) (mult : Option Multiplier) :
    (scaleAmount n (suffixOf mult)).map toNat = some (computedAmount n.toNat mult) := by
  have hn := mod_eq_of_lt n.toNat_lt
  rcases mult with _ | _ | _ | _ | _
  · change some (n*100000000*1000).toNat = some (n.toNat*10^11 % 2 ^ 64)
    simp only [UInt64.toNat_mul]
    rw [mod_mul_mod,mul_assoc]
    rfl
  · exact congrArg some (UInt64.toNat_mul n 100000)
  · exact congrArg some (UInt64.toNat_mul n 100)
  · change some (n/10).toNat = some (n.toNat % 2 ^ 64 / 10)
    rw [UInt64.toNat_div,hn]
    rfl
  · change some (n/10000).toNat = some (n.toNat % 2 ^ 64 / 10000)
    rw [UInt64.toNat_div,hn]
    rfl

theorem computedAmount_mod (n : ℕ) (mult : Option Multiplier) :
    computedAmount (n % 2 ^ 64) mult = computedAmount n mult := by
  rcases mult with _ | _ | _ | _ | _ <;> simp only [computedAmount,mod_mul_mod,mod_mod]

theorem parsed_amount (net : Network) (mult : Option Multiplier)
    (hds : ∀ c ∈ ds, isDigit c = true) (hne : ds ≠ []) :
    (parseNetwork (hrpOf net ds mult)).map (fun r => r.2.toNat) =
      some (computedAmount (value (net.digits++ds)) mult) := by
  rw [hrpOf,parseNetwork_hrp net hds hne (suffixOf_not_digit mult),Option.map_map]
  rw [← computedAmount_mod,← readDigits_toNat]
  exact scaleAmount_toNat _ mult

theorem amountExact_iff (hds : ∀ c ∈ ds, isDigit c = true) (hne : ds ≠ []) :
    AmountExact net ds mult ↔
      bolt11Amount (value ds) mult = some (computedAmount (value (net.digits++ds)) mult) := by
  obtain ⟨r,hr,heq⟩ := map_eq_some_iff.mp (parsed_amount net mult hds hne)
  rw [← heq]
  exact ⟨fun h => h r hr,fun h r' hr' => mem_unique hr hr' ▸ h⟩

theorem mod_eq_larger_iff {small large : ℕ} (h : small < large) :
    n * large = n*small % 2 ^ 64 ↔ n = 0 := by
  constructor
  · intro heq
    have hle : n*large ≤ n*small := heq.trans_le (mod_le _ _)
    by_contra hn
    exact absurd (le_of_mul_le_mul_left hle (pos_of_ne_zero hn)) (not_le.mpr h)
  · rintro rfl
    simp only [Nat.zero_mul,Nat.zero_mod]

theorem computedAmount_exact_iff (n : ℕ) (mult : Option Multiplier) :
    bolt11Amount n mult = some (computedAmount n mult) ↔
      match mult with
      | none => n*10^11 < 2^64
      | some _ => n = 0 := by
  have hread := mod_le n (2^64)
  rcases mult with _ | _ | _ | _ | _
  · simp only [bolt11Amount,computedAmount,some.injEq]
    exact ⟨fun h => h.trans_lt (mod_lt _ (by norm_num)),fun h => (mod_eq_of_lt h).symm⟩
  · simp only [bolt11Amount,computedAmount,some.injEq]
    exact mod_eq_larger_iff (by norm_num)
  · simp only [bolt11Amount,computedAmount,some.injEq]
    exact mod_eq_larger_iff (by norm_num)
  · simp only [bolt11Amount,computedAmount,some.injEq]
    generalize n % 2 ^ 64 = k at hread
    omega
  · simp only [bolt11Amount,computedAmount]
    generalize n % 2 ^ 64 = k at hread
    split_ifs with hten
    · simp only [some.injEq]
      omega
    · simp only [false_iff]
      omega

def chosenUnit (amountMsat : UInt64) : ℕ × Multiplier :=
  if amountMsat % 100000 = 0 then ((amountMsat/100000).toNat,.milli)
  else if amountMsat % 100 = 0 then ((amountMsat/100).toNat,.micro)
  else if amountMsat % 10 = 0 ∧ amountMsat ≥ 10 then ((amountMsat/10).toNat,.nano)
  else ((amountMsat*10).toNat,.pico)

theorem buildHrp_eq (hpos : 0 < amountMsat) :
    buildHrp net true amountMsat = hrpOf net (print (chosenUnit amountMsat).1)
      (some (chosenUnit amountMsat).2) := by
  unfold buildHrp chosenUnit hrpOf
  rw [if_pos ⟨rfl,hpos⟩]
  congr 1
  split_ifs <;> rfl

inductive Printed (a : ℕ) : ℕ → Multiplier → Prop
  | milli {v : ℕ} (h : a = v*100000) : Printed a v .milli
  | micro {v : ℕ} (h : a = v*100) : Printed a v .micro
  | nano {v : ℕ} (h : a = v*10) (hnot : a % 100 ≠ 0) : Printed a v .nano
  | pico {v : ℕ} (h : v = a*10 % 2 ^ 64) (hnot : a % 100 ≠ 0) : Printed a v .pico

theorem chosenUnit_printed (hpos : 0 < amountMsat) :
    Printed amountMsat.toNat (chosenUnit amountMsat).1 (chosenUnit amountMsat).2 := by
  have hmod (k : UInt64) : amountMsat % k = 0 ↔ amountMsat.toNat % k.toNat = 0 := by
    rw [← UInt64.toNat_inj,UInt64.toNat_mod]
    rfl
  have hbig := hmod 100000
  have hmid := hmod 100
  have hten := hmod 10
  change _ ↔ amountMsat.toNat % 100000 = 0 at hbig
  change _ ↔ amountMsat.toNat % 100 = 0 at hmid
  change _ ↔ amountMsat.toNat % 10 = 0 at hten
  have hge : amountMsat ≥ 10 ↔ 10 ≤ amountMsat.toNat := le_iff_toNat_le
  have hpos : 0 < amountMsat.toNat := lt_iff_toNat_lt.mp hpos
  unfold chosenUnit
  split_ifs with h h' h''
  · refine .milli ?_
    change _ = amountMsat.toNat/100000*100000
    have := hbig.mp h
    omega
  · refine .micro ?_
    change _ = amountMsat.toNat/100*100
    have := hmid.mp h'
    omega
  · refine .nano ?_ fun hzero => h' (hmid.mpr hzero)
    change _ = amountMsat.toNat/10*10
    have := hten.mp h''.1
    omega
  · exact .pico (UInt64.toNat_mul amountMsat 10) fun hzero => h' (hmid.mpr hzero)

theorem hrpRoundTrips_iff_computed (hpos : 0 < amountMsat) :
    HrpRoundTrips net amountMsat ↔
      computedAmount (value (net.digits ++ print (chosenUnit amountMsat).1))
        (some (chosenUnit amountMsat).2) = amountMsat.toNat := by
  have hparsed := parsed_amount net (some (chosenUnit amountMsat).2)
    (print_isDigit (chosenUnit amountMsat).1) (print_ne_nil _)
  obtain ⟨r,hr,heq⟩ := Option.map_eq_some_iff.mp hparsed
  rw [HrpRoundTrips,buildHrp_eq hpos,hr,← heq,Option.map_some,Option.some.injEq,UInt64.toNat_inj]

theorem Printed.ne_zero {mult : Multiplier} (h : Printed a v mult) (hpos : 0 < a) (hlt : a < 2^60)
    : v ≠ 0 := by
  cases h with
  | milli => omega
  | micro => omega
  | nano => omega
  | pico h =>
    rw [mod_eq_of_lt (by omega)] at h
    omega

theorem pico_lost {x : ℕ} (h : v = a*10 % 2 ^ 64) (hx : x < 2^64) (hread : x/10000 = a) :
    v = a*10 := by
  have hsmall : a*10000 ≤ x := hread ▸ div_mul_le_self x 10000
  rw [h]
  exact mod_eq_of_lt (by omega)

theorem computed_printed_iff {mult : Multiplier} (h : Printed a v mult) (hpos : 0 < a)
    (hlt : a < 2^64) : computedAmount v (some mult) = a ↔ a % 100 = 0 := by
  cases h with
  | milli h =>
    have heq : computedAmount v (some .milli) = a := h ▸ mod_eq_of_lt (h ▸ hlt)
    exact iff_of_true heq (by omega)
  | micro h =>
    have heq : computedAmount v (some .micro) = a := h ▸ mod_eq_of_lt (h ▸ hlt)
    exact iff_of_true heq (by omega)
  | nano _ hnot =>
    refine iff_of_false (fun heq => ?_) hnot
    rw [computedAmount,mod_eq_of_lt (by omega)] at heq
    omega
  | pico h hnot =>
    refine iff_of_false (fun heq => ?_) hnot
    have hv := pico_lost h (mod_lt v (by norm_num)) heq
    rw [computedAmount,mod_eq_of_lt (h.trans_lt (mod_lt _ (by norm_num)))] at heq
    omega

theorem two_pow_dvd_ten_pow (h : 2^k ∣ 10 ^ n) : k ≤ n := by
  rw [show (10 : ℕ) = 2*5 from rfl,mul_pow] at h
  have hcoprime : Coprime (2^k) (5^n) := Coprime.pow k n (by norm_num)
  exact (pow_dvd_pow_iff_le_right (by norm_num)).mp (hcoprime.dvd_of_dvd_mul_right h)

theorem shifted_ne {e : ℕ} (hshort : len + e < 62) : (4*10^len + v) * 10 ^ e % 2 ^ 64 ≠ v*10^e := by
  intro heq
  have hmod : 2^64 ∣ 4 * 10 ^ (len+e) := by
    have hsum : (4*10^len + v)*10^e = 4*10^(len+e) + v*10^e := by ring
    rw [hsum] at heq
    omega
  have hten : 2^62 ∣ 10 ^ (len+e) := by
    rw [show (2 : ℕ)^64 = 4*2^62 by norm_num] at hmod
    exact (mul_dvd_mul_iff_left (by norm_num)).mp hmod
  exact absurd (two_pow_dvd_ten_pow hten) (by omega)

theorem print_short (hlen : 10^len ≤ 10*v) (hv : 10*v < 10^k) : len < k :=
  (Nat.pow_lt_pow_iff_right (by norm_num)).mp (hlen.trans_lt hv)

theorem computed_after_four {mult : Multiplier} (h : Printed a v mult) (hpos : 0 < a)
    (hlt : a < 2^60) (hlen : 10^len ≤ 10*v) : computedAmount (4*10^len + v) (some mult) ≠ a := by
  cases h with
  | milli h =>
    have hshort := print_short (k := 20) hlen (by omega)
    rw [h]
    exact shifted_ne (e := 5) (by omega)
  | micro h =>
    have hshort := print_short (k := 20) hlen (by omega)
    rw [h]
    exact shifted_ne (e := 2) (by omega)
  | nano =>
    generalize 10 ^ len = p at hlen
    rw [computedAmount,mod_eq_of_lt (by omega)]
    omega
  | pico h =>
    generalize 10 ^ len = p at hlen
    intro heq
    have hv := pico_lost h (mod_lt (4*p + v) (by norm_num)) heq
    have hsmall : a*10000 ≤ 4*p + v := by
      have hread : (4*p + v) % 2 ^ 64 / 10000 = a := heq
      calc a * 10000 = (4*p + v) % 2 ^ 64 / 10000 * 10000 := by rw [hread]
        _ ≤ (4*p + v) % 2 ^ 64 := div_mul_le_self _ _
        _ ≤ 4*p + v := mod_le _ _
    omega

theorem hrpRoundTrips_iff (hpos : 0 < amountMsat) (hlt : amountMsat.toNat < 2^60) :
    HrpRoundTrips net amountMsat ↔ net ≠ .tb4 ∧ amountMsat.toNat % 100 = 0 := by
  have hnat : 0 < amountMsat.toNat := lt_iff_toNat_lt.mp hpos
  have hprinted := chosenUnit_printed hpos
  rw [hrpRoundTrips_iff_computed hpos,value_digits_append,value_print]
  by_cases hnet : net = .tb4
  · rw [if_pos hnet]
    exact iff_of_false
      (computed_after_four hprinted hnat hlt (pow_print_le (hprinted.ne_zero hnat hlt)))
      fun h => h.1 hnet
  · rw [if_neg hnet,computed_printed_iff hprinted hnat (by omega)]
    exact ⟨fun h => ⟨hnet,h⟩,fun h => h.2⟩

theorem hrp_amounts_iff (net : Network) (ds : Bytes) (mult : Option Multiplier)
    (amountMsat : UInt64) (hds : ∀ c ∈ ds, isDigit c = true) (hne : ds ≠ [])
    (hpos : 0 < amountMsat) (hlt : amountMsat.toNat < 2^60) :
    (AmountExact net ds mult ↔ AmountReadable net ds mult) ∧
      (HrpRoundTrips net amountMsat ↔ net ≠ .tb4 ∧ amountMsat.toNat % 100 = 0) := by
  refine ⟨?_,hrpRoundTrips_iff hpos hlt⟩
  rw [amountExact_iff hds hne,value_digits_append]
  unfold AmountReadable
  split_ifs
  · exact Iff.rfl
  · exact computedAmount_exact_iff _ mult

theorem hrp_amounts_five : AmountExact .bc [53] none ∧ HrpRoundTrips .bc 1000 := by
  obtain ⟨hexact,htrip⟩ := hrp_amounts_iff .bc [53] none 1000
    (forall_mem_singleton.mpr rfl) (by decide) (by decide) (by decide)
  refine ⟨hexact.mpr ?_,htrip.mpr (by decide)⟩
  show value [53] * 10 ^ 11 < 2^64
  decide

theorem hrp_amounts_wrong :
    parseNetwork (hrpOf .bc [50,53,48,48] (some .micro)) = some (.bc,250000) ∧
      bolt11Amount (value [50,53,48,48]) (some .micro) = some 250000000 ∧
      ¬AmountExact .bc [50,53,48,48] (some .micro) ∧
      parseNetwork (buildHrp .bc true 10) = some (.bc,0) ∧ ¬HrpRoundTrips .bc 10 := by
  have hparsed : parseNetwork (hrpOf .bc [50,53,48,48] (some .micro)) = some (.bc,250000) := by
    decide +kernel
  have htrip : parseNetwork (buildHrp .bc true 10) = some (.bc,0) := by decide +kernel
  refine ⟨hparsed,by decide,fun hexact => ?_,htrip,fun h => ?_⟩
  · exact absurd (hexact _ hparsed) (by decide)
  · rw [HrpRoundTrips,htrip] at h
    exact absurd h (by decide)

end

end SuperScalar
