import SuperScalar.Factory.Build
import SuperScalar.Factory.Split

namespace SuperScalar

open Bitcoin List Option UInt64 Nat

structure Place where
  nNodes : ℕ
  leafCounter : ℕ
  clients : List ℕ
  parent : Option ℕ
  parentVout : ℕ
  depth : ℕ
  amount : UInt64

inductive Chain (P : Place → Block → Prop) (parent depth : ℕ) :
    ℕ → ℕ → ℕ → List ℕ → List ℕ → List Child → Prop
  | nil (n leafCounter slot : ℕ) : Chain P parent depth n leafCounter slot [] [] []
  | cons {n leafCounter slot : ℕ} {clients later parts : List ℕ} {c : Child} {children : List Child}
      (index : c.index = n)
      (block : P ⟨n,leafCounter,clients,some parent,slot,depth,c.budget⟩ c.block)
      (rest : Chain P parent depth (n+c.block.nodes.length)
        (leafCounter+c.block.leaves.length) (slot+1) parts later children) :
      Chain P parent depth n leafCounter slot (clients.length :: parts) (clients++later)
        (c :: children)

theorem Chain.imp {P Q : Place → Block → Prop} {parent depth n lc slot : ℕ}
    {parts clients : List ℕ} {children : List Child}
    (h : Chain P parent depth n lc slot parts clients children)
    (hpq : ∀ p b, p.parent = some parent → p.depth = depth → P p b → Q p b) :
    Chain Q parent depth n lc slot parts clients children := by
  induction h with
  | nil n lc slot => exact .nil n lc slot
  | cons index block _ ih => exact .cons index (hpq _ _ rfl rfl block) ih

section

variable {build : ℕ → ℕ → List ℕ → ℕ → UInt64 → Option Block} {per remainder : UInt64} {nActual : ℕ}

theorem buildChildren_chain (parent depth : ℕ) {parts : List ℕ} (hpos : ∀ p ∈ parts, 0 < p)
    {n lc slot : ℕ} {clients : List ℕ} (hsum : parts.sum = clients.length) {children : List Child}
    (h : buildChildren build per remainder nActual parts n lc slot clients = some children) :
    Chain (fun p b => build p.nNodes p.leafCounter p.clients p.parentVout p.amount = some b)
      parent depth n lc slot parts clients children := by
  induction parts generalizing n lc slot clients children with
  | nil =>
    obtain rfl : clients = [] := by simpa [eq_comm] using hsum
    obtain rfl : children = [] := by simpa [buildChildren,eq_comm] using h
    exact .nil n lc slot
  | cons part parts ih =>
    have hpart : part ≠ 0 := (hpos part (by simp)).ne'
    simp only [buildChildren,if_neg hpart,bind_eq_bind,bind_eq_some_iff,some.injEq] at h
    obtain ⟨block,hblock,rest,hrest,rfl⟩ := h
    rw [sum_cons] at hsum
    have htake : (clients.take part).length = part := by
      rw [length_take]
      omega
    have hlater := ih (fun p hp => hpos p (by simp [hp]))
      (show parts.sum = (clients.drop part).length by rw [length_drop]; omega) hrest
    rw [← take_append_drop part clients]
    nth_rewrite 1 [← htake]
    exact .cons rfl hblock hlater

theorem buildChildren_budget {parts : List ℕ} (hpos : ∀ p ∈ parts, 0 < p) (hne : parts ≠ [])
    {n lc slot : ℕ} {clients : List ℕ} (hslot : slot + parts.length = nActual) {children : List Child}
    (h : buildChildren build per remainder nActual parts n lc slot clients = some children)
    (hfit : per.toNat*parts.length + remainder.toNat < 2^64) :
    (children.map (fun c => c.budget.toNat)).sum = per.toNat*parts.length + remainder.toNat := by
  induction parts generalizing n lc slot clients children with
  | nil => exact absurd rfl hne
  | cons part parts ih =>
    have hpart : part ≠ 0 := (hpos part (by simp)).ne'
    simp only [buildChildren,if_neg hpart,Option.bind_eq_bind,Option.bind_eq_some_iff,
      Option.some.injEq] at h
    obtain ⟨block,-,rest,hrest,rfl⟩ := h
    simp only [List.length_cons,Nat.mul_add,Nat.mul_one] at hslot hfit ⊢
    cases parts with
    | nil =>
      obtain rfl : rest = [] := by simpa [buildChildren,eq_comm] using hrest
      have hlast : slot = nActual-1 := by
        simp only [List.length_nil] at hslot
        omega
      simp only [List.length_nil] at hfit ⊢
      simp only [hlast,if_true,List.map_cons,List.map_nil,List.sum_cons,List.sum_nil,
        UInt64.toNat_add]
      omega
    | cons =>
      have hmore : slot ≠ nActual-1 := by
        simp only [List.length_cons] at hslot
        omega
      have hsum := ih (fun p hp => hpos p (by simp [hp])) (by simp) (by omega) hrest (by omega)
      simp only [if_neg hmore,List.map_cons,List.sum_cons,hsum]
      omega

theorem buildChildren_shares {parts : List ℕ} (hpos : ∀ p ∈ parts, 0 < p) {n lc slot : ℕ}
    {clients : List ℕ} {children : List Child}
    (h : buildChildren build per remainder nActual parts n lc slot clients = some children) {k : ℕ}
    {c : Child} (hc : children[k]? = some c) :
    c.budget = if slot + k = nActual-1 then per + remainder else per := by
  induction parts generalizing n lc slot clients children k with
  | nil =>
    obtain rfl : children = [] := by simpa [buildChildren,eq_comm] using h
    cases hc
  | cons part _ ih =>
    have hpart : part ≠ 0 := (hpos part (by simp)).ne'
    simp only [buildChildren,if_neg hpart,bind_eq_bind,bind_eq_some_iff,some.injEq] at h
    obtain ⟨block,-,rest,hrest,rfl⟩ := h
    cases k with
    | zero =>
      cases hc
      rfl
    | succ =>
      have hlater := ih (fun p hp => hpos p (by simp [hp])) hrest hc
      rw [add_right_comm] at hlater
      exact hlater

end

theorem nonEmptyParts_pos {parts : List ℕ} (hpos : ∀ p ∈ parts, 0 < p) :
    nonEmptyParts parts = parts.length := by
  rw [nonEmptyParts,countP_eq_length]
  simpa using hpos

theorem perChildBudget_toNat (budget : UInt64) {parts : List ℕ} (hpos : ∀ p ∈ parts, 0 < p)
    (hlen : parts.length < 2^64) :
    (perChildBudget budget parts).toNat = budget.toNat/parts.length := by
  rw [perChildBudget,nonEmptyParts_pos hpos,UInt64.toNat_div,UInt64.toNat_ofNat_of_lt' hlen]

theorem perChildBudget_total (budget : UInt64) {parts : List ℕ} (hpos : ∀ p ∈ parts, 0 < p)
    (hlen : parts.length < 2^64) :
    (perChildBudget budget parts).toNat * parts.length + (budgetRemainder budget parts).toNat =
      budget.toNat := by
  have hcount := nonEmptyParts_pos hpos
  have hn := UInt64.toNat_ofNat_of_lt' hlen
  have hper := perChildBudget_toNat budget hpos hlen
  have hle : (perChildBudget budget parts).toNat*parts.length ≤ budget.toNat := by
    rw [hper]
    exact Nat.div_mul_le_self _ _
  have hb := budget.toNat_lt
  have hprod : (perChildBudget budget parts * UInt64.ofNat parts.length).toNat =
      (perChildBudget budget parts).toNat * parts.length := by
    rw [UInt64.toNat_mul,hn,Nat.mod_eq_of_lt (by omega)]
  rw [budgetRemainder,hcount,UInt64.toNat_sub_of_le _ _ (by rw [UInt64.le_iff_toNat_le]; omega),hprod]
  omega

-- What child `k` of `count` gets of a budget: the last child takes the remainder.
def childShare (budget count k : ℕ) : ℕ :=
  budget / count + if k+1 = count then budget % count else 0

theorem child_share {budget : UInt64} {parts : List ℕ} {k : ℕ} (hpos : ∀ p ∈ parts, 0 < p)
    (hlen : parts.length < 2^64) (hne : parts ≠ []) :
    (if k = parts.length-1 then perChildBudget budget parts + budgetRemainder budget parts
      else perChildBudget budget parts).toNat = childShare budget.toNat parts.length k := by
  have hper := perChildBudget_toNat budget hpos hlen
  have htotal := perChildBudget_total budget hpos hlen
  have hdiv := div_add_mod budget.toNat parts.length
  have hlast : k = parts.length-1 ↔ k+1 = parts.length := by
    have := length_pos_iff.mpr hne
    omega
  have hrem : (budgetRemainder budget parts).toNat = budget.toNat % parts.length := by
    rw [hper,mul_comm] at htotal
    omega
  unfold childShare
  by_cases hk : k+1 = parts.length
  · rw [if_pos (hlast.mpr hk),if_pos hk,UInt64.toNat_add,Nat.mod_eq_of_lt,hper,hrem]
    have hsmall : (perChildBudget budget parts).toNat ≤
        (perChildBudget budget parts).toNat * parts.length :=
      Nat.le_mul_of_pos_right _ (List.length_pos_iff.mpr hne)
    have := budget.toNat_lt
    omega
  · rw [if_neg (fun h => hk (hlast.mp h)),if_neg hk,hper,add_zero]

section

variable (env : Env) (f : Factory)

def Place.arity (p : Place) : ℕ := arityAtDepth f p.depth

def Place.isLeaf (p : Place) : Bool := subtreeIsLeaf f (p.arity f) p.clients.length

def Place.parts (p : Place) : List ℕ := splitClientsForArity (p.arity f) p.clients.length

def Place.build (fuel : ℕ) (p : Place) : Option Block :=
  buildSubtree env f fuel p.nNodes p.leafCounter p.clients p.parent p.parentVout p.depth p.amount

structure KickoffAt (p : Place) (ko : FactoryNode) : Prop where
  nonEmpty : p.clients ≠ []
  fee : f.feePerTx < p.amount
  added : addNode env f p.nNodes .kickoff (0 :: p.clients) p.parent p.parentVout none
    (nodeTimeouts f.cltvTimeout p.depth).kickoff = some ko

structure StateAt (p : Place) (st : FactoryNode) : Prop where
  moving : ¬ ((p.depth : Int) < staticThreshold f ∧ p.isLeaf f = false)
  added : addNode env f (p.nNodes+1) .state (0 :: p.clients) (some p.nNodes) 0
    (dwLayerAt f p.depth) (nodeTimeouts f.cltvTimeout p.depth).state = some st

structure ChildrenAt (P : Place → Block → Prop) (p : Place) (parent n : ℕ) (amount : UInt64)
    (children : List Child) : Prop where
  inner : p.isLeaf f = false
  splits : Splits (p.parts f) p.clients.length
  fee : f.feePerTx < amount
  chain : Chain P parent (p.depth+1) n p.leafCounter 0 (p.parts f) p.clients children
  budget : (children.map (fun c => c.budget.toNat)).sum + f.feePerTx.toNat = amount.toNat
  shares : ∀ k c, children[k]? = some c → c.budget.toNat =
    childShare (amount.toNat-f.feePerTx.toNat) (p.parts f).length k

def staticBlock (p : Place) (ko : FactoryNode) (children : List Child) : Block where
  root := { ko with
    isStaticOnly := true
    inputAmount := p.amount
    outputs := children.map Child.output
    childIndices := children.map Child.index }
  rest := children.flatMap (fun c => c.block.nodes)
  leaves := children.flatMap (fun c => c.block.leaves)

def movingKickoff (p : Place) (ko st : FactoryNode) : FactoryNode :=
  { ko with
    outputs := [⟨p.amount-f.feePerTx,st.spendingSpk.val⟩]
    childIndices := [p.nNodes+1]
    inputAmount := p.amount }

def movingState (p : Place) (st : FactoryNode) : FactoryNode :=
  { st with inputAmount := p.amount-f.feePerTx }

def leafBlock (p : Place) (ko st st' : FactoryNode) (subs : List FactoryNode) : Block :=
  ⟨movingKickoff f p ko st,st' :: subs,[p.nNodes+1]⟩

def innerState (p : Place) (st : FactoryNode) (children : List Child) : FactoryNode :=
  { movingState f p st with
    outputs := children.map Child.output
    childIndices := children.map Child.index }

def innerBlock (p : Place) (ko st : FactoryNode) (children : List Child) : Block where
  root := movingKickoff f p ko st
  rest := innerState f p st children :: children.flatMap (fun c => c.block.nodes)
  leaves := children.flatMap (fun c => c.block.leaves)

variable {env f}

theorem partsAllowed_bounds {parts : List ℕ} (h : partsAllowed f parts = true) :
    2 ≤ parts.length ∧ parts.length ≤ 16 := by
  have hcap := f.config.outputs_le
  simp only [partsAllowed,Bool.and_eq_true,decide_eq_true_eq] at h
  exact ⟨h.1.1,h.1.2.trans hcap⟩

theorem childrenAt_of_build {P : Place → Block → Prop} {fuel : ℕ}
    (ih : ∀ p b, p.build env f fuel = some b → P p b) {p : Place} {parent n : ℕ} {amount : UInt64}
    (hinner : p.isLeaf f = false) (hparts : partsAllowed f (p.parts f) = true)
    (hfee : f.feePerTx < amount) {children : List Child}
    (h : buildChildren (fun n lc cs slot amount =>
        buildSubtree env f fuel n lc cs (some parent) slot (p.depth+1) amount)
      (perChildBudget (amount-f.feePerTx) (p.parts f))
      (budgetRemainder (amount-f.feePerTx) (p.parts f)) (nonEmptyParts (p.parts f)) (p.parts f)
      n p.leafCounter 0 p.clients = some children) :
    ChildrenAt f P p parent n amount children := by
  obtain ⟨htwo,hmax⟩ := partsAllowed_bounds hparts
  have hsplits : Splits (p.parts f) p.clients.length := split_splits f hinner htwo
  have hne : p.parts f ≠ [] := List.ne_nil_of_length_pos (by omega)
  have hcount := nonEmptyParts_pos hsplits.pos
  have htotal := perChildBudget_total (amount-f.feePerTx) hsplits.pos (by omega)
  have hle : f.feePerTx ≤ amount := UInt64.le_of_lt hfee
  have hlt := (amount-f.feePerTx).toNat_lt
  refine ⟨hinner,hsplits,hfee,?_,?_,?_⟩
  · refine (buildChildren_chain parent (p.depth+1) hsplits.pos hsplits.total h).imp ?_
    intro q b hparent hdepth hb
    exact ih q b (by rw [Place.build,hparent,hdepth]; exact hb)
  · rw [buildChildren_budget hsplits.pos hne (by rw [hcount]; omega) h (by omega),htotal,
      UInt64.toNat_sub_of_le _ _ hle]
    exact Nat.sub_add_cancel (UInt64.le_iff_toNat_le.mp hle)
  · intro k c hc
    rw [buildChildren_shares hsplits.pos h hc,Nat.zero_add,hcount,
      child_share hsplits.pos (by omega) hne,UInt64.toNat_sub_of_le _ _ hle]

theorem buildSubtree_induct {P : Place → Block → Prop}
    (static : ∀ p ko children, KickoffAt env f p ko → (p.depth : Int) < staticThreshold f →
      ChildrenAt f P p p.nNodes (p.nNodes+1) p.amount children →
      P p (staticBlock p ko children))
    (leaf : ∀ p ko st st' subs, KickoffAt env f p ko → StateAt env f p st → p.isLeaf f = true →
      p.leafCounter < factoryMaxLeaves →
      setupLeaf env f (p.arity f) (p.nNodes+1) (movingState f p st) p.clients
        (p.amount-f.feePerTx) = some (st',subs) → P p (leafBlock f p ko st st' subs))
    (inner : ∀ p ko st children, KickoffAt env f p ko → StateAt env f p st →
      ChildrenAt f P p (p.nNodes+1) (p.nNodes+2) (p.amount-f.feePerTx) children →
      P p (innerBlock f p ko st children))
    {fuel : ℕ} {p : Place} {b : Block} (h : p.build env f fuel = some b) : P p b := by
  induction fuel generalizing p b with
  | zero => cases h
  | succ _ ih =>
    rw [Place.build,buildSubtree] at h
    split at h
    · cases h
    next hempty =>
    have hne : p.clients ≠ [] := fun he => hempty (by rw [he]; rfl)
    split at h
    · next hstatic =>
      split at h
      · cases h
      next hbad =>
      have hbad := not_or.mp hbad
      simp only [bind_eq_bind,bind_eq_some_iff,some.injEq] at h
      obtain ⟨ko,hko,children,hchildren,rfl⟩ := h
      have hfee : f.feePerTx < p.amount := by simpa using hbad.2
      exact static p ko children ⟨hne,hfee,hko⟩ hstatic.1
        (childrenAt_of_build (fun _ _ => ih) hstatic.2 (Bool.eq_true_of_not_eq_false hbad.1) hfee
          hchildren)
    next hstatic =>
    split at h
    · cases h
    next hfee =>
    simp only [bind_eq_bind,bind_eq_some_iff] at h
    obtain ⟨ko,hko,st,hst,h⟩ := h
    have hkickoff : KickoffAt env f p ko := ⟨hne,by simpa using hfee,hko⟩
    split at h
    · next hleaf =>
      obtain ⟨⟨st',subs⟩,hsetup,h⟩ := bind_eq_some_iff.mp h
      split at h
      · cases h
      next hcount =>
      cases h
      exact leaf p ko st st' subs hkickoff ⟨hstatic,hst⟩ hleaf (by omega) hsetup
    · next hleaf =>
      split at h
      · cases h
      next hbad =>
      have hbad := not_or.mp hbad
      obtain ⟨children,hchildren,h⟩ := bind_eq_some_iff.mp h
      cases h
      exact inner p ko st children hkickoff ⟨hstatic,hst⟩
        (childrenAt_of_build (fun _ _ => ih) (Bool.eq_false_of_not_eq_true hleaf)
          (Bool.eq_true_of_not_eq_false hbad.1) (by simpa using hbad.2) hchildren)

end

end SuperScalar
