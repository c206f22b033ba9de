import Mathlib.Data.Multiset.MapFold
import Mathlib.Algebra.BigOperators.Group.Multiset.Basic
import Mathlib.Logic.Relation
import Mathlib.Tactic.Common

namespace Ledger

inductive Side where
  | mine
  | theirs
deriving DecidableEq

def Side.other : Side → Side
  | mine => theirs
  | theirs => mine

structure Escrow where
  amount : ℕ
  fee : ℕ
deriving DecidableEq

def Escrow.worth (e : Escrow) : ℕ := e.amount + e.fee

structure Book where
  mine : ℕ
  theirs : ℕ
  held : Multiset Escrow

namespace Book

def balance (b : Book) : Side → ℕ
  | .mine => b.mine
  | .theirs => b.theirs

def credit (b : Book) (side : Side) (n : ℕ) : Book :=
  match side with
  | .mine => { b with mine := b.mine + n }
  | .theirs => { b with theirs := b.theirs + n }

def hold (b : Book) (e : Escrow) : Book := { b with held := e ::ₘ b.held }

def total (b : Book) : ℕ := b.mine + b.theirs + (b.held.map Escrow.worth).sum

@[simp] theorem total_credit (b : Book) (side : Side) (n : ℕ) :
    (b.credit side n).total = b.total + n := by
  cases side <;> simp only [credit,total] <;> omega

@[simp] theorem total_hold (b : Book) (e : Escrow) :
    (b.hold e).total = b.total + (e.amount+e.fee) := by
  simp only [hold,total,Multiset.map_cons,Multiset.sum_cons,Escrow.worth]
  omega

theorem credit_swap (b : Book) (s t : Side) (m n : ℕ) :
    (b.credit s m).credit t n = (b.credit t n).credit s m := by
  cases s <;> cases t <;> simp only [credit,Nat.add_right_comm]

@[simp] theorem credit_zero (b : Book) (side : Side) : b.credit side 0 = b := by
  cases side <;> rfl

theorem balance_le_total (b : Book) (side : Side) : b.balance side ≤ b.total := by
  cases side <;> simp only [balance,total] <;> omega

end Book

inductive Move : Book → Book → Prop where
  | lock (b : Book) (payer funder : Side) (e : Escrow) :
      Move ((b.credit payer e.amount).credit funder e.fee) (b.hold e)
  | release (b : Book) (payee funder : Side) (e : Escrow) :
      Move (b.hold e) ((b.credit payee e.amount).credit funder e.fee)
  | pay (b : Book) (payer : Side) (n : ℕ) : Move (b.credit payer n) (b.credit payer.other n)

def Moves : Book → Book → Prop := Relation.ReflTransGen Move

theorem Move.total {b c : Book} (h : Move b c) : c.total = b.total := by
  cases h with
  | lock =>
    simp only [Book.total_hold,Book.total_credit,Nat.add_assoc]
  | release =>
    simp only [Book.total_hold,Book.total_credit,Nat.add_assoc]
  | pay => simp only [Book.total_credit]

theorem Moves.total {b c : Book} (h : Moves b c) : c.total = b.total := by
  induction h with
  | refl => rfl
  | tail _ hlast ih => rw [hlast.total,ih]

end Ledger
