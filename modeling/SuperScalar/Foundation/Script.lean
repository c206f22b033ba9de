import Mathlib.Logic.Relation
import Mathlib.Tactic.Common

inductive Script (μ α : Type) where
  | done (result : α)
  | send (msg : μ) (next : Bool → Script μ α)
  | recv (next : Option μ → Script μ α)

namespace Script

variable {μ α β : Type}

def bind : Script μ α → (α → Script μ β) → Script μ β
  | done a, f => f a
  | send msg next, f => send msg (fun ok => (next ok).bind f)
  | recv next, f => recv (fun got => (next got).bind f)

def play : Script μ α → List Bool → List (Option μ) → α
  | done a, _, _ => a
  | send _ next, oks, inbox => (next (oks.headD false)).play oks.tail inbox
  | recv next, oks, inbox => (next (inbox.headD none)).play oks inbox.tail

-- Whatever the network answers, the result is in `P`.
def Always (P : α → Prop) : Script μ α → Prop
  | done a => P a
  | send _ next => ∀ ok, (next ok).Always P
  | recv next => ∀ got, (next got).Always P

theorem Always.play {P : α → Prop} {s : Script μ α} (h : s.Always P) (oks : List Bool)
    (inbox : List (Option μ)) : P (s.play oks inbox) := by
  induction s generalizing oks inbox with
  | done => exact h
  | send _ _ ih => exact ih _ (h _) _ _
  | recv _ ih => exact ih _ (h _) _ _

theorem Always.bind {P : β → Prop} {s : Script μ α} {f : α → Script μ β}
    (h : s.Always (fun a => (f a).Always P)) : (s.bind f).Always P := by
  induction s with
  | done => exact h
  | send _ _ ih => exact fun ok => ih ok (h ok)
  | recv _ ih => exact fun got => ih got (h got)

theorem Always.mono {P Q : α → Prop} {s : Script μ α} (h : s.Always P) (hPQ : ∀ a, P a → Q a) :
    s.Always Q := by
  induction s with
  | done a => exact hPQ a h
  | send _ _ ih => exact fun ok => ih ok (h ok)
  | recv _ ih => exact fun got => ih got (h got)

def firstSend : Script μ α → Option μ
  | done _ => none
  | send msg _ => some msg
  | recv _ => none

-- What the party sends next, if it sends at all, is in `P`.
def NextSend (P : μ → Prop) : Script μ α → Prop
  | done _ => True
  | send msg _ => P msg
  | recv next => ∀ got, (next got).NextSend P

end Script

structure Link (μ α β : Type) where
  left : Script μ α
  right : Script μ β
  toRight : List μ
  toLeft : List μ

namespace Link

variable {μ α β : Type}

inductive Step : Link μ α β → Link μ α β → Prop where
  | leftSend (msg : μ) (next : Bool → Script μ α) (right : Script μ β) (toRight toLeft : List μ) :
      Step ⟨.send msg next,right,toRight,toLeft⟩ ⟨next true,right,toRight ++ [msg],toLeft⟩
  | rightSend (left : Script μ α) (msg : μ) (next : Bool → Script μ β) (toRight toLeft : List μ) :
      Step ⟨left,.send msg next,toRight,toLeft⟩ ⟨left,next true,toRight,toLeft ++ [msg]⟩
  | leftRecv (next : Option μ → Script μ α) (right : Script μ β) (toRight : List μ) (msg : μ)
      (rest : List μ) :
      Step ⟨.recv next,right,toRight,msg :: rest⟩ ⟨next (some msg),right,toRight,rest⟩
  | rightRecv (left : Script μ α) (next : Option μ → Script μ β) (msg : μ) (rest toLeft : List μ) :
      Step ⟨left,.recv next,msg :: rest,toLeft⟩ ⟨left,next (some msg),rest,toLeft⟩
  | leftClosed (next : Option μ → Script μ α) (b : β) (toRight : List μ) :
      Step ⟨.recv next,.done b,toRight,[]⟩ ⟨next none,.done b,toRight,[]⟩
  | rightClosed (a : α) (next : Option μ → Script μ β) (toLeft : List μ) :
      Step ⟨.done a,.recv next,[],toLeft⟩ ⟨.done a,next none,[],toLeft⟩

def Run : Link μ α β → Link μ α β → Prop := Relation.ReflTransGen Step

theorem Run.invariant {I : Link μ α β → Prop} (hstep : ∀ s t, I s → Step s t → I t)
    {s t : Link μ α β} (h : Run s t) (hs : I s) : I t := by
  induction h with
  | refl => exact hs
  | tail _ hlast ih => exact hstep _ _ ih hlast

def results (l : Link μ α β) : Option (α × β) :=
  match l.left, l.right with
  | .done a, .done b => some (a,b)
  | _, _ => none

def next (l : Link μ α β) : Link μ α β :=
  match l with
  | ⟨.send msg next,right,toRight,toLeft⟩ => ⟨next true,right,toRight ++ [msg],toLeft⟩
  | ⟨.recv next,right,toRight,msg :: rest⟩ => ⟨next (some msg),right,toRight,rest⟩
  | ⟨left,.send msg next,toRight,toLeft⟩ => ⟨left,next true,toRight,toLeft ++ [msg]⟩
  | ⟨left,.recv next,msg :: rest,toLeft⟩ => ⟨left,next (some msg),rest,toLeft⟩
  | ⟨.recv next,.done b,toRight,[]⟩ => ⟨next none,.done b,toRight,[]⟩
  | ⟨.done a,.recv next,[],toLeft⟩ => ⟨.done a,next none,[],toLeft⟩
  | l => l

def schedule : ℕ → Link μ α β → Link μ α β
  | 0, l => l
  | fuel+1, l => schedule fuel l.next

theorem run_next (l : Link μ α β) : Run l l.next := by
  unfold next
  split
  · exact .single (.leftSend _ _ _ _ _)
  · exact .single (.leftRecv _ _ _ _ _)
  · exact .single (.rightSend _ _ _ _ _)
  · exact .single (.rightRecv _ _ _ _ _)
  · exact .single (.leftClosed _ _ _)
  · exact .single (.rightClosed _ _ _)
  · exact .refl

theorem run_schedule (fuel : ℕ) (l : Link μ α β) : Run l (schedule fuel l) := by
  induction fuel generalizing l with
  | zero => exact .refl
  | succ _ ih => exact (run_next l).trans (ih l.next)

end Link
