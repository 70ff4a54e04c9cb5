import Containers.Element.Basic
/-!
# Conditions on elements

* `Condition α` — what a caller can ask of an element, as data;
* `Condition.holds` — whether it holds, where the answer may hang on what was asked before;
* `Bound α` — where a visit of all elements ends; `Bound.goesOn` says whether it does.
-/

namespace Containers

/-- How an element is compared with a value. -/
inductive Relation where
  | lt
  | le
  | gt
  | ge
  | eq
  | ne
  deriving DecidableEq, Repr

def Relation.holds {α : Type} [Element α] (a b : α) : Relation → Bool
  | .lt => (compare a b).isLT
  | .le => (compare a b).isLE
  | .gt => (compare a b).isGT
  | .ge => (compare a b).isGE
  | .eq => a == b
  | .ne => a != b

/-- What can be asked of an element. -/
inductive Condition (α : Type) where
  | compares (relation : Relation) (value : α)
  | always
  | never
  /-- Holds the first `n` times it is asked. -/
  | firstTimes (n : Nat)
  deriving Repr

/-- Whether a condition holds of an element. The state is the list of elements that it was asked
about, first to last. -/
def Condition.holds {α : Type} [Element α] (c : Condition α) (a : α) : StateM (List α) Bool := do
  let asked ← getModify (· ++ [a])
  match c with
  | .compares relation value => return relation.holds a value
  | .always => return true
  | .never => return false
  | .firstTimes n => return asked.length < n

/-- Where a visit ends: at a rank or at a value, whichever comes first, or with the last element. -/
structure Bound (α : Type) where
  rank : Option Nat
  value : Option α
  deriving Repr

/-- Whether a visit goes on after an element. The state is the list of elements that the visit came
by, with their ranks. -/
def Bound.goesOn {α : Type} [Element α] (b : Bound α) (rank : Nat) (a : α) :
    StateM (List (Nat × α)) Bool := do
  modify (· ++ [(rank, a)])
  return b.rank != some rank && b.value.all (a != ·)

end Containers
