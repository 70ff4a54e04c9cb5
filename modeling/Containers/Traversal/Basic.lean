import Containers.Fault
/-!
# Traversals

A traversal is a place in a sequence, from which elements are taken at one or more ends.

* `Traversal κ ε α` — places `κ` give elements `α` at the ends `ε`;
* `Traversal.nth`, `Traversal.drain`, `Traversal.visit` — skipping, taking all, calling for each;
* `Traversal.same` — comparing two traversals, element by element;
* the instance for `List α` — what is left, as a list: the plainest traversal with two ends.
-/

namespace Containers

/-- An end of a sequence with two. -/
inductive End where
  | front
  | back
  deriving DecidableEq, Repr

/-- Places `κ` in sequences of elements `α`, which can be taken at the ends `ε`. -/
class Traversal (κ : Type) (ε α : outParam Type) where
  /-- The end that comes first. -/
  front : ε
  /-- The next element at an end, if there is one, and the place after it. -/
  take : ε → κ → Except Fault (Option α × κ)
  /-- How many elements are still to come. -/
  remaining : κ → Nat

namespace Traversal

variable {κ ε α σ : Type} [Traversal κ ε α]

/-- Skips `n` elements at an end and takes the next. Where there are not so many, all are taken. -/
def nth (e : ε) : Nat → κ → Except Fault (Option α × κ)
  | 0, c => take e c
  | n + 1, c => do
    match ← take e c with
    | (none, c) => return (none, c)
    | (some _, c) => nth e n c

/-- Takes elements at an end until there are none, `limit` of them at most. -/
def takeUpTo (e : ε) : (limit : Nat) → κ → Except Fault (List α × κ)
  | 0, c => return ([], c)
  | limit + 1, c => do
    match ← take e c with
    | (none, c) => return ([], c)
    | (some a, c) =>
      let (as, c) ← takeUpTo e limit c
      return (a :: as, c)

/-- Takes all that is left, in the order in which the end gives it. -/
def drain (e : ε) (c : κ) : Except Fault (List α × κ) :=
  takeUpTo e (remaining c) c

/-- Calls `f` with the ranks from `rank` on and the elements, until it answers false or `limit`
elements are visited. -/
def visitUpTo (f : Nat → α → StateM σ Bool) :
    (limit rank : Nat) → κ → σ → Except Fault σ
  | 0, _, _, s => return s
  | limit + 1, rank, c, s => do
    match ← take (front κ) c with
    | (none, _) => return s
    | (some a, c) =>
      let (goOn, s) := (f rank a).run s
      if goOn then visitUpTo f limit (rank + 1) c s else return s

/-- Calls `f` with the rank and the value of each element, first to last, until it answers
false. -/
def visit (f : Nat → α → StateM σ Bool) (c : κ) (s : σ) : Except Fault σ :=
  visitUpTo f (remaining c) 0 c s

section Same

variable {κ' ε' : Type} [Traversal κ' ε' α] [BEq α]

/-- Whether two places give equal elements from their fronts, one after the other, and end together.
Elements are taken up to the first two that differ, `limit` at most from each place. -/
def sameUpTo : (limit : Nat) → κ → κ' → Except Fault Bool
  | 0, _, _ => return true
  | limit + 1, c, d => do
    let (a, c) ← take (front κ) c
    let (b, d) ← take (front κ') d
    match a, b with
    | none, none => return true
    | some a, some b => if a == b then sameUpTo limit c d else return false
    | _, _ => return false

/-- Whether two places give equal elements, first to last. -/
def same (c : κ) (d : κ') : Except Fault Bool :=
  sameUpTo (remaining c + 1) c d

end Same

/-- What is left of a list, taken at either end. -/
instance : Traversal (List α) End α where
  front := .front
  take
    | .front, [] => return (none, [])
    | .front, a :: as => return (some a, as)
    | .back, as => return (as.getLast?, as.dropLast)
  remaining := List.length

end Traversal

end Containers
