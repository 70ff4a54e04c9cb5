import Containers.Traversal.Basic
/-!
# Scripts for a traversal

* `Step ε` — one thing to do at a place with the ends `ε`;
* `Answer α` — what a step tells;
* `Traversal.perform`, `Traversal.run` — one step, and a script of steps on one traversal.
-/

namespace Containers

/-- One thing to do at a place with the ends `ε`. -/
inductive Step (ε : Type) where
  /-- Take the next element. -/
  | next (e : ε)
  /-- Skip `n` elements and take the next. -/
  | nth (e : ε) (n : Nat)
  /-- Take all that is left. -/
  | rest (e : ε)
  /-- Tell how many are left. -/
  | length
  /-- Tell the bounds within which the number left lies. -/
  | bounds
  deriving DecidableEq, Repr

/-- What a step tells. -/
inductive Answer (α : Type) where
  | element (a : Option α)
  | elements (as : List α)
  | length (n : Nat)
  | bounds (low high : Nat)
  deriving Repr

namespace Traversal

variable {κ ε α : Type} [Traversal κ ε α]

/-- Does one step. The number left is known, so both bounds are that number. -/
def perform (c : κ) : Step ε → Except Fault (Answer α × κ)
  | .next e => do
    let (a, c) ← take e c
    return (.element a, c)
  | .nth e n => do
    let (a, c) ← nth e n c
    return (.element a, c)
  | .rest e => do
    let (as, c) ← drain e c
    return (.elements as, c)
  | .length => return (.length (remaining c), c)
  | .bounds => return (.bounds (remaining c) (remaining c), c)

/-- Does the steps of a script in order and gives their answers. -/
def run (c : κ) : List (Step ε) → Except Fault (List (Answer α))
  | [] => return []
  | s :: script => do
    let (answer, c) ← perform c s
    return answer :: (← run c script)

end Traversal

end Containers
