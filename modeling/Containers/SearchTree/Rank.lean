import Containers.SearchTree.Walk
/-!
# Addressing by rank

* `SearchTree.position?` — the position that a rank addresses: a negative rank counts back from the
  largest value;
* `SearchTree.get` — the value at a rank;
* `SearchTree.removeAt` — the value at a position leaves the tree.
-/

namespace Containers.SearchTree

variable {α : Type}

/-! ### Reading -/

/-- The position that a rank addresses among `len` elements, if it is not too far back. A rank too
far ahead gives a position past the end. -/
def position? (rank : Int) (len : Nat) : Option Nat :=
  if 0 ≤ rank then some rank.natAbs
  else if rank.natAbs ≤ len then some (len - rank.natAbs)
  else none

/-- The node at a rank. -/
def locate (t : SearchTree α) (rank : Int) : Except RankRefusal NodeId :=
  if t.isEmpty then .error .empty
  else
    match (position? rank t.size).bind t.nodeAt? with
    | some id => .ok id
    | none => .error (.outside rank t.size)

/-- The value at a rank. -/
def get (t : SearchTree α) (rank : Int) : Except Fault α :=
  match t.locate rank with
  | .error refusal => .error (.unranked refusal)
  | .ok id =>
    match t.arena.value? id with
    | some a => .ok a
    | none => .error .vacant

/-! ### Removing -/

/-- The greatest rank that a refusal can name. -/
def greatestRank : Int :=
  Int64.maxValue.toInt

/-- The node at a position. A refusal names the greatest rank in place of a position past it. -/
def locateFromStart (t : SearchTree α) (position : Nat) : Except RankRefusal NodeId :=
  if t.isEmpty then .error .empty
  else
    match t.nodeAt? position with
    | some id => .ok id
    | none => .error (.outside (min (position : Int) greatestRank) t.size)

/-- How a node leaves, by the number of its children. -/
def removalOf (n : Node α) : Removal :=
  match n.left, n.right with
  | none, none => .leaf
  | some _, some _ => .twoChildren
  | _, _ => .singleChild

/-- Takes the value at a position out of the tree. -/
def removeAt (t : SearchTree α) (position : Nat) :
    Traced (Event α) (Except Fault (α × SearchTree α)) :=
  match t.locateFromStart position with
  | .error refusal => pure (.error (.unranked refusal))
  | .ok id =>
    match t.arena.node? id with
    | none => pure (.error .vacant)
    | some node => do
      Traced.report (.removed (removalOf node) position)
      match t.arena.remove id with
      | (some a, arena) => return .ok (a, { t with arena })
      | (none, _) => return .error .vacant

end Containers.SearchTree
