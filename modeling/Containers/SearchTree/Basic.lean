import Containers.Fault
import Containers.Traced
import Containers.SearchTree.Arena
/-!
# Search trees

A search tree keeps values in ascending order and addresses them by rank, their position in that
order. It is never rebalanced.

* `SearchTree α` — an arena and whether equal values are refused;
* `SearchTree.Event` — what a tree reports: each comparison on the way down, and each removal;
* `SearchTree.insert`, `SearchTree.insertMany`, `SearchTree.ofList` — adding values.

A value goes to the left of those it is less than or equal to, and to the right of the others.
-/

namespace Containers

/-- A binary search tree that refuses a value equal to one it holds while `unique` is set. -/
structure SearchTree (α : Type) where
  arena : Arena α
  unique : Bool
  deriving Repr

namespace SearchTree

/-- How a node leaves the tree. -/
inductive Removal where
  | leaf
  | singleChild
  | twoChildren
  deriving DecidableEq, Repr

/-- What a tree reports about its work. -/
inductive Event (α : Type) where
  /-- A new value was compared with one of the tree. -/
  | compared (value : α)
  | removed (removal : Removal) (rank : Nat)
  deriving Repr

def Removal.message : Removal → String
  | .leaf => "removing leaf"
  | .singleChild => "removing node with a single child"
  | .twoChildren => "removing node with two children, promoting its successor"

/-- Removals are written down. -/
def Event.note? {α : Type} : Event α → Option Note
  | .compared _ => none
  | .removed removal rank => some ⟨.trace, removal.message, [("rank", rank)]⟩

/-- The value that a comparison was with. -/
def Event.compared? {α : Type} : Event α → Option α
  | .compared value => some value
  | .removed .. => none

variable {α : Type}

/-! ### Making a tree -/

/-- A tree without values that takes equal ones. -/
def empty : SearchTree α :=
  ⟨.empty, false⟩

/-- A tree without values that refuses equal ones. -/
def emptyUnique : SearchTree α :=
  ⟨.empty, true⟩

instance : Inhabited (SearchTree α) :=
  ⟨empty⟩

def size (t : SearchTree α) : Nat :=
  t.arena.size

def isEmpty (t : SearchTree α) : Bool :=
  t.size = 0

/-- Says whether equal values are refused from now on. Those that are there stay. -/
def setUnique (t : SearchTree α) (unique : Bool) : SearchTree α :=
  { t with unique }

/-! ### Adding values -/

variable [Ord α]

/-- The free side of a node that a value goes to, looked for from a node down, `limit` nodes at
most. There is none if an equal value is met that must stay alone. -/
def gap? (t : SearchTree α) (a : α) : (limit : Nat) → NodeId →
    Traced (Event α) (Option (NodeId × Side))
  | 0, _ => pure none
  | limit + 1, id =>
    match t.arena.node? id with
    | none => pure none
    | some node => do
      Traced.report (.compared node.value)
      let ordering := compare a node.value
      if t.unique && ordering.isEq then return none
      else
        let side : Side := if ordering.isLE then .left else .right
        match node.child side with
        | some next => t.gap? a limit next
        | none => return some (id, side)

/-- The tree with a value hung on a free side of a node, if there is one, and whether there is. -/
def fill (t : SearchTree α) (a : α) : Option (NodeId × Side) → Bool × SearchTree α
  | none => (false, t)
  | some (parent, side) => (true, { t with arena := t.arena.grow a parent side })

/-- Adds a value, unless an equal one is there that must stay alone. Tells whether it was added. -/
def insert (t : SearchTree α) (a : α) : Traced (Event α) (Bool × SearchTree α) :=
  match t.arena.root with
  | none => pure (true, { t with arena := t.arena.plant a })
  | some root => t.fill a <$> t.gap? a t.size root

/-- Adds values one after the other and tells how many were added. -/
def insertMany (t : SearchTree α) : List α → Traced (Event α) (Nat × SearchTree α)
  | [] => pure (0, t)
  | a :: as => do
    let (added, t) ← t.insert a
    (fun (count, t) => (count + added.toNat, t)) <$> t.insertMany as

/-- The tree of a list of values, equal ones included. -/
def ofList (as : List α) : Traced (Event α) (SearchTree α) :=
  Prod.snd <$> empty.insertMany as

end SearchTree

end Containers
