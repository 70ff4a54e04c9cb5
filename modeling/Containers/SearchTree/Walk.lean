import Containers.SearchTree.Basic
import Containers.Text.Outline
import Containers.Traversal.Basic
/-!
# Walking a search tree

* `Walk α` — a place on the way through a tree in ascending order: the nodes that are begun and not
  yet visited, next first;
* `Walk.next`, `Walk.nth`, `Walk.ids` — one step, a number of steps, all steps;
* `SearchTree.toList` — the values in ascending order: the view of a tree;
* `SearchTree.Values` — a walk as a traversal of the values, and the equality of trees by it;
* `SearchTree.consume` — the values taken out of their places in ascending order.
-/

namespace Containers

/-- A place on the way through an arena. -/
structure Walk (α : Type) where
  arena : Arena α
  /-- Nodes whose left side is done with and which are still to be visited, next first. -/
  pending : List NodeId
  /-- How many nodes are still to come. -/
  remaining : Nat

namespace Walk

variable {α : Type}

/-- A node, its left child, the left child of that and so on, lowest first, in front of `pending`:
`limit` steps to the left at most. -/
def leftSpine (a : Arena α) : (limit : Nat) → NodeId → (pending : List NodeId) → List NodeId
  | 0, id, pending => id :: pending
  | limit + 1, id, pending =>
    match a.left? id with
    | some left => leftSpine a limit left (id :: pending)
    | none => id :: pending

/-- The place before all nodes. -/
def start (a : Arena α) : Walk α where
  arena := a
  pending :=
    match a.root with
    | some root => leftSpine a a.size root []
    | none => []
  remaining := a.size

/-- The next node, and the place after it. -/
def next (w : Walk α) : Option (NodeId × Walk α) :=
  match w.pending with
  | [] => none
  | id :: pending =>
    let pending :=
      match w.arena.right? id with
      | some right => leftSpine w.arena w.arena.size right pending
      | none => pending
    some (id, { w with pending, remaining := w.remaining - 1 })

/-- Skips `n` nodes and gives the next. -/
def nth (w : Walk α) : Nat → Option NodeId
  | 0 => w.next.map Prod.fst
  | n + 1 => w.next.bind fun (_, w) => w.nth n

/-- The nodes to come, `limit` at most. -/
def idsWithin (w : Walk α) : (limit : Nat) → List NodeId
  | 0 => []
  | limit + 1 =>
    match w.next with
    | none => []
    | some (id, w) => id :: w.idsWithin limit

/-- The nodes to come. -/
def ids (w : Walk α) : List NodeId :=
  w.idsWithin w.remaining

end Walk

namespace SearchTree

variable {α σ : Type}

/-! ### The values in order -/

/-- The nodes in ascending order of their values. -/
def order (t : SearchTree α) : List NodeId :=
  (Walk.start t.arena).ids

/-- The values in ascending order. -/
def toList (t : SearchTree α) : List α :=
  t.order.filterMap t.arena.value?

/-- The node at a position of the order. -/
def nodeAt? (t : SearchTree α) (position : Nat) : Option NodeId :=
  (Walk.start t.arena).nth position

instance [Outlined α] : Outlined (SearchTree α) where
  outline t :=
    .record "RankTree"
      [("contents", outline t.toList), ("len", .number t.size), ("unique", .truth t.unique)]

/-! ### Traversal -/

/-- A walk that gives the values of the nodes. It goes forwards only, so it has one end. -/
structure Values (α : Type) where
  walk : Walk α

/-- The next value. -/
def Values.take (v : Values α) : Except Fault (Option α × Values α) :=
  match v.walk.next with
  | none => return (none, v)
  | some (id, walk) =>
    match walk.arena.value? id with
    | some a => return (some a, ⟨walk⟩)
    | none => .error .vacant

instance : Traversal (Values α) Unit α where
  front := ()
  take _ v := v.take
  remaining v := v.walk.remaining

/-- All values. -/
def values (t : SearchTree α) : Values α :=
  ⟨Walk.start t.arena⟩

/-- Calls `f` with the rank and the value of each element, in ascending order, until it answers
false. -/
def visit (t : SearchTree α) (f : Nat → α → StateM σ Bool) (s : σ) : Except Fault σ :=
  Traversal.visit f t.values s

/-- Trees are equal if they hold equal values in the same order, whatever their shapes. -/
instance [BEq α] : BEq (SearchTree α) where
  beq t u := t.size == u.size && (Traversal.same t.values u.values).toOption == some true

/-! ### Giving up the tree -/

/-- Takes values out of their places, one after the other. Each place gives its value once. -/
def takeOut : List NodeId → Array (Option α) → Except Fault (List α)
  | [], _ => return []
  | id :: ids, places =>
    match places[id]?.join with
    | none => .error .vacant
    | some a => do
      let as ← takeOut ids (places.setIfInBounds id none)
      return a :: as

/-- The values of a tree that is given up, taken out of their places in ascending order. -/
def consume (t : SearchTree α) : Except Fault (List α) :=
  takeOut t.order (t.arena.nodes.map fun n => some n.value)

end SearchTree

end Containers
