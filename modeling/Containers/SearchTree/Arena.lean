/-!
# Arenas

The nodes of a tree stand in one array without gaps and link to each other by their places in it.

* `Arena α` — the nodes and the link to the root;
* `Arena.plant`, `Arena.grow` — a first node, and a leaf below a node;
* `Arena.redirect`, `Arena.adopt`, `Arena.unhook`, `Arena.exchange` — changes to links and values;
* `Arena.discard` — a node that nobody links to leaves the array, and the last one takes its place;
* `Arena.remove` — a node leaves the tree.
-/

namespace Containers

/-- The place of a node in its arena. -/
abbrev NodeId := Nat

/-- A value with the links to the nodes around it. -/
structure Node (α : Type) where
  value : α
  parent : Option NodeId
  left : Option NodeId
  right : Option NodeId
  deriving Repr

/-- A side of a node that a child hangs on. -/
inductive Side where
  | left
  | right
  deriving DecidableEq, Repr

namespace Node

variable {α : Type}

def child (n : Node α) : Side → Option NodeId
  | .left => n.left
  | .right => n.right

def setChild (n : Node α) (side : Side) (child : Option NodeId) : Node α :=
  match side with
  | .left => { n with left := child }
  | .right => { n with right := child }

/-- The child of a node that has one at most. -/
def onlyChild (n : Node α) : Option NodeId :=
  n.left <|> n.right

end Node

/-- The nodes of a tree and the link to its root. -/
structure Arena (α : Type) where
  nodes : Array (Node α)
  root : Option NodeId
  deriving Repr

namespace Arena

variable {α : Type}

def empty : Arena α :=
  ⟨#[], none⟩

def size (a : Arena α) : Nat :=
  a.nodes.size

def node? (a : Arena α) (id : NodeId) : Option (Node α) :=
  a.nodes[id]?

def value? (a : Arena α) (id : NodeId) : Option α :=
  (a.node? id).map Node.value

def left? (a : Arena α) (id : NodeId) : Option NodeId :=
  (a.node? id).bind Node.left

def right? (a : Arena α) (id : NodeId) : Option NodeId :=
  (a.node? id).bind Node.right

/-- Changes the node at a place. -/
def modify (a : Arena α) (id : NodeId) (change : Node α → Node α) : Arena α :=
  { a with nodes := a.nodes.modify id change }

/-- The node that is reached from one by going left as long as there is a left child, `limit` times
at most. -/
def leftmostWithin (a : Arena α) : (limit : Nat) → NodeId → NodeId
  | 0, id => id
  | limit + 1, id =>
    match a.left? id with
    | some left => a.leftmostWithin limit left
    | none => id

/-- The leftmost node of the subtree below and with a node. No way down is longer than the number of
nodes. -/
def leftmost (a : Arena α) (id : NodeId) : NodeId :=
  a.leftmostWithin a.size id

/-! ### Growing -/

/-- Makes a value the root of an arena without nodes. -/
def plant (a : Arena α) (value : α) : Arena α where
  nodes := a.nodes.push ⟨value, none, none, none⟩
  root := some a.size

/-- Hangs a leaf on a side of a node. -/
def grow (a : Arena α) (value : α) (parent : NodeId) (side : Side) : Arena α :=
  let leaf := a.size
  let grown : Arena α := { a with nodes := a.nodes.push ⟨value, some parent, none, none⟩ }
  grown.modify parent fun n => n.setChild side (some leaf)

/-! ### Links and values -/

/-- Points the link that leads to `old` at `new`: a child link of the parent, or the one to the
root if there is no parent. -/
def redirect (a : Arena α) (parent : Option NodeId) (old : NodeId) (new : Option NodeId) :
    Arena α :=
  match parent with
  | some parent =>
    a.modify parent fun n => n.setChild (if n.left = some old then .left else .right) new
  | none => { a with root := new }

/-- Points the link of a child, if there is one, at its parent. -/
def adopt (a : Arena α) (child parent : Option NodeId) : Arena α :=
  match child with
  | some child => a.modify child fun n => { n with parent }
  | none => a

/-- Takes a node with one child at most out of the links: its child takes its place. -/
def unhook (a : Arena α) (id : NodeId) : Arena α :=
  match a.node? id with
  | none => a
  | some n => (a.redirect n.parent id n.onlyChild).adopt n.onlyChild n.parent

/-- Exchanges the values of two nodes. -/
def exchange (a : Arena α) (x y : NodeId) : Arena α :=
  match a.value? x, a.value? y with
  | some vx, some vy =>
    (a.modify x fun n => { n with value := vy }).modify y fun n => { n with value := vx }
  | _, _ => a

/-! ### Shrinking -/

/-- Takes a node that nobody links to out of the array, with its value. The last node of the array
moves to its place, and the links to that node move with it. -/
def discard (a : Arena α) (id : NodeId) : Option α × Arena α :=
  let last := a.size - 1
  match a.node? last with
  | none => (none, a)
  | some moving =>
    let closed : Arena α := { a with nodes := (a.nodes.setIfInBounds id moving).pop }
    let relocated :=
      if id = last then closed
      else
        ((closed.redirect moving.parent last (some id)).adopt moving.left (some id)).adopt
          moving.right (some id)
    (a.value? id, relocated)

/-- Takes a node out of the tree and gives its value. A node with two children keeps its place and
takes the value that follows its own, whose node has no left child and leaves in its stead. -/
def remove (a : Arena α) (id : NodeId) : Option α × Arena α :=
  match a.left? id, a.right? id with
  | some _, some right =>
    let successor := a.leftmost right
    ((a.unhook successor).exchange id successor).discard successor
  | _, _ => (a.unhook id).discard id

end Arena

end Containers
