import Containers.Proofs.BinaryTree.Trail

/-!
# Trees in arenas

An arena is read as a binary tree whose nodes are labelled with their places.  Labels say where a
node stands, values say what it holds, and every link of the arena follows from the two.

* `BinaryTree.link`, `BinaryTree.ids`, `BinaryTree.shape` — the link to a labelled tree, the labels
  from left to right, and the tree without its labels;
* `Arena.Holds` — the nodes of a labelled tree stand where the labels say, with the right links;
* `Arena.HoldsAround` — the same for the nodes along a trail, with the link at its end left open;
* `Arena.Carries` — a whole tree hangs from the root;
* `Arena.Represents` — and there are no other nodes.

**`Arena.carries_plug`** cuts an arena at any subtree: what is linked around it and what is linked
in it are stated apart, so that a change of links is checked on one side alone.
**`Arena.Represents.unique`** — the labelled tree says all there is to say about its arena.
-/

namespace BinaryTree

open Containers

variable {α : Type}

/-- The link to the root of a labelled tree. -/
def link : BinaryTree (NodeId × α) → Option NodeId
  | nil => none
  | node x _ _ => some x.1

/-- The labels from left to right. -/
def ids (t : BinaryTree (NodeId × α)) : List NodeId :=
  t.inorder.map Prod.fst

/-- The tree without its labels. -/
def shape (t : BinaryTree (NodeId × α)) : BinaryTree α :=
  t.map Prod.snd

@[simp] theorem link_nil : (nil : BinaryTree (NodeId × α)).link = none := rfl

@[simp] theorem link_node (x : NodeId × α) (l r : BinaryTree (NodeId × α)) :
    (node x l r).link = some x.1 := rfl

@[simp] theorem ids_nil : (nil : BinaryTree (NodeId × α)).ids = [] := rfl

@[simp] theorem ids_node (x : NodeId × α) (l r : BinaryTree (NodeId × α)) :
    (node x l r).ids = l.ids ++ x.1 :: r.ids := by
  simp only [ids, inorder, List.map_append, List.map_cons]

@[simp] theorem length_ids (t : BinaryTree (NodeId × α)) : t.ids.length = t.numNodes := by
  rw [ids, List.length_map, length_inorder]

@[simp] theorem numNodes_shape (t : BinaryTree (NodeId × α)) : t.shape.numNodes = t.numNodes :=
  numNodes_map Prod.snd t

@[simp] theorem inorder_shape (t : BinaryTree (NodeId × α)) :
    t.shape.inorder = t.inorder.map Prod.snd :=
  inorder_map Prod.snd t

theorem mem_ids_of_link {t : BinaryTree (NodeId × α)} {id : NodeId} (h : t.link = some id) :
    id ∈ t.ids := by
  cases t with
  | nil => exact absurd h (Option.some_ne_none id).symm
  | node x l r =>
    obtain rfl : x.1 = id := Option.some.inj h
    simp

theorem link_eq_none_iff {t : BinaryTree (NodeId × α)} : t.link = none ↔ t = nil := by
  cases t with
  | nil => simp
  | node x l r => simp

end BinaryTree

namespace Containers

open BinaryTree

variable {α : Type}

/-- The node of a crumb, by the links to its parent and to the subtree at the end of the trail. -/
def Crumb.node (c : Crumb (NodeId × α)) (parent hole : Option NodeId) : Node α :=
  match c.side with
  | .left => ⟨c.value.2, parent, hole, c.sibling.link⟩
  | .right => ⟨c.value.2, parent, c.sibling.link, hole⟩

/-- The parent of the subtree at the end of a trail. -/
def holeParent : List (Crumb (NodeId × α)) → Option NodeId
  | [] => none
  | c :: _ => some c.value.1

/-- The labels along a trail. -/
def trailIds (cs : List (Crumb (NodeId × α))) : List NodeId :=
  (cs.flatMap Crumb.values).map Prod.fst

@[simp] theorem trailIds_nil : trailIds ([] : List (Crumb (NodeId × α))) = [] := rfl

@[simp] theorem trailIds_cons (c : Crumb (NodeId × α)) (cs : List (Crumb (NodeId × α))) :
    trailIds (c :: cs) = c.value.1 :: (c.sibling.ids ++ trailIds cs) := by
  simp [trailIds, Crumb.values, ids]

theorem ids_plug (cs : List (Crumb (NodeId × α))) (t : BinaryTree (NodeId × α)) :
    (plug cs t).ids.Perm (t.ids ++ trailIds cs) := by
  rw [ids, ids, trailIds, ← List.map_append]
  exact (inorder_plug cs t).map Prod.fst

theorem shape_around (c : Crumb (NodeId × α)) (t : BinaryTree (NodeId × α)) :
    (c.around t).shape = (c.map Prod.snd).around t.shape :=
  Crumb.around_map Prod.snd c t

theorem shape_plug (cs : List (Crumb (NodeId × α))) (t : BinaryTree (NodeId × α)) :
    (plug cs t).shape = plug (cs.map (Crumb.map Prod.snd)) t.shape :=
  plug_map Prod.snd cs t

/-- Every label is the root of some subtree. -/
theorem exists_plug_of_mem_ids {id : NodeId} {t : BinaryTree (NodeId × α)} (h : id ∈ t.ids) :
    ∃ cs v l r, t = plug cs (node (id, v) l r) := by
  obtain ⟨⟨_, v⟩, hx, rfl⟩ := List.mem_map.mp h
  obtain ⟨cs, l, r, ht⟩ := exists_plug_of_mem hx
  exact ⟨cs, v, l, r, ht⟩

theorem holeParent_mem {cs : List (Crumb (NodeId × α))} {id : NodeId}
    (h : holeParent cs = some id) : id ∈ trailIds cs := by
  cases cs with
  | nil => exact absurd h (Option.some_ne_none id).symm
  | cons c cs =>
    obtain rfl : c.value.1 = id := Option.some.inj h
    simp

namespace Arena

/-! ### Reading single nodes -/

@[simp] theorem size_modify (a : Arena α) (id : NodeId) (change : Node α → Node α) :
    (a.modify id change).size = a.size :=
  Array.size_modify

theorem node?_modify (a : Arena α) (id j : NodeId) (change : Node α → Node α) :
    (a.modify id change).node? j = if id = j then (a.node? j).map change else a.node? j :=
  Array.getElem?_modify

theorem node?_modify_self (a : Arena α) (id : NodeId) (change : Node α → Node α) :
    (a.modify id change).node? id = (a.node? id).map change := by
  rw [node?_modify, if_pos rfl]

theorem node?_modify_of_ne (a : Arena α) {id j : NodeId} (change : Node α → Node α) (h : j ≠ id) :
    (a.modify id change).node? j = a.node? j := by
  rw [node?_modify, if_neg (Ne.symm h)]

theorem node?_isSome_iff {a : Arena α} {id : NodeId} : (a.node? id).isSome ↔ id < a.size := by
  simp [node?, size]

/-! ### Holding a tree -/

/-- The nodes of a labelled tree stand where its labels say.  Each one has the value of its label
and the links to its parent and to its two subtrees. -/
def Holds (a : Arena α) : (parent : Option NodeId) → BinaryTree (NodeId × α) → Prop
  | _, nil => True
  | parent, node x l r =>
    a.node? x.1 = some ⟨x.2, parent, l.link, r.link⟩ ∧ a.Holds (some x.1) l ∧ a.Holds (some x.1) r

/-- The nodes along a trail stand where their labels say.  The innermost one links to `hole`. -/
def HoldsAround (a : Arena α) : List (Crumb (NodeId × α)) → (hole : Option NodeId) → Prop
  | [], hole => a.root = hole
  | c :: cs, hole =>
    a.node? c.value.1 = some (c.node (holeParent cs) hole) ∧
      a.Holds (some c.value.1) c.sibling ∧ a.HoldsAround cs (some c.value.1)

/-- A labelled tree hangs from the root of an arena. -/
structure Carries (a : Arena α) (t : BinaryTree (NodeId × α)) : Prop where
  root : a.root = t.link
  nodes : a.Holds none t

/-- An arena is the layout of a labelled tree: the tree hangs from the root, and every place of the
arena is the label of one node. -/
structure Represents (a : Arena α) (t : BinaryTree (NodeId × α)) : Prop extends Carries a t where
  ids : t.ids.Perm (List.range a.size)

theorem represents_empty : (empty : Arena α).Represents nil :=
  ⟨⟨rfl, trivial⟩, List.Perm.refl []⟩

/-- What a tree holds is a matter of its own places. -/
theorem Holds.congr {a b : Arena α} {parent : Option NodeId} {t : BinaryTree (NodeId × α)}
    (h : a.Holds parent t) (hab : ∀ id ∈ t.ids, b.node? id = a.node? id) : b.Holds parent t := by
  induction t generalizing parent with
  | nil => trivial
  | node x l r ihl ihr =>
    obtain ⟨hx, hl, hr⟩ := h
    simp only [ids_node, List.mem_append, List.mem_cons] at hab
    refine ⟨(hab x.1 (.inr (.inl rfl))).trans hx, ihl hl ?_, ihr hr ?_⟩
    · intro id hid
      exact hab id (.inl hid)
    · intro id hid
      exact hab id (.inr (.inr hid))

/-- What is held along a trail is a matter of the places on it and of the root. -/
theorem HoldsAround.congr {a b : Arena α} {cs : List (Crumb (NodeId × α))} {hole : Option NodeId}
    (h : a.HoldsAround cs hole) (hab : ∀ id ∈ trailIds cs, b.node? id = a.node? id)
    (hroot : b.root = a.root) : b.HoldsAround cs hole := by
  induction cs generalizing hole with
  | nil => exact hroot.trans h
  | cons c cs ih =>
    obtain ⟨hc, hsibling, hcs⟩ := h
    simp only [trailIds_cons, List.mem_cons, List.mem_append] at hab
    refine ⟨(hab c.value.1 (.inl rfl)).trans hc, hsibling.congr ?_, ih hcs ?_⟩
    · intro id hid
      exact hab id (.inr (.inl hid))
    · intro id hid
      exact hab id (.inr (.inr hid))

/-- **The cut.**  An arena carries a plugged tree if and only if it holds the trail around the
link to the subtree, and the subtree below the end of the trail. -/
theorem carries_plug {a : Arena α} {cs : List (Crumb (NodeId × α))}
    {t : BinaryTree (NodeId × α)} :
    a.Carries (plug cs t) ↔ a.HoldsAround cs t.link ∧ a.Holds (holeParent cs) t := by
  induction cs generalizing t with
  | nil => exact ⟨fun h => ⟨h.root, h.nodes⟩, fun h => ⟨h.1, h.2⟩⟩
  | cons c cs ih =>
    obtain ⟨side, x, sibling⟩ := c
    rw [plug, ih]
    cases side with
    | left =>
      constructor
      · rintro ⟨hcs, hx, ht, hsibling⟩
        exact ⟨⟨hx, hsibling, hcs⟩, ht⟩
      · rintro ⟨⟨hx, hsibling, hcs⟩, ht⟩
        exact ⟨hcs, hx, ht, hsibling⟩
    | right =>
      constructor
      · rintro ⟨hcs, hx, hsibling, ht⟩
        exact ⟨⟨hx, hsibling, hcs⟩, ht⟩
      · rintro ⟨⟨hx, hsibling, hcs⟩, ht⟩
        exact ⟨hcs, hx, hsibling, ht⟩

/-- The node at the end of a trail. -/
theorem Carries.node?_eq {a : Arena α} {cs : List (Crumb (NodeId × α))} {x : NodeId × α}
    {l r : BinaryTree (NodeId × α)} (h : a.Carries (plug cs (node x l r))) :
    a.node? x.1 = some ⟨x.2, holeParent cs, l.link, r.link⟩ :=
  (carries_plug.mp h).2.1

theorem Carries.congr {a b : Arena α} {t : BinaryTree (NodeId × α)} (h : a.Carries t)
    (hab : ∀ id ∈ t.ids, b.node? id = a.node? id) (hroot : b.root = a.root) : b.Carries t :=
  ⟨hroot.trans h.root, h.nodes.congr hab⟩

/-- The value at a label is the value of the label. -/
theorem Carries.value?_eq {a : Arena α} {t : BinaryTree (NodeId × α)} (h : a.Carries t)
    {x : NodeId × α} (hx : x ∈ t.inorder) : a.value? x.1 = some x.2 := by
  obtain ⟨cs, l, r, rfl⟩ := exists_plug_of_mem hx
  rw [value?, h.node?_eq]
  rfl

namespace Represents

variable {a : Arena α} {t : BinaryTree (NodeId × α)}

theorem nodup_ids (h : a.Represents t) : t.ids.Nodup :=
  h.ids.nodup_iff.mpr List.nodup_range

theorem mem_ids_iff (h : a.Represents t) {id : NodeId} : id ∈ t.ids ↔ id < a.size := by
  rw [h.ids.mem_iff, List.mem_range]

/-- **The size of an arena** is the number of nodes of the tree that it represents. -/
theorem size_eq (h : a.Represents t) : a.size = t.numNodes := by
  rw [← length_ids, h.ids.length_eq, List.length_range]

/-- No way down a subtree is longer than the number of places. -/
theorem height_le {cs : List (Crumb (NodeId × α))} {t : BinaryTree (NodeId × α)}
    (h : a.Represents (plug cs t)) : t.height ≤ a.size := by
  have hlength := (ids_plug cs t).length_eq
  rw [List.length_append, length_ids, length_ids, ← h.size_eq] at hlength
  exact Nat.le_trans t.height_le_numNodes (by omega)

theorem node?_eq_none (h : a.Represents t) {id : NodeId} (hid : id ∉ t.ids) :
    a.node? id = none := by
  rw [← Option.not_isSome_iff_eq_none, node?_isSome_iff, ← h.mem_ids_iff]
  exact hid

/-- **No two arenas** represent the same labelled tree. -/
theorem unique {b : Arena α} (h : a.Represents t) (hb : b.Represents t) : a = b := by
  have hnodes : a.nodes = b.nodes := by
    apply Array.ext_getElem?
    intro id
    show a.node? id = b.node? id
    by_cases hid : id ∈ t.ids
    · obtain ⟨cs, v, l, r, hplug⟩ := exists_plug_of_mem_ids hid
      rw [hplug] at h hb
      exact h.toCarries.node?_eq.trans hb.toCarries.node?_eq.symm
    · rw [h.node?_eq_none hid, hb.node?_eq_none hid]
  have hroot : a.root = b.root := h.root.trans hb.root.symm
  obtain ⟨nodes, root⟩ := a
  obtain ⟨nodes', root'⟩ := b
  rw [show nodes = nodes' from hnodes, show root = root' from hroot]

end Represents

/-! ### Reading a whole tree -/

/-- The tree below a link, `limit` levels of it at most. -/
def read (a : Arena α) : (limit : Nat) → Option NodeId → BinaryTree α
  | 0, _ => nil
  | limit + 1, link =>
    match link.bind a.node? with
    | none => nil
    | some n => node n.value (a.read limit n.left) (a.read limit n.right)

/-- The tree that hangs from the root, by its links alone.  No way down is longer than the number
of nodes. -/
def shape (a : Arena α) : BinaryTree α :=
  a.read a.size a.root

theorem Holds.read_eq {a : Arena α} {parent : Option NodeId} {t : BinaryTree (NodeId × α)}
    (h : a.Holds parent t) {limit : Nat} (hlimit : t.height ≤ limit) :
    a.read limit t.link = t.shape := by
  induction t generalizing parent limit with
  | nil => cases limit <;> rfl
  | node x l r ihl ihr =>
    obtain ⟨hx, hl, hr⟩ := h
    cases limit with
    | zero => simp at hlimit
    | succ limit =>
      simp only [height, Nat.add_le_add_iff_right, Nat.max_le] at hlimit
      rw [read, link_node, Option.bind_some, hx]
      show node x.2 (a.read limit l.link) (a.read limit r.link) = _
      rw [ihl hl hlimit.1, ihr hr hlimit.2]
      rfl

/-- **The shape that is read off the links** is the represented tree without its labels. -/
theorem Represents.shape_eq {a : Arena α} {t : BinaryTree (NodeId × α)} (h : a.Represents t) :
    a.shape = t.shape := by
  rw [shape, h.root]
  exact h.nodes.read_eq (h.size_eq ▸ t.height_le_numNodes)

end Arena

end Containers
