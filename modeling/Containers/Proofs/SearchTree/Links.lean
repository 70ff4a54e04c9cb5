import Containers.Proofs.SearchTree.Linked
import Containers.Proofs.SearchTree.Reachable

/-!
# Links that make a tree

What must be true of the links and values of an arena, said without a tree.

* `Arena.WellLinked` — parents and children agree, and every place is reached from the root by one
  way down and no other;
* `Arena.WellOrdered` — what is reached on the left of a node is at most its value, what is reached
  on the right at least;
* **`WellLinked.exists_represents`** — such links are the layout of a tree, so that nothing is lost
  by reasoning about trees;
* **`wellFormed_reachable_and_preserved`** — both hold of every reachable tree, and every operation
  preserves them wherever they hold.
-/

namespace Containers

open BinaryTree

variable {α : Type}

namespace Arena

/-- The links of an arena join its nodes to one tree. -/
structure WellLinked (a : Arena α) : Prop where
  root_eq_none : a.root = none ↔ a.size = 0
  root_lt : ∀ id, a.root = some id → id < a.size
  root_parent : ∀ id, a.root = some id → a.parent? id = none
  child_lt : ∀ id side child, a.child? id side = some child → child < a.size
  parent_lt : ∀ id parent, a.parent? id = some parent → parent < a.size
  child_iff_parent : ∀ id child,
    (∃ side, a.child? id side = some child) ↔ a.parent? child = some id
  /-- No node is the child of two nodes, or on both sides of one. -/
  child_unique : ∀ id side id' side' child, a.child? id side = some child →
    a.child? id' side' = some child → id = id' ∧ side = side'
  reached : ∀ id < a.size, ∃! path, a.descend a.root path = some id
  size_eq : a.size = a.shape.numNodes

/-- The values of an arena are in order around each node. -/
structure WellOrdered [Ord α] (a : Arena α) : Prop where
  left : ∀ id v below w path, a.value? id = some v →
    a.descend (a.child? id .left) path = some below → a.value? below = some w → AtMost w v
  right : ∀ id v below w path, a.value? id = some v →
    a.descend (a.child? id .right) path = some below → a.value? below = some w → AtMost v w

/-! ### From trees to links -/

namespace Represents

variable {a : Arena α} {p : BinaryTree (NodeId × α)}

/-- A node with a child stands in the arena. -/
theorem mem_ids_of_child? (h : a.Represents p) {id child : NodeId} {side : Side}
    (hchild : a.child? id side = some child) : id ∈ p.ids := by
  obtain ⟨n, hn, -⟩ := Option.bind_eq_some_iff.mp hchild
  rw [h.mem_ids_iff, ← node?_isSome_iff, hn]
  rfl

theorem mem_ids_of_parent? (h : a.Represents p) {id child : NodeId}
    (hparent : a.parent? child = some id) : child ∈ p.ids := by
  obtain ⟨n, hn, -⟩ := Option.bind_eq_some_iff.mp hparent
  rw [h.mem_ids_iff, ← node?_isSome_iff, hn]
  rfl

/-- **The links of a layout** are those of a tree. -/
theorem wellLinked (h : a.Represents p) : a.WellLinked := by
  have hlinked := h.linkedOn h.nodup_ids
  constructor
  case root_eq_none =>
    rw [h.root, link_eq_none_iff, h.size_eq]
    cases p with
    | nil => exact iff_of_true rfl rfl
    | node x l r => exact iff_of_false (nomatch ·) (Nat.succ_ne_zero _)
  case root_lt => exact fun id hid => h.mem_ids_iff.mp (hlinked.root_mem id hid)
  case root_parent => exact hlinked.root_parent
  case child_lt =>
    intro id side child hchild
    exact h.mem_ids_iff.mp (hlinked.child_mem id side child (h.mem_ids_of_child? hchild) hchild)
  case parent_lt =>
    intro id parent hparent
    exact h.mem_ids_iff.mp (h.child?_of_parent? (h.mem_ids_of_parent? hparent) hparent).1
  case child_iff_parent =>
    intro id child
    constructor
    · rintro ⟨side, hchild⟩
      exact hlinked.child_parent id side child (h.mem_ids_of_child? hchild) hchild
    · intro hparent
      exact (h.child?_of_parent? (h.mem_ids_of_parent? hparent) hparent).2
  case child_unique =>
    intro id side id' side' child hchild hchild'
    have hid := h.mem_ids_of_child? hchild
    have hparent := hlinked.child_parent id side child hid hchild
    have hparent' := hlinked.child_parent id' side' child (h.mem_ids_of_child? hchild') hchild'
    obtain rfl : id = id' := Option.some.inj (hparent.symm.trans hparent')
    -- both sides are last steps of a way down to the child, and there is one such way
    obtain ⟨path, hpath, -⟩ := hlinked.reached id hid
    have hsame := (hlinked.reached child (hlinked.child_mem id side child hid hchild)).unique
      ((descend_concat hpath side).trans hchild) ((descend_concat hpath side').trans hchild')
    exact ⟨rfl, List.singleton_inj.mp (List.append_cancel_left hsame)⟩
  case reached => exact fun id hid => hlinked.reached id (h.mem_ids_iff.mpr hid)
  case size_eq =>
    rw [h.shape_eq, h.size_eq, numNodes_shape]

end Represents

/-! ### From links to trees -/

namespace WellLinked

variable {a : Arena α}

/-- The links join all places of the array. -/
theorem linkedOn (h : a.WellLinked) : a.LinkedOn (· < a.size) where
  lt _ hid := hid
  root_mem := h.root_lt
  root_parent := h.root_parent
  child_mem id side child _ hchild := h.child_lt id side child hchild
  child_parent id side child _ hchild := (h.child_iff_parent id child).mp ⟨side, hchild⟩
  reached := h.reached

/-- **Links that make a tree** are the layout of one. -/
theorem exists_represents (h : a.WellLinked) : ∃ p, a.Represents p := by
  obtain ⟨p, hcarries, hnodup, hmem⟩ := h.linkedOn.exists_carries
  refine ⟨p, hcarries, ?_⟩
  rw [List.perm_ext_iff_of_nodup hnodup List.nodup_range]
  intro id
  rw [hmem, List.mem_range]

end WellLinked

/-! ### Order around nodes -/

section Order

variable [Ord α] {a : Arena α} {p : BinaryTree (NodeId × α)}

theorem ascends_shape_iff : SearchTree.Ascends p.shape ↔
    p.inorder.Pairwise fun x y => AtMost x.2 y.2 := by
  rw [SearchTree.Ascends, inorder_shape, List.pairwise_map]

omit [Ord α] in
/-- What a way down from a child leads to stands in the subtree there. -/
theorem Represents.exists_mem_of_descend {cs : List (Crumb (NodeId × α))}
    {s : BinaryTree (NodeId × α)} (h : a.Represents (plug cs s)) {path : List Side}
    {below : NodeId} {w : α} (hbelow : a.descend s.link path = some below)
    (hw : a.value? below = some w) : ∃ y ∈ s.inorder, y.2 = w := by
  rw [(carries_plug.mp h.toCarries).2.descend_eq] at hbelow
  obtain ⟨y, hy, rfl⟩ := List.mem_map.mp (mem_ids_iff_along.mpr ⟨path, hbelow⟩)
  have hvalue := h.toCarries.value?_eq ((inorder_sublist_plug cs s).mem hy)
  exact ⟨y, hy, Option.some.inj (hvalue.symm.trans hw)⟩

omit [Ord α] in
theorem Represents.exists_descend_of_mem {cs : List (Crumb (NodeId × α))}
    {s : BinaryTree (NodeId × α)} (h : a.Represents (plug cs s)) {y : NodeId × α}
    (hy : y ∈ s.inorder) :
    a.value? y.1 = some y.2 ∧ ∃ path, a.descend s.link path = some y.1 := by
  refine ⟨h.toCarries.value?_eq ((inorder_sublist_plug cs s).mem hy), ?_⟩
  obtain ⟨path, hpath⟩ := mem_ids_iff_along.mp (List.mem_map_of_mem hy)
  exact ⟨path, ((carries_plug.mp h.toCarries).2.descend_eq path).trans hpath⟩

omit [Ord α] in
/-- The two children of a node are the roots of the two subtrees. -/
theorem Represents.child?_eq {cs : List (Crumb (NodeId × α))} {x : NodeId × α}
    {l r : BinaryTree (NodeId × α)} (h : a.Represents (plug cs (node x l r))) :
    a.child? x.1 .left = l.link ∧ a.child? x.1 .right = r.link := by
  rw [child?, child?, h.toCarries.node?_eq]
  exact ⟨rfl, rfl⟩

/-- Values that ascend are in order around each node. -/
theorem Represents.wellOrdered (h : a.Represents p) (hascends : SearchTree.Ascends p.shape) :
    a.WellOrdered := by
  have hsplit : ∀ id v, a.value? id = some v → ∃ cs l r, p = plug cs (node (id, v) l r) ∧
      (∀ y ∈ l.inorder, AtMost y.2 v) ∧ ∀ y ∈ r.inorder, AtMost v y.2 := by
    intro id v hv
    obtain ⟨n, hn, rfl⟩ := Option.map_eq_some_iff.mp hv
    have hid : id ∈ p.ids := h.mem_ids_iff.mpr (node?_isSome_iff.mp (by rw [hn]; rfl))
    obtain ⟨cs, v, l, r, rfl, hnode⟩ := h.exists_plug hid
    obtain rfl := Option.some.inj (hn.symm.trans hnode)
    have hsub := (ascends_shape_iff.mp hascends).sublist (inorder_sublist_plug cs _)
    rw [inorder, List.pairwise_append, List.pairwise_cons] at hsub
    obtain ⟨-, ⟨hr, -⟩, hl⟩ := hsub
    exact ⟨cs, l, r, rfl, fun y hy => hl y hy _ List.mem_cons_self, hr⟩
  constructor
  case left =>
    intro id v below w path hv hbelow hw
    obtain ⟨cs, l, r, rfl, hl, -⟩ := hsplit id v hv
    rw [h.child?_eq.1] at hbelow
    obtain ⟨y, hy, rfl⟩ := Represents.exists_mem_of_descend
      (show a.Represents (plug (⟨.left, (id, v), r⟩ :: cs) l) from h) hbelow hw
    exact hl y hy
  case right =>
    intro id v below w path hv hbelow hw
    obtain ⟨cs, l, r, rfl, -, hr⟩ := hsplit id v hv
    rw [h.child?_eq.2] at hbelow
    obtain ⟨y, hy, rfl⟩ := Represents.exists_mem_of_descend
      (show a.Represents (plug (⟨.right, (id, v), l⟩ :: cs) r) from h) hbelow hw
    exact hr y hy

/-- Values that are in order around each node ascend. -/
theorem WellOrdered.ascends [Std.TransOrd α] (ha : a.WellOrdered) (h : a.Represents p) :
    SearchTree.Ascends p.shape := by
  rw [ascends_shape_iff]
  have hsub : ∀ s cs, p = plug cs s → s.inorder.Pairwise fun x y => AtMost x.2 y.2 := by
    intro s
    induction s with
    | nil => exact fun _ _ => .nil
    | node x l r ihl ihr =>
      rintro cs rfl
      have hx := h.toCarries.node?_eq
      have hvalue : a.value? x.1 = some x.2 := by rw [value?, hx]; rfl
      have hl : ∀ y ∈ l.inorder, AtMost y.2 x.2 := by
        intro y hy
        obtain ⟨hw, path, hpath⟩ := Represents.exists_descend_of_mem
          (show a.Represents (plug (⟨.left, x, r⟩ :: cs) l) from h) hy
        rw [← h.child?_eq.1] at hpath
        exact ha.left _ _ _ _ _ hvalue hpath hw
      have hr : ∀ y ∈ r.inorder, AtMost x.2 y.2 := by
        intro y hy
        obtain ⟨hw, path, hpath⟩ := Represents.exists_descend_of_mem
          (show a.Represents (plug (⟨.right, x, l⟩ :: cs) r) from h) hy
        rw [← h.child?_eq.2] at hpath
        exact ha.right _ _ _ _ _ hvalue hpath hw
      rw [inorder, List.pairwise_append, List.pairwise_cons]
      refine ⟨ihl (⟨.left, x, r⟩ :: cs) rfl, ⟨hr, ihr (⟨.right, x, l⟩ :: cs) rfl⟩, ?_⟩
      intro y hy z hz
      rcases List.mem_cons.mp hz with rfl | hz
      · exact hl y hy
      · exact Std.TransOrd.isLE_trans (hl y hy) (hr z hz)
  exact hsub p [] rfl

end Order

end Arena

namespace SearchTree

variable [Ord α]

/-- The links of a tree and the order of its values are as they should be. -/
structure WellFormed (t : SearchTree α) : Prop where
  links : t.arena.WellLinked
  order : t.arena.WellOrdered

/-- **Well-formed trees** are the layouts of binary trees with ascending values. -/
theorem wellFormed_iff_laidOut [Std.TransOrd α] {t : SearchTree α} :
    t.WellFormed ↔ LaidOut Ascends t := by
  constructor
  · rintro ⟨hlinks, horder⟩
    obtain ⟨p, hp⟩ := hlinks.exists_represents
    exact ⟨p, hp, horder.ascends hp⟩
  · rintro ⟨p, hp, hascends⟩
    exact ⟨hp.wellLinked, hp.wellOrdered hascends⟩

/-- **The invariant of a search tree.**  The links of every reachable tree join all places of its
arena to one tree, with the values in order around each node, and no operation breaks this,
reachable or not. -/
theorem wellFormed_reachable_and_preserved [Std.TransOrd α] :
    (∀ t : SearchTree α, Reachable t → t.WellFormed) ∧ Preserved (WellFormed (α := α)) := by
  have heq : WellFormed (α := α) = LaidOut Ascends := by
    funext t
    exact propext wellFormed_iff_laidOut
  rw [heq]
  refine ⟨?_, preserved_ascends⟩
  intro t ht
  exact ht.ascends

/-- A tree whose root had two children and lost its value: the node that left in its stead stood in
place 3, and its right child, the last node of the array, stands there now. -/
def relinked : SearchTree Int64 :=
  match ((ofList [3, 1, 7, 5, 9, 6]).result.removeAt 1).result with
  | .ok (_, t) => t
  | .error _ => .empty

theorem wellFormed_relinked : Reachable relinked ∧ relinked.toList = [1, 5, 6, 7, 9] ∧
    relinked.arena.child? 2 .left = some 3 ∧ relinked.WellFormed := by
  have hremove : ((ofList [3, 1, 7, 5, 9, 6]).result.removeAt 1).result =
      .ok ((3 : Int64), relinked) := rfl
  have hreachable : Reachable relinked := .removeAt (.ofList _) hremove
  exact ⟨hreachable, rfl, rfl, wellFormed_reachable_and_preserved.1 _ hreachable⟩

end SearchTree

end Containers
