import Containers.Proofs.SearchTree.Links
import Containers.Proofs.SearchTree.Removal
import Containers.Proofs.SearchTree.Ties

/-!
# Giving up a place

An arena has no gaps.  When a place is given up, the last node of the array moves there, and every
link that led to the last place has to lead to the new one.

* `movedTo`, `Node.relink` — where a node stands after the move, and a node whose links follow;
* `Arena.ClosesGap` — what an arena is like after a place was given up;
* `WellLinked.linkedOn_unhook` — a node that a removal has taken out of the links stands apart from
  the tree that all others make up;
* **`discard_closesGap`** — giving up the place of a node that stands apart, wherever in the tree
  the last node hangs.
-/

namespace Containers

open BinaryTree

variable {α : Type}

/-! ### Links that follow -/

/-- Where a node stands after the one at the place `last` has moved to the place `id`. -/
def movedTo (last id j : NodeId) : NodeId :=
  if j = last then id else j

/-- A link changes if and only if it led to the last place. -/
theorem map_movedTo_eq_iff {last id : NodeId} {link : Option NodeId} (h : link ≠ some id) :
    link.map (movedTo last id) = link ↔ link ≠ some last := by
  cases link with
  | none => exact iff_of_true rfl (Option.some_ne_none last).symm
  | some j =>
    rw [Option.map_some, movedTo]
    by_cases hj : j = last
    · rw [if_pos hj, hj]
      exact iff_of_false (fun hid => h (hj ▸ hid.symm)) (· rfl)
    · rw [if_neg hj]
      exact iff_of_true rfl (fun hlast => hj (Option.some.inj hlast))

namespace Node

/-- A node whose links lead to where a function says. -/
def relink (f : NodeId → NodeId) (n : Node α) : Node α where
  value := n.value
  parent := n.parent.map f
  left := n.left.map f
  right := n.right.map f

/-- No link of a node leads to a place. -/
structure Avoids (n : Node α) (id : NodeId) : Prop where
  parent : n.parent ≠ some id
  left : n.left ≠ some id
  right : n.right ≠ some id

/-- A node keeps all its links if and only if none of them led to the last place. -/
theorem relink_movedTo_eq_iff {last id : NodeId} {n : Node α} (h : n.Avoids id) :
    n.relink (movedTo last id) = n ↔ n.Avoids last := by
  constructor
  · intro hn
    exact ⟨(map_movedTo_eq_iff h.parent).mp (congrArg Node.parent hn),
      (map_movedTo_eq_iff h.left).mp (congrArg Node.left hn),
      (map_movedTo_eq_iff h.right).mp (congrArg Node.right hn)⟩
  · intro hlast
    obtain ⟨value, parent, left, right⟩ := n
    rw [relink, (map_movedTo_eq_iff h.parent).mpr hlast.parent,
      (map_movedTo_eq_iff h.left).mpr hlast.left, (map_movedTo_eq_iff h.right).mpr hlast.right]

end Node

theorem link_relocate (last id : NodeId) (t : BinaryTree (NodeId × α)) :
    (t.map (relocate last id)).link = t.link.map (movedTo last id) := by
  cases t <;> rfl

theorem holeParent_relocate (last id : NodeId) (cs : List (Crumb (NodeId × α))) :
    holeParent (cs.map (Crumb.map (relocate last id))) =
      (holeParent cs).map (movedTo last id) := by
  cases cs <;> rfl

namespace Arena

variable {a b : Arena α} {t : BinaryTree (NodeId × α)} {id : NodeId}

/-! ### A node that stands apart -/

/-- Where a tree has every place but one, the links join these places. -/
theorem Carries.linkedOn_of_perm (h : a.Carries t)
    (hids : (id :: t.ids).Perm (List.range a.size)) :
    a.LinkedOn fun j => j < a.size ∧ j ≠ id := by
  obtain ⟨hid, hnodup⟩ := List.nodup_cons.mp (hids.nodup_iff.mpr List.nodup_range)
  have hplaces : (fun j => j < a.size ∧ j ≠ id) = (· ∈ t.ids) := by
    funext j
    rw [← List.mem_range, ← hids.mem_iff, List.mem_cons, eq_iff_iff]
    constructor
    · rintro ⟨rfl | hj, hne⟩
      · exact absurd rfl hne
      · exact hj
    · exact fun hj => ⟨.inr hj, ne_of_mem_of_not_mem hj hid⟩
  rw [hplaces]
  exact h.linkedOn hnodup

/-- Where links join every place but one, a tree has these places. -/
theorem LinkedOn.exists_carries_perm (hid : id < a.size)
    (h : a.LinkedOn fun j => j < a.size ∧ j ≠ id) :
    ∃ t, a.Carries t ∧ (id :: t.ids).Perm (List.range a.size) := by
  obtain ⟨t, hcarries, hnodup, hmem⟩ := h.exists_carries
  have hapart : id ∉ t.ids := fun hid' => ((hmem id).mp hid').2 rfl
  refine ⟨t, hcarries, ?_⟩
  rw [List.perm_ext_iff_of_nodup (List.nodup_cons.mpr ⟨hapart, hnodup⟩) List.nodup_range]
  intro j
  rw [List.mem_cons, hmem, List.mem_range]
  by_cases hj : j = id
  · exact iff_of_true (.inl hj) (hj ▸ hid)
  · simp only [hj, false_or, ne_eq, not_false_eq_true, and_true]

/-- **A removal takes a node out of the links.**  Before its place is given up, all other nodes make
up a tree that does not lead to it. -/
theorem WellLinked.linkedOn_unhook (h : a.WellLinked) (hid : id < a.size)
    (hchild : a.left? id = none ∨ a.right? id = none) :
    (a.unhook id).LinkedOn fun j => j < (a.unhook id).size ∧ j ≠ id := by
  obtain ⟨p, hp⟩ := h.exists_represents
  obtain ⟨cs, v, l, r, rfl, hnode⟩ := hp.exists_plug (hp.mem_ids_iff.mpr hid)
  have hlr : l = nil ∨ r = nil := by
    rwa [left?, right?, hnode, Option.bind_some, Option.bind_some, link_eq_none_iff,
      link_eq_none_iff] at hchild
  obtain ⟨hcarries, -⟩ := hp.toCarries.unhook hp.nodup_ids hlr
  refine hcarries.linkedOn_of_perm ?_
  rw [size_unhook]
  exact (ids_plug_eraseRoot cs (id, v) l r).trans hp.ids

/-- No node of a tree links to a place outside. -/
theorem Carries.avoids (h : a.Carries t) (hid : id ∉ t.ids) {j : NodeId} {n : Node α}
    (hj : j ∈ t.ids) (hn : a.node? j = some n) : n.Avoids id := by
  obtain ⟨cs, v, l, r, rfl, hnode⟩ := h.exists_plug hj
  obtain rfl := Option.some.inj (hn.symm.trans hnode)
  rw [(ids_plug_node cs (j, v) l r).mem_iff] at hid
  simp only [List.mem_cons, List.mem_append, not_or] at hid
  obtain ⟨-, hl, hr, hcs⟩ := hid
  exact ⟨holeParent_ne_some hcs, ne_some_of_notMem hl, ne_some_of_notMem hr⟩

/-! ### Closing the gap -/

/-- **What an arena is like after a place was given up.**  It is one node smaller and the layout of
the same tree.  The last node stands at the place that was given up, all others stand where they
did, and the links are as they were, except that those to the last place follow. -/
structure ClosesGap (a : Arena α) (id : NodeId) (b : Arena α) : Prop where
  size : b.size + 1 = a.size
  linked : b.WellLinked
  shape : b.shape = a.shape
  /-- The same ways lead down from the root, to where the nodes stand now. -/
  descend : ∀ path, b.descend b.root path = (a.descend a.root path).map (movedTo (a.size - 1) id)
  node : ∀ j n, j ≠ id → a.node? j = some n →
    b.node? (movedTo (a.size - 1) id j) = some (n.relink (movedTo (a.size - 1) id))
  /-- No link changes but those that led to the last place. -/
  kept : ∀ j n, j ≠ id → a.node? j = some n →
    (b.node? (movedTo (a.size - 1) id j) = some n ↔ n.Avoids (a.size - 1))

/-- The shape that is read off the links of a tree, wherever it stands. -/
theorem Carries.shape_eq (h : a.Carries t) (hsize : t.numNodes ≤ a.size) : a.shape = t.shape := by
  rw [shape, h.root]
  exact h.nodes.read_eq (Nat.le_trans t.height_le_numNodes hsize)

/-- A node of a relabelled tree has the links of the node before, relabelled. -/
theorem Carries.node?_relocate {last : NodeId} (h : a.Carries t)
    (hb : b.Carries (t.map (relocate last id))) {j : NodeId} {n : Node α} (hj : j ∈ t.ids)
    (hn : a.node? j = some n) :
    b.node? (movedTo last id j) = some (n.relink (movedTo last id)) := by
  obtain ⟨cs, v, l, r, rfl, hnode⟩ := h.exists_plug hj
  obtain rfl := Option.some.inj (hn.symm.trans hnode)
  rw [plug_map, BinaryTree.map] at hb
  have hmoved := hb.node?_eq
  rw [holeParent_relocate, link_relocate, link_relocate] at hmoved
  exact hmoved

/-- **Giving up a place.**  Let the links of all nodes but one join them to a tree that hangs from
the root, and let no link lead to that one.  Then giving up its place gives its value and closes the
gap, whether the last node of the array is the root of the tree, a child on either side, a leaf or
an inner node, or the one that goes. -/
theorem discard_closesGap (hid : id < a.size) (h : a.LinkedOn fun j => j < a.size ∧ j ≠ id) :
    (∃ v, a.value? id = some v ∧ (a.discard id).1 = some v) ∧
      ClosesGap a id (a.discard id).2 := by
  obtain ⟨t, ht, hids⟩ := h.exists_carries_perm hid
  obtain ⟨hvalue, hrep⟩ := ht.discard hids
  have hsize : t.numNodes + 1 = a.size := by
    simpa using hids.length_eq
  have hmem : ∀ {j n}, j ≠ id → a.node? j = some n → j ∈ t.ids := by
    intro j n hne hn
    have hlt : j < a.size := node?_isSome_iff.mp (by rw [hn]; rfl)
    exact List.mem_of_ne_of_mem hne (hids.mem_iff.mpr (List.mem_range.mpr hlt))
  have hapart : id ∉ t.ids := (List.nodup_cons.mp (hids.nodup_iff.mpr List.nodup_range)).1
  refine ⟨?_, ?_⟩
  · obtain ⟨n, hn⟩ := Option.isSome_iff_exists.mp (node?_isSome_iff.mpr hid)
    have hv : a.value? id = some n.value := by rw [value?, hn]; rfl
    exact ⟨n.value, hv, hvalue.trans hv⟩
  constructor
  case size => rw [hrep.size_eq, numNodes_map, hsize]
  case linked => exact hrep.wellLinked
  case shape =>
    rw [hrep.shape_eq, shape_relocate]
    exact (ht.shape_eq (by omega)).symm
  case descend =>
    intro path
    rw [hrep.descend_eq, along_map, link_relocate, ht.descend_eq]
  case node =>
    intro j n hne hn
    exact ht.node?_relocate hrep.toCarries (hmem hne hn) hn
  case kept =>
    intro j n hne hn
    have hj := hmem hne hn
    rw [ht.node?_relocate hrep.toCarries hj hn, Option.some_inj]
    exact Node.relink_movedTo_eq_iff (ht.avoids hapart hj hn)

/-- Three removals of values that were inserted early have moved nodes forward: the last one is the
root of a subtree, and its children stand before it. -/
def subtreeLast : SearchTree Int64 :=
  (((SearchTree.ofList [2, 0, 1, -1, 6, 4, 8, 9]).result.without 0).without 0).without 0

/-- The leaf at place 3 goes, and the node of 6, with a parent and two children, moves there. -/
theorem discard_closesGap_subtreeLast : subtreeLast.Reachable ∧
    (subtreeLast.arena.unhook 3).node? 4 = some ⟨6, some 0, some 2, some 1⟩ ∧
    ((subtreeLast.arena.unhook 3).discard 3).1 = some 9 ∧
    ((subtreeLast.arena.unhook 3).discard 3).2.node? 0 = some ⟨2, none, none, some 3⟩ ∧
    ((subtreeLast.arena.unhook 3).discard 3).2.node? 3 = some ⟨6, some 0, some 2, some 1⟩ ∧
    ClosesGap (subtreeLast.arena.unhook 3) 3 ((subtreeLast.arena.unhook 3).discard 3).2 := by
  have hreachable : subtreeLast.Reachable :=
    (((SearchTree.Reachable.ofList _).without 0).without 0).without 0
  obtain ⟨p, hp⟩ := hreachable.exists_represents
  have hlt : 3 < subtreeLast.arena.size := by decide +kernel
  have hapart := hp.wellLinked.linkedOn_unhook hlt (.inl rfl)
  obtain ⟨-, hcloses⟩ := discard_closesGap (by decide +kernel) hapart
  exact ⟨hreachable, rfl, rfl, rfl, rfl, hcloses⟩

end Arena

end Containers
