import Containers.SearchTree.Rank
import Containers.Proofs.SearchTree.Order
import Containers.Proofs.SearchTree.Removal

/-!
# Ranks and removal

Positions of the sequence address the nodes of the represented tree, and a removal deletes at a
position.

* `SearchTree.valueAt` — the answer about a rank, from the list of the values alone;
* `SearchTree.refusalAt` — the refusal of a position, from the number of values alone;
* `Removal.ofArity` — the name of a removal, by the number of children.

**`get_eq`** and **`removeAt_refused`** read answers off those; **`removeAt_eq`** — a removal takes
out the node at its position, and **`removeAt_spec`** — it gives the value there, reports one event,
and leaves an arena of the tree without it.
-/

namespace Containers

open BinaryTree

variable {α : Type}

namespace SearchTree

/-- What is answered about a rank of a list in ascending order. -/
def valueAt (xs : List α) (rank : Int) : Except Fault α :=
  match (position? rank xs.length).bind (xs[·]?) with
  | some a => .ok a
  | none =>
    .error (.unranked (if xs.length = 0 then .empty else .outside rank xs.length))

/-- A rank counts from the front or from the back. -/
theorem position?_eq_some_iff {rank : Int} {size i : Nat} (h : i < size) :
    position? rank size = some i ↔ rank = i ∨ rank = i - size := by
  rw [position?]
  split
  · rw [Option.some.injEq]
    omega
  split
  · rw [Option.some.injEq]
    omega
  · simp only [reduceCtorEq, false_iff]
    omega

/-- A rank addresses a position exactly if it is not out of bounds. -/
theorem position?_lt_iff {rank : Int} {size : Nat} :
    (∃ position, position? rank size = some position ∧ position < size) ↔
      -size ≤ rank ∧ rank < size := by
  rw [position?]
  split
  · simp only [Option.some.injEq, exists_eq_left']
    omega
  split
  · simp only [Option.some.injEq, exists_eq_left']
    omega
  · simp only [reduceCtorEq, false_and, exists_false, false_iff]
    omega

theorem valueAt_of_lt {xs : List α} {i : Nat} (h : i < xs.length) {rank : Int}
    (hrank : rank = i ∨ rank = i - xs.length) : valueAt xs rank = .ok xs[i] := by
  rw [valueAt, (position?_eq_some_iff h).mpr hrank, Option.bind_some, List.getElem?_eq_getElem h]

theorem valueAt_of_outside {xs : List α} {rank : Int}
    (h : ¬ (-xs.length ≤ rank ∧ rank < xs.length)) : valueAt xs rank =
      .error (.unranked (if xs.length = 0 then .empty else .outside rank xs.length)) := by
  have hnone : (position? rank xs.length).bind (xs[·]?) = none := by
    rw [Option.bind_eq_none_iff]
    intro position hposition
    rw [List.getElem?_eq_none_iff]
    by_contra hlt
    exact h (position?_lt_iff.mp ⟨position, hposition, Nat.lt_of_not_le hlt⟩)
  rw [valueAt, hnone]

/-- How a position that is not below the number of values is refused. -/
def refusalAt (position size : Nat) : RankRefusal :=
  if size = 0 then .empty else .outside (min (position : Int) greatestRank) size

/-- How a node leaves that has so many children. -/
def Removal.ofArity : Nat → Removal
  | 0 => .leaf
  | 1 => .singleChild
  | _ => .twoChildren

theorem removalOf_eq (x : NodeId × α) (parent : Option NodeId) (l r : BinaryTree (NodeId × α)) :
    removalOf ⟨x.2, parent, l.link, r.link⟩ = .ofArity (node x l r).arity := by
  cases l <;> cases r <;> rfl

variable {t : SearchTree α} {p : BinaryTree (NodeId × α)}

theorem size_eq_length (h : t.arena.Represents p) : t.size = t.toList.length := by
  rw [toList_eq h, length_inorder, numNodes_shape]
  exact h.size_eq

theorem isEmpty_iff (h : t.arena.Represents p) : t.isEmpty ↔ t.toList.length = 0 := by
  rw [← size_eq_length h]
  exact decide_eq_true_iff

/-- The value at a label is the value at the same position. -/
theorem value?_ids (h : t.arena.Represents p) {position : Nat} {id : NodeId}
    (hid : p.ids[position]? = some id) :
    ∃ a, t.arena.value? id = some a ∧ t.toList[position]? = some a := by
  rw [ids, List.getElem?_map] at hid
  obtain ⟨x, hx, rfl⟩ := Option.map_eq_some_iff.mp hid
  refine ⟨x.2, h.toCarries.value?_eq (List.mem_of_getElem? hx), ?_⟩
  rw [toList_eq h, inorder_shape, List.getElem?_map, hx]
  rfl

/-- **Reading by rank** depends on the values in order alone. -/
theorem get_eq (h : t.arena.Represents p) (rank : Int) : t.get rank = valueAt t.toList rank := by
  have hsize := size_eq_length h
  have hlength : p.ids.length = t.toList.length := by
    rw [length_ids, ← hsize]
    exact h.size_eq.symm
  have hnodeAt : t.nodeAt? = fun position => p.ids[position]? := funext (nodeAt?_eq h)
  rw [get, locate, valueAt, hsize, hnodeAt]
  by_cases hempty : t.toList.length = 0
  · have hnil : t.toList = [] := List.length_eq_zero_iff.mp hempty
    have hnone : (position? rank t.toList.length).bind (t.toList[·]?) = none := by
      rw [hnil]
      cases position? rank ([] : List α).length <;> rfl
    rw [if_pos ((isEmpty_iff h).mpr hempty), hnone, if_pos hempty]
  · have hnot : ¬ t.isEmpty := by
      intro hyes
      exact hempty ((isEmpty_iff h).mp hyes)
    rw [if_neg hnot, if_neg hempty]
    cases hposition : position? rank t.toList.length with
    | none => rfl
    | some position =>
      rw [Option.bind_some, Option.bind_some]
      cases hid : p.ids[position]? with
      | none =>
        have hnone : t.toList[position]? = none := by
          rw [List.getElem?_eq_none_iff, ← hlength]
          exact List.getElem?_eq_none_iff.mp hid
        rw [hnone]
      | some id =>
        obtain ⟨a, hvalue, hget⟩ := value?_ids h hid
        rw [hget]
        simp only [hvalue]

/-- Removal takes out the node at its position. -/
theorem removeAt_eq {cs : List (Crumb (NodeId × α))} {x : NodeId × α}
    {l r : BinaryTree (NodeId × α)} (h : t.arena.Represents (plug cs (node x l r))) {position : Nat}
    (hx : (plug cs (node x l r)).inorder[position]? = some x) :
    t.removeAt position = ⟨.ok (x.2, ⟨(t.arena.remove x.1).2, t.unique⟩),
      [.removed (.ofArity (node x l r).arity) position]⟩ := by
  have hid : (plug cs (node x l r)).ids[position]? = some x.1 := by
    rw [ids, List.getElem?_map, hx]
    rfl
  have hlocate : t.locateFromStart position = .ok x.1 := by
    have hempty : ¬ t.isEmpty := by
      intro hyes
      have hzero : (plug cs (node x l r)).numNodes = 0 := h.size_eq ▸ decide_eq_true_iff.mp hyes
      have hlt := (List.getElem?_eq_some_iff.mp hx).1
      rw [length_inorder] at hlt
      omega
    rw [locateFromStart, if_neg hempty, nodeAt?_eq h, hid]
  have hremove : t.arena.remove x.1 = (some x.2, (t.arena.remove x.1).2) :=
    Prod.ext h.remove.1 rfl
  rw [removeAt, hlocate, ← removalOf_eq x (holeParent cs) l r]
  simp only [h.toCarries.node?_eq]
  rw [hremove]
  rfl

/-- **Removal** at a position below the size gives the value there, reports how the node leaves, and
leaves an arena of the tree without it. -/
theorem removeAt_spec (h : t.arena.Represents p) {position : Nat} (hlt : position < p.numNodes) :
    ∃ a arena q, p.shape.inorder[position]? = some a ∧
      t.removeAt position = ⟨.ok (a, ⟨arena, t.unique⟩),
        [.removed (.ofArity (p.shape.subtreeAt position).arity) position]⟩ ∧
      arena.Represents q ∧ q.shape = p.shape.eraseAt position := by
  obtain ⟨cs, hplug, herase⟩ := exists_plug_subtreeAt p position
  obtain ⟨x, l, r, hsub, hget⟩ := subtreeAt_eq_node p position hlt
  have hplugged : p = plug cs (node x l r) := by rwa [hsub] at hplug
  have harity : (p.shape.subtreeAt position).arity = (node x l r).arity := by
    rw [shape, subtreeAt_map, arity_map, hsub]
  rw [hplugged] at h
  obtain ⟨-, q, hq, hshape⟩ := h.remove
  refine ⟨x.2, (t.arena.remove x.1).2, q, ?_, ?_, hq, ?_⟩
  · rw [inorder_shape, List.getElem?_map, hget]
    rfl
  · rw [harity]
    exact removeAt_eq h (hplugged ▸ hget)
  · rw [hshape, shape, shape, eraseAt_map, herase, hsub]

/-- A position that is not below the size is looked for in vain. -/
theorem locateFromStart_refused (h : t.arena.Represents p) {position : Nat}
    (hge : p.numNodes ≤ position) :
    t.locateFromStart position = .error (refusalAt position p.numNodes) := by
  have hsize : t.size = p.numNodes := h.size_eq
  have hnone : p.ids[position]? = none :=
    List.getElem?_eq_none_iff.mpr (by rwa [length_ids])
  rw [locateFromStart, isEmpty, nodeAt?_eq h, hnone, refusalAt, hsize]
  by_cases hempty : p.numNodes = 0
  · rw [if_pos hempty, if_pos (decide_eq_true hempty)]
  · rw [if_neg hempty, if_neg (by simpa using hempty)]

/-- It is refused without an event. -/
theorem removeAt_refused (h : t.arena.Represents p) {position : Nat}
    (hge : p.numNodes ≤ position) :
    t.removeAt position = ⟨.error (.unranked (refusalAt position p.numNodes)), []⟩ := by
  rw [removeAt, locateFromStart_refused h hge]
  rfl

/-- What a removal leaves is the layout of the tree after the deletion. -/
theorem removeAt_ok {u : SearchTree α} {position : Nat} {a : α} (h : t.arena.Represents p)
    (hremove : (t.removeAt position).result = .ok (a, u)) :
    position < p.numNodes ∧ p.shape.inorder[position]? = some a ∧ u.unique = t.unique ∧
      ∃ q, u.arena.Represents q ∧ q.shape = p.shape.eraseAt position := by
  by_cases hlt : position < p.numNodes
  · obtain ⟨b, arena, q, hget, hspec, hq, hshape⟩ := removeAt_spec h hlt
    rw [hspec] at hremove
    obtain ⟨rfl, rfl⟩ := Prod.mk.inj (Except.ok.inj hremove)
    exact ⟨hlt, hget, rfl, q, hq, hshape⟩
  · rw [removeAt_refused h (Nat.le_of_not_lt hlt)] at hremove
    cases hremove

end SearchTree

end Containers
