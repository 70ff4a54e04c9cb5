import Mathlib.Data.List.Perm.Basic
import Containers.Proofs.SearchTree.SortedList
import Containers.Proofs.SearchTree.Walk

/-!
# Giving up a tree

A tree that is given up takes its values out of their places, each place once, in the order of the
walk.  That goes well for an order of places just if none of them comes twice and none is empty.

* **`takeOut_eq_ok_iff`** — which orders of places give values, and which values;
* **`consume_eq`** — the order of the walk does, and gives the values that the walk comes by;
* `perm_values` — no value of the arena is missing from the walk, and none comes twice;
* `SearchTree.GivesUpInOrder` — a tree that is given up is traversed as the list of its values, from
  either end;
* **`givesUpInOrder`** — every reachable tree is, whatever its places have come to be.
-/

namespace Containers.SearchTree

open BinaryTree

variable {α : Type}

/-! ### Places that give their values once -/

theorem join_emptied (places : Array (Option α)) (id j : NodeId) :
    (places.setIfInBounds id none)[j]?.join = if id = j then none else places[j]?.join := by
  rw [Array.getElem?_setIfInBounds]
  split
  · split <;> rfl
  · rfl

/-- After a place was emptied, others can be read just if it is not among them. -/
theorem map_emptied_iff {ids : List NodeId} {places : Array (Option α)} {id : NodeId}
    {as : List α} :
    ids.map (fun j => (places.setIfInBounds id none)[j]?.join) = as.map some ↔
      id ∉ ids ∧ ids.map (fun j => places[j]?.join) = as.map some := by
  simp only [join_emptied]
  constructor
  · intro h
    have hmem : id ∉ ids := by
      intro hid
      have hnone : none ∈ as.map some := by
        rw [← h]
        exact List.mem_map.mpr ⟨id, hid, if_pos rfl⟩
      simp at hnone
    refine ⟨hmem, h ▸ List.map_congr_left fun j hj => ?_⟩
    rw [if_neg (ne_of_mem_of_not_mem hj hmem).symm]
  · rintro ⟨hmem, h⟩
    rw [← h]
    refine List.map_congr_left fun j hj => ?_
    rw [if_neg (ne_of_mem_of_not_mem hj hmem).symm]

theorem takeOut_cons_eq_ok_iff {ids : List NodeId} {places : Array (Option α)} {id : NodeId}
    {as : List α} : takeOut (id :: ids) places = .ok as ↔
      ∃ a bs, places[id]?.join = some a ∧ takeOut ids (places.setIfInBounds id none) = .ok bs ∧
        as = a :: bs := by
  rw [takeOut]
  cases places[id]?.join with
  | none => simp
  | some a =>
    cases takeOut ids (places.setIfInBounds id none) with
    | error fault => simp [bind, Except.bind]
    | ok bs => simp [bind, Except.bind, pure, Except.pure, eq_comm]

/-- **Taking values out of their places** succeeds just if no place is asked twice and none is
empty, and then gives what stands in the places. -/
theorem takeOut_eq_ok_iff {ids : List NodeId} {places : Array (Option α)} {as : List α} :
    takeOut ids places = .ok as ↔
      ids.Nodup ∧ ids.map (fun id => places[id]?.join) = as.map some := by
  induction ids generalizing places as with
  | nil =>
    rw [takeOut]
    cases as <;> simp [pure, Except.pure]
  | cons id ids ih =>
    rw [takeOut_cons_eq_ok_iff, List.nodup_cons, List.map_cons]
    simp only [ih, map_emptied_iff]
    constructor
    · rintro ⟨a, bs, hplace, ⟨hnodup, hmem, hrest⟩, rfl⟩
      exact ⟨⟨hmem, hnodup⟩, by rw [hplace, hrest, List.map_cons]⟩
    · rintro ⟨⟨hmem, hnodup⟩, hvalues⟩
      obtain ⟨a, bs, rfl, hplace, hrest⟩ := List.map_eq_cons_iff.mp hvalues.symm
      exact ⟨a, bs, hplace.symm, ⟨hnodup, hmem, hrest.symm⟩, rfl⟩

/-- A place asked twice, and one that is not there. -/
example : takeOut [1, 0, 1] #[some 'a', some 'b'] = .error .vacant ∧
    takeOut [1, 2] #[some 'a', some 'b'] = .error .vacant := by
  decide

/-! ### The places of a tree -/

variable {t : SearchTree α} {p : BinaryTree (NodeId × α)}

theorem join_places (t : SearchTree α) (id : NodeId) :
    (t.arena.nodes.map fun n => some n.value)[id]?.join = t.arena.value? id := by
  rw [Array.getElem?_map, Arena.value?, Arena.node?]
  cases t.arena.nodes[id]? <;> rfl

/-- The values read off the places of the walk. -/
theorem map_value?_ids (h : t.arena.Represents p) :
    p.ids.map t.arena.value? = t.toList.map some := by
  rw [toList_eq h, inorder_shape, ids, List.map_map, List.map_map]
  exact List.map_congr_left fun x hx => h.toCarries.value?_eq hx

/-- The values read off all places. -/
theorem map_value?_range (a : Arena α) :
    (List.range a.size).map a.value? = (a.nodes.toList.map Node.value).map some := by
  apply List.ext_getElem
  · simp [Arena.size]
  · intro id hid _
    have hlt : id < a.nodes.size := by simpa [Arena.size] using hid
    simp [Arena.value?, Arena.node?, hlt]

/-- **No place of the walk is found empty**, and the values come in the order of the walk. -/
theorem consume_eq (h : t.arena.Represents p) : t.consume = .ok t.toList := by
  rw [consume, takeOut_eq_ok_iff, order_eq h]
  simp only [join_places]
  exact ⟨h.nodup_ids, map_value?_ids h⟩

/-- **Every value of the arena** comes once. -/
theorem perm_values (h : t.arena.Represents p) :
    t.toList.Perm (t.arena.nodes.toList.map Node.value) := by
  have hperm := h.ids.map t.arena.value?
  rw [map_value?_ids h, map_value?_range] at hperm
  exact (List.map_perm_map_iff (Option.some_injective α)).mp hperm

/-! ### Both ways to traverse -/

/-- The values of a tree that is given up are those that a walk comes by, and they are traversed as
a list, from either end. -/
structure GivesUpInOrder (t : SearchTree α) : Prop where
  /-- No place is found empty. -/
  consumed : t.consume = .ok t.toList
  walked : ∃ v, Traversal.drain () t.values = .ok (t.toList, v)
  /-- No value of the arena is left behind, and none comes twice. -/
  complete : t.toList.Perm (t.arena.nodes.toList.map Node.value)
  iterates : ∀ script : List (Step End), ∃ rest : List α, Traversal.Iterates t.toList script
    ((Cursor.ofList t.toList).run script) rest ∧
      rest = ((Cursor.ofList t.toList).run script).2.left
  /-- What is asked of the front is answered as by a walk. -/
  agrees : ∀ script : List (Step Unit), Traversal.run t.values script =
    t.consume >>= fun as => Traversal.run as (script.map (Step.map fun _ => .front))

/-- **The rest of a list** is traversed as by the cursor in it. -/
theorem exists_iterates_list (as : List α) (script : List (Step End)) :
    ∃ rest : List α, Traversal.Iterates as script ((Cursor.ofList as).run script) rest ∧
      rest = ((Cursor.ofList as).run script).2.left := by
  have hiterates := Traversal.list_follows_cursor.iterates
    (show as = (Cursor.ofList as).left from rfl) script
  rwa [Step.map_id, List.map_id] at hiterates

theorem drain_values (h : t.arena.Represents p) :
    ∃ v, Traversal.drain () t.values = .ok (t.toList, v) := by
  have hgives := gives_values h.awaits_start
  rw [← inorder_shape, ← toList_eq h] at hgives
  refine Traversal.drain_front_eq hgives ?_
  rw [← size_eq_length h]
  exact Nat.le_refl _

variable [Ord α]

/-- **Owned and borrowed values are traversed alike.**  A reachable tree that is given up finds every
one of its places occupied, whatever moved there when other nodes left, and gives the values of the
walk.  Any script is answered as by the cursor in their list. -/
theorem givesUpInOrder (h : Reachable t) : GivesUpInOrder t := by
  obtain ⟨p, hp⟩ := h.exists_represents
  have hconsume := consume_eq hp
  constructor
  case consumed => exact hconsume
  case walked => exact drain_values hp
  case complete => exact perm_values hp
  case iterates => exact exists_iterates_list t.toList
  case agrees =>
    intro script
    obtain ⟨v, hwalk⟩ := exists_iterates hp script
    obtain ⟨rest, hlist, -⟩ := exists_iterates_list t.toList
      (script.map (Step.map fun _ => End.front))
    rw [hconsume, hwalk.run]
    exact hlist.run.symm

/-- Entries of which three are equal, the last of them in the place of one that was removed. -/
theorem givesUpInOrder_tied : Reachable tied ∧ tied.order = [1, 0, 3, 2] ∧
    GivesUpInOrder tied :=
  ⟨reachable_tied, rfl, givesUpInOrder reachable_tied⟩

end Containers.SearchTree
