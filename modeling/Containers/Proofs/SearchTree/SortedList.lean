import Containers.Element.Entry
import Containers.Proofs.SearchTree.Reachable

/-!
# Trees as ascending lists

What a tree does is what one would do to the list of its values, kept in ascending order.

* `SearchTree.ActsAsSortedList` — size, order, insertion, removal and visits, by that list;
* **`actsAsSortedList`** — every reachable tree acts as its list.

Values may be equal and still be told apart, so the list says more than how often each value occurs:
a new value stands in front of the values that it is equal to, whatever was removed before.
-/

namespace Containers.SearchTree

open BinaryTree

variable {α : Type} [Ord α]

/-- A tree does what the list of its values would do. -/
structure ActsAsSortedList (t : SearchTree α) : Prop where
  size : t.size = t.toList.length
  ascending : t.toList.Pairwise AtMost
  /-- A value that is taken goes behind the values strictly below it, and in front of all others. -/
  inserted : ∀ a, (t.insert a).result.1 = true →
    (t.insert a).result.2.toList =
      t.toList.take (lowerBound a t.toList) ++ [a] ++ t.toList.drop (lowerBound a t.toList)
  refused : ∀ a, (t.insert a).result.1 = false → (t.insert a).result.2 = t
  removed : ∀ rank (h : rank < t.toList.length), ∃ u : SearchTree α,
    (t.removeAt rank).result = .ok (t.toList[rank], u) ∧ u.toList = t.toList.eraseIdx rank
  visited : ∀ {σ : Type} (f : Nat → α → StateM σ Bool) (s : σ),
    t.visit f s = .ok (visitList f 0 t.toList s)

section Operations

variable {t : SearchTree α} {p : BinaryTree (NodeId × α)}

/-- Where an accepted value stands in the list. -/
theorem toList_insert [Std.TransOrd α] (h : t.arena.Represents p) (hascends : Ascends p.shape)
    {a : α} (haccepted : (t.insert a).result.1 = true) :
    (t.insert a).result.2.toList =
      t.toList.take (lowerBound a t.toList) ++ [a] ++ t.toList.drop (lowerBound a t.toList) := by
  obtain ⟨-, ⟨-, hresult⟩ | ⟨q, arena, hsome, hresult, hq⟩⟩ := insert_spec a h
  · rw [hresult] at haccepted
    cases haccepted
  · rw [hresult, List.append_assoc, List.singleton_append]
    show (⟨arena, t.unique⟩ : SearchTree α).toList = _
    rw [toList_eq hq, toList_eq h, inorder_insert? hascends hsome]
    exact orderedInsert_eq_lowerBound a hascends

/-- A refused value leaves the tree as it is, place by place. -/
theorem insert_refused (h : t.arena.Represents p) {a : α}
    (hrefused : (t.insert a).result.1 = false) : (t.insert a).result.2 = t := by
  obtain ⟨-, ⟨-, hresult⟩ | ⟨q, arena, -, hresult, -⟩⟩ := insert_spec a h
  · rw [hresult]
  · rw [hresult] at hrefused
    cases hrefused

omit [Ord α] in
theorem toList_removeAt (h : t.arena.Represents p) {rank : Nat} (hlt : rank < t.toList.length) :
    ∃ u : SearchTree α, (t.removeAt rank).result = .ok (t.toList[rank], u) ∧
      u.toList = t.toList.eraseIdx rank := by
  have hnodes : rank < p.numNodes := by
    have hsize : t.size = p.numNodes := h.size_eq
    rw [size_eq_length h] at hsize
    omega
  obtain ⟨a, arena, q, hget, hspec, hq, hshape⟩ := removeAt_spec h hnodes
  have hvalue : t.toList[rank] = a := by
    rw [← toList_eq h] at hget
    exact (List.getElem_eq_iff hlt).mpr hget
  refine ⟨⟨arena, t.unique⟩, ?_, ?_⟩
  · rw [hspec, hvalue]
  · rw [toList_eq hq, toList_eq h, hshape, inorder_eraseAt]

end Operations

/-- **A search tree acts as the ascending list of its values**, for every total order, whatever was
inserted, refused, removed and switched before. -/
theorem actsAsSortedList [Std.TransOrd α] {t : SearchTree α} (h : Reachable t) :
    ActsAsSortedList t := by
  obtain ⟨p, hp, hascends⟩ := h.ascends
  constructor
  case size => exact size_eq_length hp
  case ascending => exact h.pairwise_atMost
  case inserted =>
    intro a haccepted
    exact toList_insert hp hascends haccepted
  case refused =>
    intro a hrefused
    exact insert_refused hp hrefused
  case removed =>
    intro rank hlt
    exact toList_removeAt hp hlt
  case visited =>
    intro σ f s
    exact visit_eq hp f s

instance : Std.TransOrd Entry :=
  inferInstanceAs (Std.TransCmp (compareOn Entry.key))

/-- Three entries of one key, of which the removal of the root has moved one above the others. -/
def tied : SearchTree Entry :=
  match ((ofList [⟨1, "a"⟩, ⟨0, "b"⟩, ⟨2, "c"⟩, ⟨2, "d"⟩, ⟨2, "e"⟩]).result.removeAt 1).result with
  | .ok (_, t) => t
  | .error _ => .empty

theorem reachable_tied : Reachable tied := by
  have hremove :
      ((ofList [⟨1, "a"⟩, ⟨0, "b"⟩, ⟨2, "c"⟩, ⟨2, "d"⟩, ⟨2, "e"⟩]).result.removeAt 1).result =
        .ok ((⟨1, "a"⟩ : Entry), tied) := rfl
  exact .removeAt (.ofList _) hremove

/-- The tied entries keep their order, latest first. -/
theorem actsAsSortedList_tied : Reachable tied ∧
    tied.toList.map Entry.tag = ["b", "e", "d", "c"] ∧ ActsAsSortedList tied :=
  ⟨reachable_tied, rfl, actsAsSortedList reachable_tied⟩

end Containers.SearchTree
