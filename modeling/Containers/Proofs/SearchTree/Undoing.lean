import Containers.Proofs.SearchTree.SortedList
import Containers.Proofs.SearchTree.Distinct

/-!
# Undoing insertions

A value that was taken can be given back: it stands behind the values strictly below it, and the
removal at that rank leaves the tree as it was, place by place and link by link.

* `SearchTree.undoing` — the ranks at which what was inserted is removed again, last one first;
* **`removal_undoes_insertion`** — the removal of the value that was inserted last, and of all values
  that were inserted one after the other.

That the contents are as before would not be enough.  An arena with the same values could have them
at other places, or reach them over other links.
-/

namespace Containers.SearchTree

open BinaryTree

variable {α : Type} [Ord α] {t : SearchTree α}

/-- The new leaf stands behind the values strictly below its own, on whichever side it was hung. -/
theorem lowerBound_of_insert? [Std.TransOrd α] {a : α} {id : NodeId}
    {cs : List (Crumb (NodeId × α))} (hascends : Ascends (plug cs nil).shape) {unique : Bool}
    (hinsert : (plug cs nil).shape.insert? unique a =
      some (plug cs (node (id, a) nil nil)).shape) :
    lowerBound a (plug cs nil).shape.inorder = (valuesBefore cs).length := by
  obtain ⟨ds, hnil, hleaf, -, hsides⟩ := leafAdded_of_insert? hinsert
  rw [shape_plug] at hnil hleaf hascends ⊢
  obtain rfl : cs.map (Crumb.map Prod.snd) = ds := plug_injective hnil hleaf
  rw [← length_valuesBefore_map Prod.snd]
  exact lowerBound_plug hascends hsides

/-- **Removing what was inserted** gives the value back, reports the removal of a leaf, and leaves
the tree as it was. -/
theorem Reachable.removeAt_of_insert [Std.TransOrd α] (h : Reachable t) {a : α}
    (haccepted : (t.insert a).result.1 = true) :
    (t.insert a).result.2.removeAt (lowerBound a t.toList) =
      ⟨.ok (a, t), [.removed .leaf (lowerBound a t.toList)]⟩ := by
  obtain ⟨p, hp, hascends⟩ := h.ascends
  obtain ⟨-, ⟨-, hresult⟩ | ⟨cs, arena, rfl, hinsert, hresult, hq⟩⟩ := insert_leaf a hp
  · rw [hresult] at haccepted
    cases haccepted
  · have hrank : lowerBound a t.toList = (valuesBefore cs).length := by
      rw [toList_eq hp]
      exact lowerBound_of_insert? hascends hinsert
    have hlast : t.size = arena.size - 1 := by
      rw [hq.size_eq, numNodes_plug, ← hp.size_eq]
      rfl
    have hrestored : (arena.remove t.size).2 = t.arena := (hq.remove_last_leaf hlast).unique hp
    rw [hresult, hrank, removeAt_eq hq (getElem?_inorder_plug_leaf cs _), hrestored]
    rfl

/-- The ranks at which values that were inserted one after the other are removed again, last one
first.  There are none for those that were refused. -/
def undoing (t : SearchTree α) : List α → List Nat
  | [] => []
  | a :: as =>
    undoing (t.insert a).result.2 as ++
      if (t.insert a).result.1 then [lowerBound a t.toList] else []

/-- **Whatever was inserted** can be undone step by step. -/
theorem Reachable.foldl_undoing [Std.TransOrd α] (h : Reachable t) (as : List α) :
    (t.undoing as).foldl SearchTree.without (t.insertMany as).result.2 = t := by
  induction as generalizing t with
  | nil => rfl
  | cons a as ih =>
    rw [undoing, List.foldl_append, insertMany_cons, ih (h.insert a)]
    cases haccepted : (t.insert a).result.1 with
    | false => exact h.refusesTies.refused a haccepted
    | true =>
      show (t.insert a).result.2.without (lowerBound a t.toList) = t
      simp only [SearchTree.without, h.removeAt_of_insert haccepted]

/-- **Removal undoes insertion.**  The removal at the rank of the values strictly below one that has
just been taken gives that value back and leaves the same arena: the same nodes at the same places,
with the same values and links, and the same root.  The removals at the ranks of several values, last
one first, leave the tree as it was before all of them. -/
theorem removal_undoes_insertion [Std.TransOrd α] (h : Reachable t) :
    (∀ a, (t.insert a).result.1 = true →
      (t.insert a).result.2.removeAt (lowerBound a t.toList) =
        ⟨.ok (a, t), [.removed .leaf (lowerBound a t.toList)]⟩) ∧
    ∀ as, (t.undoing as).foldl SearchTree.without (t.insertMany as).result.2 = t :=
  ⟨fun _ haccepted => h.removeAt_of_insert haccepted, h.foldl_undoing⟩

/-- A fourth entry of a key is taken out again from among the others, which stand where they were. -/
theorem removal_undoes_insertion_tied : Reachable tied ∧
    (tied.insert ⟨2, "f"⟩).result.1 = true ∧ lowerBound ⟨2, "f"⟩ tied.toList = 1 ∧
    ((tied.insert ⟨2, "f"⟩).result.2.removeAt 1).result = .ok (⟨2, "f"⟩, tied) ∧
    tied.undoing [⟨2, "f"⟩, ⟨1, "g"⟩, ⟨2, "h"⟩] = [2, 1, 1] ∧
    [2, 1, 1].foldl SearchTree.without
      (tied.insertMany [⟨2, "f"⟩, ⟨1, "g"⟩, ⟨2, "h"⟩]).result.2 = tied := by
  obtain ⟨hone, hmany⟩ := removal_undoes_insertion reachable_tied
  refine ⟨reachable_tied, rfl, rfl, ?_, rfl, hmany [⟨2, "f"⟩, ⟨1, "g"⟩, ⟨2, "h"⟩]⟩
  exact congrArg Traced.result (hone ⟨2, "f"⟩ rfl)

end Containers.SearchTree
