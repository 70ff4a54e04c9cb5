import Containers.Proofs.SearchTree.Distinct
import Containers.Proofs.StableSort

/-!
# Adding many values

Where a leaf is hung depends on the shape of the tree, but what becomes of the values does not.  A
tree that takes equal values sorts them, latest first.  A tree that refuses them merges with its own
values the first of each kind that is new to it.

* `SearchTree.AddsInBulk` — how many of the values are taken, and where they stand afterwards;
* **`adding_sorts_stably`** — every reachable tree adds values in this way, a tree that is made of a
  list is its stable sort from the back, and extending a tree does what adding to it does.
-/

namespace Containers.SearchTree

open BinaryTree

variable {α : Type} [Ord α] {t u : SearchTree α}

/-- What comes of values that are added one after the other. -/
structure AddsInBulk (t : SearchTree α) : Prop where
  count_of_not_unique : t.unique = false → ∀ as, (t.insertMany as).result.1 = as.length
  toList_of_not_unique : t.unique = false → ∀ as,
    (t.insertMany as).result.2.toList = stableSort (as.reverse ++ t.toList)
  count_of_unique : t.unique = true → ∀ as,
    (t.insertMany as).result.1 = (kinds as \ kinds t.toList).ncard
  toList_of_unique : t.unique = true → ∀ as, (t.insertMany as).result.2.toList =
    mergeAscending t.toList (stableSort (newcomers t.toList as))

variable [Std.TransOrd α]

/-- **Taking equal values**, a tree takes all and sorts them, latest first. -/
theorem Reachable.insertMany_of_not_unique (h : Reachable t) (hunique : t.unique = false)
    (as : List α) : (t.insertMany as).result.1 = as.length ∧
      (t.insertMany as).result.2.toList = stableSort (as.reverse ++ t.toList) := by
  induction as generalizing t with
  | nil => exact ⟨rfl, eq_stableSort_iff.mpr ⟨h.pairwise_atMost, fun a => rfl⟩⟩
  | cons v as ih =>
    obtain ⟨u, hresult, hunique', hlist⟩ := h.insert_of_not_unique hunique v
    obtain ⟨hcount, hrest⟩ := ih (h.of_insert hresult) hunique'
    rw [insertMany_cons, hresult]
    refine ⟨congrArg (· + 1) hcount, ?_⟩
    rw [hrest, eq_stableSort_iff]
    refine ⟨pairwise_stableSort _, fun a => ?_⟩
    -- Among equal values, `v` was put in front of those that had been there.
    rw [ties_stableSort, hlist, ties_append, ties_orderedInsert, ← ties_append, List.reverse_cons,
      List.append_assoc, List.singleton_append]

/-- **Refusing equal values**, a tree takes the newcomers and merges them with its own. -/
theorem Reachable.insertMany_of_unique (h : Reachable t) (hunique : t.unique = true)
    (as : List α) : (t.insertMany as).result.1 = (newcomers t.toList as).length ∧
      (t.insertMany as).result.2.toList =
        mergeAscending t.toList (stableSort (newcomers t.toList as)) := by
  induction as generalizing t with
  | nil =>
    refine ⟨rfl, ?_⟩
    rw [newcomers_nil, stableSort, List.mergeSort_nil, mergeAscending, List.merge_right]
    rfl
  | cons v as ih =>
    rw [insertMany_cons]
    obtain ⟨hknown, hresult⟩ | ⟨hnew, u, hresult, hunique', hlist⟩ := h.insert_cases hunique v
    · rw [hresult, newcomers_cons_of_known hknown]
      exact ih h hunique
    · have hu : Reachable u := h.of_insert hresult
      have hties : ∀ a, ties a u.toList = ties a (v :: t.toList) := by
        intro a
        rw [hlist, ties_orderedInsert]
      obtain ⟨hcount, hrest⟩ := ih hu hunique'
      rw [newcomers_congr hties] at hcount hrest
      rw [hresult, newcomers_cons_of_new hnew]
      refine ⟨congrArg (· + 1) hcount, ?_⟩
      rw [hrest]
      apply eq_of_ties (pairwise_mergeAscending hu.pairwise_atMost (pairwise_stableSort _))
        (pairwise_mergeAscending h.pairwise_atMost (pairwise_stableSort _))
      intro a
      rw [ties_merge hu.pairwise_atMost, ties_merge h.pairwise_atMost, ties_stableSort,
        ties_stableSort, hties]
      by_cases heq : (compare a v).isEq
      · -- The tree had nothing that is equal to `v`.
        rw [ties_cons_of_isEq heq, ties_cons_of_isEq heq, ties_congr heq t.toList, hnew,
          List.singleton_append, List.nil_append]
      · rw [ties_cons_of_not_isEq heq, ties_cons_of_not_isEq heq]

theorem Reachable.addsInBulk (h : Reachable t) : AddsInBulk t := by
  constructor
  case count_of_not_unique => exact fun hunique as => (h.insertMany_of_not_unique hunique as).1
  case toList_of_not_unique => exact fun hunique as => (h.insertMany_of_not_unique hunique as).2
  case count_of_unique =>
    intro hunique as
    rw [(h.insertMany_of_unique hunique as).1, length_newcomers]
  case toList_of_unique => exact fun hunique as => (h.insertMany_of_unique hunique as).2

/-- **Adding values sorts them.**  A tree that takes equal values takes all that it is given and
holds the stable sort of these, from the back, and its own.  A tree that refuses them takes one of
each kind that it has none of, and holds what it held merged with the first of each such kind.  A
tree that is made of a list holds its stable sort from the back, and extending a tree does what
adding to it does. -/
theorem adding_sorts_stably :
    (∀ (α : Type) [Ord α] [Std.TransOrd α] (t : SearchTree α), Reachable t → AddsInBulk t) ∧
    (∀ (α : Type) [Ord α] [Std.TransOrd α] (as : List α),
      (ofList as).result.toList = stableSort as.reverse) ∧
    ∀ (α : Type) [Element α] (t : SearchTree α) (as : List α),
      (t.perform (.extend as)).collection = (t.perform (.insertMany as)).collection ∧
      (t.perform (.extend as)).collection = (t.insertMany as).result.2 ∧
      (t.perform (.extend as)).events = (t.perform (.insertMany as)).events := by
  refine ⟨fun _ _ _ t h => h.addsInBulk, ?_, fun _ _ t as => ⟨rfl, rfl, rfl⟩⟩
  intro α _ _ as
  have hsorted := Reachable.empty.addsInBulk.toList_of_not_unique rfl as
  rwa [show (empty : SearchTree α).toList = [] from rfl, List.append_nil] at hsorted

/-- Entries of two keys, both of them twice. -/
def latecomers : List Entry :=
  [⟨2, "f"⟩, ⟨1, "g"⟩, ⟨2, "h"⟩, ⟨1, "i"⟩]

/-- The entries of one key are held latest first, and of those that are refused the first stays. -/
theorem adding_sorts_stably_latecomers : Reachable tied ∧
    (tied.insertMany latecomers).result.1 = 4 ∧
    stableSort (latecomers.reverse ++ tied.toList) =
      [⟨0, "b"⟩, ⟨1, "i"⟩, ⟨1, "g"⟩, ⟨2, "h"⟩, ⟨2, "f"⟩, ⟨2, "e"⟩, ⟨2, "d"⟩, ⟨2, "c"⟩] ∧
    (kinds latecomers \ kinds tied.toList).ncard = 1 ∧
    mergeAscending tied.toList (stableSort (newcomers tied.toList latecomers)) =
      [⟨0, "b"⟩, ⟨1, "g"⟩, ⟨2, "e"⟩, ⟨2, "d"⟩, ⟨2, "c"⟩] ∧
    stableSort latecomers.reverse = [⟨1, "i"⟩, ⟨1, "g"⟩, ⟨2, "h"⟩, ⟨2, "f"⟩] := by
  obtain ⟨hadds, hmade, -⟩ := adding_sorts_stably
  have htied := hadds Entry tied reachable_tied
  have hunique := hadds Entry (tied.setUnique true) (reachable_tied.setUnique true)
  refine ⟨reachable_tied, htied.count_of_not_unique rfl latecomers, ?_, ?_, ?_, ?_⟩
  · exact (htied.toList_of_not_unique rfl latecomers).symm.trans rfl
  · exact (hunique.count_of_unique rfl latecomers).symm.trans rfl
  · exact (hunique.toList_of_unique rfl latecomers).symm.trans rfl
  · exact (hmade Entry latecomers).symm.trans rfl

end Containers.SearchTree
