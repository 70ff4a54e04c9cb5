import Mathlib.Data.Set.Card
import Containers.Proofs.BinaryTree.Ties

/-!
# Ascending lists with equal values

Values that are equal can still be told apart, so an ascending list is not determined by how often
each value occurs in it, but by the lists of those that are equal to each other.

* `isEq_of_length_ties`, `eq_of_ties` — ascending lists with as many of each value, and with the same
  ones;
* `stableSort` — the ascending list in which equal values stand as they stood before;
* `kinds` — the classes of equal values that a list has values of;
* `newcomers` — the values of a list that are the first of a kind that another list has none of.

**`eq_stableSort_iff`** — what makes a list the stable sort of another.  **`ties_merge`** — where
ascending lists are merged, the values of the first stand in front of the equal ones of the second.
-/

namespace Containers

open BinaryTree

universe u

variable {α : Type u} [Ord α]

theorem length_ties_cons (a x : α) (xs : List α) :
    (ties a (x :: xs)).length = (ties a xs).length + if (compare a x).isEq then 1 else 0 := by
  by_cases heq : (compare a x).isEq
  · rw [ties_cons_of_isEq heq, if_pos heq, List.length_cons]
  · rw [ties_cons_of_not_isEq heq, if_neg heq, Nat.add_zero]

section Ascending

variable [Std.TransOrd α]

theorem isEq_self (a : α) : (compare a a).isEq :=
  Ordering.isEq_iff_eq_eq.mpr Std.ReflCmp.compare_self

theorem ties_self_ne_nil (x : α) (xs : List α) : ties x (x :: xs) ≠ [] := by
  rw [ties_cons_of_isEq (isEq_self x)]
  exact List.cons_ne_nil _ _

/-- The first of an ascending list is at most whatever the list has an equal of. -/
theorem atMost_of_ties_ne_nil {a y : α} {ys : List α} (hy : ∀ z ∈ ys, AtMost y z)
    (h : ties a (y :: ys) ≠ []) : AtMost y a := by
  obtain ⟨z, hz, heq⟩ := ties_ne_nil_iff.mp h
  have hza : AtMost z a := by
    rw [AtMost, Std.OrientedCmp.eq_symm (Ordering.isEq_iff_eq_eq.mp heq)]
    rfl
  rcases List.mem_cons.mp hz with rfl | hz
  · exact hza
  · exact Std.TransOrd.isLE_trans (hy z hz) hza

/-- Ascending lists that have values of the same kinds begin with equal values. -/
theorem heads_isEq {x y : α} {xs ys : List α} (hx : ∀ z ∈ xs, AtMost x z)
    (hy : ∀ z ∈ ys, AtMost y z) (h : ∀ a, ties a (x :: xs) = [] ↔ ties a (y :: ys) = []) :
    (compare x y).isEq := by
  have hyx : AtMost y x := atMost_of_ties_ne_nil hy (mt (h x).mpr (ties_self_ne_nil x xs))
  have hxy : AtMost x y := atMost_of_ties_ne_nil hx (mt (h y).mp (ties_self_ne_nil y ys))
  exact Ordering.isEq_iff_eq_eq.mpr (Std.OrientedCmp.isLE_antisymm hxy hyx)

/-- **Ascending lists with as many of each value** are equal in pairs. -/
theorem isEq_of_length_ties {xs ys : List α} (hxs : xs.Pairwise AtMost) (hys : ys.Pairwise AtMost)
    (h : ∀ a, (ties a xs).length = (ties a ys).length) :
    List.Forall₂ (fun x y => (compare x y).isEq) xs ys := by
  have hnil : ∀ a, ties a xs = [] ↔ ties a ys = [] := by
    intro a
    rw [← List.length_eq_zero_iff, h a, List.length_eq_zero_iff]
  induction xs generalizing ys with
  | nil =>
    cases ys with
    | nil => exact .nil
    | cons y ys => exact absurd ((hnil y).mp rfl) (ties_self_ne_nil y ys)
  | cons x xs ih =>
    cases ys with
    | nil => exact absurd ((hnil x).mpr rfl) (ties_self_ne_nil x xs)
    | cons y ys =>
      obtain ⟨hx, hxs⟩ := List.pairwise_cons.mp hxs
      obtain ⟨hy, hys⟩ := List.pairwise_cons.mp hys
      have heq : (compare x y).isEq := heads_isEq hx hy hnil
      have htail : ∀ a, (ties a xs).length = (ties a ys).length := by
        intro a
        have hcount := h a
        rw [length_ties_cons, length_ties_cons,
          Std.TransCmp.congr_right (Ordering.isEq_iff_eq_eq.mp heq)] at hcount
        exact Nat.add_right_cancel hcount
      refine .cons heq (ih hxs hys htail fun a => ?_)
      rw [← List.length_eq_zero_iff, htail a, List.length_eq_zero_iff]

/-- **Ascending lists with the same values of each kind** are the same. -/
theorem eq_of_ties {xs ys : List α} (hxs : xs.Pairwise AtMost) (hys : ys.Pairwise AtMost)
    (h : ∀ a, ties a xs = ties a ys) : xs = ys := by
  induction xs generalizing ys with
  | nil =>
    cases ys with
    | nil => rfl
    | cons y ys => exact absurd (h y).symm (ties_self_ne_nil y ys)
  | cons x xs ih =>
    cases ys with
    | nil => exact absurd (h x) (ties_self_ne_nil x xs)
    | cons y ys =>
      obtain ⟨hx, hxtail⟩ := List.pairwise_cons.mp hxs
      obtain ⟨hy, hytail⟩ := List.pairwise_cons.mp hys
      have heq : (compare x y).isEq := heads_isEq hx hy fun a => by rw [h a]
      have hfirst := h x
      rw [ties_cons_of_isEq (isEq_self x), ties_cons_of_isEq heq] at hfirst
      obtain rfl : x = y := (List.cons.inj hfirst).1
      have htail : ∀ a, ties a xs = ties a ys := by
        intro a
        have hall := h a
        by_cases hax : (compare a x).isEq
        · rw [ties_cons_of_isEq hax, ties_cons_of_isEq hax] at hall
          exact (List.cons.inj hall).2
        · rwa [ties_cons_of_not_isEq hax, ties_cons_of_not_isEq hax] at hall
      rw [ih hxtail hytail htail]

end Ascending

/-! ### Sorting and merging -/

/-- The values of a list in ascending order.  Equal ones stand as they stood before. -/
def stableSort (xs : List α) : List α :=
  xs.mergeSort fun a b => (compare a b).isLE

/-- The values of two ascending lists in ascending order.  Those of the first stand in front of the
equal ones of the second. -/
def mergeAscending (xs ys : List α) : List α :=
  xs.merge ys fun a b => (compare a b).isLE

section Sorting

variable [Std.TransOrd α]

-- The laws of the order, in the form in which sorting and merging ask for them.
theorem isLE_trans (a b c : α) (hab : (compare a b).isLE) (hbc : (compare b c).isLE) :
    (compare a c).isLE :=
  Std.TransOrd.isLE_trans hab hbc

theorem isLE_total (a b : α) : ((compare a b).isLE || (compare b a).isLE) = true := by
  rw [Bool.or_eq_true]
  exact Std.Total.total (r := AtMost) a b

theorem pairwise_stableSort (xs : List α) : (stableSort xs).Pairwise AtMost :=
  List.pairwise_mergeSort isLE_trans isLE_total xs

omit [Std.TransOrd α] in
theorem ties_ties (a : α) (xs : List α) : ties a (ties a xs) = ties a xs := by
  simp only [ties, List.filter_filter, Bool.and_self]

/-- Sorting leaves equal values as they stood. -/
theorem ties_stableSort (a : α) (xs : List α) : ties a (stableSort xs) = ties a xs := by
  have hlevel : (ties a xs).Pairwise AtMost := by
    apply List.pairwise_of_forall_mem_list
    intro x hx y hy
    have hax := Ordering.isEq_iff_eq_eq.mp (List.mem_filter.mp hx).2
    rw [AtMost, ← Std.TransCmp.congr_left hax]
    exact atMost_of_isEq (List.mem_filter.mp hy).2
  have hkept : (ties a xs).Sublist (stableSort xs) :=
    List.sublist_mergeSort isLE_trans isLE_total hlevel List.filter_sublist
  have hsub : (ties a xs).Sublist (ties a (stableSort xs)) := by
    have hties := ties_sublist a hkept
    rwa [ties_ties] at hties
  exact (hsub.eq_of_length ((List.mergeSort_perm xs _).filter _).length_eq.symm).symm

/-- **The stable sort** is the one ascending list in which the values of each kind are those of the
other list, in the same order. -/
theorem eq_stableSort_iff {xs ys : List α} :
    ys = stableSort xs ↔ ys.Pairwise AtMost ∧ ∀ a, ties a ys = ties a xs := by
  constructor
  · rintro rfl
    exact ⟨pairwise_stableSort xs, fun a => ties_stableSort a xs⟩
  · rintro ⟨hascends, hties⟩
    refine eq_of_ties hascends (pairwise_stableSort xs) fun a => ?_
    rw [hties, ties_stableSort]

theorem ties_orderedInsert (a v : α) (xs : List α) :
    ties a (xs.orderedInsert AtMost v) = ties a (v :: xs) := by
  induction xs with
  | nil => rfl
  | cons x xs ih =>
    by_cases hvx : AtMost v x
    · rw [List.orderedInsert_cons_of_le _ _ hvx]
    · rw [List.orderedInsert_of_not_le _ _ hvx]
      by_cases hax : (compare a x).isEq
      · -- What is equal to `x` is not equal to `v`, so `v` can go past `x`.
        have hav : ¬ (compare a v).isEq := by
          intro hav
          apply hvx
          rw [AtMost, ← Std.TransCmp.congr_left (Ordering.isEq_iff_eq_eq.mp hav)]
          exact atMost_of_isEq hax
        rw [ties_cons_of_isEq hax, ih, ties_cons_of_not_isEq hav, ties_cons_of_not_isEq hav,
          ties_cons_of_isEq hax]
      · rw [ties_cons_of_not_isEq hax, ih, ties_cons a v xs, ties_cons a v (x :: xs),
          ties_cons_of_not_isEq hax]

theorem pairwise_mergeAscending {xs ys : List α} (hxs : xs.Pairwise AtMost)
    (hys : ys.Pairwise AtMost) : (mergeAscending xs ys).Pairwise AtMost :=
  List.pairwise_merge isLE_trans isLE_total xs ys hxs hys

/-- **Merging** keeps the order of equal values, those of the first list in front. -/
theorem ties_merge {xs : List α} (hxs : xs.Pairwise AtMost) (ys : List α) (a : α) :
    ties a (mergeAscending xs ys) = ties a xs ++ ties a ys := by
  induction xs generalizing ys with
  | nil => simp [mergeAscending, ties]
  | cons x xs ihx =>
    obtain ⟨hx, htail⟩ := List.pairwise_cons.mp hxs
    induction ys with
    | nil => simp [mergeAscending, ties]
    | cons y ys ihy =>
      rw [mergeAscending, List.cons_merge_cons]
      by_cases hxy : AtMost x y
      · rw [if_pos hxy, ← mergeAscending, ties_cons a x, ihx htail (y :: ys), ties_cons a x xs,
          List.append_assoc]
      · rw [if_neg hxy, ← mergeAscending]
        by_cases hay : (compare a y).isEq
        · -- All of the first list is above `y`.
          have hnone : ties a (x :: xs) = [] := by
            by_contra hne
            have hxa := atMost_of_ties_ne_nil hx hne
            exact hxy (Std.TransOrd.isLE_trans hxa (atMost_of_isEq hay))
          rw [ties_cons_of_isEq hay, ties_cons_of_isEq hay, ihy, hnone, List.nil_append,
            List.nil_append]
        · rw [ties_cons_of_not_isEq hay, ties_cons_of_not_isEq hay, ihy]

end Sorting

/-! ### The first of each kind -/

/-- The values that are equal to one. -/
def kindOf (a : α) : Set α :=
  { b | (compare a b).isEq }

/-- The kinds that a list has values of. -/
def kinds (xs : List α) : Set (Set α) :=
  kindOf '' { x | x ∈ xs }

/-- The values of a list that are the first of a kind that another list has none of. -/
def newcomers (known xs : List α) : List α :=
  (xs.filter fun x => (ties x known).isEmpty).eraseDupsBy fun a b => (compare a b).isEq

theorem kinds_cons (x : α) (xs : List α) : kinds (x :: xs) = insert (kindOf x) (kinds xs) := by
  rw [kinds, kinds, ← Set.image_insert_eq]
  congr 1
  ext y
  exact List.mem_cons

theorem finite_kinds (xs : List α) : (kinds xs).Finite :=
  (List.finite_toSet xs).image kindOf

theorem newcomers_nil (known : List α) : newcomers known [] = [] :=
  rfl

theorem newcomers_congr {known known' : List α} (h : ∀ a, ties a known = ties a known')
    (xs : List α) : newcomers known xs = newcomers known' xs := by
  simp only [newcomers, h]

theorem newcomers_cons_of_known {known : List α} {x : α} (h : ties x known ≠ []) (xs : List α) :
    newcomers known (x :: xs) = newcomers known xs := by
  rw [newcomers, List.filter_cons_of_neg (by rwa [List.isEmpty_iff]), ← newcomers]

/-- A value of a new kind is the first of it, and the kind is known from then on. -/
theorem newcomers_cons_of_new {known : List α} {x : α} (h : ties x known = []) (xs : List α) :
    newcomers known (x :: xs) = x :: newcomers (x :: known) xs := by
  have hsame : ∀ y, (decide ((compare y x).isEq = false) && (ties y known).isEmpty) =
      (ties y (x :: known)).isEmpty := by
    intro y
    by_cases heq : (compare y x).isEq
    · rw [ties_cons_of_isEq heq, heq]
      rfl
    · rw [ties_cons_of_not_isEq heq, eq_false_of_ne_true heq]
      rfl
  rw [newcomers, List.filter_cons_of_pos (by rwa [List.isEmpty_iff]), List.eraseDupsBy_cons,
    List.filter_filter]
  simp only [hsame, newcomers]

section Kinds

variable [Std.TransOrd α]

theorem kindOf_eq_iff {a b : α} : kindOf a = kindOf b ↔ (compare a b).isEq := by
  constructor
  · intro h
    have hb : b ∈ kindOf b := isEq_self b
    rwa [← h] at hb
  · intro h
    ext c
    show (compare a c).isEq ↔ (compare b c).isEq
    rw [Std.TransCmp.congr_left (Ordering.isEq_iff_eq_eq.mp h)]

theorem kindOf_mem_kinds_iff {a : α} {xs : List α} : kindOf a ∈ kinds xs ↔ ties a xs ≠ [] := by
  rw [ties_ne_nil_iff]
  constructor
  · rintro ⟨x, hx, heq⟩
    exact ⟨x, hx, kindOf_eq_iff.mp heq.symm⟩
  · rintro ⟨x, hx, heq⟩
    exact ⟨x, hx, (kindOf_eq_iff.mpr heq).symm⟩

/-- **There are as many newcomers as new kinds.** -/
theorem length_newcomers (known xs : List α) :
    (newcomers known xs).length = (kinds xs \ kinds known).ncard := by
  induction xs generalizing known with
  | nil => simp [newcomers_nil, kinds]
  | cons x xs ih =>
    by_cases hknown : ties x known = []
    · have hnew : kindOf x ∉ kinds xs \ kinds (x :: known) := by
        rw [kinds_cons]
        exact fun hmem => hmem.2 (Set.mem_insert _ _)
      have hdiff : kinds (x :: xs) \ kinds known =
          insert (kindOf x) (kinds xs \ kinds (x :: known)) := by
        rw [kinds_cons, kinds_cons, Set.insert_sdiff_insert,
          Set.insert_sdiff_of_notMem _ (mt kindOf_mem_kinds_iff.mp (not_not.mpr hknown))]
      rw [newcomers_cons_of_new hknown, List.length_cons, ih, hdiff,
        Set.ncard_insert_of_notMem hnew (finite_kinds xs).sdiff]
    · rw [newcomers_cons_of_known hknown, ih, kinds_cons,
        Set.insert_sdiff_of_mem _ (kindOf_mem_kinds_iff.mpr hknown)]

end Kinds

end Containers
