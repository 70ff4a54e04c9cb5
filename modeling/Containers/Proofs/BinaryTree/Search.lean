import Mathlib.Data.List.Sort
import Containers.Proofs.BinaryTree.Trail

/-!
# Searching and inserting

The textbook insertion into a binary search tree, and what it does to the sequence of the values.

* `AtMost` — the order of values, as a relation;
* `lowerBound` — how many values of a list are strictly below another;
* `BinaryTree.searchPath` — the values that a new one is compared with on the way down;
* `BinaryTree.insert?` — the tree with a leaf at the end of that way, unless an equal value is met
  that must stay alone.

**`inorder_insert?`** — in an ascending sequence the new value goes in front of every value that is
not strictly below it.  **`leafAdded_of_insert?`** — the tree around the new leaf stays as it was.
**`lowerBound_plug`** — the new leaf itself stands behind the values strictly below it.
-/

namespace Containers

universe u

variable {α : Type u} [Ord α]

/-- The order of values.  Values may be at most each other and still be told apart. -/
abbrev AtMost (a b : α) : Prop :=
  (compare a b).isLE

instance [Std.TransOrd α] : IsTrans α AtMost where
  trans _ _ _ := Std.TransOrd.isLE_trans

instance [Std.OrientedOrd α] : Std.Total (α := α) AtMost where
  total a b := by
    cases h : compare a b with
    | lt => exact .inl (by rw [AtMost, h]; rfl)
    | eq => exact .inl (by rw [AtMost, h]; rfl)
    | gt => exact .inr (Std.OrientedCmp.isLE_of_isGE (by rw [h]; rfl))

/-- How many values of a list are strictly below another. -/
def lowerBound (a : α) (xs : List α) : ℕ :=
  xs.countP fun x => (compare x a).isLT

theorem isLT_of_not_atMost [Std.OrientedOrd α] {a b : α} (h : ¬ AtMost a b) :
    (compare b a).isLT := by
  rw [Ordering.isLT_iff_eq_lt]
  exact Std.OrientedCmp.lt_of_not_isLE h

theorem not_isLT_of_atMost [Std.OrientedOrd α] {a b : α} (h : AtMost a b) :
    ¬ (compare b a).isLT := by
  rw [Ordering.isLT_iff_eq_lt]
  exact Std.OrientedCmp.not_lt_of_isLE h

/-- **The place of an insertion.**  In an ascending list a new value goes behind those that are
strictly below it and in front of all others. -/
theorem orderedInsert_eq_lowerBound [Std.TransOrd α] (a : α) {xs : List α}
    (h : xs.Pairwise AtMost) : xs.orderedInsert AtMost a =
      xs.take (lowerBound a xs) ++ a :: xs.drop (lowerBound a xs) := by
  induction xs with
  | nil => rfl
  | cons x xs ih =>
    obtain ⟨hx, hxs⟩ := List.pairwise_cons.mp h
    rw [List.orderedInsert_cons, lowerBound, List.countP_cons, ← lowerBound]
    by_cases hax : AtMost a x
    · have hzero : lowerBound a xs = 0 := by
        apply List.countP_eq_zero.mpr
        intro y hy
        exact not_isLT_of_atMost (Std.TransOrd.isLE_trans hax (hx y hy))
      rw [if_pos hax, if_neg (not_isLT_of_atMost hax), hzero]
      rfl
    · rw [if_neg hax, if_pos (isLT_of_not_atMost hax), ih hxs]
      rfl

/-- A new value that is at most a value goes into the list in front of it. -/
theorem orderedInsert_append_left [Std.TransOrd α] {a v : α} (xs ys : List α) (h : AtMost a v) :
    (xs ++ v :: ys).orderedInsert AtMost a = xs.orderedInsert AtMost a ++ v :: ys := by
  induction xs with
  | nil => exact List.orderedInsert_cons_of_le _ _ h
  | cons x xs ih =>
    simp only [List.cons_append, List.orderedInsert_cons, ih]
    split <;> rfl

/-- A new value that is not at most a value goes into the list behind it. -/
theorem orderedInsert_append_right [Std.TransOrd α] {a v : α} {xs ys : List α}
    (hxs : ∀ x ∈ xs, AtMost x v) (h : ¬ AtMost a v) :
    (xs ++ v :: ys).orderedInsert AtMost a = xs ++ v :: ys.orderedInsert AtMost a := by
  induction xs with
  | nil => exact List.orderedInsert_of_not_le _ _ h
  | cons x xs ih =>
    have hx : ¬ AtMost a x := by
      intro hax
      exact h (Std.TransOrd.isLE_trans hax (hxs x List.mem_cons_self))
    rw [List.cons_append, List.orderedInsert_of_not_le _ _ hx,
      ih fun y hy => hxs y (List.mem_cons_of_mem x hy)]
    rfl

end Containers

namespace BinaryTree

open Containers

universe u

variable {α : Type u} [Ord α]

/-- The side of a value that another goes to. -/
def sideOf (a v : α) : Side :=
  if (compare a v).isLE then .left else .right

/-- The values that a new one is compared with, from the root down: on the left of those that it is
at most, on the right of the others, and no further than an equal one that must stay alone. -/
def searchPath (unique : Bool) (a : α) : BinaryTree α → List α
  | nil => []
  | node v l r =>
    v :: if unique && (compare a v).isEq then []
      else if (compare a v).isLE then l.searchPath unique a
      else r.searchPath unique a

/-- The tree with a new leaf at the end of the search path, unless an equal value is met on it that
must stay alone. -/
def insert? (unique : Bool) (a : α) : BinaryTree α → Option (BinaryTree α)
  | nil => some (node a nil nil)
  | node v l r =>
    if unique && (compare a v).isEq then none
    else if (compare a v).isLE then (l.insert? unique a).map fun l => node v l r
    else (r.insert? unique a).map fun r => node v l r

theorem sideOf_eq_left_iff {a v : α} : sideOf a v = .left ↔ AtMost a v := by
  rw [sideOf]
  split
  · next h => exact iff_of_true rfl h
  · next h => exact iff_of_false Side.noConfusion h

theorem sideOf_eq_right_iff {a v : α} : sideOf a v = .right ↔ ¬ AtMost a v := by
  rw [sideOf]
  split
  · next h => exact iff_of_false Side.noConfusion (not_not.mpr h)
  · next h => exact iff_of_true rfl h

section Around

variable {unique : Bool} {a : α} {c : Crumb α} {t u : BinaryTree α}

/-- The search goes on below a value that does not end it. -/
theorem searchPath_around (hgoes : ¬ (unique && (compare a c.value).isEq))
    (hside : c.side = sideOf a c.value) :
    (c.around t).searchPath unique a = c.value :: t.searchPath unique a := by
  obtain ⟨side, v, sibling⟩ := c
  cases side with
  | left =>
    show v :: (if _ then _ else _) = _
    rw [if_neg hgoes, if_pos (sideOf_eq_left_iff.mp hside.symm)]
  | right =>
    have hgt : ¬ AtMost a v := sideOf_eq_right_iff.mp hside.symm
    show v :: (if _ then _ else _) = _
    rw [if_neg hgoes, if_neg hgt]

/-- So does the insertion. -/
theorem insert?_around (hgoes : ¬ (unique && (compare a c.value).isEq))
    (hside : c.side = sideOf a c.value) :
    (c.around t).insert? unique a = (t.insert? unique a).map c.around := by
  obtain ⟨side, v, sibling⟩ := c
  cases side with
  | left =>
    show (if _ then _ else _) = _
    rw [if_neg hgoes, if_pos (sideOf_eq_left_iff.mp hside.symm)]
    rfl
  | right =>
    have hgt : ¬ AtMost a v := sideOf_eq_right_iff.mp hside.symm
    show (if _ then _ else _) = _
    rw [if_neg hgoes, if_neg hgt]
    rfl

/-- The new tree is the old one with a leaf at the end of a trail.  Up that trail stand the values
of the search path, each with the new one on the side that the comparison told. -/
def LeafAdded (unique : Bool) (a : α) (t u : BinaryTree α) : Prop :=
  ∃ cs : List (Crumb α), t = plug cs nil ∧ u = plug cs (node a nil nil) ∧
    t.searchPath unique a = (cs.map Crumb.value).reverse ∧ ∀ c ∈ cs, c.side = sideOf a c.value

theorem LeafAdded.around (h : LeafAdded unique a t u)
    (hgoes : ¬ (unique && (compare a c.value).isEq)) (hside : c.side = sideOf a c.value) :
    LeafAdded unique a (c.around t) (c.around u) := by
  obtain ⟨cs, rfl, rfl, hpath, hsides⟩ := h
  refine ⟨cs ++ [c], by rw [plug_append]; rfl, by rw [plug_append]; rfl, ?_, ?_⟩
  · rw [searchPath_around hgoes hside, hpath]
    simp
  · intro d hd
    rcases List.mem_append.mp hd with hd | hd
    · exact hsides d hd
    · obtain rfl := List.mem_singleton.mp hd
      exact hside

end Around

/-- **One new leaf and nothing else.**  An insertion that is not refused adds a leaf at the end of
the search path. -/
theorem leafAdded_of_insert? {unique : Bool} {a : α} {t u : BinaryTree α}
    (h : t.insert? unique a = some u) : LeafAdded unique a t u := by
  induction t generalizing u with
  | nil =>
    obtain rfl : node a nil nil = u := Option.some.inj h
    exact ⟨[], rfl, rfl, rfl, fun c hc => absurd hc List.not_mem_nil⟩
  | node v l r ihl ihr =>
    by_cases hgoes : unique && (compare a v).isEq
    · rw [insert?, if_pos hgoes] at h
      exact absurd h (Option.some_ne_none u).symm
    · cases hside : sideOf a v with
      | left =>
        have hinsert := insert?_around (c := ⟨.left, v, r⟩) (t := l) hgoes hside.symm
        obtain ⟨w, hw, rfl⟩ := Option.map_eq_some_iff.mp (hinsert.symm.trans h)
        exact (ihl hw).around (c := ⟨.left, v, r⟩) hgoes hside.symm
      | right =>
        have hinsert := insert?_around (c := ⟨.right, v, l⟩) (t := r) hgoes hside.symm
        obtain ⟨w, hw, rfl⟩ := Option.map_eq_some_iff.mp (hinsert.symm.trans h)
        exact (ihr hw).around (c := ⟨.right, v, l⟩) hgoes hside.symm

section Sides

variable [Std.TransOrd α] {a : α}

/-- Around a leaf that hangs on the side that the comparison told, the values strictly below it are
those on its left. -/
theorem lowerBound_crumb {c : Crumb α} (hascends : (c.before ++ c.behind).Pairwise AtMost)
    (hside : c.side = sideOf a c.value) : lowerBound a (c.before ++ c.behind) = c.before.length := by
  obtain ⟨side, v, sibling⟩ := c
  cases side with
  | left =>
    have hle : AtMost a v := sideOf_eq_left_iff.mp hside.symm
    apply List.countP_eq_zero.mpr
    intro x hx
    apply not_isLT_of_atMost
    rcases List.mem_cons.mp hx with rfl | hx
    · exact hle
    · exact Std.TransOrd.isLE_trans hle ((List.pairwise_cons.mp hascends).1 x hx)
  | right =>
    have hgt : ¬ AtMost a v := sideOf_eq_right_iff.mp hside.symm
    show lowerBound a (sibling.inorder ++ [v] ++ []) = (sibling.inorder ++ [v]).length
    rw [List.append_nil, lowerBound, List.countP_eq_length]
    intro x hx
    apply isLT_of_not_atMost
    intro hax
    rcases List.mem_append.mp hx with hx | hx
    · have hxv : AtMost x v := by
        have hbelow := (List.pairwise_append.mp hascends).1
        exact (List.pairwise_append.mp hbelow).2.2 x hx v List.mem_cons_self
      exact hgt (Std.TransOrd.isLE_trans hax hxv)
    · exact hgt (List.mem_singleton.mp hx ▸ hax)

/-- **The place of a leaf in order.**  As many values are strictly below it as stand on its left. -/
theorem lowerBound_plug {cs : List (Crumb α)} (hascends : (plug cs nil).inorder.Pairwise AtMost)
    (hsides : ∀ c ∈ cs, c.side = sideOf a c.value) :
    lowerBound a (plug cs nil).inorder = (valuesBefore cs).length := by
  rw [inorder_plug_eq, inorder, List.append_nil] at hascends ⊢
  induction cs with
  | nil => rfl
  | cons c cs ih =>
    obtain ⟨hc, hcs⟩ := List.forall_mem_cons.mp hsides
    rw [valuesBefore_cons, valuesBehind_cons] at hascends ⊢
    have houter := ih (hascends.sublist (List.Sublist.append (List.sublist_append_left _ _)
      (List.sublist_append_right _ _))) hcs
    have hinner := lowerBound_crumb (hascends.sublist (List.Sublist.append
      (List.sublist_append_right _ _) (List.sublist_append_left _ _))) hc
    simp only [lowerBound, List.countP_append, List.length_append] at houter hinner ⊢
    omega

end Sides

/-- **Insertion through the sequence.**  The sequence of a search tree stays ascending, and the new
value stands in front of every value that it is at most. -/
theorem inorder_insert? [Std.TransOrd α] {unique : Bool} {a : α} {t u : BinaryTree α}
    (hsorted : t.inorder.Pairwise AtMost) (h : t.insert? unique a = some u) :
    u.inorder = t.inorder.orderedInsert AtMost a := by
  induction t generalizing u with
  | nil =>
    obtain rfl : node a nil nil = u := Option.some.inj h
    rfl
  | node v l r ihl ihr =>
    rw [inorder, List.pairwise_append, List.pairwise_cons] at hsorted
    obtain ⟨hl, ⟨-, hr⟩, hlr⟩ := hsorted
    rw [insert?] at h
    split at h
    · exact absurd h (Option.some_ne_none u).symm
    · split at h
      · next hle =>
        obtain ⟨w, hw, rfl⟩ := Option.map_eq_some_iff.mp h
        rw [inorder, inorder, ihl hl hw, orderedInsert_append_left _ _ hle]
      · next hgt =>
        obtain ⟨w, hw, rfl⟩ := Option.map_eq_some_iff.mp h
        rw [inorder, inorder, ihr hr hw, orderedInsert_append_right
          (fun x hx => hlr x hx v List.mem_cons_self) hgt]

end BinaryTree
