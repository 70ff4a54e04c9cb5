import Containers.Proofs.SearchTree.Growth
import Containers.Proofs.SearchTree.Rank
import Containers.SearchTree.Command

/-!
# Reachable trees

The trees that come about when an empty tree is grown, shrunk and switched, in any order and for as
long as one likes.

* `SearchTree.Reachable` — these trees;
* `SearchTree.Preserved` — a property that no operation breaks;
* **`Preserved.reachable`** — such a property holds of every reachable tree if it holds of the two
  empty ones, and **`Preserved.perform`** — no command breaks it;
* **`Reachable.exists_represents`** and **`Reachable.pairwise_atMost`** — every reachable tree is
  the layout of a binary tree, and its values ascend.
-/

namespace Containers.SearchTree

open BinaryTree

variable {α : Type} [Ord α]

/-- A tree comes about from an empty one by the operations. -/
inductive Reachable : SearchTree α → Prop where
  | empty : Reachable .empty
  | emptyUnique : Reachable .emptyUnique
  | ofList (as : List α) : Reachable (ofList as).result
  | insert {t : SearchTree α} (h : Reachable t) (a : α) : Reachable (t.insert a).result.2
  | insertMany {t : SearchTree α} (h : Reachable t) (as : List α) :
      Reachable (t.insertMany as).result.2
  | setUnique {t : SearchTree α} (h : Reachable t) (unique : Bool) : Reachable (t.setUnique unique)
  | removeAt {t u : SearchTree α} (h : Reachable t) {position : Nat} {a : α}
      (hremove : (t.removeAt position).result = .ok (a, u)) : Reachable u

theorem Reachable.of_insert {t u : SearchTree α} (h : Reachable t) {a : α} {accepted : Bool}
    (hresult : (t.insert a).result = (accepted, u)) : Reachable u := by
  have hu := h.insert a
  rwa [hresult] at hu

/-- No operation breaks a property. -/
structure Preserved (P : SearchTree α → Prop) : Prop where
  insert : ∀ t, P t → ∀ a, P (t.insert a).result.2
  insertMany : ∀ t, P t → ∀ as, P (t.insertMany as).result.2
  setUnique : ∀ t, P t → ∀ unique, P (t.setUnique unique)
  removeAt : ∀ t, P t → ∀ position a u, (t.removeAt position).result = .ok (a, u) → P u

theorem insertMany_cons (t : SearchTree α) (a : α) (as : List α) :
    (t.insertMany (a :: as)).result =
      (((t.insert a).result.2.insertMany as).result.1 + (t.insert a).result.1.toNat,
        ((t.insert a).result.2.insertMany as).result.2) :=
  rfl

/-- Adding many values is adding one after the other. -/
theorem insertMany_of_insert {P : SearchTree α → Prop}
    (hinsert : ∀ t, P t → ∀ a, P (t.insert a).result.2) (t : SearchTree α) (h : P t)
    (as : List α) : P (t.insertMany as).result.2 := by
  induction as generalizing t with
  | nil => exact h
  | cons a as ih =>
    rw [insertMany_cons]
    exact ih _ (hinsert t h a)

/-- **The induction over all runs.** -/
theorem Preserved.reachable {P : SearchTree α → Prop} (h : Preserved P) (hempty : P .empty)
    (hunique : P .emptyUnique) {t : SearchTree α} (ht : Reachable t) : P t := by
  induction ht with
  | empty => exact hempty
  | emptyUnique => exact hunique
  | ofList as => exact h.insertMany _ hempty as
  | insert _ a ih => exact h.insert _ ih a
  | insertMany _ as ih => exact h.insertMany _ ih as
  | setUnique _ unique ih => exact h.setUnique _ ih unique
  | removeAt _ hremove ih => exact h.removeAt _ ih _ _ _ hremove

/-- A command does nothing that the operations cannot do. -/
theorem Preserved.perform {β : Type} [Element β] {P : SearchTree β → Prop} (h : Preserved P)
    {t : SearchTree β} (ht : P t) (update : Update β) : P (t.perform update).collection := by
  cases update with
  | insert a => exact h.insert t ht a
  | insertMany as => exact h.insertMany t ht as
  | extend as => exact h.insertMany t ht as
  | setUnique unique => exact h.setUnique t ht unique
  | removeAt form position =>
    cases hremove : t.removeAt position with
    | mk result events =>
      rw [SearchTree.perform, hremove]
      cases result with
      | error fault => exact ht
      | ok removed => exact h.removeAt t ht position removed.1 removed.2 (by rw [hremove])

/-! ### Layouts -/

/-- The arena of a tree is the layout of a binary tree with a property. -/
def LaidOut (Q : BinaryTree α → Prop) (t : SearchTree α) : Prop :=
  ∃ p, t.arena.Represents p ∧ Q p.shape

/-- A property of binary trees that the textbook insertion and deletion do not break is not broken
by the operations. -/
theorem preserved_laidOut {Q : BinaryTree α → Prop}
    (hinsert : ∀ unique a s u, Q s → s.insert? unique a = some u → Q u)
    (herase : ∀ i s, Q s → Q (s.eraseAt i)) : Preserved (LaidOut Q) := by
  have hstep : ∀ t, LaidOut Q t → ∀ a, LaidOut Q (t.insert a).result.2 := by
    intro t ⟨p, hp, hQ⟩ a
    obtain ⟨-, ⟨-, hresult⟩ | ⟨q, arena, hsome, hresult, hq⟩⟩ := insert_spec a hp
    · rw [hresult]
      exact ⟨p, hp, hQ⟩
    · rw [hresult]
      exact ⟨q, hq, hinsert _ _ _ _ hQ hsome⟩
  refine ⟨hstep, insertMany_of_insert hstep, fun t h unique => h, ?_⟩
  intro t ⟨p, hp, hQ⟩ position a u hremove
  obtain ⟨-, -, -, q, hq, hshape⟩ := removeAt_ok hp hremove
  exact ⟨q, hq, hshape ▸ herase position _ hQ⟩

theorem Reachable.laidOut {Q : BinaryTree α → Prop} {t : SearchTree α} (h : Reachable t)
    (hnil : Q nil) (hpreserved : Preserved (LaidOut Q)) : LaidOut Q t := by
  apply hpreserved.reachable ?_ ?_ h
  · exact ⟨nil, Arena.represents_empty, hnil⟩
  · exact ⟨nil, Arena.represents_empty, hnil⟩

/-- **Every reachable tree** is the layout of a binary tree. -/
theorem Reachable.exists_represents {t : SearchTree α} (h : Reachable t) :
    ∃ p, t.arena.Represents p := by
  have hpreserved : Preserved (LaidOut (α := α) fun _ => True) :=
    preserved_laidOut (fun _ _ _ _ _ _ => trivial) fun _ _ _ => trivial
  obtain ⟨p, hp, -⟩ := h.laidOut trivial hpreserved
  exact ⟨p, hp⟩

/-! ### Ascending values -/

/-- The values of a binary tree ascend from left to right. -/
def Ascends (s : BinaryTree α) : Prop :=
  s.inorder.Pairwise AtMost

theorem Ascends.insert? [Std.TransOrd α] {unique : Bool} {a : α} {s u : BinaryTree α}
    (h : Ascends s) (hinsert : s.insert? unique a = some u) : Ascends u := by
  rw [Ascends, inorder_insert? h hinsert]
  exact h.orderedInsert a s.inorder

theorem Ascends.eraseAt {s : BinaryTree α} (h : Ascends s) (i : Nat) : Ascends (s.eraseAt i) := by
  rw [Ascends, inorder_eraseAt]
  exact h.sublist (List.eraseIdx_sublist _ _)

/-- **No operation breaks the order.** -/
theorem preserved_ascends [Std.TransOrd α] : Preserved (LaidOut (Ascends (α := α))) :=
  preserved_laidOut (fun _ _ _ _ h hinsert => h.insert? hinsert) fun i _ h => h.eraseAt i

theorem Reachable.ascends [Std.TransOrd α] {t : SearchTree α} (h : Reachable t) :
    LaidOut Ascends t :=
  h.laidOut .nil preserved_ascends

/-- The values of a reachable tree ascend. -/
theorem Reachable.pairwise_atMost [Std.TransOrd α] {t : SearchTree α} (h : Reachable t) :
    t.toList.Pairwise AtMost := by
  obtain ⟨p, hp, hascends⟩ := h.ascends
  rw [toList_eq hp]
  exact hascends

end Containers.SearchTree
