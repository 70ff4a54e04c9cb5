import Containers.Proofs.Cursor
import Containers.Proofs.SearchTree.Layout
import Containers.SearchTree.Walk

/-!
# The walk in order

The walk keeps a stack of nodes whose left side is done with.  Each of them stands for itself and
for everything to its right, so the stack as a whole stands for the sequence that is still to come.

* `Walk.Stacked` — the sequence that a stack of nodes stands for;
* `Walk.Awaits` — the sequence that a walk has still to come by, and its length.

**`Represents.awaits_start`** — a walk starts with the whole sequence from left to right.
**`Awaits.next`** — a step takes the first of it.  So order, values, scripts and visits are read off
the tree that the arena represents (`toList_eq`, `nodeAt?_eq`, `exists_iterates`, `visit_eq`).
-/

namespace Containers

open BinaryTree

variable {α σ : Type}

namespace Walk

/-- The labels and values that a stack of nodes stands for: each node and then what hangs to the
right of it. -/
inductive Stacked (a : Arena α) : List NodeId → List (NodeId × α) → Prop where
  | nil : Stacked a [] []
  | cons {x : NodeId × α} {parent left : Option NodeId} {r : BinaryTree (NodeId × α)}
      {pending : List NodeId} {xs : List (NodeId × α)}
      (node : a.node? x.1 = some ⟨x.2, parent, left, r.link⟩) (right : a.Holds (some x.1) r)
      (height : r.height ≤ a.size) (rest : Stacked a pending xs) :
      Stacked a (x.1 :: pending) (x :: (r.inorder ++ xs))

/-- What a walk has still to come by. -/
structure Awaits (w : Walk α) (xs : List (NodeId × α)) : Prop where
  pending : Stacked w.arena w.pending xs
  remaining : w.remaining = xs.length

/-- Stacking the left chain of a tree puts the whole tree in front. -/
theorem Stacked.leftSpine {a : Arena α} {parent : Option NodeId} {t : BinaryTree (NodeId × α)}
    {id : NodeId} {limit : Nat} {pending : List NodeId} {xs : List (NodeId × α)}
    (ht : a.Holds parent t) (hid : t.link = some id) (hlimit : t.height ≤ limit)
    (hsize : t.height ≤ a.size) (h : Stacked a pending xs) :
    Stacked a (leftSpine a limit id pending) (t.inorder ++ xs) := by
  induction t generalizing parent id limit pending xs with
  | nil => exact absurd hid (Option.some_ne_none id).symm
  | node x l r ihl ihr =>
    obtain ⟨hx, hl, hr⟩ := ht
    obtain rfl : x.1 = id := Option.some.inj hid
    rw [BinaryTree.height] at hlimit hsize
    have hstacked : Stacked a (x.1 :: pending) (x :: (r.inorder ++ xs)) :=
      .cons hx hr (by omega) h
    cases limit with
    | zero => omega
    | succ limit =>
      have hleft : a.left? x.1 = l.link := by rw [Arena.left?, hx]; rfl
      rw [Walk.leftSpine, hleft, inorder, List.append_assoc, List.cons_append]
      cases l with
      | nil => exact hstacked
      | node y ll lr => exact ihl hl rfl (by omega) (by omega) hstacked

/-- **A step** gives the first node that is awaited, and the rest is awaited after it. -/
theorem Awaits.next {w : Walk α} {x : NodeId × α} {xs : List (NodeId × α)}
    (h : w.Awaits (x :: xs)) : ∃ w', w.next = some (x.1, w') ∧ w'.arena = w.arena ∧
      w.arena.value? x.1 = some x.2 ∧ w'.Awaits xs := by
  obtain ⟨arena, stack, remaining⟩ := w
  obtain ⟨hpending, hremaining⟩ := h
  replace hremaining : remaining = xs.length + 1 := hremaining
  cases hpending with
  | @cons _ parent left r pending ys hnode hright hheight hrest =>
    have hlink : arena.right? x.1 = r.link := by rw [Arena.right?, hnode]; rfl
    have hvalue : arena.value? x.1 = some x.2 := by rw [Arena.value?, hnode]; rfl
    refine ⟨_, rfl, rfl, hvalue, ?_, by rw [hremaining]; rfl⟩
    rw [hlink]
    cases r with
    | nil => exact hrest
    | node y rl rr => exact hrest.leftSpine hright rfl hheight hheight

theorem Awaits.next_eq_none {w : Walk α} (h : w.Awaits []) : w.next = none := by
  obtain ⟨arena, stack, remaining⟩ := w
  cases h.pending
  rfl

theorem Awaits.nth {w : Walk α} {xs : List (NodeId × α)} (h : w.Awaits xs) (n : Nat) :
    w.nth n = (xs[n]?).map Prod.fst := by
  induction n generalizing w xs with
  | zero =>
    cases xs with
    | nil =>
      rw [Walk.nth, h.next_eq_none]
      rfl
    | cons x xs =>
      obtain ⟨w', hnext, -⟩ := h.next
      rw [Walk.nth, hnext]
      rfl
  | succ n ih =>
    cases xs with
    | nil =>
      rw [Walk.nth, h.next_eq_none]
      rfl
    | cons x xs =>
      obtain ⟨w', hnext, -, -, h'⟩ := h.next
      rw [Walk.nth, hnext]
      exact ih h'

theorem Awaits.idsWithin {w : Walk α} {xs : List (NodeId × α)} (h : w.Awaits xs) {limit : Nat}
    (hlimit : xs.length ≤ limit) : w.idsWithin limit = xs.map Prod.fst := by
  induction xs generalizing w limit with
  | nil =>
    cases limit with
    | zero => rfl
    | succ limit =>
      rw [Walk.idsWithin, h.next_eq_none]
      rfl
  | cons x xs ih =>
    cases limit with
    | zero => simp at hlimit
    | succ limit =>
      obtain ⟨w', hnext, -, -, h'⟩ := h.next
      rw [Walk.idsWithin, hnext]
      exact congrArg (x.1 :: ·) (ih h' (Nat.le_of_succ_le_succ hlimit))

theorem Awaits.ids {w : Walk α} {xs : List (NodeId × α)} (h : w.Awaits xs) :
    w.ids = xs.map Prod.fst :=
  h.idsWithin (Nat.le_of_eq h.remaining.symm)

end Walk

namespace Arena.Represents

variable {a : Arena α} {p : BinaryTree (NodeId × α)}

/-- **The start.**  A walk that has not begun awaits the whole sequence from left to right. -/
theorem awaits_start (h : a.Represents p) : (Walk.start a).Awaits p.inorder := by
  refine ⟨?_, by rw [length_inorder]; exact h.size_eq⟩
  rw [Walk.start, h.root]
  cases p with
  | nil => exact .nil
  | node x l r =>
    have hheight : (node x l r).height ≤ a.size :=
      (show a.Represents (plug [] (node x l r)) from h).height_le
    have hstacked := Walk.Stacked.nil.leftSpine h.nodes rfl hheight hheight
    rwa [List.append_nil] at hstacked

end Arena.Represents

namespace SearchTree

variable {t : SearchTree α} {p : BinaryTree (NodeId × α)}

theorem order_eq (h : t.arena.Represents p) : t.order = p.ids :=
  h.awaits_start.ids

/-- **The values in order** are those of the represented tree from left to right. -/
theorem toList_eq (h : t.arena.Represents p) : t.toList = p.shape.inorder := by
  have hvalues : ∀ xs : List (NodeId × α), (∀ x ∈ xs, t.arena.value? x.1 = some x.2) →
      (xs.map Prod.fst).filterMap t.arena.value? = xs.map Prod.snd := by
    intro xs hxs
    induction xs with
    | nil => rfl
    | cons x xs ih =>
      rw [List.map_cons, List.filterMap_cons_some (hxs x List.mem_cons_self), List.map_cons,
        ih fun y hy => hxs y (List.mem_cons_of_mem x hy)]
  rw [toList, order_eq h, inorder_shape]
  exact hvalues p.inorder fun x hx => h.toCarries.value?_eq hx

theorem nodeAt?_eq (h : t.arena.Represents p) (position : Nat) :
    t.nodeAt? position = p.ids[position]? := by
  rw [nodeAt?, h.awaits_start.nth, ids, List.getElem?_map]

theorem take_nil {w : Walk α} (h : w.Awaits []) : Values.take ⟨w⟩ = .ok (none, ⟨w⟩) := by
  rw [Values.take, h.next_eq_none]
  rfl

theorem take_cons {w : Walk α} {x : NodeId × α} {xs : List (NodeId × α)} (h : w.Awaits (x :: xs)) :
    ∃ w', Values.take ⟨w⟩ = .ok (some x.2, ⟨w'⟩) ∧ w'.Awaits xs := by
  obtain ⟨w', hnext, harena, hvalue, h'⟩ := h.next
  refine ⟨w', ?_, h'⟩
  simp only [Values.take, hnext, harena, hvalue]
  rfl

/-- A walk gives the values that it awaits. -/
theorem gives_values {w : Walk α} {xs : List (NodeId × α)} (h : w.Awaits xs) :
    Traversal.Gives (Values.mk w) (xs.map Prod.snd) := by
  induction xs generalizing w with
  | nil => exact ⟨⟨w⟩, take_nil h⟩
  | cons x xs ih =>
    obtain ⟨w', htake, h'⟩ := take_cons h
    exact ⟨⟨w'⟩, htake, ih h'⟩

/-- A walk follows the cursor of the values that it awaits. -/
theorem follows_awaits : Traversal.Follows (fun _ : Unit => End.front)
    fun (v : Values α) (c : Cursor α) => ∃ xs, v.walk.Awaits xs ∧ c.left = xs.map Prod.snd where
  remaining := by
    rintro v c ⟨xs, h, hleft⟩
    rw [hleft, List.length_map]
    exact h.remaining
  take := by
    rintro ⟨w⟩ ⟨before, _, after⟩ ⟨xs, h, rfl⟩ ⟨⟩
    cases xs with
    | nil => exact ⟨⟨w⟩, take_nil h, [], h, rfl⟩
    | cons x xs =>
      obtain ⟨v, htake, hv⟩ := take_cons h
      exact ⟨⟨v⟩, htake, xs, hv, rfl⟩

/-- **A script** on a tree is answered as by the cursor of its values. -/
theorem exists_iterates (h : t.arena.Represents p) (script : List (Step Unit)) :
    ∃ v, Traversal.Iterates t.values script
      ((Cursor.ofList t.toList).run (script.map (Step.map fun _ => .front))) v := by
  have hstart : (Cursor.ofList t.toList).left = p.inorder.map Prod.snd := by
    rw [toList_eq h, inorder_shape]
    rfl
  obtain ⟨v, hiterates, -⟩ := follows_awaits.iterates ⟨p.inorder, h.awaits_start, hstart⟩ script
  exact ⟨v, hiterates⟩

/-- **A visit** of a tree is the visit of its values in order. -/
theorem visit_eq (h : t.arena.Represents p) (f : Nat → α → StateM σ Bool) (s : σ) :
    t.visit f s = .ok (visitList f 0 t.toList s) := by
  rw [toList_eq h, inorder_shape]
  refine Traversal.visit_eq_visitList f (gives_values h.awaits_start) ?_ s
  rw [List.length_map]
  exact Nat.le_of_eq h.awaits_start.remaining.symm

end SearchTree

end Containers
