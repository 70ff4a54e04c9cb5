import Containers.Proofs.BinaryTree.Ties
import Containers.Proofs.SearchTree.SortedList

/-!
# Equal values in reachable trees

A tree that takes equal values puts a new one below all that it is equal to, and compares it with
each of them on the way — as long as they are on the left of each other.

* `SearchTree.TiesLeft` — what hangs on the right of a node is strictly above its value;
* `SearchTree.LiftsTie` — the removals that break this;
* `SearchTree.Unlifted` — the trees that come about without them;
* `SearchTree.tiesMet` — the equal values that a new one is compared with;
* **`tiesLeft_unless_lifted`** — equal values are on the left of each other in all of these trees,
  and each operation keeps them there but for those removals.  Where they are, a new value is
  compared with all that it is equal to, and nowhere else is every value;
* `lifted_tie_is_missed` — two removals after which an equal value is not met.
-/

namespace Containers.SearchTree

open BinaryTree

variable {α : Type} [Ord α] {t u : SearchTree α}

/-- What hangs on the left of a node is at most its value, what hangs on the right is strictly above
it. -/
def TiesLeft (t : SearchTree α) : Prop :=
  t.arena.shape.TiesLeft

instance (t : SearchTree α) : Decidable t.TiesLeft :=
  inferInstanceAs (Decidable t.arena.shape.TiesLeft)

/-- The node at a position has two children, and the value that takes the place of its own leaves an
equal one behind on its right. -/
def LiftsTie (t : SearchTree α) (position : Nat) : Prop :=
  (t.arena.shape.subtreeAt position).LiftsTie

instance (t : SearchTree α) (position : Nat) : Decidable (t.LiftsTie position) :=
  inferInstanceAs (Decidable (t.arena.shape.subtreeAt position).LiftsTie)

/-- The equal values that a new one is compared with on its way down. -/
def tiesMet (t : SearchTree α) (a : α) : List α :=
  ties a ((t.insert a).events.filterMap Event.compared?)

/-- A tree comes about from an empty one by the operations, without a removal that lifts a value
above an equal one. -/
inductive Unlifted : SearchTree α → Prop where
  | empty : Unlifted .empty
  | emptyUnique : Unlifted .emptyUnique
  | ofList (as : List α) : Unlifted (ofList as).result
  | insert {t : SearchTree α} (h : Unlifted t) (a : α) : Unlifted (t.insert a).result.2
  | insertMany {t : SearchTree α} (h : Unlifted t) (as : List α) :
      Unlifted (t.insertMany as).result.2
  | setUnique {t : SearchTree α} (h : Unlifted t) (unique : Bool) : Unlifted (t.setUnique unique)
  | removeAt {t u : SearchTree α} (h : Unlifted t) {position : Nat} {a : α}
      (hremove : (t.removeAt position).result = .ok (a, u)) (hkept : ¬ t.LiftsTie position) :
      Unlifted u

theorem Unlifted.reachable (h : Unlifted t) : Reachable t := by
  induction h with
  | empty => exact .empty
  | emptyUnique => exact .emptyUnique
  | ofList as => exact .ofList as
  | insert _ a ih => exact ih.insert a
  | insertMany _ as ih => exact ih.insertMany as
  | setUnique _ unique ih => exact ih.setUnique unique
  | removeAt _ hremove _ ih => exact ih.removeAt hremove

/-! ### One step -/

/-- The operations keep equal values on the left of each other, a removal just if it lifts none. -/
structure KeepsTies (t : SearchTree α) : Prop where
  insert : ∀ a, (t.insert a).result.2.TiesLeft
  insertMany : ∀ as, (t.insertMany as).result.2.TiesLeft
  setUnique : ∀ unique, (t.setUnique unique).TiesLeft
  removeAt : ∀ position a u, (t.removeAt position).result = .ok (a, u) →
    (u.TiesLeft ↔ ¬ t.LiftsTie position)

theorem TiesLeft.insert [Std.TransOrd α] (h : t.TiesLeft) (ht : Reachable t) (a : α) :
    (t.insert a).result.2.TiesLeft := by
  obtain ⟨p, hp⟩ := ht.exists_represents
  obtain ⟨-, ⟨-, hresult⟩ | ⟨q, arena, hsome, hresult, hq⟩⟩ := insert_spec a hp
  · rw [hresult]
    exact h
  · rw [TiesLeft, hp.shape_eq] at h
    rw [hresult]
    show arena.shape.TiesLeft
    rw [hq.shape_eq]
    exact h.insert? hsome

theorem TiesLeft.insertMany [Std.TransOrd α] (h : t.TiesLeft) (ht : Reachable t) (as : List α) :
    (t.insertMany as).result.2.TiesLeft := by
  have hboth := insertMany_of_insert (P := fun t : SearchTree α => Reachable t ∧ t.TiesLeft)
    (fun t h a => ⟨h.1.insert a, h.2.insert h.1 a⟩) t ⟨ht, h⟩ as
  exact hboth.2

theorem TiesLeft.removeAt_iff [Std.TransOrd α] (h : t.TiesLeft) (ht : Reachable t)
    {position : Nat} {a : α} (hremove : (t.removeAt position).result = .ok (a, u)) :
    u.TiesLeft ↔ ¬ t.LiftsTie position := by
  obtain ⟨p, hp⟩ := ht.exists_represents
  obtain ⟨-, -, -, q, hq, hshape⟩ := removeAt_ok hp hremove
  rw [TiesLeft, hp.shape_eq] at h
  rw [TiesLeft, LiftsTie, hq.shape_eq, hshape, hp.shape_eq]
  exact tiesLeft_eraseAt_iff h position

theorem TiesLeft.keepsTies [Std.TransOrd α] (h : t.TiesLeft) (ht : Reachable t) : KeepsTies t where
  insert := h.insert ht
  insertMany := h.insertMany ht
  setUnique _ := h
  removeAt _ _ _ hremove := h.removeAt_iff ht hremove

/-! ### Whole runs -/

theorem Unlifted.tiesLeft [Std.TransOrd α] (h : Unlifted t) : t.TiesLeft := by
  have hempty : TiesLeft (.empty : SearchTree α) := trivial
  induction h with
  | empty => exact hempty
  | emptyUnique => exact hempty
  | ofList as => exact hempty.insertMany .empty as
  | insert h a ih => exact ih.insert h.reachable a
  | insertMany h as ih => exact ih.insertMany h.reachable as
  | setUnique _ _ ih => exact ih
  | removeAt h hremove hkept ih => exact (ih.removeAt_iff h.reachable hremove).mpr hkept

/-- The comparisons of a new value are those of the search path. -/
theorem tiesMet_eq (ht : Reachable t) (a : α) :
    t.tiesMet a = ties a (t.arena.shape.searchPath t.unique a) := by
  obtain ⟨p, hp⟩ := ht.exists_represents
  rw [tiesMet, (insert_spec a hp).1, hp.shape_eq, List.filterMap_map]
  exact congrArg (ties a) List.filterMap_some

/-- Equal values are on the left of each other just if a new value meets all that it is equal to. -/
theorem tiesLeft_iff_tiesMet [Std.TransOrd α] (ht : Reachable t) :
    t.TiesLeft ↔ ∀ a, (t.setUnique false).tiesMet a = (ties a t.toList).reverse := by
  obtain ⟨p, hp, hascends⟩ := ht.ascends
  have hmet : ∀ a, (t.setUnique false).tiesMet a = ties a (p.shape.searchPath false a) := by
    intro a
    rw [tiesMet_eq (ht.setUnique false) a, ← hp.shape_eq]
    rfl
  rw [TiesLeft, hp.shape_eq, toList_eq hp, tiesLeft_iff_ties_searchPath hascends]
  exact forall_congr' fun a => by rw [hmet a]

/-- **Equal values are on the left of each other until one of them is lifted.**  So it is in every
tree that came about without such a removal, and from there on each operation keeps it so, or is
such a removal.  Where it is so, and only there, a tree that takes equal values compares each new
value with all that it is equal to, from right to left. -/
theorem tiesLeft_unless_lifted [Std.TransOrd α] :
    (∀ t : SearchTree α, Unlifted t → t.TiesLeft) ∧
    ∀ t : SearchTree α, Reachable t → (t.TiesLeft → KeepsTies t) ∧
      (t.TiesLeft ↔ ∀ a, (t.setUnique false).tiesMet a = (ties a t.toList).reverse) := by
  refine ⟨fun t h => h.tiesLeft, fun t ht => ⟨fun h => h.keepsTies ht, tiesLeft_iff_tiesMet ht⟩⟩

/-! ### Two removals -/

/-- The tree without the value at a position, and as it is where there is none. -/
def without (t : SearchTree α) (position : Nat) : SearchTree α :=
  match (t.removeAt position).result with
  | .ok (_, u) => u
  | .error _ => t

theorem Reachable.without (ht : Reachable t) (position : Nat) : Reachable (t.without position) := by
  cases hremove : (t.removeAt position).result with
  | error fault => simpa only [SearchTree.without, hremove] using ht
  | ok removed => simpa only [SearchTree.without, hremove] using ht.removeAt hremove

theorem Unlifted.without (h : Unlifted t) {position : Nat} (hkept : ¬ t.LiftsTie position) :
    Unlifted (t.without position) := by
  cases hremove : (t.removeAt position).result with
  | error fault => simpa only [SearchTree.without, hremove] using h
  | ok removed => simpa only [SearchTree.without, hremove] using h.removeAt hremove hkept

/-- Entries of which three are equal, after a removal that has lifted another one to the root. -/
def promoted : SearchTree Entry :=
  (ofList [⟨1, "a"⟩, ⟨0, "b"⟩, ⟨3, "c"⟩, ⟨3, "d"⟩, ⟨2, "e"⟩, ⟨3, "f"⟩]).result.without 1

/-- A new entry still meets the three that it is equal to. -/
theorem tiesLeft_unless_lifted_promoted : Unlifted promoted ∧ promoted.TiesLeft ∧
    (promoted.tiesMet ⟨3, "g"⟩).map Entry.tag = ["c", "d", "f"] ∧
    (promoted.setUnique false).tiesMet ⟨3, "g"⟩ = (ties ⟨3, "g"⟩ promoted.toList).reverse := by
  have hunlifted : Unlifted promoted := (Unlifted.ofList _).without (by decide +kernel)
  obtain ⟨hrun, hreachable⟩ := tiesLeft_unless_lifted (α := Entry)
  have hleft := hrun promoted hunlifted
  refine ⟨hunlifted, hleft, rfl, ?_⟩
  exact (hreachable promoted hunlifted.reachable).2.mp hleft ⟨3, "g"⟩

/-- Two equal values, of which the removal of a root has lifted one above the other. -/
def lifted : SearchTree Int64 :=
  ((ofList [1, 0, 2, 2]).result.without 1).without 0

/-- Equal values are not always on the left of each other, and a new value does not always meet all
that it is equal to. -/
theorem lifted_tie_is_missed : Reachable lifted ∧ lifted.unique = false ∧ ¬ lifted.TiesLeft ∧
    lifted.toList = [2, 2] ∧ lifted.tiesMet 2 = [2] := by
  have hreachable : Reachable lifted := ((Reachable.ofList _).without 1).without 0
  exact ⟨hreachable, rfl, by decide +kernel, rfl, rfl⟩

end Containers.SearchTree
