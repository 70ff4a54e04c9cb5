import Containers.Proofs.BinaryTree.Search

/-!
# Equal values in search trees

A new value goes to the left of the values that it is equal to, so in a tree that has only grown no
value has an equal one on its right.  The deletion of a root with two children can break that: the
value that is lifted to the root may leave equal ones behind on its right.

* `BinaryTree.TiesLeft` — at most a value on its left, strictly above it on its right;
* `BinaryTree.LiftsTie` — a root whose deletion lifts a value above an equal one;
* `ties` — the values of a list that are equal to another.

**`tiesLeft_eraseAt_iff`** — a deletion keeps equal values on the left unless it lifts one of them.
**`tiesLeft_iff_ties_searchPath`** — they are on the left just if every search meets all of them,
from right to left.  **`insert?_eq_none_iff`** — wherever they are, a search that has to stop at an
equal value misses none of them altogether.
-/

namespace BinaryTree

open Containers

universe u

variable {α : Type u} [Ord α]

/-- At most a value on its left, strictly above it on its right. -/
def TiesLeft : BinaryTree α → Prop
  | nil => True
  | node v l r => (∀ x ∈ l.inorder, AtMost x v) ∧ (∀ y ∈ r.inorder, compare v y = .lt) ∧
      l.TiesLeft ∧ r.TiesLeft

/-- The root has two children, and the value that takes its place when it is deleted leaves an equal
one behind on its right. -/
def LiftsTie : BinaryTree α → Prop
  | node _ (node _ _ _) r =>
    ∃ m ∈ r.leftmost?, ∃ y ∈ r.eraseLeftmost.inorder, (compare m y).isEq
  | _ => False

instance decidableTiesLeft : (t : BinaryTree α) → Decidable t.TiesLeft
  | nil => .isTrue trivial
  | node _ l r =>
    have := decidableTiesLeft l
    have := decidableTiesLeft r
    inferInstanceAs (Decidable (_ ∧ _ ∧ _ ∧ _))

instance decidableLiftsTie : (t : BinaryTree α) → Decidable t.LiftsTie
  | nil => .isFalse id
  | node _ nil _ => .isFalse id
  | node _ (node _ _ _) r => inferInstanceAs (Decidable (∃ m ∈ r.leftmost?, _))

/-- The values of a list that are equal to another. -/
def ties (a : α) (xs : List α) : List α :=
  xs.filter fun x => (compare a x).isEq

theorem ties_append (a : α) (xs ys : List α) : ties a (xs ++ ys) = ties a xs ++ ties a ys :=
  List.filter_append xs ys

theorem ties_cons (a x : α) (xs : List α) : ties a (x :: xs) = ties a [x] ++ ties a xs :=
  ties_append a [x] xs

theorem ties_cons_of_isEq {a v : α} (h : (compare a v).isEq) (xs : List α) :
    ties a (v :: xs) = v :: ties a xs :=
  List.filter_cons_of_pos h

theorem ties_cons_of_not_isEq {a v : α} (h : ¬ (compare a v).isEq) (xs : List α) :
    ties a (v :: xs) = ties a xs :=
  List.filter_cons_of_neg h

theorem ties_eq_nil {a : α} {xs : List α} (h : ∀ x ∈ xs, ¬ (compare a x).isEq) : ties a xs = [] :=
  List.filter_eq_nil_iff.mpr h

theorem ties_ne_nil_iff {a : α} {xs : List α} : ties a xs ≠ [] ↔ ∃ x ∈ xs, (compare a x).isEq := by
  rw [Ne, ties, List.filter_eq_nil_iff]
  simp only [not_forall, not_not, exists_prop]

/-! ### On one side of a value -/

theorem atMost_of_lt {v y : α} (h : compare v y = .lt) : AtMost v y := by
  rw [AtMost, h]
  rfl

theorem atMost_of_isEq {a v : α} (h : (compare a v).isEq) : AtMost a v := by
  rw [AtMost, Ordering.isEq_iff_eq_eq.mp h]
  rfl

/-- What is at most a value is below it or equal to it. -/
theorem lt_of_atMost {a v : α} (hle : AtMost a v) (hne : ¬ (compare a v).isEq) :
    compare a v = .lt := by
  cases hcmp : compare a v with
  | lt => rfl
  | eq =>
    rw [hcmp] at hne
    exact absurd rfl hne
  | gt =>
    rw [AtMost, hcmp] at hle
    exact absurd hle Bool.false_ne_true

theorem ties_sublist (a : α) {xs ys : List α} (h : xs.Sublist ys) :
    (ties a xs).Sublist (ties a ys) :=
  h.filter _

section Sides

variable [Std.TransOrd α] {a v : α}

/-- Equal values have the same equal values. -/
theorem ties_congr (h : (compare a v).isEq) (xs : List α) : ties a xs = ties v xs := by
  refine List.filter_congr fun x _ => ?_
  rw [Std.TransCmp.congr_left (Ordering.isEq_iff_eq_eq.mp h)]

/-- What is at most a value is not equal to what is strictly above it. -/
theorem ties_above (ha : AtMost a v) {ys : List α} (hys : ∀ y ∈ ys, compare v y = .lt) :
    ties a ys = [] := by
  apply ties_eq_nil
  intro y hy
  rw [Std.TransCmp.lt_of_isLE_of_lt ha (hys y hy)]
  exact Bool.false_ne_true

/-- What is strictly below a value is not equal to what is at least that value. -/
theorem ties_beyond (ha : compare a v = .lt) {ys : List α} (hys : ∀ y ∈ ys, AtMost v y) :
    ties a ys = [] := by
  apply ties_eq_nil
  intro y hy
  rw [Std.TransCmp.lt_of_lt_of_isLE ha (hys y hy)]
  exact Bool.false_ne_true

/-- What is not at most a value is not equal to what is. -/
theorem ties_below (ha : ¬ AtMost a v) {xs : List α} (hxs : ∀ x ∈ xs, AtMost x v) :
    ties a xs = [] := by
  apply ties_eq_nil
  intro x hx heq
  exact ha (Std.TransOrd.isLE_trans (atMost_of_isEq heq) (hxs x hx))

/-- An ascending list without two equal values ascends strictly. -/
theorem pairwise_lt_of_length_ties {xs : List α} (hascends : xs.Pairwise AtMost)
    (h : ∀ a, (ties a xs).length ≤ 1) : xs.Pairwise fun a b => compare a b = .lt := by
  induction xs with
  | nil => exact .nil
  | cons x xs ih =>
    obtain ⟨hx, hxs⟩ := List.pairwise_cons.mp hascends
    have hself : (compare x x).isEq := Ordering.isEq_iff_eq_eq.mpr Std.ReflCmp.compare_self
    refine List.pairwise_cons.mpr ⟨?_, ih hxs ?_⟩
    · intro y hy
      refine lt_of_atMost (hx y hy) fun heq => ?_
      have hmem : y ∈ ties x xs := List.mem_filter.mpr ⟨hy, heq⟩
      have htwo := h x
      rw [ties_cons_of_isEq hself, List.length_cons] at htwo
      exact absurd (List.length_pos_of_mem hmem) (by omega)
    · intro a
      exact (ties_sublist a (List.sublist_cons_self x xs)).length_le.trans (h a)

end Sides

/-! ### Growing and shrinking -/

variable {t u l r : BinaryTree α} {a v m : α}

theorem TiesLeft.pairwise_atMost [Std.TransOrd α] (h : t.TiesLeft) :
    t.inorder.Pairwise AtMost := by
  induction t with
  | nil => exact .nil
  | node v l r ihl ihr =>
    obtain ⟨hl, hr, hleft, hright⟩ := h
    rw [inorder, List.pairwise_append, List.pairwise_cons]
    refine ⟨ihl hleft, ⟨fun y hy => atMost_of_lt (hr y hy), ihr hright⟩, ?_⟩
    intro x hx y hy
    rcases List.mem_cons.mp hy with rfl | hy
    · exact hl x hx
    · exact Std.TransOrd.isLE_trans (hl x hx) (atMost_of_lt (hr y hy))

/-- **Insertion keeps equal values on the left.** -/
theorem TiesLeft.insert? [Std.TransOrd α] {unique : Bool} (h : t.TiesLeft)
    (hinsert : t.insert? unique a = some u) : u.TiesLeft := by
  induction t generalizing u with
  | nil =>
    obtain rfl : node a nil nil = u := Option.some.inj hinsert
    exact ⟨nofun, nofun, trivial, trivial⟩
  | node v l r ihl ihr =>
    obtain ⟨hl, hr, hleft, hright⟩ := h
    rw [BinaryTree.insert?] at hinsert
    split at hinsert
    · exact absurd hinsert (Option.some_ne_none u).symm
    split at hinsert
    · next hle =>
      obtain ⟨w, hw, rfl⟩ := Option.map_eq_some_iff.mp hinsert
      refine ⟨?_, hr, ihl hleft hw, hright⟩
      intro x hx
      rw [inorder_insert? hleft.pairwise_atMost hw, List.mem_orderedInsert] at hx
      rcases hx with rfl | hx
      · exact hle
      · exact hl x hx
    · next hgt =>
      obtain ⟨w, hw, rfl⟩ := Option.map_eq_some_iff.mp hinsert
      refine ⟨hl, ?_, hleft, ihr hright hw⟩
      intro y hy
      rw [inorder_insert? hright.pairwise_atMost hw, List.mem_orderedInsert] at hy
      rcases hy with rfl | hy
      · exact Std.OrientedCmp.lt_of_not_isLE hgt
      · exact hr y hy

theorem TiesLeft.eraseLeftmost (h : t.TiesLeft) : t.eraseLeftmost.TiesLeft := by
  induction t with
  | nil => exact trivial
  | node v l r ihl =>
    obtain ⟨hl, hr, hleft, hright⟩ := h
    cases l with
    | nil => exact hright
    | node w ll lr =>
      refine ⟨?_, hr, ihl hleft, hright⟩
      intro x hx
      apply hl
      rw [inorder_eq_leftmost]
      exact List.mem_append_right _ hx

/-- The root that is deleted takes with it the only doubt about equal values. -/
theorem TiesLeft.eraseRoot_iff [Std.TransOrd α] (h : t.TiesLeft) :
    t.eraseRoot.TiesLeft ↔ ¬ t.LiftsTie := by
  match t, h with
  | nil, _ => exact iff_of_true trivial id
  | node v nil r, ⟨_, _, _, hright⟩ => exact iff_of_true hright id
  | node v (node w ll lr) nil, ⟨_, _, hleft, _⟩ =>
    refine iff_of_true hleft ?_
    rintro ⟨m, hm, -⟩
    exact absurd hm (Option.some_ne_none m).symm
  | node v (node w ll lr) (node x rl rr), ⟨hl, hr, hleft, hright⟩ =>
    obtain ⟨m, hm⟩ := Option.isSome_iff_exists.mp (leftmost?_isSome x rl rr)
    have hsplit := inorder_eq_leftmost (node x rl rr)
    rw [hm, Option.toList_some, List.singleton_append] at hsplit
    have hascends := hright.pairwise_atMost
    rw [hsplit, List.pairwise_cons] at hascends
    have hlift : LiftsTie (node v (node w ll lr) (node x rl rr)) ↔
        ∃ y ∈ (node x rl rr).eraseLeftmost.inorder, (compare m y).isEq := by
      simp [LiftsTie, hm]
    rw [BinaryTree.eraseRoot, hm, hlift]
    constructor
    · rintro ⟨-, habove, -⟩ ⟨y, hy, heq⟩
      rw [Option.getD_some] at habove
      rw [habove y hy] at heq
      exact Bool.false_ne_true heq
    · intro hnone
      refine ⟨?_, ?_, hleft, hright.eraseLeftmost⟩
      · intro y hy
        have hvm : compare v m = .lt := hr m (by rw [hsplit]; exact List.mem_cons_self)
        exact Std.TransOrd.isLE_trans (hl y hy) (atMost_of_lt hvm)
      · -- Nothing that stays is below the lifted value, so what is not equal to it is above.
        intro y hy
        exact lt_of_atMost (hascends.1 y hy) fun heq => hnone ⟨y, hy, heq⟩

omit [Ord α] in
theorem mem_of_mem_eraseAt {i : ℕ} {x : α} (h : x ∈ (t.eraseAt i).inorder) : x ∈ t.inorder := by
  rw [inorder_eraseAt] at h
  exact (List.eraseIdx_sublist _ _).mem h

/-- **A deletion keeps equal values on the left** unless it lifts one of them above another. -/
theorem tiesLeft_eraseAt_iff [Std.TransOrd α] (h : t.TiesLeft) (i : ℕ) :
    (t.eraseAt i).TiesLeft ↔ ¬ (t.subtreeAt i).LiftsTie := by
  induction t generalizing i with
  | nil => exact iff_of_true trivial id
  | node v l r ihl ihr =>
    rw [eraseAt, subtreeAt]
    obtain ⟨hl, hr, hleft, hright⟩ := id h
    split
    · rw [← ihl hleft i]
      refine ⟨fun hnode => hnode.2.2.1, fun herase => ⟨?_, hr, herase, hright⟩⟩
      exact fun x hx => hl x (mem_of_mem_eraseAt hx)
    split
    · exact h.eraseRoot_iff
    · rw [← ihr hright (i - l.numNodes - 1)]
      refine ⟨fun hnode => hnode.2.2.2, fun herase => ⟨hl, ?_, hleft, herase⟩⟩
      exact fun y hy => hr y (mem_of_mem_eraseAt hy)

/-! ### Searching -/

theorem searchPath_of_atMost (h : AtMost a v) (l r : BinaryTree α) :
    (node v l r).searchPath false a = v :: l.searchPath false a := by
  rw [searchPath, Bool.false_and, if_neg Bool.false_ne_true, if_pos h]

theorem searchPath_of_not_atMost (h : ¬ AtMost a v) (l r : BinaryTree α) :
    (node v l r).searchPath false a = v :: r.searchPath false a := by
  rw [searchPath, Bool.false_and, if_neg Bool.false_ne_true, if_neg h]

/-- **A search meets all equal values** from right to left, if all of them are on the left of each
other. -/
theorem TiesLeft.ties_searchPath [Std.TransOrd α] (h : t.TiesLeft) (a : α) :
    ties a (t.searchPath false a) = (ties a t.inorder).reverse := by
  induction t with
  | nil => rfl
  | node v l r ihl ihr =>
    obtain ⟨hl, hr, hleft, hright⟩ := h
    by_cases hle : AtMost a v
    · rw [searchPath_of_atMost hle, inorder, ties_append]
      by_cases heq : (compare a v).isEq
      · rw [ties_cons_of_isEq heq, ties_cons_of_isEq heq, ties_above hle hr, ihl hleft,
          List.reverse_append, List.reverse_singleton, List.singleton_append]
      · rw [ties_cons_of_not_isEq heq, ties_cons_of_not_isEq heq, ties_above hle hr, ihl hleft,
          List.append_nil]
    · have heq : ¬ (compare a v).isEq := fun heq => hle (atMost_of_isEq heq)
      rw [searchPath_of_not_atMost hle, inorder, ties_append, ties_below hle hl,
        ties_cons_of_not_isEq heq, ties_cons_of_not_isEq heq, ihr hright, List.nil_append]

/-- A search does not meet more values than there are. -/
theorem searchPath_subperm (t : BinaryTree α) (a : α) :
    (t.searchPath false a).Subperm t.inorder := by
  induction t with
  | nil => exact List.Subperm.refl []
  | node v l r ihl ihr =>
    have hmiddle : (v :: (l.inorder ++ r.inorder)).Subperm (node v l r).inorder :=
      List.perm_middle.symm.subperm
    by_cases hle : AtMost a v
    · rw [searchPath_of_atMost hle]
      refine List.Subperm.trans ?_ hmiddle
      exact (List.subperm_cons v).mpr (ihl.trans (List.sublist_append_left _ _).subperm)
    · rw [searchPath_of_not_atMost hle]
      refine List.Subperm.trans ?_ hmiddle
      exact (List.subperm_cons v).mpr (ihr.trans (List.sublist_append_right _ _).subperm)

theorem length_ties_searchPath_le (t : BinaryTree α) (a : α) :
    (ties a (t.searchPath false a)).length ≤ (ties a t.inorder).length :=
  ((t.searchPath_subperm a).filter _).length_le

/-- A search that turns left and misses nothing leaves nothing equal on the right, and goes on to
miss nothing on the left. -/
theorem ties_of_turnsLeft {v : α} {l r : BinaryTree α} (hle : AtMost a v)
    (h : (ties a (node v l r).inorder).length ≤
      (ties a ((node v l r).searchPath false a)).length) :
    ties a r.inorder = [] ∧ (ties a l.inorder).length ≤ (ties a (l.searchPath false a)).length := by
  have hmost := l.length_ties_searchPath_le a
  rw [searchPath_of_atMost hle, inorder, ties_append, List.length_append] at h
  by_cases heq : (compare a v).isEq
  · rw [ties_cons_of_isEq heq, ties_cons_of_isEq heq, List.length_cons, List.length_cons] at h
    exact ⟨List.length_eq_zero_iff.mp (by omega), by omega⟩
  · rw [ties_cons_of_not_isEq heq, ties_cons_of_not_isEq heq] at h
    exact ⟨List.length_eq_zero_iff.mp (by omega), by omega⟩

/-- If every search meets as many equal values as there are, they are on the left of each other. -/
theorem tiesLeft_of_length_ties [Std.TransOrd α] (hascends : t.inorder.Pairwise AtMost)
    (h : ∀ a, (ties a t.inorder).length ≤ (ties a (t.searchPath false a)).length) :
    t.TiesLeft := by
  induction t with
  | nil => exact trivial
  | node v l r ihl ihr =>
    rw [inorder, List.pairwise_append, List.pairwise_cons] at hascends
    obtain ⟨hl, ⟨hr, hright⟩, hcross⟩ := hascends
    have hbelow : ∀ x ∈ l.inorder, AtMost x v := fun x hx => hcross x hx v List.mem_cons_self
    refine ⟨hbelow, ?_, ihl hl ?_, ihr hright ?_⟩
    · intro y hy
      have hself : AtMost v v := Std.ReflCmp.isLE_rfl
      have hnone := (ties_of_turnsLeft hself (h v)).1
      exact lt_of_atMost (hr y hy) (List.filter_eq_nil_iff.mp hnone y hy)
    · intro a
      by_cases hle : AtMost a v
      · exact (ties_of_turnsLeft hle (h a)).2
      · rw [ties_below hle hbelow]
        exact Nat.zero_le _
    · intro a
      by_cases hle : AtMost a v
      · rw [(ties_of_turnsLeft hle (h a)).1]
        exact Nat.zero_le _
      · have hcount := h a
        have heq : ¬ (compare a v).isEq := fun heq => hle (atMost_of_isEq heq)
        rw [searchPath_of_not_atMost hle, inorder, ties_append, ties_below hle hbelow,
          ties_cons_of_not_isEq heq, ties_cons_of_not_isEq heq] at hcount
        exact hcount

/-- **Equal values are on the left of each other** just if every search meets all of them. -/
theorem tiesLeft_iff_ties_searchPath [Std.TransOrd α] (hascends : t.inorder.Pairwise AtMost) :
    t.TiesLeft ↔ ∀ a, ties a (t.searchPath false a) = (ties a t.inorder).reverse := by
  constructor
  · exact fun h a => h.ties_searchPath a
  · intro h
    apply tiesLeft_of_length_ties hascends
    intro a
    rw [h a, List.length_reverse]

/-! ### Stopping at an equal value -/

/-- An insertion that does not stop at equal values is never refused. -/
theorem insert?_false_isSome (t : BinaryTree α) (a : α) : (t.insert? false a).isSome := by
  induction t with
  | nil => rfl
  | node v l r ihl ihr =>
    rw [BinaryTree.insert?, Bool.false_and, if_neg Bool.false_ne_true]
    split
    · rwa [Option.isSome_map]
    · rwa [Option.isSome_map]

/-- **An insertion that stops at equal values is refused just if there is one**, on the way down or
not: where one is, the way leads to one.  The order from left to right is enough for that, so it
does not matter on which side of each other equal values are. -/
theorem insert?_eq_none_iff [Std.TransOrd α] (hascends : t.inorder.Pairwise AtMost) (a : α) :
    t.insert? true a = none ↔ ties a t.inorder ≠ [] := by
  induction t with
  | nil => exact iff_of_false (Option.some_ne_none _) fun h => h rfl
  | node v l r ihl ihr =>
    rw [inorder, List.pairwise_append, List.pairwise_cons] at hascends
    obtain ⟨hl, ⟨hr, hright⟩, hcross⟩ := hascends
    rw [BinaryTree.insert?, Bool.true_and, inorder, ties_append]
    by_cases heq : (compare a v).isEq
    · rw [if_pos heq, ties_cons_of_isEq heq]
      exact iff_of_true rfl (List.append_ne_nil_of_right_ne_nil _ (List.cons_ne_nil _ _))
    · rw [if_neg heq, ties_cons_of_not_isEq heq]
      by_cases hle : AtMost a v
      · rw [if_pos hle, Option.map_eq_none_iff, ihl hl, ties_beyond (lt_of_atMost hle heq) hr,
          List.append_nil]
      · rw [if_neg hle, Option.map_eq_none_iff, ihr hright,
          ties_below hle fun x hx => hcross x hx v List.mem_cons_self, List.nil_append]

end BinaryTree
