import Mathlib.Data.List.Induction
import Containers.Proofs.SearchTree.Ties

/-!
# Trees that refuse equal values

A tree that refuses equal values looks at the values of one way down only.  That is enough: where an
equal value is, the way leads to one, even after the removals that leave equal values on both sides.

* `SearchTree.RefusesTies` — which values are refused, and what becomes of the tree;
* `SearchTree.after` — the tree after updates, one after the other, which are those of commands;
* `Update.KeepsUnique` — the updates that do not let a tree take equal values again;
* `SearchTree.KeptSince` — a value was taken at one place of a run, where no equal one was, and has
  been there ever since;
* **`refuses_ties_and_keeps_firsts`** — which values every reachable tree refuses, and what that
  makes of a run: equal values do not gather, and the first of them is the one that stays.

Values that were equal before the tree was told to refuse such values stay as they are.
-/

namespace Containers.SearchTree

open BinaryTree

variable {α : Type} [Ord α] {t u : SearchTree α}

/-! ### One value -/

/-- A tree that refuses equal values refuses a value just if it holds an equal one, and is then as
it was, place by place.  Another tree refuses nothing. -/
structure RefusesTies (t : SearchTree α) : Prop where
  refused_iff : t.unique = true →
    ∀ a, (t.insert a).result.1 = false ↔ ∃ x ∈ t.toList, (compare a x).isEq
  refused : ∀ a, (t.insert a).result.1 = false → (t.insert a).result.2 = t
  accepted : t.unique = false → ∀ a, (t.insert a).result.1 = true

/-- **Refused or taken**, by the equal values in the whole tree. -/
theorem Reachable.insert_cases [Std.TransOrd α] (h : Reachable t) (hunique : t.unique = true)
    (a : α) :
    (ties a t.toList ≠ [] ∧ (t.insert a).result = (false, t)) ∨
      (ties a t.toList = [] ∧ ∃ u, (t.insert a).result = (true, u) ∧ u.unique = true ∧
        u.toList = t.toList.orderedInsert AtMost a) := by
  obtain ⟨p, hp, hascends⟩ := h.ascends
  have hnone := insert?_eq_none_iff hascends a
  rw [← toList_eq hp, ← hunique] at hnone
  obtain ⟨-, ⟨hrefused, hresult⟩ | ⟨q, arena, hsome, hresult, hq⟩⟩ := insert_spec a hp
  · exact .inl ⟨hnone.mp hrefused, hresult⟩
  · refine .inr ⟨?_, ⟨arena, t.unique⟩, hresult, hunique, ?_⟩
    · by_contra hties
      rw [hnone.mpr hties] at hsome
      cases hsome
    · rw [toList_eq hq, toList_eq hp]
      exact inorder_insert? hascends hsome

/-- A tree that takes equal values takes every value. -/
theorem Reachable.insert_of_not_unique [Std.TransOrd α] (h : Reachable t)
    (hunique : t.unique = false) (a : α) :
    ∃ u, (t.insert a).result = (true, u) ∧ u.unique = false ∧
      u.toList = t.toList.orderedInsert AtMost a := by
  obtain ⟨p, hp, hascends⟩ := h.ascends
  obtain ⟨-, ⟨hnone, -⟩ | ⟨q, arena, hsome, hresult, hq⟩⟩ := insert_spec a hp
  · have hsome := insert?_false_isSome p.shape a
    rw [← hunique, hnone] at hsome
    cases hsome
  · refine ⟨⟨arena, t.unique⟩, hresult, hunique, ?_⟩
    rw [toList_eq hq, toList_eq hp]
    exact inorder_insert? hascends hsome

theorem Reachable.refusesTies [Std.TransOrd α] (h : Reachable t) : RefusesTies t := by
  constructor
  case refused_iff =>
    intro hunique a
    rw [← ties_ne_nil_iff]
    obtain ⟨hties, hresult⟩ | ⟨hnone, u, hresult, -⟩ := h.insert_cases hunique a
    · rw [hresult]
      exact iff_of_true rfl hties
    · rw [hresult]
      exact iff_of_false Bool.false_ne_true.symm fun hties => hties hnone
  case refused => exact (actsAsSortedList h).refused
  case accepted =>
    intro hunique a
    obtain ⟨u, hresult, -⟩ := h.insert_of_not_unique hunique a
    rw [hresult]

/-! ### Updates -/

/-- The tree after an update. -/
def Update.onTree (t : SearchTree α) : Update α → SearchTree α
  | .insert a => (t.insert a).result.2
  | .insertMany as => (t.insertMany as).result.2
  | .extend as => (t.insertMany as).result.2
  | .setUnique unique => t.setUnique unique
  | .removeAt _ position => t.without position

/-- The tree after updates, one after the other. -/
def after (t : SearchTree α) (us : List (Update α)) : SearchTree α :=
  us.foldl Update.onTree t

/-- What a command does to a tree is what its update does. -/
theorem collection_perform {β : Type} [Element β] (t : SearchTree β) (u : Update β) :
    (t.perform u).collection = u.onTree t := by
  cases u with
  | removeAt form position =>
    rw [SearchTree.perform, Update.onTree, SearchTree.without]
    cases t.removeAt position with
    | mk result events => cases result <;> rfl
  | _ => rfl

/-- What commands do to a tree, one after the other, is what their updates do. -/
theorem after_eq_foldl_perform {β : Type} [Element β] (t : SearchTree β) (us : List (Update β)) :
    t.after us = us.foldl (fun t u => (t.perform u).collection) t := by
  rw [after, funext fun t => funext (collection_perform t)]

/-- The updates that do not let a tree take equal values again. -/
def Update.KeepsUnique : Update α → Prop
  | .setUnique unique => unique = true
  | _ => True

/-- An update as what is done value by value. -/
def Update.steps : Update α → List (Update α)
  | .insertMany as => as.map .insert
  | .extend as => as.map .insert
  | u => [u]

theorem after_append (t : SearchTree α) (us vs : List (Update α)) :
    t.after (us ++ vs) = (t.after us).after vs :=
  List.foldl_append

theorem insertMany_eq_after (t : SearchTree α) (as : List α) :
    (t.insertMany as).result.2 = t.after (as.map .insert) := by
  induction as generalizing t with
  | nil => rfl
  | cons a as ih => exact ih (t.insert a).result.2

/-- Value by value, updates come to the same. -/
theorem after_steps (t : SearchTree α) (us : List (Update α)) :
    t.after (us.flatMap Update.steps) = t.after us := by
  induction us generalizing t with
  | nil => rfl
  | cons u us ih =>
    rw [List.flatMap_cons, after_append, ih]
    show _ = (Update.onTree t u).after us
    congr 1
    cases u with
    | insertMany as => exact (insertMany_eq_after t as).symm
    | extend as => exact (insertMany_eq_after t as).symm
    | insert a => rfl
    | setUnique unique => rfl
    | removeAt form position => rfl

/-- What is done to one value at most and does not let a tree take equal values again. -/
def Update.IsStep : Update α → Prop
  | .insert _ => True
  | .insertMany _ => False
  | .extend _ => False
  | .setUnique unique => unique = true
  | .removeAt _ _ => True

omit [Ord α] in
theorem Update.IsStep.keepsUnique {u : Update α} (h : u.IsStep) : u.KeepsUnique := by
  cases u with
  | setUnique unique => exact h
  | _ => trivial

omit [Ord α] in
theorem Update.isStep_of_mem_steps {u v : Update α} (hkeeps : u.KeepsUnique) (hv : v ∈ u.steps) :
    v.IsStep := by
  cases u with
  | insert a =>
    obtain rfl := List.mem_singleton.mp hv
    trivial
  | insertMany as =>
    obtain ⟨a, -, rfl⟩ := List.mem_map.mp hv
    trivial
  | extend as =>
    obtain ⟨a, -, rfl⟩ := List.mem_map.mp hv
    trivial
  | setUnique unique =>
    obtain rfl := List.mem_singleton.mp hv
    exact hkeeps
  | removeAt form position =>
    obtain rfl := List.mem_singleton.mp hv
    trivial

/-! ### Counting equal values -/

/-- The numbers of equal values have not risen above what they were, or above one. -/
structure Bounded (count : α → Nat) (t : SearchTree α) : Prop where
  reachable : Reachable t
  unique : t.unique = true
  length_ties_le : ∀ a, (ties a t.toList).length ≤ max 1 (count a)

section Bounded

variable {count : α → Nat}

theorem Bounded.insert [Std.TransOrd α] (h : Bounded count t) (a : α) :
    Bounded count (t.insert a).result.2 := by
  obtain ⟨-, hresult⟩ | ⟨hnone, u, hresult, hunique, hlist⟩ := h.reachable.insert_cases h.unique a
  · rwa [hresult]
  · refine ⟨h.reachable.insert a, by rwa [hresult], fun b => ?_⟩
    have hperm : (ties b u.toList).Perm (ties b (a :: t.toList)) := by
      rw [hlist]
      exact (List.perm_orderedInsert AtMost a t.toList).filter _
    rw [hresult, hperm.length_eq]
    by_cases heq : (compare b a).isEq
    · -- The new value is the first of those that are equal to `b`.
      rw [ties_cons_of_isEq heq, ties_congr heq, hnone]
      exact Nat.le_max_left 1 _
    · rw [ties_cons_of_not_isEq heq]
      exact h.length_ties_le b

omit [Ord α] in
/-- A removal leaves values that were there, in the same order. -/
theorem sublist_without {p : BinaryTree (NodeId × α)} (hp : t.arena.Represents p)
    (position : Nat) : (t.without position).toList.Sublist t.toList := by
  cases hremove : (t.removeAt position).result with
  | error fault => simp only [SearchTree.without, hremove, List.Sublist.refl]
  | ok removed =>
    obtain ⟨-, -, -, q, hq, hshape⟩ := removeAt_ok hp hremove
    simp only [SearchTree.without, hremove]
    rw [toList_eq hq, toList_eq hp, hshape, inorder_eraseAt]
    exact List.eraseIdx_sublist _ _

omit [Ord α] in
theorem unique_without {p : BinaryTree (NodeId × α)} (hp : t.arena.Represents p)
    (position : Nat) : (t.without position).unique = t.unique := by
  cases hremove : (t.removeAt position).result with
  | error fault => simp only [SearchTree.without, hremove]
  | ok removed =>
    simp only [SearchTree.without, hremove]
    exact (removeAt_ok hp hremove).2.2.1

theorem Bounded.without (h : Bounded count t) (position : Nat) :
    Bounded count (t.without position) := by
  obtain ⟨p, hp⟩ := h.reachable.exists_represents
  refine ⟨h.reachable.without position, (unique_without hp position).trans h.unique, fun a => ?_⟩
  exact (ties_sublist a (sublist_without hp position)).length_le.trans (h.length_ties_le a)

/-- **One update** that keeps a tree refusing equal values. -/
theorem Bounded.onTree [Std.TransOrd α] (h : Bounded count t) {u : Update α}
    (hkeeps : u.KeepsUnique) : Bounded count (u.onTree t) := by
  cases u with
  | insert a => exact h.insert a
  | insertMany as => exact insertMany_of_insert (fun t ht a => ht.insert a) t h as
  | extend as => exact insertMany_of_insert (fun t ht a => ht.insert a) t h as
  | setUnique unique => exact ⟨h.reachable.setUnique unique, hkeeps, h.length_ties_le⟩
  | removeAt form position => exact h.without position

theorem Bounded.after [Std.TransOrd α] (h : Bounded count t) {us : List (Update α)}
    (hkeeps : ∀ u ∈ us, u.KeepsUnique) : Bounded count (t.after us) := by
  induction us generalizing t with
  | nil => exact h
  | cons u us ih =>
    rw [List.forall_mem_cons] at hkeeps
    exact ih (h.onTree hkeeps.1) hkeeps.2

end Bounded

/-- A tree that has always refused equal values holds no two of them. -/
theorem bounded_emptyUnique : Bounded (fun _ => 0) (emptyUnique : SearchTree α) :=
  ⟨.emptyUnique, rfl, fun _ => Nat.zero_le _⟩

theorem Bounded.pairwise_lt [Std.TransOrd α] (h : Bounded (fun _ => 0) t) :
    t.toList.Pairwise fun a b => compare a b = .lt :=
  pairwise_lt_of_length_ties h.reachable.pairwise_atMost h.length_ties_le

/-! ### The first of its kind -/

/-- A value was taken at one place of the updates, where no equal one was, and has been there ever
since. -/
def KeptSince (t : SearchTree α) (us : List (Update α)) (x : α) : Prop :=
  ∃ before later, us = before ++ .insert x :: later ∧ ties x (t.after before).toList = [] ∧
    ∀ next, next <+: later → x ∈ (t.after (before ++ .insert x :: next)).toList

/-- A value that was kept and is there after one more update is kept. -/
theorem KeptSince.concat {us : List (Update α)} {x : α} (h : KeptSince t us x) {u : Update α}
    (hx : x ∈ (t.after (us ++ [u])).toList) : KeptSince t (us ++ [u]) x := by
  obtain ⟨before, later, rfl, hnone, hkept⟩ := h
  rw [List.append_assoc, List.cons_append] at hx ⊢
  refine ⟨before, later ++ [u], rfl, hnone, fun next hnext => ?_⟩
  rcases List.prefix_concat_iff.mp hnext with rfl | hnext
  · exact hx
  · exact hkept next hnext

/-- A value that is there after it was handed in was there before, or is the first of its kind. -/
theorem Bounded.mem_insert [Std.TransOrd α] {count : α → Nat} (h : Bounded count t) {a x : α}
    (hx : x ∈ (t.insert a).result.2.toList) :
    x ∈ t.toList ∨ x = a ∧ ties a t.toList = [] := by
  obtain ⟨-, hresult⟩ | ⟨hnone, u, hresult, -, hlist⟩ := h.reachable.insert_cases h.unique a
  · rw [hresult] at hx
    exact .inl hx
  · rw [hresult, hlist, List.mem_orderedInsert] at hx
    rcases hx with rfl | hx
    · exact .inr ⟨rfl, hnone⟩
    · exact .inl hx

/-- **Whatever a tree holds is the first of its kind**, if it has always refused equal values. -/
theorem keptSince_of_mem [Std.TransOrd α] {us : List (Update α)} (hsteps : ∀ u ∈ us, u.IsStep)
    {x : α} (hx : x ∈ (emptyUnique.after us).toList) : KeptSince emptyUnique us x := by
  induction us using List.reverseRecOn with
  | nil => exact absurd hx List.not_mem_nil
  | append_singleton us u ih =>
    rw [List.forall_mem_append, List.forall_mem_singleton] at hsteps
    obtain ⟨hus, hu⟩ := hsteps
    have hbounded : Bounded (fun _ => 0) ((emptyUnique : SearchTree α).after us) :=
      bounded_emptyUnique.after fun v hv => (hus v hv).keepsUnique
    have hlast : x ∈ (Update.onTree (emptyUnique.after us) u).toList := by
      rwa [after_append] at hx
    cases u with
    | insert a =>
      rcases hbounded.mem_insert hlast with hbefore | ⟨rfl, hnone⟩
      · exact (ih hus hbefore).concat hx
      · refine ⟨us, [], rfl, hnone, fun next hnext => ?_⟩
        rwa [List.prefix_nil.mp hnext]
    | insertMany as => exact hu.elim
    | extend as => exact hu.elim
    | setUnique unique => exact (ih hus hlast).concat hx
    | removeAt form position =>
      obtain ⟨p, hp⟩ := hbounded.reachable.exists_represents
      exact (ih hus ((sublist_without hp position).mem hlast)).concat hx

/-- **A tree refuses equal values just where it is told to, and all of them.**  A tree that refuses
them refuses what is equal to one of its values, wherever that stands, and nothing else.  However it
is updated as long as it refuses them, there are never more values equal to any one than there were
when that began, or one.  A tree that has always refused them ascends strictly, and what it holds is
the first of its kind that was handed in since there was none.  The updates may be those of any
commands, one after the other. -/
theorem refuses_ties_and_keeps_firsts [Std.TransOrd α] :
    (∀ t : SearchTree α, Reachable t → t.RefusesTies) ∧
    (∀ t : SearchTree α, Reachable t → t.unique = true →
      ∀ us : List (Update α), (∀ u ∈ us, u.KeepsUnique) →
        ∀ a, (ties a (t.after us).toList).length ≤ max 1 (ties a t.toList).length) ∧
    (∀ us : List (Update α), (∀ u ∈ us, u.KeepsUnique) →
      (emptyUnique.after us).toList.Pairwise (fun a b => compare a b = .lt) ∧
      emptyUnique.after us = emptyUnique.after (us.flatMap Update.steps) ∧
      ∀ x ∈ (emptyUnique.after us).toList, KeptSince emptyUnique (us.flatMap Update.steps) x) ∧
    ∀ {β : Type} [Element β] (t : SearchTree β) (us : List (Update β)),
      t.after us = us.foldl (fun t u => (t.perform u).collection) t := by
  refine ⟨fun t h => h.refusesTies, ?_, ?_, after_eq_foldl_perform⟩
  · intro t h hunique us hkeeps
    have hbounded : Bounded (fun a => (ties a t.toList).length) t :=
      ⟨h, hunique, fun a => Nat.le_max_right 1 _⟩
    exact (hbounded.after hkeeps).length_ties_le
  · intro us hkeeps
    refine ⟨(bounded_emptyUnique.after hkeeps).pairwise_lt, (after_steps _ us).symm, ?_⟩
    intro x hx
    rw [← after_steps] at hx
    refine keptSince_of_mem (fun v hv => ?_) hx
    obtain ⟨u, hu, hv⟩ := List.mem_flatMap.mp hv
    exact Update.isStep_of_mem_steps (hkeeps u hu) hv

/-- Two equal values, none of which is on the left of the other, in a tree that takes no more. -/
def sealed : SearchTree Int64 :=
  lifted.setUnique true

/-- Entries of one key: the second is refused, the first leaves, and the third comes in. -/
def readmission : List (Update Entry) :=
  [.insert ⟨1, "a"⟩, .extend [⟨1, "b"⟩, ⟨0, "z"⟩], .removeAt .insisting 1,
    .insertMany [⟨1, "c"⟩, ⟨1, "d"⟩]]

theorem refuses_ties_and_keeps_firsts_readmission :
    sealed.RefusesTies ∧ (sealed.insert 2).result.1 = false ∧
    (∀ a, (ties a (sealed.after [.insertMany [2, 7, 7], .removeAt .answering 0]).toList).length ≤
      max 1 (ties a sealed.toList).length) ∧
    (emptyUnique.after readmission).toList.map Entry.tag = ["z", "c"] ∧
    KeptSince emptyUnique (readmission.flatMap Update.steps) ⟨1, "c"⟩ ∧
    (readmission.foldl (fun t u => (t.perform u).collection) emptyUnique).toList.map Entry.tag =
      ["z", "c"] := by
  have hlifted : Reachable lifted := ((Reachable.ofList _).without 1).without 0
  have hsealed : Reachable sealed := hlifted.setUnique true
  obtain ⟨hrefuses, hbounded, -⟩ := refuses_ties_and_keeps_firsts (α := Int64)
  obtain ⟨-, -, hrun, hperform⟩ := refuses_ties_and_keeps_firsts (α := Entry)
  have hkeeps : ∀ u ∈ readmission, u.KeepsUnique := by
    simp [readmission, Update.KeepsUnique]
  obtain ⟨-, -, hkept⟩ := hrun readmission hkeeps
  refine ⟨hrefuses sealed hsealed, rfl, ?_, rfl, hkept ⟨1, "c"⟩ ?_, ?_⟩
  · exact hbounded sealed hsealed rfl _ (by simp [Update.KeepsUnique])
  · exact .tail _ (.head _)
  · rw [← hperform]
    rfl

end Containers.SearchTree
