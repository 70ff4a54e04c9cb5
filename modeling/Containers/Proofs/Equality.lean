import Mathlib.Data.List.Forall2
import Containers.Proofs.CircularBuffer.Reachable
import Containers.Proofs.SearchTree.Bulk

/-!
# Equality of collections

Collections are equal if they hold equal elements in the same order.  Where these stand, in what
capacity or shape, and what the places that are not in use still hold, makes no difference, neither
to the comparison nor to what the collections become.

* `EqualInPairs` — two lists of elements that are equal one by one;
* `ComparesElements` — an equality of collections that is the one of their elements, and which laws
  it has from there;
* `CircularBuffer.Operation.Alike` — operations that add equal elements, or whose predicates do not
  tell equal elements apart; `CircularBuffer.StaysEqual` — what they do to equal buffers;
* `SearchTree.StaysEqual` — what removals do to equal trees;
* **`equality_compares_elements_and_is_kept`** — all of this for what can come about, and that trees
  of the same values are equal, in whatever order these came in;
* `equality_is_lost_with_failed_reading` — what an element does that is not equal to itself.
-/

namespace Containers

variable {α κ : Type}

/-! ### Elements in pairs -/

section Elements

variable [BEq α] {xs ys : List α}

/-- As many elements on both sides, and each equal to the one across. -/
abbrev EqualInPairs (xs ys : List α) : Prop :=
  List.Forall₂ (fun x y => x == y) xs ys

theorem beq_iff_equalInPairs : xs == ys ↔ EqualInPairs xs ys := by
  induction xs generalizing ys with
  | nil =>
    refine Iff.trans ?_ List.forall₂_nil_left_iff.symm
    cases ys with
    | nil => exact iff_of_true rfl rfl
    | cons y ys => exact iff_of_false Bool.false_ne_true (List.cons_ne_nil y ys)
  | cons x xs ih =>
    cases ys with
    | nil =>
      refine Iff.trans ?_ List.forall₂_nil_right_iff.symm
      exact iff_of_false Bool.false_ne_true (List.cons_ne_nil x xs)
    | cons y ys =>
      simp only [EqualInPairs, List.cons_beq_cons, Bool.and_eq_true, ih, List.forall₂_cons]

theorem EqualInPairs.symm (hsymm : ∀ x y : α, x == y → y == x) (h : EqualInPairs xs ys) :
    EqualInPairs ys xs :=
  (h.imp fun x y => hsymm x y).flip

theorem EqualInPairs.trans {zs : List α} (htrans : ∀ x y z : α, x == y → y == z → x == z)
    (h : EqualInPairs xs ys) (h' : EqualInPairs ys zs) : EqualInPairs xs zs := by
  induction h generalizing zs with
  | nil => exact h'
  | cons hxy _ ih =>
    cases h' with
    | cons hyz hrest => exact .cons (htrans _ _ _ hxy hyz) (ih hrest)

theorem EqualInPairs.eraseIdx (h : EqualInPairs xs ys) (i : Nat) :
    EqualInPairs (xs.eraseIdx i) (ys.eraseIdx i) := by
  rw [List.eraseIdx_eq_take_drop_succ, List.eraseIdx_eq_take_drop_succ]
  exact List.rel_append (List.forall₂_take i h) (List.forall₂_drop (i + 1) h)

/-- Comparing the numbers of elements first and then two traversals of them. -/
theorem sizes_and_same_iff {κ' ε ε' : Type} [Traversal κ ε α] [Traversal κ' ε' α] {c : κ} {d : κ'}
    (hc : Traversal.Gives c xs) (hd : Traversal.Gives d ys)
    (hremaining : xs.length ≤ Traversal.remaining c) :
    (xs.length == ys.length && (Traversal.same c d).toOption == some true) ↔
      EqualInPairs xs ys := by
  rw [Traversal.same_eq hc hd hremaining, ← beq_iff_equalInPairs, Bool.and_eq_true]
  constructor
  · rintro ⟨-, h⟩
    exact Option.some.inj (eq_of_beq h)
  · intro h
    refine ⟨beq_of_eq (beq_iff_equalInPairs.mp h).length_eq, ?_⟩
    rw [h]
    rfl

/-- The equality of collections is that of their elements in order, and where that of the elements
has a law, the one of the collections has it too. -/
structure ComparesElements [BEq κ] (Proper : κ → Prop) (elements : κ → List α) : Prop where
  beq_iff : ∀ {b c : κ}, Proper b → Proper c → (b == c ↔ EqualInPairs (elements b) (elements c))
  refl : (∀ x : α, x == x) → ∀ {b : κ}, Proper b → b == b
  symm : (∀ x y : α, x == y → y == x) → ∀ {b c : κ}, Proper b → Proper c → b == c → c == b
  trans : (∀ x y z : α, x == y → y == z → x == z) →
    ∀ {b c d : κ}, Proper b → Proper c → Proper d → b == c → c == d → b == d

theorem comparesElements_of_beq_iff [BEq κ] {Proper : κ → Prop} {elements : κ → List α}
    (h : ∀ {b c : κ}, Proper b → Proper c → (b == c ↔ EqualInPairs (elements b) (elements c))) :
    ComparesElements Proper elements where
  beq_iff := h
  refl hrefl _ hb := (h hb hb).mpr (List.forall₂_same.mpr fun x _ => hrefl x)
  symm hsymm _ _ hb hc hbc := (h hc hb).mpr (((h hb hc).mp hbc).symm hsymm)
  trans htrans _ _ _ hb hc hd hbc hcd :=
    (h hb hd).mpr (((h hb hc).mp hbc).trans htrans ((h hc hd).mp hcd))

end Elements

/-! ### Buffers -/

namespace BoundedList

variable [BEq α] {σ : Type} {xs ys : List α}

theorem equalInPairs_push (capacity : Nat) (h : EqualInPairs xs ys) {a a' : α} (ha : a == a') :
    EqualInPairs (push capacity xs a) (push capacity ys a') := by
  have hlast : EqualInPairs [a] [a'] := .cons ha .nil
  rw [push, push, h.length_eq]
  split
  · rw [← List.drop_one, ← List.drop_one]
    exact List.rel_append (List.forall₂_drop 1 h) hlast
  · exact List.rel_append h hlast

theorem equalInPairs_pushFront (capacity : Nat) (h : EqualInPairs xs ys) {a a' : α}
    (ha : a == a') : EqualInPairs (pushFront capacity xs a) (pushFront capacity ys a') := by
  rw [pushFront, pushFront, h.length_eq]
  split
  · rw [List.dropLast_eq_take, List.dropLast_eq_take, h.length_eq]
    exact List.rel_append (List.forall₂_take _ h) (.cons ha .nil)
  · exact .cons ha h

/-- Lists that end with the same element are equal in pairs only if that is equal to itself. -/
theorem beq_self_of_equalInPairs_concat {a : α} (h : EqualInPairs (xs ++ [a]) (ys ++ [a])) :
    a == a := by
  have hreverse := List.forall₂_reverse_iff.mpr h
  rw [List.reverse_concat, List.reverse_concat] at hreverse
  exact (List.forall₂_cons.mp hreverse).1

/-- **One element that is added to both lists** keeps them equal just if it is equal to itself. -/
theorem equalInPairs_push_iff (capacity : Nat) (h : EqualInPairs xs ys) (a : α) :
    EqualInPairs (push capacity xs a) (push capacity ys a) ↔ a == a := by
  refine ⟨fun hpush => ?_, equalInPairs_push capacity h⟩
  rw [push, push, h.length_eq] at hpush
  split at hpush
  · exact beq_self_of_equalInPairs_concat hpush
  · exact beq_self_of_equalInPairs_concat hpush

theorem equalInPairs_pushFront_iff (capacity : Nat) (h : EqualInPairs xs ys) (a : α) :
    EqualInPairs (pushFront capacity xs a) (pushFront capacity ys a) ↔ a == a := by
  refine ⟨fun hpush => ?_, equalInPairs_pushFront capacity h⟩
  rw [pushFront, pushFront, h.length_eq] at hpush
  split at hpush
  · exact beq_self_of_equalInPairs_concat hpush
  · exact (List.forall₂_cons.mp hpush).1

theorem equalInPairs_pushAll (capacity : Nat) (h : EqualInPairs xs ys) {as bs : List α}
    (has : EqualInPairs as bs) :
    EqualInPairs (pushAll capacity xs as) (pushAll capacity ys bs) := by
  induction has generalizing xs ys with
  | nil => exact h
  | cons ha _ ih => exact ih (equalInPairs_push capacity h ha)

theorem equalInPairs_dropWhile (h : EqualInPairs xs ys) {accepts accepts' : α → StateM σ Bool}
    (haccepts : ∀ x y, x == y → accepts x = accepts' y) (s : σ) :
    EqualInPairs (dropWhile accepts xs s).1 (dropWhile accepts' ys s).1 ∧
      (dropWhile accepts xs s).2 = (dropWhile accepts' ys s).2 := by
  induction h generalizing s with
  | nil => exact ⟨.nil, rfl⟩
  | cons hxy hrest ih =>
    rw [dropWhile_cons, dropWhile_cons, haccepts _ _ hxy]
    split
    · exact ih _
    · exact ⟨.cons hxy hrest, rfl⟩

end BoundedList

namespace CircularBuffer

variable {σ : Type} [BEq α] {b c : CircularBuffer α} {xs ys : List α}

/-- **Equality of buffers** is that of their contents. -/
theorem Contains.beq_iff (hb : b.Contains xs) (hc : c.Contains ys) :
    b == c ↔ EqualInPairs xs ys := by
  have hremaining : xs.length ≤ Traversal.remaining b.elements := by
    show xs.length ≤ b.size - 0
    rw [hb.size_eq]
    exact Nat.le_refl _
  show (b.size == c.size && (Traversal.same b.elements c.elements).toOption == some true) ↔ _
  rw [hb.size_eq, hc.size_eq]
  exact sizes_and_same_iff hb.gives_elements hc.gives_elements hremaining

/-- Operations of one kind that add elements which are equal in pairs, or whose predicates do the
same with equal elements. -/
inductive Operation.Alike : Operation α σ → Operation α σ → Prop where
  | push {a a' : α} (h : a == a') : Alike (.push a) (.push a')
  | pushFront {a a' : α} (h : a == a') : Alike (.pushFront a) (.pushFront a')
  | pushAll {as as' : List α} (h : EqualInPairs as as') : Alike (.pushAll as) (.pushAll as')
  | evictWhile {accepts accepts' : α → StateM σ Bool} (h : ∀ x y, x == y → accepts x = accepts' y) :
      Alike (.evictWhile accepts) (.evictWhile accepts')
  | clear : Alike .clear .clear

/-- An operation adds only elements that are equal to themselves, and does not tell elements apart
that are equal. -/
def Operation.Respects : Operation α σ → Prop
  | .push a => a == a
  | .pushFront a => a == a
  | .pushAll as => ∀ a ∈ as, a == a
  | .evictWhile accepts => ∀ x y, x == y → accepts x = accepts y
  | .clear => True

theorem Operation.Respects.alike {op : Operation α σ} (h : op.Respects) : op.Alike op := by
  cases op with
  | push a => exact .push h
  | pushFront a => exact .pushFront h
  | pushAll as => exact .pushAll (List.forall₂_same.mpr h)
  | evictWhile accepts => exact .evictWhile h
  | clear => exact .clear

/-- Alike operations keep lists equal in pairs. -/
theorem Operation.Alike.onList {op op' : Operation α σ} (hop : op.Alike op') (capacity : Nat)
    (h : EqualInPairs xs ys) (s : σ) :
    EqualInPairs (op.onList capacity xs s).1 (op'.onList capacity ys s).1 ∧
      (op.onList capacity xs s).2 = (op'.onList capacity ys s).2 := by
  cases hop with
  | push ha => exact ⟨BoundedList.equalInPairs_push capacity h ha, rfl⟩
  | pushFront ha => exact ⟨BoundedList.equalInPairs_pushFront capacity h ha, rfl⟩
  | pushAll has => exact ⟨BoundedList.equalInPairs_pushAll capacity h has, rfl⟩
  | evictWhile haccepts => exact BoundedList.equalInPairs_dropWhile h haccepts s
  | clear => exact ⟨.nil, rfl⟩

theorem runOnList_alike {ops ops' : List (Operation α σ)}
    (hops : List.Forall₂ Operation.Alike ops ops') (capacity : Nat) (h : EqualInPairs xs ys)
    (s : σ) :
    EqualInPairs (runOnList capacity ops xs s).1 (runOnList capacity ops' ys s).1 ∧
      (runOnList capacity ops xs s).2 = (runOnList capacity ops' ys s).2 := by
  induction hops generalizing xs ys s with
  | nil => exact ⟨h, rfl⟩
  | cons hop _ ih =>
    obtain ⟨hlists, hstates⟩ := hop.onList capacity h s
    rw [runOnList_cons, runOnList_cons, ← hstates]
    exact ih hlists _

/-- What becomes of two buffers, of which it is known that they are equal. -/
structure StaysEqual (b c : CircularBuffer α) : Prop where
  /-- Alike operations, one after the other. -/
  run : ∀ {σ : Type} {ops ops' : List (Operation α σ)}, List.Forall₂ Operation.Alike ops ops' →
    ∀ s, ∃ b' c' s', runOnBuffer ops b s = .ok (b', s') ∧ runOnBuffer ops' c s = .ok (c', s') ∧
      b'.capacity = c'.capacity ∧ b' == c'
  /-- The same operations, as long as every element that they add is equal to itself. -/
  same : ∀ {σ : Type} (ops : List (Operation α σ)), (∀ op ∈ ops, op.Respects) →
    ∀ s, ∃ b' c' s', runOnBuffer ops b s = .ok (b', s') ∧ runOnBuffer ops c s = .ok (c', s') ∧
      b'.capacity = c'.capacity ∧ b' == c'
  /-- The same element at either side, which is where it is seen whether it is equal to itself. -/
  push_iff : ∀ a, ((b.push a).result == (c.push a).result) ↔ a == a
  pushFront_iff : ∀ a, ((b.pushFront a).result == (c.pushFront a).result) ↔ a == a
  /-- As many elements are given up. -/
  evicted : ∀ {σ : Type} (accepts : α → StateM σ Bool), (∀ x y, x == y → accepts x = accepts y) →
    ∀ s, ∃ e e', (b.evictWhile accepts s).result = .ok e ∧
      (c.evictWhile accepts s).result = .ok e' ∧ e.count = e'.count ∧ e.state = e'.state ∧
      e.buffer.capacity = e'.buffer.capacity ∧ e.buffer == e'.buffer

/-- **Equal buffers of one capacity stay equal.** -/
theorem Contains.staysEqual (hb : b.Contains xs) (hc : c.Contains ys)
    (hcapacity : b.capacity = c.capacity) (h : EqualInPairs xs ys) : b.StaysEqual c := by
  have hrun : ∀ {σ : Type} {ops ops' : List (Operation α σ)},
      List.Forall₂ Operation.Alike ops ops' → ∀ s, ∃ b' c' s',
        CircularBuffer.runOnBuffer ops b s = .ok (b', s') ∧
        CircularBuffer.runOnBuffer ops' c s = .ok (c', s') ∧ b'.capacity = c'.capacity ∧
        b' == c' := by
    intro σ ops ops' hops s
    obtain ⟨b', hb', hcapacity', hlist⟩ := hb.runOnBuffer ops s
    obtain ⟨c', hc', hcapacity'', hlist'⟩ := hc.runOnBuffer ops' s
    rw [← hcapacity] at hc' hlist'
    obtain ⟨hlists, hstates⟩ := runOnList_alike hops b.capacity h s
    rw [← hstates] at hc'
    refine ⟨b', c', _, hb', hc', ?_, (hlist.beq_iff hlist').mpr hlists⟩
    rw [hcapacity', hcapacity'', hcapacity]
  constructor
  case run => exact hrun
  case same =>
    intro σ ops hops s
    exact hrun (List.forall₂_same.mpr fun op hop => (hops op hop).alike) s
  case push_iff =>
    intro a
    rw [(hb.push a).beq_iff (hc.push a), ← hcapacity]
    exact BoundedList.equalInPairs_push_iff b.capacity h a
  case pushFront_iff =>
    intro a
    rw [(hb.pushFront a).beq_iff (hc.pushFront a), ← hcapacity]
    exact BoundedList.equalInPairs_pushFront_iff b.capacity h a
  case evicted =>
    intro σ accepts haccepts s
    obtain ⟨n, hresult, hle, hdrop⟩ := hb.evictWhile accepts s
    obtain ⟨n', hresult', hle', hdrop'⟩ := hc.evictWhile accepts s
    obtain ⟨hlists, hstates⟩ := BoundedList.equalInPairs_dropWhile h haccepts s
    rw [hdrop, hdrop'] at hlists
    have hcount : n = n' := by
      -- As many elements were there before, and as many are left.
      have hbefore := h.length_eq
      have hafter := hlists.length_eq
      rw [List.length_drop, List.length_drop] at hafter
      omega
    exact ⟨_, _, hresult, hresult', hcount, hstates, hcapacity,
      ((hb.drop hle).beq_iff (hc.drop hle')).mpr hlists⟩

end CircularBuffer

/-! ### Trees -/

namespace SearchTree

open BinaryTree

variable [Ord α] {t u : SearchTree α}

section Equal

variable [BEq α]

/-- **Equality of trees** is that of their values in order. -/
theorem Reachable.beq_iff (ht : Reachable t) (hu : Reachable u) :
    t == u ↔ EqualInPairs t.toList u.toList := by
  obtain ⟨p, hp⟩ := ht.exists_represents
  obtain ⟨q, hq⟩ := hu.exists_represents
  have hremaining : t.toList.length ≤ Traversal.remaining t.values := by
    rw [← size_eq_length hp]
    exact Nat.le_refl _
  have hgives := gives_values hp.awaits_start
  have hgives' := gives_values hq.awaits_start
  rw [← inorder_shape, ← toList_eq hp] at hgives
  rw [← inorder_shape, ← toList_eq hq] at hgives'
  show (t.size == u.size && (Traversal.same t.values u.values).toOption == some true) ↔ _
  rw [size_eq_length hp, size_eq_length hq]
  exact sizes_and_same_iff hgives hgives' hremaining

/-- Removing at a position fails in two trees for the same fault, or takes equal values out and
leaves equal trees. -/
structure RemovesEqual (t u : SearchTree α) (position : Nat) : Prop where
  removed : ∀ a t', (t.removeAt position).result = .ok (a, t') →
    ∃ b u', (u.removeAt position).result = .ok (b, u') ∧ a == b ∧ t' == u'
  refused : ∀ fault, (t.removeAt position).result = .error fault →
    (u.removeAt position).result = .error fault

theorem Reachable.removesEqual (ht : Reachable t) (hu : Reachable u)
    (h : EqualInPairs t.toList u.toList) (position : Nat) : RemovesEqual t u position := by
  obtain ⟨p, hp⟩ := ht.exists_represents
  obtain ⟨q, hq⟩ := hu.exists_represents
  by_cases hlt : position < t.toList.length
  · have hlt' : position < u.toList.length := h.length_eq ▸ hlt
    obtain ⟨t', ht', hlist⟩ := toList_removeAt hp hlt
    obtain ⟨u', hu', hlist'⟩ := toList_removeAt hq hlt'
    have hleft : EqualInPairs t'.toList u'.toList := by
      rw [hlist, hlist']
      exact h.eraseIdx position
    refine ⟨fun a t'' hremove => ?_, fun fault hfault => ?_⟩
    · rw [ht'] at hremove
      obtain ⟨rfl, rfl⟩ := Prod.mk.inj (Except.ok.inj hremove)
      exact ⟨_, u', hu', h.get hlt hlt', ((ht.removeAt ht').beq_iff (hu.removeAt hu')).mpr hleft⟩
    · rw [ht'] at hfault
      cases hfault
  · have hnodes : p.numNodes = t.toList.length := hp.size_eq.symm.trans (size_eq_length hp)
    have hnodes' : q.numNodes = t.toList.length :=
      (hq.size_eq.symm.trans (size_eq_length hq)).trans h.length_eq.symm
    have hrefused := removeAt_refused hp (hnodes ▸ Nat.le_of_not_lt hlt)
    have hrefused' := removeAt_refused hq (hnodes' ▸ Nat.le_of_not_lt hlt)
    rw [hnodes] at hrefused
    rw [hnodes'] at hrefused'
    refine ⟨fun a t' hremove => ?_, fun fault hfault => ?_⟩
    · rw [hrefused] at hremove
      cases hremove
    · rw [hrefused] at hfault
      rwa [hrefused']

/-- What becomes of two trees, of which it is known that they are equal. -/
structure StaysEqual (t u : SearchTree α) : Prop where
  removeAt : ∀ position, RemovesEqual t u position
  /-- Removals one after the other, those left out that find nothing. -/
  without : ∀ positions : List Nat,
    positions.foldl SearchTree.without t == positions.foldl SearchTree.without u

omit [Ord α] in
theorem RemovesEqual.without {position : Nat} (h : RemovesEqual t u position) (hequal : t == u) :
    t.without position == u.without position := by
  cases hremove : (t.removeAt position).result with
  | error fault => simpa only [SearchTree.without, hremove, h.refused fault hremove] using hequal
  | ok removed =>
    obtain ⟨b, u', hremove', -, hleft⟩ := h.removed removed.1 removed.2 hremove
    simpa only [SearchTree.without, hremove, hremove'] using hleft

theorem Reachable.staysEqual (ht : Reachable t) (hu : Reachable u) (h : t == u) :
    t.StaysEqual u := by
  refine ⟨ht.removesEqual hu ((ht.beq_iff hu).mp h), fun positions => ?_⟩
  induction positions generalizing t u with
  | nil => exact h
  | cons position positions ih =>
    have hremoves := ht.removesEqual hu ((ht.beq_iff hu).mp h) position
    exact ih (ht.without position) (hu.without position) (hremoves.without h)

end Equal

variable [Std.TransOrd α]

/-- **Nothing is lost** where equal values are taken. -/
theorem Reachable.perm_insertMany (h : Reachable t) (hunique : t.unique = false) (as : List α) :
    (t.insertMany as).result.2.toList.Perm (as ++ t.toList) := by
  rw [(h.insertMany_of_not_unique hunique as).2]
  exact (List.mergeSort_perm _ _).trans ((List.reverse_perm as).append_right _)

/-- **Trees of the same values** are equal, in whatever order these come in. -/
theorem ofList_beq_of_perm [BEq α] [Std.LawfulBEqOrd α] {as bs : List α} (h : as.Perm bs) :
    (ofList as).result == (ofList bs).result := by
  have hperm : ∀ cs : List α, (ofList cs).result.toList.Perm cs := by
    intro cs
    have hall := Reachable.empty.perm_insertMany rfl cs
    rwa [show (empty : SearchTree α).toList = [] from rfl, List.append_nil] at hall
  have hsame := ((hperm as).trans h).trans (hperm bs).symm
  refine ((Reachable.ofList as).beq_iff (.ofList bs)).mpr ?_
  have hties := isEq_of_length_ties (Reachable.ofList as).pairwise_atMost
    (Reachable.ofList bs).pairwise_atMost fun a => (hsame.filter _).length_eq
  exact hties.imp fun x y heq =>
    Std.LawfulBEqCmp.compare_eq_iff_beq.mp (Ordering.isEq_iff_eq_eq.mp heq)

end SearchTree

/-- **Equality compares elements, and equal collections stay equal.**  Buffers and trees that can
come about are equal just if their elements are equal in pairs, so that their equality has the laws
that the one of the elements has.  Equal buffers of one capacity stay equal whatever is done to both
of them, as long as what is added to both is equal to itself, and give up as many elements.  Equal
trees stay equal when the same ranks are removed, and trees of the same values are equal to begin
with. -/
theorem equality_compares_elements_and_is_kept :
    (∀ (α : Type) [BEq α],
      ComparesElements CircularBuffer.Reachable fun b : CircularBuffer α => b.toList) ∧
    (∀ (α : Type) [BEq α] [Ord α],
      ComparesElements SearchTree.Reachable fun t : SearchTree α => t.toList) ∧
    (∀ (α : Type) [BEq α] (b c : CircularBuffer α), b.Reachable → c.Reachable →
      b.capacity = c.capacity → b == c → b.StaysEqual c) ∧
    (∀ (α : Type) [BEq α] [Ord α] (t u : SearchTree α), t.Reachable → u.Reachable → t == u →
      t.StaysEqual u) ∧
    ∀ (α : Type) [BEq α] [Ord α] [Std.TransOrd α] [Std.LawfulBEqOrd α] (as bs : List α),
      as.Perm bs → (SearchTree.ofList as).result == (SearchTree.ofList bs).result ∧
        (SearchTree.ofList as).result.StaysEqual (SearchTree.ofList bs).result := by
  refine ⟨?_, ?_, ?_, fun _ _ _ t u ht hu h => ht.staysEqual hu h, ?_⟩
  · intro α _
    exact comparesElements_of_beq_iff fun hb hc => hb.valid.contains.beq_iff hc.valid.contains
  · intro α _ _
    exact comparesElements_of_beq_iff fun ht hu => ht.beq_iff hu
  · intro α _ b c hb hc hcapacity h
    have hpairs := (hb.valid.contains.beq_iff hc.valid.contains).mp h
    exact hb.valid.contains.staysEqual hc.valid.contains hcapacity hpairs
  · intro α _ _ _ _ as bs hperm
    have h := SearchTree.ofList_beq_of_perm hperm
    exact ⟨h, (SearchTree.Reachable.ofList as).staysEqual (.ofList bs) h⟩

instance : Std.LawfulBEqOrd Entry where
  compare_eq_iff_beq {a b} := Std.LawfulBEqOrd.compare_eq_iff_beq (a := a.key) (b := b.key)

/-- Three entries around the end of four slots, with one that was given up between them. -/
def CircularBuffer.around : CircularBuffer Entry :=
  ⟨#[some ⟨3, "c"⟩, some ⟨9, "x"⟩, some ⟨1, "a"⟩, some ⟨2, "b"⟩], 1, 1⟩

/-- Entries of the same keys from the first slot on. -/
def CircularBuffer.straight : CircularBuffer Entry :=
  ⟨#[some ⟨1, "p"⟩, some ⟨2, "q"⟩, some ⟨3, "r"⟩, none], 3, 1⟩

/-- Entries of which two are equal. -/
def SearchTree.arrivals : List Entry :=
  [⟨2, "a"⟩, ⟨1, "b"⟩, ⟨3, "c"⟩, ⟨2, "d"⟩]

/-- Entries that are told apart by their tags alone are equal, and so are the collections. -/
theorem equality_compares_elements_and_is_kept_tagged :
    CircularBuffer.around.Reachable ∧ CircularBuffer.straight.Reachable ∧
    (CircularBuffer.around == CircularBuffer.straight) ∧
    (CircularBuffer.straight == CircularBuffer.around) ∧
    (∃ b c s, CircularBuffer.runOnBuffer [.push ⟨4, "d"⟩, .pushFront ⟨0, "e"⟩]
        CircularBuffer.around () = .ok (b, s) ∧
      CircularBuffer.runOnBuffer [.push ⟨4, "d"⟩, .pushFront ⟨0, "e"⟩]
        CircularBuffer.straight () = .ok (c, s) ∧ b == c) ∧
    (∃ e e', (CircularBuffer.around.evictWhile (fun a => pure (a.key < 3)) ()).result = .ok e ∧
      (CircularBuffer.straight.evictWhile (fun a => pure (a.key < 3)) ()).result = .ok e' ∧
      e.count = e'.count ∧ e.buffer == e'.buffer) ∧
    ((SearchTree.ofList SearchTree.arrivals).result.without 1 ==
      (SearchTree.ofList SearchTree.arrivals.reverse).result.without 1) := by
  obtain ⟨hbuffers, -, hkept, -, htrees⟩ := equality_compares_elements_and_is_kept
  have haround : CircularBuffer.around.Reachable :=
    .restored (c := ⟨[some ⟨3, "c"⟩, some ⟨9, "x"⟩, some ⟨1, "a"⟩, some ⟨2, "b"⟩], 1, 1⟩) rfl
  have hstraight : CircularBuffer.straight.Reachable :=
    .restored (c := ⟨[some ⟨1, "p"⟩, some ⟨2, "q"⟩, some ⟨3, "r"⟩, none], 3, 1⟩) rfl
  have hequal : CircularBuffer.around == CircularBuffer.straight := by decide
  have hback := (hbuffers Entry).symm (fun _ _ => BEq.symm) haround hstraight hequal
  have hstays := hkept Entry _ _ haround hstraight rfl hequal
  obtain ⟨b, c, s, hb, hc, -, hrun⟩ := hstays.same
    [.push ⟨4, "d"⟩, .pushFront ⟨0, "e"⟩] (by simp [CircularBuffer.Operation.Respects]) ()
  obtain ⟨e, e', he, he', hcount, -, -, hleft⟩ :=
    hstays.evicted (σ := Unit) (fun a => pure (a.key < 3)) (fun x y hxy => by
      rw [show x.key = y.key from eq_of_beq hxy]) ()
  have hremoved := (htrees Entry _ _ (List.reverse_perm SearchTree.arrivals).symm).2.without [1]
  exact ⟨haround, hstraight, hequal, hback, ⟨b, c, s, hb, hc, hrun⟩,
    ⟨e, e', he, he', hcount, hleft⟩, hremoved⟩

/-! ### Elements that are not equal to themselves -/

/-- A measured value, or a measurement that failed.  Like what is not a number among floating-point
numbers, a failed one is equal to nothing, and so not to itself. -/
inductive Reading where
  | measured (value : Int64)
  | failed

instance : BEq Reading where
  beq
    | .measured m, .measured n => m == n
    | _, _ => false

/-- Two slots that have not been written to. -/
def CircularBuffer.unwritten (cursor : Nat) : CircularBuffer Reading :=
  ⟨#[none, none], cursor, 2⟩

/-- **Equal buffers do not always stay equal.**  Two empty ones are equal, and when the same failed
measurement is added to both, at either side or among others, they are not equal any more. -/
theorem equality_is_lost_with_failed_reading :
    (CircularBuffer.unwritten 0).Reachable ∧ (CircularBuffer.unwritten 1).Reachable ∧
    (CircularBuffer.unwritten 0).capacity = (CircularBuffer.unwritten 1).capacity ∧
    (CircularBuffer.unwritten 0 == CircularBuffer.unwritten 1) ∧
    ∀ op ∈ [.push .failed, .pushFront .failed, .pushAll [.measured 1, .failed]],
      ∃ b c, CircularBuffer.runOnBuffer [op] (CircularBuffer.unwritten 0) () = .ok (b, ()) ∧
        CircularBuffer.runOnBuffer [op] (CircularBuffer.unwritten 1) () = .ok (c, ()) ∧
        (b == c) = false := by
  refine ⟨.restored (c := ⟨[none, none], 0, 2⟩) rfl, .restored (c := ⟨[none, none], 1, 2⟩) rfl, rfl,
    by decide, ?_⟩
  intro op hop
  simp only [List.mem_cons, List.not_mem_nil, or_false] at hop
  rcases hop with rfl | rfl | rfl
  · exact ⟨_, _, rfl, rfl, by decide⟩
  · exact ⟨_, _, rfl, rfl, by decide⟩
  · exact ⟨_, _, rfl, rfl, by decide⟩

end Containers
