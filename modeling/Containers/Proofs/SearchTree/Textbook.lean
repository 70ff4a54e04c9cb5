import Containers.Proofs.SearchTree.Reachable

/-!
# Trees as textbook trees

Read as a binary tree, without the places of its nodes, an arena does what the textbook says of
trees, and nothing that it does depends on the places.

* `SearchTree.ActsAsTextbook` — insertion follows the search path and hangs one leaf, removal
  deletes one node, and both report what they do;
* `SearchTree.Alike` — the same shape, and equal values refused or not;
* `SearchTree.AnswersAlike` — the same answers to everything, and alike trees afterwards;
* **`actsAsTextbook_and_answersAlike`** — every reachable tree acts as the textbook says, and those
  that are alike answer alike.
-/

namespace Containers.SearchTree

open BinaryTree

variable {α : Type} [Ord α]

/-- A tree does what the textbook does to its shape. -/
structure ActsAsTextbook (t : SearchTree α) : Prop where
  compared : ∀ a, (t.insert a).events = (t.arena.shape.searchPath t.unique a).map .compared
  accepted : ∀ a, (t.insert a).result.1 = (t.arena.shape.insert? t.unique a).isSome
  refused : ∀ a, t.arena.shape.insert? t.unique a = none → (t.insert a).result.2 = t
  inserted : ∀ a s, t.arena.shape.insert? t.unique a = some s →
    LeafAdded t.unique a t.arena.shape s ∧
      (t.insert a).result.2.arena.shape = s ∧ (t.insert a).result.2.unique = t.unique
  removed : ∀ rank, rank < t.size → ∃ a u, t.arena.shape.inorder[rank]? = some a ∧
    t.removeAt rank = ⟨.ok (a, u),
      [.removed (.ofArity (t.arena.shape.subtreeAt rank).arity) rank]⟩ ∧
    u.arena.shape = t.arena.shape.eraseAt rank ∧ u.unique = t.unique
  /-- A removal writes one line, and its wording is by the number of children. -/
  noted : ∀ rank, rank < t.size → (t.removeAt rank).events.filterMap Event.note? =
    [⟨.trace, (Removal.ofArity (t.arena.shape.subtreeAt rank).arity).message, [("rank", rank)]⟩]

/-- Two trees differ in the places of their nodes at most. -/
structure Alike (t u : SearchTree α) : Prop where
  shape : t.arena.shape = u.arena.shape
  unique : t.unique = u.unique

/-- Two trees give the same answers and report the same events, and stay alike. -/
structure AnswersAlike (t u : SearchTree α) : Prop where
  size : t.size = u.size
  toList : t.toList = u.toList
  get : ∀ rank, t.get rank = u.get rank
  visit : ∀ {σ : Type} (f : Nat → α → StateM σ Bool) (s : σ), t.visit f s = u.visit f s
  insert : ∀ a, (t.insert a).events = (u.insert a).events ∧
    (t.insert a).result.1 = (u.insert a).result.1 ∧
    Alike (t.insert a).result.2 (u.insert a).result.2
  insertMany : ∀ as, (t.insertMany as).events = (u.insertMany as).events ∧
    (t.insertMany as).result.1 = (u.insertMany as).result.1 ∧
    Alike (t.insertMany as).result.2 (u.insertMany as).result.2
  setUnique : ∀ unique, Alike (t.setUnique unique) (u.setUnique unique)
  removeAt : ∀ position, (t.removeAt position).events = (u.removeAt position).events ∧
    ((∃ fault, (t.removeAt position).result = .error fault ∧
        (u.removeAt position).result = .error fault) ∨
      ∃ a t' u', (t.removeAt position).result = .ok (a, t') ∧
        (u.removeAt position).result = .ok (a, u') ∧ Alike t' u')

theorem Reachable.actsAsTextbook {t : SearchTree α} (h : Reachable t) : t.ActsAsTextbook := by
  obtain ⟨p, hp⟩ := h.exists_represents
  have hinsert := fun a => insert_spec a hp
  rw [← hp.shape_eq] at hinsert
  constructor
  case compared =>
    intro a
    exact (hinsert a).1
  case accepted =>
    intro a
    obtain ⟨-, ⟨hnone, hresult⟩ | ⟨q, arena, hsome, hresult, -⟩⟩ := hinsert a
    · rw [hnone, hresult]
      rfl
    · rw [hsome, hresult]
      rfl
  case refused =>
    intro a hrefused
    obtain ⟨-, ⟨-, hresult⟩ | ⟨q, arena, hsome, -, -⟩⟩ := hinsert a
    · rw [hresult]
    · rw [hrefused] at hsome
      cases hsome
  case inserted =>
    intro a s hs
    obtain ⟨-, ⟨hnone, -⟩ | ⟨q, arena, hsome, hresult, hq⟩⟩ := hinsert a
    · rw [hs] at hnone
      cases hnone
    · obtain rfl : s = q.shape := Option.some.inj (hs.symm.trans hsome)
      refine ⟨leafAdded_of_insert? hs, ?_, ?_⟩
      · rw [hresult]
        exact hq.shape_eq
      · rw [hresult]
  case removed =>
    intro rank hlt
    have hnodes : rank < p.numNodes := hp.size_eq ▸ hlt
    obtain ⟨a, arena, q, hget, hspec, hq, hshape⟩ := removeAt_spec hp hnodes
    rw [hp.shape_eq]
    refine ⟨a, ⟨arena, t.unique⟩, hget, hspec, ?_, rfl⟩
    rw [← hshape]
    exact hq.shape_eq
  case noted =>
    intro rank hlt
    have hnodes : rank < p.numNodes := hp.size_eq ▸ hlt
    obtain ⟨a, arena, q, -, hspec, -, -⟩ := removeAt_spec hp hnodes
    rw [hspec, hp.shape_eq]
    rfl

namespace Alike

variable {t u : SearchTree α}

omit [Ord α] in
/-- Alike trees have as many nodes, and the same values in order. -/
theorem toList_eq {p q : BinaryTree (NodeId × α)} (h : Alike t u) (hp : t.arena.Represents p)
    (hq : u.arena.Represents q) : p.shape = q.shape ∧ t.toList = u.toList := by
  have hshape : p.shape = q.shape := by
    rw [← hp.shape_eq, ← hq.shape_eq]
    exact h.shape
  refine ⟨hshape, ?_⟩
  rw [SearchTree.toList_eq hp, SearchTree.toList_eq hq, hshape]

theorem insert (h : Alike t u) (ht : Reachable t) (hu : Reachable u) (a : α) :
    (t.insert a).events = (u.insert a).events ∧
      (t.insert a).result.1 = (u.insert a).result.1 ∧
      Alike (t.insert a).result.2 (u.insert a).result.2 := by
  obtain ⟨hevents, haccepted, hrefused, hinserted, -, -⟩ := ht.actsAsTextbook
  obtain ⟨hevents', haccepted', hrefused', hinserted', -, -⟩ := hu.actsAsTextbook
  rw [h.shape, h.unique] at hevents haccepted hrefused hinserted
  refine ⟨(hevents a).trans (hevents' a).symm, (haccepted a).trans (haccepted' a).symm, ?_⟩
  cases hinsert : u.arena.shape.insert? u.unique a with
  | none =>
    rw [hrefused a hinsert, hrefused' a hinsert]
    exact h
  | some s =>
    obtain ⟨-, hshape, hunique⟩ := hinserted a s hinsert
    obtain ⟨-, hshape', hunique'⟩ := hinserted' a s hinsert
    exact ⟨hshape.trans hshape'.symm, hunique.trans hunique'.symm⟩

theorem insertMany (h : Alike t u) (ht : Reachable t) (hu : Reachable u) (as : List α) :
    (t.insertMany as).events = (u.insertMany as).events ∧
      (t.insertMany as).result.1 = (u.insertMany as).result.1 ∧
      Alike (t.insertMany as).result.2 (u.insertMany as).result.2 := by
  induction as generalizing t u with
  | nil => exact ⟨rfl, rfl, h⟩
  | cons a as ih =>
    obtain ⟨hevents, haccepted, halike⟩ := h.insert ht hu a
    obtain ⟨hevents', hcount, halike'⟩ := ih halike (ht.insert a) (hu.insert a)
    rw [insertMany_cons, insertMany_cons]
    refine ⟨?_, ?_, halike'⟩
    · show (t.insert a).events ++ _ = (u.insert a).events ++ _
      rw [hevents]
      exact congrArg _ hevents'
    · rw [haccepted, hcount]

theorem removeAt (h : Alike t u) (ht : Reachable t) (hu : Reachable u) (position : Nat) :
    (t.removeAt position).events = (u.removeAt position).events ∧
      ((∃ fault, (t.removeAt position).result = .error fault ∧
          (u.removeAt position).result = .error fault) ∨
        ∃ a t' u', (t.removeAt position).result = .ok (a, t') ∧
          (u.removeAt position).result = .ok (a, u') ∧ Alike t' u') := by
  obtain ⟨p, hp⟩ := ht.exists_represents
  obtain ⟨q, hq⟩ := hu.exists_represents
  obtain ⟨hshape, -⟩ := h.toList_eq hp hq
  have hnodes : p.numNodes = q.numNodes := by
    have hmap := congrArg numNodes hshape
    rwa [numNodes_shape, numNodes_shape] at hmap
  by_cases hlt : position < q.numNodes
  · obtain ⟨a, arena, p', hget, hspec, hp', hshape'⟩ := removeAt_spec hp (hnodes ▸ hlt)
    obtain ⟨b, arena', q', hget', hspec', hq', hshape''⟩ := removeAt_spec hq hlt
    rw [hshape] at hget hspec hshape'
    obtain rfl : a = b := Option.some.inj (hget.symm.trans hget')
    rw [hspec, hspec']
    refine ⟨rfl, .inr ⟨a, _, _, rfl, rfl, ?_, h.unique⟩⟩
    show arena.shape = arena'.shape
    rw [hp'.shape_eq, hq'.shape_eq, hshape', hshape'']
  · have hge := Nat.le_of_not_lt hlt
    rw [removeAt_refused hp (hnodes ▸ hge), removeAt_refused hq hge, hnodes]
    exact ⟨rfl, .inl ⟨_, rfl, rfl⟩⟩

/-- Trees that are alike answer alike. -/
theorem answersAlike (h : Alike t u) (ht : Reachable t) (hu : Reachable u) :
    AnswersAlike t u := by
  obtain ⟨p, hp⟩ := ht.exists_represents
  obtain ⟨q, hq⟩ := hu.exists_represents
  obtain ⟨-, hlist⟩ := h.toList_eq hp hq
  constructor
  case size => rw [size_eq_length hp, size_eq_length hq, hlist]
  case toList => exact hlist
  case get =>
    intro rank
    rw [get_eq hp, get_eq hq, hlist]
  case visit =>
    intro σ f s
    rw [visit_eq hp, visit_eq hq, hlist]
  case insert => exact h.insert ht hu
  case insertMany => exact h.insertMany ht hu
  case setUnique =>
    intro unique
    exact ⟨h.shape, rfl⟩
  case removeAt => exact h.removeAt ht hu

end Alike

/-- **The places of the nodes are invisible.**  A reachable tree acts as the textbook says of its
shape, and whatever is alike answers alike. -/
theorem actsAsTextbook_and_answersAlike {t : SearchTree α} (h : Reachable t) :
    t.ActsAsTextbook ∧ ∀ u, Reachable u → Alike t u → AnswersAlike t u := by
  refine ⟨h.actsAsTextbook, ?_⟩
  intro u hu halike
  exact halike.answersAlike h hu

/-- The same values in another order of arrival: a tree of the same shape in other places. -/
theorem actsAsTextbook_and_answersAlike_swapped :
    let t : SearchTree Int64 := (ofList [2, 1, 3]).result
    let u : SearchTree Int64 := (ofList [2, 3, 1]).result
    t.arena.left? 0 = some 1 ∧ u.arena.left? 0 = some 2 ∧ Alike t u ∧
      t.ActsAsTextbook ∧ AnswersAlike t u := by
  intro t u
  have ht : Reachable t := .ofList [2, 1, 3]
  have hu : Reachable u := .ofList [2, 3, 1]
  have halike : Alike t u := ⟨by decide +kernel, rfl⟩
  obtain ⟨hacts, hanswers⟩ := actsAsTextbook_and_answersAlike ht
  exact ⟨by decide +kernel, by decide +kernel, halike, hacts, hanswers u hu halike⟩

end Containers.SearchTree
