import Containers.Proofs.SearchTree.Layout

/-!
# Ways down

A way down is a list of sides.  In a binary tree it leads to a subtree, in an arena to a node, and
in an arena that holds the tree it leads to the node at the root of that subtree.

* `BinaryTree.along` — the subtree that a way down leads to;
* `Arena.child?`, `Arena.parent?`, `Arena.descend` — links that are followed in an arena;
* **`along_injective`** and **`nodup_ids_of_along`** — labels differ if and only if no two ways down
  lead to the same one;
* **`Holds.descend_eq`** — both ways down agree.
-/

namespace BinaryTree

open Containers

universe u v

variable {α : Type} {β : Type u}

/-- The subtree that a way down leads to. -/
def along : BinaryTree β → List Side → BinaryTree β
  | t, [] => t
  | nil, _ :: _ => nil
  | node _ l _, .left :: path => l.along path
  | node _ _ r, .right :: path => r.along path

theorem along_nil (path : List Side) : (nil : BinaryTree β).along path = nil := by
  cases path <;> rfl

theorem along_map {γ : Type v} (f : β → γ) (t : BinaryTree β) (path : List Side) :
    (t.map f).along path = (t.along path).map f := by
  induction t generalizing path with
  | nil => rw [map, along_nil, along_nil, map]
  | node x l r ihl ihr =>
    cases path with
    | nil => rfl
    | cons side path =>
      cases side with
      | left => exact ihl path
      | right => exact ihr path

/-- Every label is at the end of a way down, and nothing else is. -/
theorem mem_ids_iff_along {t : BinaryTree (NodeId × α)} {id : NodeId} :
    id ∈ t.ids ↔ ∃ path, (t.along path).link = some id := by
  constructor
  · intro h
    induction t with
    | nil => exact absurd h List.not_mem_nil
    | node x l r ihl ihr =>
      rw [ids_node, List.mem_append, List.mem_cons] at h
      rcases h with hl | rfl | hr
      · obtain ⟨path, hpath⟩ := ihl hl
        exact ⟨.left :: path, hpath⟩
      · exact ⟨[], rfl⟩
      · obtain ⟨path, hpath⟩ := ihr hr
        exact ⟨.right :: path, hpath⟩
  · rintro ⟨path, h⟩
    induction t generalizing path with
    | nil =>
      rw [along_nil] at h
      exact absurd h (Option.some_ne_none id).symm
    | node x l r ihl ihr =>
      rw [ids_node, List.mem_append, List.mem_cons]
      cases path with
      | nil => exact .inr (.inl (Option.some.inj h).symm)
      | cons side path =>
        cases side with
        | left => exact .inl (ihl path h)
        | right => exact .inr (.inr (ihr path h))

/-- **No two ways down** lead to the same label, if no label occurs twice. -/
theorem along_injective {t : BinaryTree (NodeId × α)} (hnodup : t.ids.Nodup)
    {path path' : List Side} {id : NodeId} (h : (t.along path).link = some id)
    (h' : (t.along path').link = some id) : path = path' := by
  induction t generalizing path path' with
  | nil =>
    rw [along_nil] at h
    exact absurd h (Option.some_ne_none id).symm
  | node x l r ihl ihr =>
    rw [ids_node, List.nodup_append, List.nodup_cons] at hnodup
    obtain ⟨hl, ⟨hx, hr⟩, hlr⟩ := hnodup
    -- The labels of the root, of its left and of its right subtree are apart.
    have hroot : ∀ side path, ((node x l r).along (side :: path)).link ≠ some x.1 := by
      intro side path hside
      cases side with
      | left => exact hlr x.1 (mem_ids_iff_along.mpr ⟨path, hside⟩) x.1 List.mem_cons_self rfl
      | right => exact hx (mem_ids_iff_along.mpr ⟨path, hside⟩)
    have hsides : ∀ path path', (l.along path).link = some id →
        (r.along path').link ≠ some id := by
      intro path path' hleft hright
      have hmem := mem_ids_iff_along.mpr ⟨path', hright⟩
      exact hlr id (mem_ids_iff_along.mpr ⟨path, hleft⟩) id (List.mem_cons_of_mem _ hmem) rfl
    cases path with
    | nil =>
      obtain rfl : x.1 = id := Option.some.inj h
      cases path' with
      | nil => rfl
      | cons side' path' => exact absurd h' (hroot side' path')
    | cons side path =>
      cases path' with
      | nil =>
        obtain rfl : x.1 = id := Option.some.inj h'
        exact absurd h (hroot side path)
      | cons side' path' =>
        cases side <;> cases side'
        · rw [ihl hl h h']
        · exact absurd h' (hsides path path' h)
        · exact absurd h (hsides path' path h')
        · rw [ihr hr h h']

/-- No label occurs twice, if no two ways down lead to the same one. -/
theorem nodup_ids_of_along {t : BinaryTree (NodeId × α)}
    (h : ∀ path path' id, (t.along path).link = some id → (t.along path').link = some id →
      path = path') : t.ids.Nodup := by
  induction t with
  | nil => exact List.nodup_nil
  | node x l r ihl ihr =>
    rw [ids_node, List.nodup_append, List.nodup_cons]
    refine ⟨ihl ?_, ⟨?_, ihr ?_⟩, ?_⟩
    · intro path path' id hpath hpath'
      exact (List.cons.inj (h (.left :: path) (.left :: path') id hpath hpath')).2
    · intro hx
      obtain ⟨path, hpath⟩ := mem_ids_iff_along.mp hx
      exact absurd (h [] (.right :: path) x.1 rfl hpath) (List.cons_ne_nil _ _).symm
    · intro path path' id hpath hpath'
      exact (List.cons.inj (h (.right :: path) (.right :: path') id hpath hpath')).2
    · intro id hl id' hr heq
      subst heq
      obtain ⟨path, hpath⟩ := mem_ids_iff_along.mp hl
      rcases List.mem_cons.mp hr with rfl | hr
      · exact absurd (h (.left :: path) [] x.1 hpath rfl) (List.cons_ne_nil _ _)
      · obtain ⟨path', hpath'⟩ := mem_ids_iff_along.mp hr
        have hside := h (.left :: path) (.right :: path') id hpath hpath'
        exact absurd (List.cons.inj hside).1 Side.noConfusion

end BinaryTree

namespace Containers.Arena

open BinaryTree

variable {α : Type} {a : Arena α}

/-- The child on a side of a node. -/
def child? (a : Arena α) (id : NodeId) (side : Side) : Option NodeId :=
  (a.node? id).bind (·.child side)

def parent? (a : Arena α) (id : NodeId) : Option NodeId :=
  (a.node? id).bind Node.parent

/-- The node that a way down leads to from a link. -/
def descend (a : Arena α) : Option NodeId → List Side → Option NodeId
  | link, [] => link
  | link, side :: path => a.descend (link.bind (a.child? · side)) path

theorem descend_none (a : Arena α) (path : List Side) : a.descend none path = none := by
  induction path with
  | nil => rfl
  | cons side path ih => exact ih

theorem descend_append (a : Arena α) (link : Option NodeId) (path path' : List Side) :
    a.descend link (path ++ path') = a.descend (a.descend link path) path' := by
  induction path generalizing link with
  | nil => rfl
  | cons side path ih => exact ih _

/-- One more step down. -/
theorem descend_concat {link : Option NodeId} {path : List Side} {id : NodeId}
    (h : a.descend link path = some id) (side : Side) :
    a.descend link (path ++ [side]) = a.child? id side := by
  rw [descend_append, h]
  rfl

/-- **The way down in an arena** is the way down in the tree that it holds. -/
theorem Holds.descend_eq {parent : Option NodeId} {t : BinaryTree (NodeId × α)}
    (h : a.Holds parent t) (path : List Side) : a.descend t.link path = (t.along path).link := by
  induction t generalizing parent path with
  | nil => rw [along_nil, link_nil, descend_none]
  | node x l r ihl ihr =>
    obtain ⟨hx, hl, hr⟩ := h
    cases path with
    | nil => rfl
    | cons side path =>
      rw [descend, link_node, Option.bind_some, child?, hx]
      cases side with
      | left => exact ihl hl path
      | right => exact ihr hr path

end Containers.Arena
