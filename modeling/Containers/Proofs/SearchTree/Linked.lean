import Mathlib.Data.List.Nodup
import Mathlib.Data.List.Perm.Subperm
import Containers.Proofs.SearchTree.Paths

/-!
# Links that join some places

Not every place of an arena has to be in the tree.  A node that is about to leave stands apart: it
still has links of its own, but none leads to it.

* `Arena.LinkedOn` — the links join certain places to one tree and lead to no other place;
* **`Carries.linkedOn`** — the links of a tree that an arena carries join the labels of that tree;
* **`LinkedOn.exists_carries`** — links that join places make up a tree with those places as labels.
-/

namespace Containers.Arena

open BinaryTree

variable {α : Type} {a : Arena α}

/-- The links of an arena join certain places to one tree that hangs from the root.  What stands at
other places does not matter, as no link leads there. -/
structure LinkedOn (a : Arena α) (places : NodeId → Prop) : Prop where
  lt : ∀ id, places id → id < a.size
  root_mem : ∀ id, a.root = some id → places id
  root_parent : ∀ id, a.root = some id → a.parent? id = none
  child_mem : ∀ id side child, places id → a.child? id side = some child → places child
  /-- A parent link leads back to where the child link comes from.  No other place is a parent, as
  each place but the root is a child. -/
  child_parent : ∀ id side child, places id → a.child? id side = some child →
    a.parent? child = some id
  reached : ∀ id, places id → ∃! path, a.descend a.root path = some id

/-! ### From trees to links -/

namespace Carries

variable {t : BinaryTree (NodeId × α)}

/-- A label is the place of the root of a subtree. -/
theorem exists_plug (h : a.Carries t) {id : NodeId} (hid : id ∈ t.ids) :
    ∃ cs v l r, t = plug cs (node (id, v) l r) ∧
      a.node? id = some ⟨v, holeParent cs, l.link, r.link⟩ := by
  obtain ⟨cs, v, l, r, rfl⟩ := exists_plug_of_mem_ids hid
  exact ⟨cs, v, l, r, rfl, h.node?_eq⟩

theorem lt_size (h : a.Carries t) {id : NodeId} (hid : id ∈ t.ids) : id < a.size := by
  obtain ⟨cs, v, l, r, -, hnode⟩ := h.exists_plug hid
  rw [← node?_isSome_iff, hnode]
  rfl

theorem descend_eq (h : a.Carries t) (path : List Side) :
    a.descend a.root path = (t.along path).link := by
  rw [h.root]
  exact h.nodes.descend_eq path

theorem root_parent (h : a.Carries t) {id : NodeId} (hid : a.root = some id) :
    a.parent? id = none := by
  rw [h.root] at hid
  cases t with
  | nil => exact absurd hid (Option.some_ne_none id).symm
  | node x l r =>
    obtain rfl : x.1 = id := Option.some.inj hid
    rw [parent?, h.nodes.1]
    rfl

/-- A child is in the tree, and its parent link leads back. -/
theorem parent?_of_child? (h : a.Carries t) {id child : NodeId} {side : Side} (hid : id ∈ t.ids)
    (hchild : a.child? id side = some child) : child ∈ t.ids ∧ a.parent? child = some id := by
  obtain ⟨cs, v, l, r, rfl, hnode⟩ := h.exists_plug hid
  rw [child?, hnode, Option.bind_some] at hchild
  obtain ⟨sibling, s, hs, hlink⟩ : ∃ sibling s,
      plug cs (node (id, v) l r) = plug (⟨side, (id, v), sibling⟩ :: cs) s ∧
        s.link = some child := by
    cases side with
    | left => exact ⟨r, l, rfl, hchild⟩
    | right => exact ⟨l, r, rfl, hchild⟩
  rw [hs] at h ⊢
  refine ⟨(ids_plug _ s).mem_iff.mpr (List.mem_append_left _ (mem_ids_of_link hlink)), ?_⟩
  cases s with
  | nil => exact absurd hlink (Option.some_ne_none child).symm
  | node x sl sr =>
    obtain rfl : x.1 = child := Option.some.inj hlink
    rw [parent?, h.node?_eq]
    rfl

/-- A parent is in the tree, and one of its child links leads back. -/
theorem child?_of_parent? (h : a.Carries t) {id child : NodeId} (hchild : child ∈ t.ids)
    (hparent : a.parent? child = some id) :
    id ∈ t.ids ∧ ∃ side, a.child? id side = some child := by
  obtain ⟨cs, v, l, r, rfl, hnode⟩ := h.exists_plug hchild
  rw [parent?, hnode, Option.bind_some] at hparent
  refine ⟨(ids_plug cs _).mem_iff.mpr (List.mem_append_right _ (holeParent_mem hparent)), ?_⟩
  cases cs with
  | nil => exact absurd hparent (Option.some_ne_none id).symm
  | cons c cs =>
    obtain rfl : c.value.1 = id := Option.some.inj hparent
    obtain ⟨hc, -, -⟩ := (carries_plug.mp h).1
    refine ⟨c.side, ?_⟩
    rw [child?, hc, Option.bind_some]
    obtain ⟨side, x, sibling⟩ := c
    cases side <;> rfl

/-- One way down leads to each label, and no other. -/
theorem reached (h : a.Carries t) (hnodup : t.ids.Nodup) {id : NodeId} (hid : id ∈ t.ids) :
    ∃! path, a.descend a.root path = some id := by
  obtain ⟨path, hpath⟩ := mem_ids_iff_along.mp hid
  refine ⟨path, (h.descend_eq path).trans hpath, ?_⟩
  intro path' hpath'
  exact along_injective hnodup ((h.descend_eq path').symm.trans hpath') hpath

/-- **The links of a carried tree** join its labels. -/
theorem linkedOn (h : a.Carries t) (hnodup : t.ids.Nodup) : a.LinkedOn (· ∈ t.ids) where
  lt _ hid := h.lt_size hid
  root_mem _ hid := mem_ids_of_link (h.root.symm.trans hid)
  root_parent _ hid := h.root_parent hid
  child_mem _ _ _ hid hchild := (h.parent?_of_child? hid hchild).1
  child_parent _ _ _ hid hchild := (h.parent?_of_child? hid hchild).2
  reached _ hid := h.reached hnodup hid

end Carries

/-! ### From links to trees -/

namespace LinkedOn

variable {places : NodeId → Prop}

/-- A way down stays on the places. -/
theorem descend_mem (h : a.LinkedOn places) {path : List Side} {id : NodeId}
    (hpath : a.descend a.root path = some id) : places id := by
  induction path using List.reverseRecOn generalizing id with
  | nil => exact h.root_mem id hpath
  | append_singleton path side ih =>
    rw [descend_append] at hpath
    obtain ⟨parent, hparent, hchild⟩ := Option.bind_eq_some_iff.mp hpath
    exact h.child_mem parent side id (ih hparent) hchild

/-- A way down passes a different place with each step, so it is shorter than the array. -/
theorem length_lt (h : a.LinkedOn places) {path : List Side} {id : NodeId}
    (hpath : a.descend a.root path = some id) : path.length < a.size := by
  have hpassed : ∀ k, ∃ passed, a.descend a.root (path.take k) = some passed := by
    intro k
    rw [← List.take_append_drop k path, descend_append] at hpath
    cases hk : a.descend a.root (path.take k) with
    | none => rw [hk, descend_none] at hpath; exact absurd hpath (Option.some_ne_none id).symm
    | some passed => exact ⟨passed, rfl⟩
  let passed := (List.range (path.length + 1)).map fun k => a.descend a.root (path.take k)
  have hnodup : passed.Nodup := by
    refine List.nodup_range.map_on ?_
    intro k hk k' hk' heq
    obtain ⟨id', hid'⟩ := hpassed k
    have htake := (h.reached id' (h.descend_mem hid')).unique hid' (heq.symm.trans hid')
    have hlength := congrArg List.length htake
    simp only [List.length_take, List.mem_range] at hlength hk hk'
    omega
  have hsubset : passed ⊆ (List.range a.size).map some := by
    intro link hlink
    obtain ⟨k, -, rfl⟩ := List.mem_map.mp hlink
    obtain ⟨id', hid'⟩ := hpassed k
    rw [hid']
    exact List.mem_map_of_mem (List.mem_range.mpr (h.lt id' (h.descend_mem hid')))
  have hle := (List.subperm_of_subset hnodup hsubset).length_le
  simp only [passed, List.length_map, List.length_range] at hle
  omega

/-- What hangs at the end of a way down is held as a tree.  The way gets longer with each level, so
there is an end to the levels. -/
theorem exists_holds (h : a.LinkedOn places) (limit : Nat) (path : List Side)
    {parent : Option NodeId} (hlimit : a.size ≤ path.length + limit)
    (hparent : ∀ id, a.descend a.root path = some id → a.parent? id = parent) :
    ∃ t, t.link = a.descend a.root path ∧ a.Holds parent t := by
  induction limit generalizing path parent with
  | zero =>
    cases hlink : a.descend a.root path with
    | none => exact ⟨nil, rfl, trivial⟩
    | some id =>
      have hlt := h.length_lt hlink
      omega
  | succ limit ih =>
    cases hlink : a.descend a.root path with
    | none => exact ⟨nil, rfl, trivial⟩
    | some id =>
      have hid := h.descend_mem hlink
      obtain ⟨n, hn⟩ := Option.isSome_iff_exists.mp (node?_isSome_iff.mpr (h.lt id hid))
      have hside : ∀ side, ∃ t, t.link = n.child side ∧ a.Holds (some id) t := by
        intro side
        have hstep : a.descend a.root (path ++ [side]) = n.child side := by
          rw [descend_concat hlink, child?, hn]
          rfl
        rw [← hstep]
        refine ih _ ?_ ?_
        · rw [List.length_append, List.length_singleton]
          omega
        · intro child hchild
          rw [descend_concat hlink] at hchild
          exact h.child_parent id side child hid hchild
      obtain ⟨l, hl, hleft⟩ := hside .left
      obtain ⟨r, hr, hright⟩ := hside .right
      refine ⟨node (id, n.value) l r, rfl, ?_, hleft, hright⟩
      have hnparent := hparent id hlink
      rw [parent?, hn, Option.bind_some] at hnparent
      rw [hn, hl, hr, ← hnparent]
      rfl

/-- **Links that join places** are those of a tree with these places as labels. -/
theorem exists_carries (h : a.LinkedOn places) :
    ∃ t, a.Carries t ∧ t.ids.Nodup ∧ ∀ id, id ∈ t.ids ↔ places id := by
  obtain ⟨t, hlink, hholds⟩ := h.exists_holds a.size [] (by simp) h.root_parent
  have hcarries : a.Carries t := ⟨hlink.symm, hholds⟩
  refine ⟨t, hcarries, ?_, ?_⟩
  · apply nodup_ids_of_along
    intro path path' id hpath hpath'
    rw [← hcarries.descend_eq] at hpath hpath'
    exact (h.reached id (h.descend_mem hpath)).unique hpath hpath'
  · intro id
    rw [mem_ids_iff_along]
    constructor
    · rintro ⟨path, hpath⟩
      rw [← hcarries.descend_eq] at hpath
      exact h.descend_mem hpath
    · intro hid
      obtain ⟨path, hpath, -⟩ := h.reached id hid
      exact ⟨path, (hcarries.descend_eq path).symm.trans hpath⟩

end LinkedOn

end Containers.Arena
