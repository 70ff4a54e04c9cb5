import Containers.Proofs.BinaryTree.Search
import Containers.Proofs.SearchTree.Layout
import Containers.SearchTree.Basic

/-!
# Growing a tree

An insertion walks down the links, compares on the way, and hangs a leaf where the links end.

* **`Represents.plant`** and **`Represents.grow`** — a first node, and a leaf at the end of a trail;
* **`gap?_spec`** — the walk compares with the values of the search path and ends where the textbook
  insertion puts its leaf;
* **`insert_leaf`** — what an insertion adds, and **`insert_spec`** — the arena after it represents
  the tree after the textbook insertion.
-/

namespace Containers

open BinaryTree

variable {α : Type}

namespace Arena

variable {a : Arena α}

theorem node?_push (a : Arena α) (n : Node α) (root : Option NodeId) (j : NodeId) :
    Arena.node? ⟨a.nodes.push n, root⟩ j = if j = a.size then some n else a.node? j :=
  Array.getElem?_push

/-- The first node. -/
theorem Represents.plant (h : a.Represents nil) (v : α) :
    (a.plant v).Represents (node (a.size, v) nil nil) := by
  have hsize : a.size = 0 := h.size_eq
  refine ⟨⟨rfl, ?_, trivial, trivial⟩, ?_⟩
  · rw [Arena.plant, node?_push, if_pos rfl]
    rfl
  · have hplant : (a.plant v).size = 1 := by
      show (a.nodes.push _).size = 1
      rw [Array.size_push, show a.nodes.size = 0 from hsize]
    rw [hplant, ids_node, hsize]
    exact List.Perm.refl _

/-- **A leaf at the end of a trail.**  The new node takes the next place, and only its parent
changes. -/
theorem Represents.grow {c : Crumb (NodeId × α)} {cs : List (Crumb (NodeId × α))}
    (h : a.Represents (plug (c :: cs) nil)) (v : α) :
    (a.grow v c.value.1 c.side).Represents (plug (c :: cs) (node (a.size, v) nil nil)) := by
  obtain ⟨hc, hsibling, hcs⟩ := (carries_plug.mp h.toCarries).1
  have htrail : (trailIds (c :: cs)).Perm (List.range a.size) :=
    (ids_plug (c :: cs) nil).symm.trans h.ids
  have hnodup := htrail.nodup_iff.mpr List.nodup_range
  have hlt : ∀ j ∈ trailIds (c :: cs), j < a.size := by
    intro j hj
    exact List.mem_range.mp (htrail.mem_iff.mp hj)
  rw [trailIds_cons] at hnodup hlt
  obtain ⟨hcmem, -⟩ := List.nodup_cons.mp hnodup
  have hframe : ∀ j ∈ c.sibling.ids ++ trailIds cs,
      (a.grow v c.value.1 c.side).node? j = a.node? j := by
    intro j hj
    rw [Arena.grow, node?_modify_of_ne _ _ (ne_of_mem_of_not_mem hj hcmem), node?_push,
      if_neg (Nat.ne_of_lt (hlt j (List.mem_cons_of_mem _ hj)))]
  simp only [List.mem_append] at hframe
  refine ⟨carries_plug.mpr ⟨⟨?_, ?_, ?_⟩, ?_, trivial, trivial⟩, ?_⟩
  · have hparent : c.value.1 ≠ a.size := Nat.ne_of_lt (hlt _ List.mem_cons_self)
    rw [Arena.grow, node?_modify_self, node?_push, if_neg hparent, hc]
    obtain ⟨side, x, sibling⟩ := c
    cases side <;> rfl
  · apply hsibling.congr
    intro j hj
    exact hframe j (.inl hj)
  · refine hcs.congr ?_ rfl
    intro j hj
    exact hframe j (.inr hj)
  · have hparent : a.size ≠ c.value.1 := (Nat.ne_of_lt (hlt _ List.mem_cons_self)).symm
    rw [Arena.grow, node?_modify_of_ne _ _ hparent, node?_push, if_pos rfl]
    rfl
  · have hgrow : (a.grow v c.value.1 c.side).size = a.size + 1 := by
      rw [Arena.grow, size_modify]
      exact Array.size_push _
    rw [hgrow, List.range_succ]
    exact (ids_plug _ _).trans ((List.Perm.cons a.size htrail).trans
      (List.perm_append_singleton _ _).symm)

end Arena

namespace SearchTree

variable [Ord α] {t : SearchTree α}

/-- A walk from a node down does what the textbook insertion does in the subtree of that node: it
compares with the values of the search path, in this order, and ends where the leaf belongs, or
nowhere if the value is refused. -/
def Finds (unique : Bool) (a : α) (p : BinaryTree (NodeId × α))
    (walk : Traced (Event α) (Option (NodeId × Side))) : Prop :=
  walk.events = (p.shape.searchPath unique a).map .compared ∧
    (walk.result = none ∧ p.shape.insert? unique a = none ∨
      ∃ c cs, walk.result = some (c.value.1, c.side) ∧ p = plug (c :: cs) nil ∧
        ∀ leaf, p.shape.insert? unique a = some (plug (c :: cs) (node (leaf, a) nil nil)).shape)

section Finds

variable {unique : Bool} {a : α} {c : Crumb (NodeId × α)} {p : BinaryTree (NodeId × α)}

/-- A walk that ends at the first node because there is nothing on the side that it goes to. -/
theorem finds_here (hgoes : ¬ (unique && (compare a c.value.2).isEq))
    (hside : c.side = sideOf a c.value.2) :
    Finds unique a (c.around nil) ⟨some (c.value.1, c.side), [.compared c.value.2]⟩ := by
  have hpath := searchPath_around (c := c.map Prod.snd) (t := nil) hgoes hside
  have hinsert := insert?_around (c := c.map Prod.snd) (t := nil) hgoes hside
  refine ⟨?_, .inr ⟨c, [], rfl, rfl, ?_⟩⟩
  · rw [shape_around]
    exact (congrArg (List.map Event.compared) hpath).symm
  · intro leaf
    show _ = some (c.around _).shape
    rw [shape_around, shape_around]
    exact hinsert

/-- A walk that goes on below the first node. -/
theorem Finds.around {walk : Traced (Event α) (Option (NodeId × Side))} (h : Finds unique a p walk)
    (hgoes : ¬ (unique && (compare a c.value.2).isEq)) (hside : c.side = sideOf a c.value.2) :
    Finds unique a (c.around p) ⟨walk.result, .compared c.value.2 :: walk.events⟩ := by
  have hpath := searchPath_around (c := c.map Prod.snd) (t := p.shape) hgoes hside
  have hinsert := insert?_around (c := c.map Prod.snd) (t := p.shape) hgoes hside
  obtain ⟨hevents, hresult⟩ := h
  rw [Finds, shape_around, hpath, hinsert]
  refine ⟨by rw [hevents]; rfl, ?_⟩
  rcases hresult with ⟨hnone, hrefused⟩ | ⟨d, ds, hsome, hplug, hleaf⟩
  · exact .inl ⟨hnone, by rw [hrefused]; rfl⟩
  · refine .inr ⟨d, ds ++ [c], hsome, ?_, ?_⟩
    · rw [← List.cons_append, plug_append, ← hplug]
      rfl
    · intro leaf
      rw [hleaf leaf, ← List.cons_append, plug_append]
      exact congrArg some (shape_around c _).symm

end Finds

/-- What the walk does at one node. -/
theorem gap?_succ {id : NodeId} {n : Node α} (a : α) (limit : Nat)
    (hn : t.arena.node? id = some n) :
    t.gap? a (limit + 1) id =
      let next : Traced (Event α) (Option (NodeId × Side)) :=
        if t.unique && (compare a n.value).isEq then ⟨none, []⟩
        else
          match n.child (sideOf a n.value) with
          | some next => t.gap? a limit next
          | none => ⟨some (id, sideOf a n.value), []⟩
      ⟨next.result, .compared n.value :: next.events⟩ := by
  rw [gap?, hn]
  rfl

/-- **The walk down** does what the textbook insertion does. -/
theorem gap?_spec {parent : Option NodeId} {p : BinaryTree (NodeId × α)} {id : NodeId} (a : α)
    {limit : Nat} (h : t.arena.Holds parent p) (hid : p.link = some id)
    (hlimit : p.height ≤ limit) : Finds t.unique a p (t.gap? a limit id) := by
  induction p generalizing parent id limit with
  | nil => exact absurd hid (Option.some_ne_none id).symm
  | node x l r ihl ihr =>
    obtain ⟨hx, hl, hr⟩ := h
    obtain rfl : x.1 = id := Option.some.inj hid
    cases limit with
    | zero => simp at hlimit
    | succ limit =>
      simp only [height, Nat.add_le_add_iff_right, Nat.max_le] at hlimit
      rw [gap?_succ a limit hx]
      by_cases hgoes : t.unique && (compare a x.2).isEq
      · simp only [if_pos hgoes]
        refine ⟨?_, .inl ⟨rfl, if_pos hgoes⟩⟩
        show _ = List.map Event.compared (x.2 :: if _ then _ else _)
        rw [if_pos hgoes]
        rfl
      · simp only [if_neg hgoes]
        cases hside : sideOf a x.2 with
        | left =>
          cases l with
          | nil => exact finds_here (c := ⟨.left, x, r⟩) hgoes hside.symm
          | node y ll lr => exact (ihl hl rfl hlimit.1).around (c := ⟨.left, x, r⟩) hgoes hside.symm
        | right =>
          cases r with
          | nil => exact finds_here (c := ⟨.right, x, l⟩) hgoes hside.symm
          | node y rl rr =>
            exact (ihr hr rfl hlimit.2).around (c := ⟨.right, x, l⟩) hgoes hside.symm

/-- **Insertion** hangs a leaf with the next place at the end of a trail, or changes nothing. -/
theorem insert_leaf {p : BinaryTree (NodeId × α)} (a : α) (h : t.arena.Represents p) :
    (t.insert a).events = (p.shape.searchPath t.unique a).map .compared ∧
      (p.shape.insert? t.unique a = none ∧ (t.insert a).result = (false, t) ∨
        ∃ cs arena, p = plug cs nil ∧
          p.shape.insert? t.unique a = some (plug cs (node (t.size, a) nil nil)).shape ∧
          (t.insert a).result = (true, ⟨arena, t.unique⟩) ∧
          arena.Represents (plug cs (node (t.size, a) nil nil))) := by
  rw [insert, h.root]
  cases p with
  | nil => exact ⟨rfl, .inr ⟨[], _, rfl, rfl, rfl, h.plant a⟩⟩
  | node x l r =>
    have hheight : (node x l r).height ≤ t.size :=
      (show t.arena.Represents (plug [] (node x l r)) from h).height_le
    obtain ⟨hevents, hresult⟩ := gap?_spec a h.nodes rfl hheight
    refine ⟨hevents, ?_⟩
    show _ ∧ t.fill a (t.gap? a t.size x.1).result = _ ∨
      ∃ cs arena, _ ∧ _ ∧ t.fill a (t.gap? a t.size x.1).result = _ ∧ _
    rcases hresult with ⟨hnone, hrefused⟩ | ⟨c, cs, hsome, hplug, hleaf⟩
    · exact .inl ⟨hrefused, by rw [hnone]; rfl⟩
    · rw [hplug] at h
      exact .inr ⟨c :: cs, _, hplug, hleaf t.size, by rw [hsome]; rfl, h.grow a⟩

/-- **Insertion** compares with the values of the search path and gives an arena of the tree after
the textbook insertion.  A refused value changes nothing. -/
theorem insert_spec {p : BinaryTree (NodeId × α)} (a : α) (h : t.arena.Represents p) :
    (t.insert a).events = (p.shape.searchPath t.unique a).map .compared ∧
      (p.shape.insert? t.unique a = none ∧ (t.insert a).result = (false, t) ∨
        ∃ q arena, p.shape.insert? t.unique a = some q.shape ∧
          (t.insert a).result = (true, ⟨arena, t.unique⟩) ∧ arena.Represents q) := by
  obtain ⟨hevents, hrefused | ⟨cs, arena, -, hinsert, hresult, hq⟩⟩ := insert_leaf a h
  · exact ⟨hevents, .inl hrefused⟩
  · exact ⟨hevents, .inr ⟨_, arena, hinsert, hresult, hq⟩⟩

end SearchTree

end Containers
