import Mathlib.Data.List.Induction
import Containers.Proofs.BinaryTree.Basic
import Containers.SearchTree.Arena

/-!
# Trails

A trail is the way from a subtree up to the root of the tree that it stands in.  Every node that is
passed leaves a crumb: its value, the side on which the subtree hangs, and what hangs on the other.

* `Crumb` — one node on the way;
* `plug` — the tree with a subtree at the end of a trail, innermost crumb first;
* `valuesBefore`, `valuesBehind` — the values on the left and on the right of that subtree.

**`inorder_plug_eq`** puts the values in order.  **`exists_plug_of_mem`** and
**`exists_plug_subtreeAt`** find the trail to a value and to a position, **`exists_plug_leftmost`**
the one to the leftmost node.  **`plug_injective`** — a trail is determined by what the tree is
without and with a leaf at its end.
-/

namespace Containers

open BinaryTree

universe u v

variable {β : Type u} {γ : Type v}

/-- A node on the way from a subtree up to the root. -/
structure Crumb (β : Type u) where
  /-- The side on which the subtree hangs. -/
  side : Side
  value : β
  /-- What hangs on the other side. -/
  sibling : BinaryTree β

namespace Crumb

/-- The tree of a crumb and the subtree that it belongs to. -/
def around (c : Crumb β) (t : BinaryTree β) : BinaryTree β :=
  match c.side with
  | .left => node c.value t c.sibling
  | .right => node c.value c.sibling t

def map (f : β → γ) (c : Crumb β) : Crumb γ :=
  ⟨c.side, f c.value, c.sibling.map f⟩

/-- The values that a crumb adds to a subtree. -/
def values (c : Crumb β) : List β :=
  c.value :: c.sibling.inorder

theorem around_map (f : β → γ) (c : Crumb β) (t : BinaryTree β) :
    (c.around t).map f = (c.map f).around (t.map f) := by
  obtain ⟨side, value, sibling⟩ := c
  cases side <;> rfl

theorem inorder_around (c : Crumb β) (t : BinaryTree β) :
    (c.around t).inorder.Perm (t.inorder ++ c.values) := by
  obtain ⟨side, value, sibling⟩ := c
  cases side with
  | left => exact List.Perm.refl _
  | right =>
    show (sibling.inorder ++ value :: t.inorder).Perm (t.inorder ++ value :: sibling.inorder)
    exact List.perm_middle.trans
      ((List.Perm.cons value List.perm_append_comm).trans List.perm_middle.symm)

end Crumb

/-- The tree with a subtree at the end of a trail. -/
def plug : List (Crumb β) → BinaryTree β → BinaryTree β
  | [], t => t
  | c :: cs, t => plug cs (c.around t)

theorem plug_append (cs ds : List (Crumb β)) (t : BinaryTree β) :
    plug (cs ++ ds) t = plug ds (plug cs t) := by
  induction cs generalizing t with
  | nil => rfl
  | cons c cs ih => exact ih (c.around t)

theorem plug_map (f : β → γ) (cs : List (Crumb β)) (t : BinaryTree β) :
    (plug cs t).map f = plug (cs.map (Crumb.map f)) (t.map f) := by
  induction cs generalizing t with
  | nil => rfl
  | cons c cs ih => rw [plug, ih, Crumb.around_map]; rfl

/-- **The values of a plugged tree** are those of the subtree and those along the trail. -/
theorem inorder_plug (cs : List (Crumb β)) (t : BinaryTree β) :
    (plug cs t).inorder.Perm (t.inorder ++ cs.flatMap Crumb.values) := by
  induction cs generalizing t with
  | nil => simp [plug]
  | cons c cs ih =>
    rw [plug, List.flatMap_cons, ← List.append_assoc]
    exact (ih (c.around t)).trans ((c.inorder_around t).append_right _)

/-! ### On both sides of a trail -/

/-- The values of a crumb that stand on the left of the subtree. -/
def Crumb.before (c : Crumb β) : List β :=
  match c.side with
  | .left => []
  | .right => c.sibling.inorder ++ [c.value]

/-- The values of a crumb that stand on the right of the subtree. -/
def Crumb.behind (c : Crumb β) : List β :=
  match c.side with
  | .left => c.value :: c.sibling.inorder
  | .right => []

theorem Crumb.inorder_around_eq (c : Crumb β) (t : BinaryTree β) :
    (c.around t).inorder = c.before ++ t.inorder ++ c.behind := by
  obtain ⟨side, value, sibling⟩ := c
  cases side with
  | left => rfl
  | right =>
    show sibling.inorder ++ value :: t.inorder = sibling.inorder ++ [value] ++ t.inorder ++ []
    rw [List.append_nil, List.append_assoc, List.singleton_append]

/-- The values on the left of the subtree at the end of a trail. -/
def valuesBefore (cs : List (Crumb β)) : List β :=
  cs.reverse.flatMap Crumb.before

/-- The values on the right of the subtree at the end of a trail. -/
def valuesBehind (cs : List (Crumb β)) : List β :=
  cs.flatMap Crumb.behind

theorem valuesBefore_cons (c : Crumb β) (cs : List (Crumb β)) :
    valuesBefore (c :: cs) = valuesBefore cs ++ c.before := by
  rw [valuesBefore, List.reverse_cons, List.flatMap_append, List.flatMap_singleton, valuesBefore]

theorem valuesBehind_cons (c : Crumb β) (cs : List (Crumb β)) :
    valuesBehind (c :: cs) = c.behind ++ valuesBehind cs :=
  List.flatMap_cons

/-- **The values of a plugged tree in order.** -/
theorem inorder_plug_eq (cs : List (Crumb β)) (t : BinaryTree β) :
    (plug cs t).inorder = valuesBefore cs ++ t.inorder ++ valuesBehind cs := by
  induction cs generalizing t with
  | nil => exact (List.append_nil _).symm
  | cons c cs ih =>
    rw [plug, ih, c.inorder_around_eq, valuesBefore_cons, valuesBehind_cons]
    simp only [List.append_assoc]

/-- What stands below the end of a trail stands in the whole tree, in the same order. -/
theorem inorder_sublist_plug (cs : List (Crumb β)) (t : BinaryTree β) :
    t.inorder.Sublist (plug cs t).inorder := by
  rw [inorder_plug_eq]
  exact (List.sublist_append_right _ _).trans (List.sublist_append_left _ _)

theorem length_valuesBefore_map (f : β → γ) (cs : List (Crumb β)) :
    (valuesBefore (cs.map (Crumb.map f))).length = (valuesBefore cs).length := by
  induction cs with
  | nil => rfl
  | cons c cs ih =>
    obtain ⟨side, value, sibling⟩ := c
    rw [List.map_cons, valuesBefore_cons, valuesBefore_cons, List.length_append,
      List.length_append, ih]
    cases side with
    | left => rfl
    | right => simp [Crumb.map, Crumb.before]

theorem numNodes_plug (cs : List (Crumb β)) (t : BinaryTree β) :
    (plug cs t).numNodes = (plug cs nil).numNodes + t.numNodes := by
  simp only [← length_inorder, inorder_plug_eq, List.length_append, inorder, List.length_nil]
  omega

/-- A leaf stands where the values on its left end. -/
theorem getElem?_inorder_plug_leaf (cs : List (Crumb β)) (x : β) :
    (plug cs (node x nil nil)).inorder[(valuesBefore cs).length]? = some x := by
  rw [inorder_plug_eq, List.append_assoc, List.getElem?_append_right (Nat.le_refl _), Nat.sub_self]
  rfl

/-! ### Finding a trail -/

/-- Every value is the root of some subtree. -/
theorem exists_plug_of_mem {x : β} {t : BinaryTree β} (h : x ∈ t.inorder) :
    ∃ cs l r, t = plug cs (node x l r) := by
  induction t with
  | nil => exact absurd h List.not_mem_nil
  | node v l r ihl ihr =>
    rcases List.mem_append.mp h with hl | hr
    · obtain ⟨cs, ll, lr, hcs⟩ := ihl hl
      exact ⟨cs ++ [⟨.left, v, r⟩], ll, lr, by rw [plug_append, ← hcs]; rfl⟩
    · rcases List.mem_cons.mp hr with rfl | hr
      · exact ⟨[], l, r, rfl⟩
      · obtain ⟨cs, rl, rr, hcs⟩ := ihr hr
        exact ⟨cs ++ [⟨.right, v, l⟩], rl, rr, by rw [plug_append, ← hcs]; rfl⟩

/-- The subtree at a position has a trail, and deleting there deletes its root. -/
theorem exists_plug_subtreeAt (t : BinaryTree β) (i : ℕ) :
    ∃ cs, t = plug cs (t.subtreeAt i) ∧ t.eraseAt i = plug cs (t.subtreeAt i).eraseRoot := by
  induction t generalizing i with
  | nil => exact ⟨[], rfl, rfl⟩
  | node v l r ihl ihr =>
    rw [subtreeAt, eraseAt]
    split
    · obtain ⟨cs, hcs, herase⟩ := ihl i
      refine ⟨cs ++ [⟨.left, v, r⟩], ?_, ?_⟩
      · rw [plug_append, ← hcs]; rfl
      · rw [plug_append, ← herase]; rfl
    · split
      · exact ⟨[], rfl, rfl⟩
      · obtain ⟨cs, hcs, herase⟩ := ihr (i - l.numNodes - 1)
        refine ⟨cs ++ [⟨.right, v, l⟩], ?_, ?_⟩
        · rw [plug_append, ← hcs]; rfl
        · rw [plug_append, ← herase]; rfl

/-- The leftmost node has no left child, and its right child takes its place when it leaves. -/
theorem exists_plug_leftmost {x : β} {t : BinaryTree β} (h : t.leftmost? = some x) :
    ∃ cs r, t = plug cs (node x nil r) ∧ t.eraseLeftmost = plug cs r := by
  induction t with
  | nil => exact absurd h (Option.some_ne_none x).symm
  | node v l r ihl =>
    cases l with
    | nil =>
      obtain rfl : v = x := Option.some.inj h
      exact ⟨[], r, rfl, rfl⟩
    | node w ll lr =>
      obtain ⟨cs, s, hcs, herase⟩ := ihl h
      refine ⟨cs ++ [⟨.left, v, r⟩], s, ?_, ?_⟩
      · rw [plug_append, ← hcs]; rfl
      · rw [plug_append, ← herase]; rfl

/-! ### Telling trails apart -/

theorem Crumb.around_ne_nil (c : Crumb β) (t : BinaryTree β) : c.around t ≠ nil := by
  obtain ⟨side, value, sibling⟩ := c
  cases side with
  | left => exact fun h => by cases h
  | right => exact fun h => by cases h

/-- Two trees, of which one has more below the root on one side and the same on the other, tell on
which side that is, and what they have there. -/
theorem Crumb.around_injective {c d : Crumb β} {t t' u u' : BinaryTree β}
    (h : c.around t = d.around u) (h' : c.around t' = d.around u')
    (hmore : t.numNodes < t'.numNodes) : c = d ∧ t = u ∧ t' = u' := by
  obtain ⟨side, value, sibling⟩ := c
  obtain ⟨side', value', sibling'⟩ := d
  cases side with
  | left =>
    cases side' with
    | left =>
      obtain ⟨rfl, rfl, rfl⟩ := node.inj h
      obtain ⟨-, rfl, -⟩ := node.inj h'
      exact ⟨rfl, rfl, rfl⟩
    | right =>
      obtain ⟨-, hsame, -⟩ := node.inj h
      obtain ⟨-, hsame', -⟩ := node.inj h'
      rw [hsame, hsame'] at hmore
      exact absurd hmore (Nat.lt_irrefl _)
  | right =>
    cases side' with
    | left =>
      obtain ⟨-, -, hsame⟩ := node.inj h
      obtain ⟨-, -, hsame'⟩ := node.inj h'
      rw [hsame, hsame'] at hmore
      exact absurd hmore (Nat.lt_irrefl _)
    | right =>
      obtain ⟨rfl, rfl, rfl⟩ := node.inj h
      obtain ⟨-, -, rfl⟩ := node.inj h'
      exact ⟨rfl, rfl, rfl⟩

/-- **Where a leaf was added can be told** from the tree without it and the tree with it. -/
theorem plug_injective {cs ds : List (Crumb β)} {x : β} (h : plug cs nil = plug ds nil)
    (hleaf : plug cs (node x nil nil) = plug ds (node x nil nil)) : cs = ds := by
  -- From the root down, where the innermost crumb comes last.
  induction cs using List.reverseRecOn generalizing ds with
  | nil =>
    cases ds using List.reverseRecOn with
    | nil => rfl
    | append_singleton ds d =>
      rw [plug_append] at h
      exact absurd h.symm (d.around_ne_nil _)
  | append_singleton cs c ih =>
    cases ds using List.reverseRecOn with
    | nil =>
      rw [plug_append] at h
      exact absurd h (c.around_ne_nil _)
    | append_singleton ds d =>
      rw [plug_append, plug_append] at h hleaf
      have hmore : (plug cs nil).numNodes < (plug cs (node x nil nil)).numNodes := by
        rw [numNodes_plug cs (node x nil nil)]
        exact Nat.lt_succ_self _
      obtain ⟨hcd, hrest, hrest'⟩ := Crumb.around_injective h hleaf hmore
      rw [hcd, ih hrest hrest']

end Containers
