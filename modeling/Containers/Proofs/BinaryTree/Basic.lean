import Mathlib.Data.Tree.Basic

/-!
# Binary trees in order

The values of a binary tree from left to right, and the deletion of one of them by its position.

* `BinaryTree.inorder` — the values from left to right;
* `BinaryTree.leftmost?`, `BinaryTree.eraseLeftmost` — the first value, and the tree without it;
* `BinaryTree.eraseRoot` — a tree without its root: nothing, the only child, or the same two
  children below the leftmost value of the right one;
* `BinaryTree.subtreeAt`, `BinaryTree.eraseAt` — the subtree below a position, and the tree whose
  subtree there has lost its root.

**`inorder_eraseAt`** — deleting at a position deletes that position of the sequence and no other.
-/

namespace BinaryTree

universe u v

variable {β : Type u} {γ : Type v}

/-- The values from left to right. -/
@[simp]
def inorder : BinaryTree β → List β
  | nil => []
  | node v l r => l.inorder ++ v :: r.inorder

@[simp]
theorem length_inorder (t : BinaryTree β) : t.inorder.length = t.numNodes := by
  induction t with
  | nil => rfl
  | node v l r ihl ihr =>
    simp only [inorder, List.length_append, List.length_cons, ihl, ihr, numNodes]
    omega

@[simp]
theorem inorder_map (f : β → γ) (t : BinaryTree β) : (t.map f).inorder = t.inorder.map f := by
  induction t with
  | nil => rfl
  | node v l r ihl ihr => simp only [map, inorder, ihl, ihr, List.map_append, List.map_cons]

@[simp]
theorem numNodes_map (f : β → γ) (t : BinaryTree β) : (t.map f).numNodes = t.numNodes := by
  rw [← length_inorder, inorder_map, List.length_map, length_inorder]

/-! ### The leftmost value -/

/-- The value that is reached by going left for as long as there is a left child. -/
def leftmost? : BinaryTree β → Option β
  | nil => none
  | node v l _ =>
    match l with
    | nil => some v
    | node _ _ _ => l.leftmost?

/-- The tree whose leftmost node has given its place to its right child. -/
def eraseLeftmost : BinaryTree β → BinaryTree β
  | nil => nil
  | node v l r =>
    match l with
    | nil => r
    | node _ _ _ => node v l.eraseLeftmost r

theorem inorder_eq_leftmost (t : BinaryTree β) :
    t.inorder = t.leftmost?.toList ++ t.eraseLeftmost.inorder := by
  induction t with
  | nil => rfl
  | node v l r ihl =>
    cases l with
    | nil => rfl
    | node w ll lr =>
      show inorder (node w ll lr) ++ v :: r.inorder = _
      rw [ihl, List.append_assoc]
      rfl

theorem leftmost?_isSome (v : β) (l r : BinaryTree β) : (node v l r).leftmost?.isSome := by
  induction l generalizing v r with
  | nil => rfl
  | node w ll lr ihl => exact ihl w lr

theorem leftmost?_map (f : β → γ) (t : BinaryTree β) :
    (t.map f).leftmost? = t.leftmost?.map f := by
  induction t with
  | nil => rfl
  | node v l r ihl =>
    cases l with
    | nil => rfl
    | node w ll lr => exact ihl

theorem eraseLeftmost_map (f : β → γ) (t : BinaryTree β) :
    (t.map f).eraseLeftmost = t.eraseLeftmost.map f := by
  induction t with
  | nil => rfl
  | node v l r ihl =>
    cases l with
    | nil => rfl
    | node w ll lr =>
      show node (f v) ((node w ll lr).map f).eraseLeftmost (r.map f) = _
      rw [ihl]
      rfl

/-! ### Deletion -/

/-- A tree without its root. A root with one child at most gives its place to that child. A root
with two keeps its place and takes the leftmost value to its right, whose node leaves instead. -/
def eraseRoot : BinaryTree β → BinaryTree β
  | nil => nil
  | node _ nil r => r
  | node _ l@(node _ _ _) nil => l
  | node v l@(node _ _ _) r@(node _ _ _) => node (r.leftmost?.getD v) l r.eraseLeftmost

/-- How many children the root has. -/
def arity : BinaryTree β → ℕ
  | nil => 0
  | node _ nil nil => 0
  | node _ (node _ _ _) (node _ _ _) => 2
  | node _ _ _ => 1

/-- The subtree whose root is the `i`-th node from left to right. -/
def subtreeAt : BinaryTree β → ℕ → BinaryTree β
  | nil, _ => nil
  | node v l r, i =>
    if i < l.numNodes then l.subtreeAt i
    else if i = l.numNodes then node v l r
    else r.subtreeAt (i - l.numNodes - 1)

/-- The tree without its `i`-th node from left to right. -/
def eraseAt : BinaryTree β → ℕ → BinaryTree β
  | nil, _ => nil
  | node v l r, i =>
    if i < l.numNodes then node v (l.eraseAt i) r
    else if i = l.numNodes then (node v l r).eraseRoot
    else node v l (r.eraseAt (i - l.numNodes - 1))

theorem inorder_eraseRoot (v : β) (l r : BinaryTree β) :
    (node v l r).eraseRoot.inorder = l.inorder ++ r.inorder := by
  cases l with
  | nil => rfl
  | node w ll lr =>
    cases r with
    | nil => simp [eraseRoot]
    | node x rl rr =>
      obtain ⟨m, hm⟩ := Option.isSome_iff_exists.mp (leftmost?_isSome x rl rr)
      rw [inorder_eq_leftmost (node x rl rr), hm]
      simp [eraseRoot, hm]

/-- The root takes the value 3, whose node leaves its right child behind. -/
example : (node 2 (node 1 nil nil) (node 5 (node 3 nil (node 4 nil nil)) nil)).eraseRoot =
    node 3 (node 1 nil nil) (node 5 (node 4 nil nil) nil) := by
  decide

/-- **Deletion deletes one position.**  The other values stay, in the same order. -/
theorem inorder_eraseAt (t : BinaryTree β) (i : ℕ) :
    (t.eraseAt i).inorder = t.inorder.eraseIdx i := by
  induction t generalizing i with
  | nil => rfl
  | node v l r ihl ihr =>
    rw [eraseAt]
    by_cases hlt : i < l.numNodes
    · rw [if_pos hlt, inorder, ihl, inorder, List.eraseIdx_append_of_lt_length (by simpa using hlt)]
    · rw [if_neg hlt, inorder, List.eraseIdx_append_of_length_le (by simpa using hlt),
        length_inorder]
      by_cases heq : i = l.numNodes
      · subst heq
        rw [if_pos rfl, inorder_eraseRoot, Nat.sub_self, List.eraseIdx_cons_zero]
      · obtain ⟨j, hj⟩ : ∃ j, i - l.numNodes = j + 1 := ⟨i - l.numNodes - 1, by omega⟩
        rw [if_neg heq, inorder, ihr, hj, List.eraseIdx_cons_succ, Nat.add_sub_cancel]

/-- The root of the subtree below a position is the value there. -/
theorem subtreeAt_eq_node (t : BinaryTree β) (i : ℕ) (h : i < t.numNodes) :
    ∃ v l r, t.subtreeAt i = node v l r ∧ t.inorder[i]? = some v := by
  induction t generalizing i with
  | nil => exact absurd h (Nat.not_lt_zero i)
  | node v l r ihl ihr =>
    rw [subtreeAt, inorder]
    by_cases hlt : i < l.numNodes
    · rw [if_pos hlt, List.getElem?_append_left (by simpa using hlt)]
      exact ihl i hlt
    · rw [if_neg hlt, List.getElem?_append_right (by simpa using hlt), length_inorder]
      by_cases heq : i = l.numNodes
      · subst heq
        exact ⟨v, l, r, if_pos rfl, by rw [Nat.sub_self]; rfl⟩
      · have hj : i - l.numNodes - 1 < r.numNodes := by simp only [numNodes] at h; omega
        obtain ⟨w, rl, rr, hsub, hget⟩ := ihr _ hj
        refine ⟨w, rl, rr, by rw [if_neg heq, hsub], ?_⟩
        rw [show i - l.numNodes = i - l.numNodes - 1 + 1 by omega, List.getElem?_cons_succ, hget]

theorem eraseRoot_map (f : β → γ) (t : BinaryTree β) :
    (t.map f).eraseRoot = t.eraseRoot.map f := by
  cases t with
  | nil => rfl
  | node v l r =>
    cases l with
    | nil => rfl
    | node w ll lr =>
      cases r with
      | nil => rfl
      | node x rl rr =>
        have hm := leftmost?_map f (node x rl rr)
        have he := eraseLeftmost_map f (node x rl rr)
        show node (((node x rl rr).map f).leftmost?.getD (f v)) ((node w ll lr).map f)
          ((node x rl rr).map f).eraseLeftmost = _
        rw [hm, he, Option.getD_map]
        rfl

theorem arity_map (f : β → γ) (t : BinaryTree β) : (t.map f).arity = t.arity := by
  cases t with
  | nil => rfl
  | node v l r => cases l <;> cases r <;> rfl

theorem subtreeAt_map (f : β → γ) (t : BinaryTree β) (i : ℕ) :
    (t.map f).subtreeAt i = (t.subtreeAt i).map f := by
  induction t generalizing i with
  | nil => rfl
  | node v l r ihl ihr =>
    rw [map, subtreeAt, subtreeAt, numNodes_map, ihl, ihr]
    split
    · rfl
    · split <;> rfl

theorem eraseAt_map (f : β → γ) (t : BinaryTree β) (i : ℕ) :
    (t.map f).eraseAt i = (t.eraseAt i).map f := by
  induction t generalizing i with
  | nil => rfl
  | node v l r ihl ihr =>
    have hroot := eraseRoot_map f (node v l r)
    rw [map] at hroot ⊢
    rw [eraseAt, eraseAt, numNodes_map, ihl, ihr, hroot]
    split
    · rfl
    · split <;> rfl

end BinaryTree
