import Containers.Proofs.SearchTree.Reachable

/-!
# The walk by the links alone

The nodes of a tree from left to right, once by recursion along the links and once by the stack of
the walk.  Neither is bounded here: the recursion and the descent to the left are relations, and
that they come to an end on a reachable tree is part of what is shown.

* `Arena.InOrder` — the places below a link: what is to the left of a node, the node, and what is to
  the right of it;
* `Arena.Descends` — going left from a link as far as it goes, onto a stack;
* `Walk.Leads` — steps from one place of a walk to another, with the nodes that they give;
* `Walk.Pops` — one step: the node on top of the stack leaves it, the left chain to the right of that
  node takes its place, and one node fewer is to come;
* `Walk.Stands` — a place of a walk that knows how many nodes are to come, and can go on to them;
* `SearchTree.WalksInOrder` — the walk of a tree is the recursion.

**`Awaits.pops`** is the step and **`Awaits.awaits_of_leads`** the run.
-/

namespace Containers

open BinaryTree

variable {α : Type}

namespace Arena

variable {a : Arena α}

/-- The places below a link from left to right. -/
inductive InOrder (a : Arena α) : Option NodeId → List NodeId → Prop where
  | nil : InOrder a none []
  | node {id : NodeId} {n : Node α} {lefts rights : List NodeId} (node : a.node? id = some n)
      (left : InOrder a n.left lefts) (right : InOrder a n.right rights) :
      InOrder a (some id) (lefts ++ id :: rights)

/-- Going left from a link as long as there is a node puts the nodes on the way on a stack. -/
inductive Descends (a : Arena α) : Option NodeId → List NodeId → List NodeId → Prop where
  | stop {stack : List NodeId} : Descends a none stack stack
  | push {id : NodeId} {n : Node α} {pending stack : List NodeId} (node : a.node? id = some n)
      (left : Descends a n.left (id :: pending) stack) : Descends a (some id) pending stack

theorem InOrder.unique {link : Option NodeId} {ids ids' : List NodeId} (h : a.InOrder link ids)
    (h' : a.InOrder link ids') : ids = ids' := by
  induction h generalizing ids' with
  | nil =>
    cases h'
    rfl
  | node hnode _ _ ihl ihr =>
    cases h' with
    | node hnode' hl hr =>
      obtain rfl := Option.some.inj (hnode.symm.trans hnode')
      rw [ihl hl, ihr hr]

/-- The recursion on a tree that an arena holds gives the labels from left to right. -/
theorem Holds.inOrder {parent : Option NodeId} {t : BinaryTree (NodeId × α)}
    (h : a.Holds parent t) : a.InOrder t.link t.ids := by
  induction t generalizing parent with
  | nil => exact .nil
  | node x l r ihl ihr =>
    obtain ⟨hx, hl, hr⟩ := h
    rw [ids_node]
    exact .node hx (ihl hl) (ihr hr)

/-- The left chain of a tree that an arena holds is gone down to its end if the tree is not higher
than the bound. -/
theorem Holds.descends {parent : Option NodeId} {t : BinaryTree (NodeId × α)}
    (h : a.Holds parent t) {id : NodeId} (hid : t.link = some id) {limit : Nat}
    (hlimit : t.height ≤ limit) (pending : List NodeId) :
    a.Descends (some id) pending (Walk.leftSpine a limit id pending) := by
  induction t generalizing parent id limit pending with
  | nil => exact absurd hid (Option.some_ne_none id).symm
  | node x l r ihl _ =>
    obtain ⟨hx, hl, -⟩ := h
    obtain rfl : x.1 = id := Option.some.inj hid
    rw [BinaryTree.height] at hlimit
    cases limit with
    | zero => omega
    | succ limit =>
      have hleft : a.left? x.1 = l.link := by rw [Arena.left?, hx]; rfl
      refine .push hx ?_
      rw [Walk.leftSpine, hleft]
      cases l with
      | nil => exact .stop
      | node y ll lr => exact ihl hl rfl (by omega) (x.1 :: pending)

end Arena

namespace Walk

/-- Steps lead from one place to another and give some nodes on the way. -/
inductive Leads : Walk α → List NodeId → Walk α → Prop where
  | refl (w : Walk α) : Leads w [] w
  | step {w v u : Walk α} {id : NodeId} {ids : List NodeId} (next : w.next = some (id, v))
      (rest : Leads v ids u) : Leads w (id :: ids) u

/-- A step takes a node off the stack and stacks what is to the right of it. -/
structure Pops (w : Walk α) (id : NodeId) (v : Walk α) : Prop where
  next : w.next = some (id, v)
  arena : v.arena = w.arena
  occupied : (w.arena.node? id).isSome
  pending : ∃ pending, w.pending = id :: pending ∧
    w.arena.Descends (w.arena.right? id) pending v.pending
  /-- There is one to be counted down from. -/
  remaining : w.remaining = v.remaining + 1

/-- A place of a walk with some nodes to come. -/
structure Stands (w : Walk α) (todo : List NodeId) : Prop where
  remaining : w.remaining = todo.length
  ended : todo = [] → w.next = none
  pops : ∀ id rest, todo = id :: rest → ∃ v, w.Pops id v

variable {w v : Walk α}

/-- **The step** on a stack that stands for what is awaited. -/
theorem Awaits.pops {x : NodeId × α} {xs : List (NodeId × α)} (h : w.Awaits (x :: xs)) :
    ∃ v, w.Pops x.1 v ∧ v.Awaits xs := by
  obtain ⟨v, hnext, harena, hvalue, hv⟩ := h.next
  have hoccupied : (w.arena.node? x.1).isSome := by
    rw [Arena.value?, Option.map_eq_some_iff] at hvalue
    obtain ⟨n, hnode, -⟩ := hvalue
    rw [hnode]
    rfl
  have hpending : ∃ pending, w.pending = x.1 :: pending ∧
      w.arena.Descends (w.arena.right? x.1) pending v.pending := by
    obtain ⟨arena, stack, remaining⟩ := w
    cases h.pending with
    | @cons _ parent left r pending ys hnode hright hheight _ =>
      -- The place after the step is the one that `next` names, so its stack is a bounded left chain.
      obtain rfl := (Prod.mk.inj (Option.some.inj hnext)).2
      have hlink : arena.right? x.1 = r.link := by rw [Arena.right?, hnode]; rfl
      refine ⟨pending, rfl, ?_⟩
      dsimp only
      rw [hlink]
      cases r with
      | nil => exact .stop
      | node y rl rr => exact hright.descends rfl hheight pending
  exact ⟨v, ⟨hnext, harena, hoccupied, hpending, by rw [h.remaining, hv.remaining]; rfl⟩, hv⟩

theorem Awaits.stands {xs : List (NodeId × α)} (h : w.Awaits xs) : w.Stands (xs.map Prod.fst) where
  remaining := by rw [List.length_map, h.remaining]
  ended := by
    intro hend
    rw [List.map_eq_nil_iff.mp hend] at h
    exact h.next_eq_none
  pops := by
    rintro id rest htodo
    obtain ⟨x, ys, rfl, rfl, -⟩ := List.map_eq_cons_iff.mp htodo
    obtain ⟨v, hpops, -⟩ := h.pops
    exact ⟨v, hpops⟩

/-- **The run.**  Wherever steps lead, they have given the beginning of what was awaited, and the
rest of it is awaited. -/
theorem Awaits.awaits_of_leads {xs : List (NodeId × α)} {ids : List NodeId} (h : w.Awaits xs)
    (hrun : w.Leads ids v) : ∃ ys zs, xs = ys ++ zs ∧ ids = ys.map Prod.fst ∧ v.Awaits zs := by
  induction hrun generalizing xs with
  | refl w => exact ⟨[], xs, rfl, rfl, h⟩
  | step hnext _ ih =>
    cases xs with
    | nil =>
      rw [h.next_eq_none] at hnext
      cases hnext
    | cons x xs =>
      obtain ⟨v, hpops, hv⟩ := h.pops
      obtain ⟨rfl, rfl⟩ := Prod.mk.inj (Option.some.inj (hpops.next.symm.trans hnext))
      obtain ⟨ys, zs, rfl, rfl, hzs⟩ := ih hv
      exact ⟨x :: ys, zs, rfl, rfl, hzs⟩

/-- Steps lead to the end of what is awaited. -/
theorem Awaits.exists_leads {xs : List (NodeId × α)} (h : w.Awaits xs) :
    ∃ v, w.Leads (xs.map Prod.fst) v ∧ v.next = none := by
  induction xs generalizing w with
  | nil => exact ⟨w, .refl w, h.next_eq_none⟩
  | cons x xs ih =>
    obtain ⟨v, hpops, hv⟩ := h.pops
    obtain ⟨u, hrun, hend⟩ := ih hv
    exact ⟨u, .step hpops.next hrun, hend⟩

end Walk

namespace SearchTree

/-- The walk of a tree is the recursion along its links, and what is read by it is the list of its
values. -/
structure WalksInOrder (t : SearchTree α) : Prop where
  inOrder : ∀ ids, t.arena.InOrder t.arena.root ids ↔ ids = t.order
  /-- Each place of the arena comes once. -/
  once : t.order.Perm (List.range t.size)
  begins : t.arena.Descends t.arena.root [] (Walk.start t.arena).pending
  ends : ∃ w, (Walk.start t.arena).Leads t.order w ∧ w.next = none
  /-- Wherever steps lead, the rest of the order is to come. -/
  stands : ∀ ids w, (Walk.start t.arena).Leads ids w → ∃ todo, t.order = ids ++ todo ∧ w.Stands todo
  /-- The node at a position holds the value at it. -/
  nodeAt? : ∀ position, (t.nodeAt? position).bind t.arena.value? = t.toList[position]?
  nodeAt?_eq_none : ∀ position, t.nodeAt? position = none ↔ t.size ≤ position
  iterates : ∀ script : List (Step Unit), ∃ v, Traversal.Iterates t.values script
    ((Cursor.ofList t.toList).run (script.map (Step.map fun _ => .front))) v

section Represented

variable {t : SearchTree α} {p : BinaryTree (NodeId × α)}

theorem inOrder_iff (h : t.arena.Represents p) (ids : List NodeId) :
    t.arena.InOrder t.arena.root ids ↔ ids = t.order := by
  have horder : t.arena.InOrder t.arena.root t.order := by
    rw [order_eq h, h.root]
    exact h.nodes.inOrder
  exact ⟨fun hids => hids.unique horder, fun hids => hids ▸ horder⟩

theorem descends_start (h : t.arena.Represents p) :
    t.arena.Descends t.arena.root [] (Walk.start t.arena).pending := by
  rw [Walk.start, h.root]
  cases p with
  | nil => exact .stop
  | node x l r =>
    have hheight : (node x l r).height ≤ t.arena.size := h.size_eq ▸ height_le_numNodes _
    exact h.nodes.descends rfl hheight []

theorem value?_nodeAt? (h : t.arena.Represents p) (position : Nat) :
    (t.nodeAt? position).bind t.arena.value? = t.toList[position]? := by
  rw [nodeAt?_eq h, toList_eq h, inorder_shape, ids, List.getElem?_map, List.getElem?_map]
  cases hx : p.inorder[position]? with
  | none => rfl
  | some x => exact h.toCarries.value?_eq (List.mem_of_getElem? hx)

theorem nodeAt?_eq_none_iff (h : t.arena.Represents p) (position : Nat) :
    t.nodeAt? position = none ↔ t.size ≤ position := by
  rw [nodeAt?_eq h, List.getElem?_eq_none_iff, length_ids, size, h.size_eq]

end Represented

variable [Ord α] {t : SearchTree α}

/-- **The walk with a stack is the recursion** on every reachable tree, whatever its shape. -/
theorem walksInOrder (h : Reachable t) : WalksInOrder t := by
  obtain ⟨p, hp⟩ := h.exists_represents
  have hawaits := hp.awaits_start
  have horder : t.order = p.inorder.map Prod.fst := order_eq hp
  constructor
  case inOrder => exact inOrder_iff hp
  case once =>
    rw [order_eq hp]
    exact hp.ids
  case begins => exact descends_start hp
  case ends =>
    rw [horder]
    exact hawaits.exists_leads
  case stands =>
    intro ids w hrun
    obtain ⟨ys, zs, hsplit, rfl, hzs⟩ := hawaits.awaits_of_leads hrun
    exact ⟨zs.map Prod.fst, by rw [horder, hsplit, List.map_append], hzs.stands⟩
  case nodeAt? => exact value?_nodeAt? hp
  case nodeAt?_eq_none => exact nodeAt?_eq_none_iff hp
  case iterates => exact exists_iterates hp

/-- A tree with a bend, and with two equal values on it. -/
theorem walksInOrder_bent : Reachable (ofList [2, 4, 1, 3, 3]).result ∧
    (ofList [2, 4, 1, 3, 3]).result.order = [2, 0, 4, 3, 1] ∧
    WalksInOrder (ofList [2, 4, 1, 3, 3]).result := by
  have hreachable : Reachable (ofList [2, 4, 1, 3, 3]).result := .ofList _
  exact ⟨hreachable, rfl, walksInOrder hreachable⟩

end SearchTree

end Containers
