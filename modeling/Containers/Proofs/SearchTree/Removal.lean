import Containers.Proofs.SearchTree.Relinking

/-!
# Removing a node

A node that has left the tree leaves a hole in the arena, which the last node fills.

* `relocate` — the label that a node has after the last one has moved;
* **`Carries.discard`** — filling the hole gives an arena without gaps for the same tree, relabelled
  at the one node that moved, whatever its position in the tree was;
* **`Represents.remove`** — removing a node deletes the root of its subtree.
-/

namespace Containers

open BinaryTree

variable {α : Type}

/-- The label of a node after the one at the place `last` has moved to the place `id`. -/
def relocate (last id : NodeId) (x : NodeId × α) : NodeId × α :=
  (if x.1 = last then id else x.1, x.2)

theorem relocate_of_ne {last id : NodeId} {x : NodeId × α} (h : x.1 ≠ last) :
    relocate last id x = x := by
  rw [relocate, if_neg h]

theorem relocate_self (id : NodeId) (x : NodeId × α) : relocate id id x = x := by
  by_cases h : x.1 = id
  · rw [relocate, if_pos h, ← h]
  · exact relocate_of_ne h

theorem shape_relocate (last id : NodeId) (t : BinaryTree (NodeId × α)) :
    (t.map (relocate last id)).shape = t.shape :=
  (BinaryTree.comp_map _ _ t).symm

theorem map_relocate {last id : NodeId} {t : BinaryTree (NodeId × α)} (h : last ∉ t.ids) :
    t.map (relocate last id) = t := by
  induction t with
  | nil => rfl
  | node x l r ihl ihr =>
    simp only [ids_node, List.mem_append, List.mem_cons, not_or] at h
    rw [BinaryTree.map, ihl h.1, ihr h.2.2, relocate_of_ne (Ne.symm h.2.1)]

theorem map_relocate_self (id : NodeId) (t : BinaryTree (NodeId × α)) :
    t.map (relocate id id) = t := by
  induction t with
  | nil => rfl
  | node x l r ihl ihr => rw [BinaryTree.map, ihl, ihr, relocate_self]

theorem map_map_relocate {last id : NodeId} {cs : List (Crumb (NodeId × α))}
    (h : last ∉ trailIds cs) : cs.map (Crumb.map (relocate last id)) = cs := by
  induction cs with
  | nil => rfl
  | cons c cs ih =>
    obtain ⟨side, x, sibling⟩ := c
    simp only [trailIds_cons, List.mem_cons, List.mem_append, not_or] at h
    rw [List.map_cons, ih h.2.2, Crumb.map, map_relocate h.2.1, relocate_of_ne (Ne.symm h.1)]

/-- Relabelling the root of a subtree whose label stands nowhere else. -/
theorem plug_node_relocate {cs : List (Crumb (NodeId × α))} {last id : NodeId} {v : α}
    {l r : BinaryTree (NodeId × α)} (h : last ∉ l.ids ++ (r.ids ++ trailIds cs)) :
    (plug cs (node (last, v) l r)).map (relocate last id) = plug cs (node (id, v) l r) := by
  simp only [List.mem_append, not_or] at h
  rw [plug_map, map_map_relocate h.2.2, BinaryTree.map, map_relocate h.1, map_relocate h.2.1,
    relocate, if_pos rfl]

/-- A node that leaves takes its label with it and no other. -/
theorem ids_plug_node (cs : List (Crumb (NodeId × α))) (x : NodeId × α)
    (l r : BinaryTree (NodeId × α)) :
    (plug cs (node x l r)).ids.Perm (x.1 :: (l.ids ++ (r.ids ++ trailIds cs))) := by
  refine (ids_plug cs _).trans ?_
  rw [ids_node, List.append_assoc, List.cons_append]
  exact List.perm_middle

theorem ids_plug_eraseRoot (cs : List (Crumb (NodeId × α))) (x : NodeId × α)
    (l r : BinaryTree (NodeId × α)) :
    (x.1 :: (plug cs (node x l r).eraseRoot).ids).Perm (plug cs (node x l r)).ids := by
  refine .trans (.cons x.1 ((ids_plug cs _).trans ?_)) (ids_plug_node cs x l r).symm
  rw [ids, inorder_eraseRoot, List.map_append, ← ids, ← ids, List.append_assoc]

namespace Arena

variable {a : Arena α}

/-! ### Filling a hole -/

/-- The arena whose last node stands at another place, before any link has followed it. -/
def closeUp (a : Arena α) (id : NodeId) (moving : Node α) : Arena α :=
  { a with nodes := (a.nodes.setIfInBounds id moving).pop }

@[simp] theorem size_closeUp (a : Arena α) (id : NodeId) (moving : Node α) :
    (a.closeUp id moving).size = a.size - 1 := by
  simp [closeUp, size]

theorem node?_closeUp (a : Arena α) (id : NodeId) (moving : Node α) {j : NodeId}
    (hj : j < a.size - 1) :
    (a.closeUp id moving).node? j = if id = j then some moving else a.node? j := by
  have hsize : j < a.nodes.size := Nat.lt_of_lt_of_le hj (Nat.sub_le _ _)
  show (a.nodes.setIfInBounds id moving).pop[j]? = _
  rw [Array.getElem?_pop, Array.size_setIfInBounds, if_pos (show j < a.nodes.size - 1 from hj),
    Array.getElem?_setIfInBounds]
  split
  · next h => rw [if_pos (h ▸ hsize)]
  · rfl

theorem discard_eq {moving : Node α} (id : NodeId) (h : a.node? (a.size - 1) = some moving) :
    a.discard id = (a.value? id,
      if id = a.size - 1 then a.closeUp id moving
      else (((a.closeUp id moving).redirect moving.parent (a.size - 1) (some id)).adopt
        moving.left (some id)).adopt moving.right (some id)) := by
  rw [discard, h]
  rfl

/-- A node takes the place of another at the end of a trail: the link to it and the links of its
children follow. -/
theorem carries_rehang {cs : List (Crumb (NodeId × α))} {old id : NodeId} {v : α}
    {parent : Option NodeId} {l r : BinaryTree (NodeId × α)} (hcs : a.HoldsAround cs (some old))
    (hid : a.node? id = some ⟨v, holeParent cs, l.link, r.link⟩) (hl : a.Holds parent l)
    (hr : a.Holds parent r) (hold : old ∉ trailIds cs)
    (hnodup : (id :: (l.ids ++ (r.ids ++ trailIds cs))).Nodup) :
    (((a.redirect (holeParent cs) old (some id)).adopt l.link (some id)).adopt r.link
      (some id)).Carries (plug cs (node (id, v) l r)) := by
  simp only [List.nodup_cons, List.nodup_append, List.mem_append, not_or] at hnodup
  obtain ⟨⟨hidl, hidr, hidcs⟩, hlnodup, ⟨hrnodup, hcsnodup, hrcs⟩, hdisjoint⟩ := hnodup
  have hredirect : ∀ j, j ∉ trailIds cs →
      (a.redirect (holeParent cs) old (some id)).node? j = a.node? j := by
    intro j hj
    exact node?_redirect_of_ne a old _ (holeParent_ne_some hj)
  refine carries_plug.mpr ⟨?_, ?_, ?_, ?_⟩
  · have htrail := hcs.redirect (List.nodup_cons.mpr ⟨hold, hcsnodup⟩) (some id)
    refine htrail.congr ?_ (by rw [root_adopt, root_adopt])
    intro j hj
    rw [node?_adopt_of_ne _ _ (ne_some_of_notMem fun h => hrcs j h j hj rfl),
      node?_adopt_of_ne _ _ (ne_some_of_notMem fun h => hdisjoint j h j (.inr hj) rfl)]
  · rw [node?_adopt_of_ne _ _ (ne_some_of_notMem hidr),
      node?_adopt_of_ne _ _ (ne_some_of_notMem hidl), hredirect id hidcs, hid]
  · have hleft : (a.redirect (holeParent cs) old (some id)).Holds parent l := by
      apply hl.congr
      intro j hj
      exact hredirect j fun h => hdisjoint j hj j (.inr h) rfl
    apply (hleft.adopt hlnodup (some id)).congr
    intro j hj
    exact node?_adopt_of_ne _ _ (ne_some_of_notMem fun h => hdisjoint j hj j (.inl h) rfl)
  · have hright : ((a.redirect (holeParent cs) old (some id)).adopt l.link (some id)).Holds
        parent r := by
      apply hr.congr
      intro j hj
      rw [node?_adopt_of_ne _ _ (ne_some_of_notMem fun h => hdisjoint j h j (.inl hj) rfl),
        hredirect j fun h => hrcs j hj j h rfl]
    exact hright.adopt hrnodup (some id)

/-- Giving up the last place, where no node of the tree stands. -/
theorem Carries.closeUp_last {t : BinaryTree (NodeId × α)} (h : a.Carries t)
    (hids : t.ids.Perm (List.range (a.size - 1))) (moving : Node α) :
    (a.closeUp (a.size - 1) moving).Represents t := by
  refine ⟨h.congr ?_ rfl, by rwa [size_closeUp]⟩
  intro j hj
  have hj : j < a.size - 1 := List.mem_range.mp (hids.mem_iff.mp hj)
  rw [node?_closeUp a _ _ hj, if_neg (Nat.ne_of_gt hj)]

/-- Giving up a place by moving the last node to it, wherever in the tree that node hangs. -/
theorem Carries.closeUp_rehang {cs : List (Crumb (NodeId × α))} {id : NodeId} {v : α}
    {l r : BinaryTree (NodeId × α)} (h : a.Carries (plug cs (node (a.size - 1, v) l r)))
    (hids : (id :: (l.ids ++ (r.ids ++ trailIds cs))).Perm (List.range (a.size - 1))) :
    ((((a.closeUp id ⟨v, holeParent cs, l.link, r.link⟩).redirect (holeParent cs) (a.size - 1)
      (some id)).adopt l.link (some id)).adopt r.link (some id)).Represents
      (plug cs (node (id, v) l r)) := by
  obtain ⟨hcs, -, hl, hr⟩ := carries_plug.mp h
  have hnodup := hids.nodup_iff.mpr List.nodup_range
  have hlt : ∀ j ∈ id :: (l.ids ++ (r.ids ++ trailIds cs)), j < a.size - 1 := by
    intro j hj
    exact List.mem_range.mp (hids.mem_iff.mp hj)
  have hframe : ∀ j ∈ l.ids ++ (r.ids ++ trailIds cs),
      (a.closeUp id ⟨v, holeParent cs, l.link, r.link⟩).node? j = a.node? j := by
    intro j hj
    have hne : j ≠ id := ne_of_mem_of_not_mem hj (List.nodup_cons.mp hnodup).1
    rw [node?_closeUp a _ _ (hlt j (List.mem_cons_of_mem id hj)), if_neg (Ne.symm hne)]
  simp only [List.mem_append] at hframe
  have htrail : (a.closeUp id ⟨v, holeParent cs, l.link, r.link⟩).HoldsAround cs
      (some (a.size - 1)) := by
    refine hcs.congr ?_ rfl
    intro j hj
    exact hframe j (.inr (.inr hj))
  have hleft : (a.closeUp id ⟨v, holeParent cs, l.link, r.link⟩).Holds (some (a.size - 1)) l := by
    apply hl.congr
    intro j hj
    exact hframe j (.inl hj)
  have hright : (a.closeUp id ⟨v, holeParent cs, l.link, r.link⟩).Holds (some (a.size - 1)) r := by
    apply hr.congr
    intro j hj
    exact hframe j (.inr (.inl hj))
  refine ⟨carries_rehang htrail ?_ hleft hright ?_ hnodup, ?_⟩
  · rw [node?_closeUp a _ _ (hlt id List.mem_cons_self), if_pos rfl]
  · intro hlast
    exact Nat.lt_irrefl _ (hlt (a.size - 1) (by simp [hlast]))
  · rw [size_adopt, size_adopt, size_redirect, size_closeUp]
    exact (ids_plug_node cs (id, v) l r).trans hids

/-- **Filling the hole.**  Where the tree has every place but one, giving up that place leaves the
same tree without gaps.  Only the node at the last place gets another label. -/
theorem Carries.discard {t : BinaryTree (NodeId × α)} {id : NodeId} (h : a.Carries t)
    (hids : (id :: t.ids).Perm (List.range a.size)) :
    (a.discard id).1 = a.value? id ∧
      (a.discard id).2.Represents (t.map (relocate (a.size - 1) id)) := by
  obtain ⟨n, hn⟩ : ∃ n, a.size = n + 1 := ⟨t.ids.length, by simpa using hids.length_eq.symm⟩
  have hlast : a.size - 1 = n := by omega
  obtain ⟨moving, hmoving⟩ := Option.isSome_iff_exists.mp
    (node?_isSome_iff.mpr (show a.size - 1 < a.size by omega))
  rw [discard_eq id hmoving]
  refine ⟨rfl, ?_⟩
  rw [hn, List.range_succ, ← hlast] at hids
  have hids := hids.trans (List.perm_append_singleton _ _)
  show (if id = a.size - 1 then _ else _ : Arena α).Represents _
  by_cases hid : id = a.size - 1
  · rw [if_pos hid, ← hid, map_relocate_self, hid]
    rw [← hid] at hids
    exact h.closeUp_last (hid ▸ (List.perm_cons id).mp hids) moving
  · rw [if_neg hid]
    obtain ⟨cs, v, l, r, rfl⟩ := exists_plug_of_mem_ids
      (List.mem_of_ne_of_mem (Ne.symm hid) (hids.mem_iff.mpr List.mem_cons_self))
    obtain rfl : moving = ⟨v, holeParent cs, l.link, r.link⟩ :=
      Option.some.inj (hmoving.symm.trans h.node?_eq)
    -- Both sides of `hids` begin with the last place once the hole has been put second.
    have hrest : (id :: (l.ids ++ (r.ids ++ trailIds cs))).Perm (List.range (a.size - 1)) :=
      (List.perm_cons (a.size - 1)).mp ((List.Perm.swap id (a.size - 1) _).trans
        ((List.Perm.cons id (ids_plug_node cs _ l r).symm).trans hids))
    have hmem : a.size - 1 ∉ l.ids ++ (r.ids ++ trailIds cs) := by
      intro hmem
      exact List.not_mem_range_self (hrest.mem_iff.mp (List.mem_cons_of_mem id hmem))
    rw [plug_node_relocate hmem]
    exact h.closeUp_rehang hrest

/-! ### Removing -/

/-- Going left from the root of a tree ends at its leftmost node. -/
theorem Holds.leftmostWithin {parent : Option NodeId} {t : BinaryTree (NodeId × α)}
    {x : NodeId × α} {id : NodeId} {limit : Nat} (h : a.Holds parent t)
    (hx : t.leftmost? = some x) (hid : t.link = some id) (hlimit : t.height ≤ limit) :
    a.leftmostWithin limit id = x.1 := by
  induction t generalizing parent id limit with
  | nil => exact absurd hid (Option.some_ne_none id).symm
  | node y l r ihl =>
    obtain ⟨hy, hl, -⟩ := h
    obtain rfl : y.1 = id := Option.some.inj hid
    cases limit with
    | zero => simp at hlimit
    | succ limit =>
      simp only [height, Nat.add_le_add_iff_right, Nat.max_le] at hlimit
      have hleft : a.left? y.1 = l.link := by rw [left?, hy]; rfl
      rw [Arena.leftmostWithin, hleft]
      cases l with
      | nil =>
        obtain rfl : y = x := Option.some.inj hx
        rfl
      | node z ll lr => exact ihl hl hx rfl hlimit.1

/-- Removal where the node has one child at most. -/
theorem Represents.remove_of_child {cs : List (Crumb (NodeId × α))} {x : NodeId × α}
    {l r : BinaryTree (NodeId × α)} (h : a.Represents (plug cs (node x l r)))
    (hchild : l = nil ∨ r = nil) :
    ((a.unhook x.1).discard x.1).1 = some x.2 ∧ ((a.unhook x.1).discard x.1).2.Represents
      ((plug cs (node x l r).eraseRoot).map (relocate (a.size - 1) x.1)) := by
  obtain ⟨hcarries, hx⟩ := h.toCarries.unhook h.nodup_ids hchild
  have hids : (x.1 :: (plug cs (node x l r).eraseRoot).ids).Perm
      (List.range (a.unhook x.1).size) := by
    rw [size_unhook]
    exact (ids_plug_eraseRoot cs x l r).trans h.ids
  obtain ⟨hvalue, hrep⟩ := hcarries.discard hids
  refine ⟨?_, by rwa [size_unhook] at hrep⟩
  rw [hvalue, value?, hx, h.toCarries.node?_eq]
  rfl

/-- Removal of a leaf at the last place, where nothing has to move. -/
theorem Represents.remove_last_leaf {cs : List (Crumb (NodeId × α))} {x : NodeId × α}
    (h : a.Represents (plug cs (node x nil nil))) (hlast : x.1 = a.size - 1) :
    (a.remove x.1).2.Represents (plug cs nil) := by
  obtain ⟨-, hrep⟩ := h.remove_of_child (.inl rfl)
  have hleft : a.left? x.1 = none := by rw [left?, h.toCarries.node?_eq]; rfl
  rw [← hlast, map_relocate_self] at hrep
  rw [Arena.remove, hleft]
  exact hrep

/-- Removal where the node has two children: the node after it in the order leaves in its stead,
and leaves its value behind. -/
theorem Represents.remove_of_children {cs : List (Crumb (NodeId × α))} {x y : NodeId × α}
    {l r : BinaryTree (NodeId × α)} (h : a.Represents (plug cs (node x l r)))
    (hy : r.leftmost? = some y) :
    (((a.unhook y.1).exchange x.1 y.1).discard y.1).1 = some x.2 ∧
      (((a.unhook y.1).exchange x.1 y.1).discard y.1).2.Represents
        ((plug cs (node (x.1, y.2) l r.eraseLeftmost)).map (relocate (a.size - 1) y.1)) := by
  obtain ⟨ds, s, rfl, herase⟩ := exists_plug_leftmost hy
  have hplug : ∀ t, plug cs (node x l (plug ds t)) = plug (ds ++ ⟨.right, x, l⟩ :: cs) t :=
    fun t => by rw [plug_append]; rfl
  rw [herase]
  rw [hplug] at h
  obtain ⟨hunhooked, hnode⟩ := h.toCarries.unhook h.nodup_ids (.inl rfl)
  have hids := (ids_plug_eraseRoot _ y nil s).trans h.ids
  obtain ⟨hymem, hnodup⟩ := List.nodup_cons.mp (hids.nodup_iff.mpr List.nodup_range)
  rw [show (node y nil s).eraseRoot = s from rfl, ← hplug] at hunhooked hids hymem hnodup
  have hvalue : (a.unhook y.1).value? y.1 = some y.2 := by
    rw [value?, hnode, h.toCarries.node?_eq]
    rfl
  obtain ⟨hexchanged, hvalue⟩ := hunhooked.exchange hnodup hymem hvalue
  have hsize : ((a.unhook y.1).exchange x.1 y.1).size = a.size := by simp
  have hids : (y.1 :: (plug cs (node (x.1, y.2) l (plug ds s))).ids).Perm
      (List.range ((a.unhook y.1).exchange x.1 y.1).size) := by
    rw [hsize]
    exact (List.Perm.cons y.1 ((ids_plug_node cs (x.1, y.2) l _).trans
      (ids_plug_node cs x l _).symm)).trans hids
  obtain ⟨hresult, hrep⟩ := hexchanged.discard hids
  exact ⟨hresult.trans hvalue, by rwa [hsize] at hrep⟩

/-- **Removal** gives the value of the node and deletes the root of the subtree below it. -/
theorem Represents.remove {cs : List (Crumb (NodeId × α))} {x : NodeId × α}
    {l r : BinaryTree (NodeId × α)} (h : a.Represents (plug cs (node x l r))) :
    (a.remove x.1).1 = some x.2 ∧ ∃ t, (a.remove x.1).2.Represents t ∧
      t.shape = (plug cs (node x l r).eraseRoot).shape := by
  have hnode := h.toCarries.node?_eq
  have hleft : a.left? x.1 = l.link := by rw [left?, hnode]; rfl
  have hright : a.right? x.1 = r.link := by rw [right?, hnode]; rfl
  rw [Arena.remove, hleft, hright]
  cases l with
  | nil =>
    obtain ⟨hvalue, hrep⟩ := h.remove_of_child (.inl rfl)
    exact ⟨hvalue, _, hrep, shape_relocate _ _ _⟩
  | node y ll lr =>
    cases r with
    | nil =>
      obtain ⟨hvalue, hrep⟩ := h.remove_of_child (.inr rfl)
      exact ⟨hvalue, _, hrep, shape_relocate _ _ _⟩
    | node z rl rr =>
      obtain ⟨w, hw⟩ := Option.isSome_iff_exists.mp (leftmost?_isSome z rl rr)
      obtain ⟨-, -, -, hr⟩ := carries_plug.mp h.toCarries
      have hheight : (node z rl rr).height ≤ a.size :=
        Nat.le_trans (Nat.le_max_right _ _) (Nat.le_trans (Nat.le_succ _) h.height_le)
      have hleftmost : a.leftmost z.1 = w.1 := hr.leftmostWithin hw rfl hheight
      obtain ⟨hvalue, hrep⟩ := h.remove_of_children hw
      show (((a.unhook (a.leftmost z.1)).exchange x.1 (a.leftmost z.1)).discard
        (a.leftmost z.1)).1 = _ ∧ ∃ t, (((a.unhook (a.leftmost z.1)).exchange x.1
          (a.leftmost z.1)).discard (a.leftmost z.1)).2.Represents t ∧ _
      rw [hleftmost]
      refine ⟨hvalue, _, hrep, (shape_relocate _ _ _).trans ?_⟩
      rw [shape_plug, shape_plug]
      simp only [eraseRoot, hw, Option.getD_some]
      rfl

end Arena

end Containers
