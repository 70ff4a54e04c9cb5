import Containers.Proofs.SearchTree.Layout

/-!
# Changing links and values

What the elementary changes do to the tree that an arena carries.

* `Arena.redirect` puts another link at the end of a trail (`HoldsAround.redirect`);
* `Arena.adopt` puts a subtree below another parent (`Holds.adopt`);
* **`Carries.unhook`** — a node with one child at most leaves the tree, and its child takes its
  place;
* **`Carries.exchange`** — a node of the tree takes the value of a node outside.

Each change touches the nodes that it names and no others: the `node?_..._of_ne` lemmas say so, and
`Holds.congr` carries everything else over.
-/

namespace Containers.Arena

open BinaryTree

variable {α : Type} {a : Arena α}

/-! ### What a change leaves alone -/

@[simp] theorem size_redirect (a : Arena α) (parent : Option NodeId) (old : NodeId)
    (new : Option NodeId) : (a.redirect parent old new).size = a.size := by
  cases parent with
  | none => rfl
  | some p => exact size_modify a p _

@[simp] theorem size_adopt (a : Arena α) (child parent : Option NodeId) :
    (a.adopt child parent).size = a.size := by
  cases child with
  | none => rfl
  | some c => exact size_modify a c _

@[simp] theorem root_adopt (a : Arena α) (child parent : Option NodeId) :
    (a.adopt child parent).root = a.root := by
  cases child <;> rfl

theorem node?_redirect_of_ne (a : Arena α) {parent : Option NodeId} {id : NodeId} (old : NodeId)
    (new : Option NodeId) (h : parent ≠ some id) :
    (a.redirect parent old new).node? id = a.node? id := by
  cases parent with
  | none => rfl
  | some p =>
    apply node?_modify_of_ne
    intro hid
    exact h (congrArg some hid.symm)

theorem node?_adopt_of_ne (a : Arena α) {child : Option NodeId} {id : NodeId}
    (parent : Option NodeId) (h : child ≠ some id) :
    (a.adopt child parent).node? id = a.node? id := by
  cases child with
  | none => rfl
  | some c =>
    apply node?_modify_of_ne
    intro hid
    exact h (congrArg some hid.symm)

theorem ne_some_of_notMem {t : BinaryTree (NodeId × α)} {id : NodeId} (h : id ∉ t.ids) :
    t.link ≠ some id := by
  intro hlink
  exact h (mem_ids_of_link hlink)

theorem holeParent_ne_some {cs : List (Crumb (NodeId × α))} {id : NodeId} (h : id ∉ trailIds cs) :
    holeParent cs ≠ some id := by
  intro hparent
  exact h (holeParent_mem hparent)

/-! ### Links -/

/-- **Redirecting** changes the link at the end of a trail and nothing else along it. -/
theorem HoldsAround.redirect {cs : List (Crumb (NodeId × α))} {old : NodeId}
    (h : a.HoldsAround cs (some old)) (hnodup : (old :: trailIds cs).Nodup)
    (new : Option NodeId) : (a.redirect (holeParent cs) old new).HoldsAround cs new := by
  cases cs with
  | nil => rfl
  | cons c cs =>
    obtain ⟨hc, hsibling, hcs⟩ := h
    obtain ⟨side, x, sibling⟩ := c
    simp only [trailIds_cons, List.nodup_cons, List.mem_cons, List.mem_append, not_or] at hnodup
    obtain ⟨⟨-, hold, -⟩, ⟨hxsibling, hxcs⟩, -⟩ := hnodup
    have hframe : ∀ id, id ≠ x.1 →
        (a.redirect (some x.1) old new).node? id = a.node? id := by
      intro id hid
      apply node?_redirect_of_ne
      intro h
      exact hid (Option.some.inj h).symm
    refine ⟨?_, ?_, ?_⟩
    · show (a.modify x.1 _).node? x.1 = _
      rw [node?_modify_self, hc]
      cases side with
      | left => simp [Crumb.node, Node.setChild]
      | right => simp [Crumb.node, Node.setChild, ne_some_of_notMem hold]
    · apply hsibling.congr
      intro id hid
      exact hframe id (ne_of_mem_of_not_mem hid hxsibling)
    · refine hcs.congr ?_ rfl
      intro id hid
      exact hframe id (ne_of_mem_of_not_mem hid hxcs)

/-- **Adopting** puts a subtree below another parent. -/
theorem Holds.adopt {parent : Option NodeId} {t : BinaryTree (NodeId × α)}
    (h : a.Holds parent t) (hnodup : t.ids.Nodup) (new : Option NodeId) :
    (a.adopt t.link new).Holds new t := by
  cases t with
  | nil => trivial
  | node x l r =>
    obtain ⟨hx, hl, hr⟩ := h
    simp only [ids_node, List.nodup_append, List.nodup_cons, List.mem_cons] at hnodup
    obtain ⟨-, ⟨hxr, -⟩, hdisjoint⟩ := hnodup
    have hframe : ∀ id, id ≠ x.1 → (a.adopt (some x.1) new).node? id = a.node? id := by
      intro id hid
      apply node?_adopt_of_ne
      intro h
      exact hid (Option.some.inj h).symm
    refine ⟨?_, ?_, ?_⟩
    · show (a.modify x.1 _).node? x.1 = _
      rw [node?_modify_self, hx]
      rfl
    · apply hl.congr
      intro id hid
      exact hframe id (hdisjoint id hid x.1 (.inl rfl))
    · apply hr.congr
      intro id hid
      exact hframe id (ne_of_mem_of_not_mem hid hxr)

/-- Hanging another subtree at the end of a trail: its root is adopted where the link is
redirected. -/
theorem carries_redirect_adopt {cs : List (Crumb (NodeId × α))} {old : NodeId}
    {parent : Option NodeId} {t : BinaryTree (NodeId × α)} (hcs : a.HoldsAround cs (some old))
    (ht : a.Holds parent t) (hnodup : (old :: (t.ids ++ trailIds cs)).Nodup) :
    ((a.redirect (holeParent cs) old t.link).adopt t.link (holeParent cs)).Carries (plug cs t) := by
  obtain ⟨hold, hids⟩ := List.nodup_cons.mp hnodup
  obtain ⟨htnodup, hcsnodup, hdisjoint⟩ := List.nodup_append.mp hids
  rw [List.mem_append, not_or] at hold
  have htrail := hcs.redirect (List.nodup_cons.mpr ⟨hold.2, hcsnodup⟩) t.link
  have htree : (a.redirect (holeParent cs) old t.link).Holds parent t := by
    apply ht.congr
    intro id hid
    apply node?_redirect_of_ne
    apply holeParent_ne_some
    intro hmem
    exact hdisjoint id hid id hmem rfl
  refine carries_plug.mpr ⟨htrail.congr ?_ (root_adopt _ _ _), htree.adopt htnodup _⟩
  intro id hid
  apply node?_adopt_of_ne
  apply ne_some_of_notMem
  intro hmem
  exact hdisjoint id hmem id hid rfl

@[simp] theorem size_unhook (a : Arena α) (id : NodeId) : (a.unhook id).size = a.size := by
  rw [unhook]
  cases a.node? id with
  | none => rfl
  | some n => simp

theorem Carries.unhook_eq {cs : List (Crumb (NodeId × α))} {x : NodeId × α}
    {l r : BinaryTree (NodeId × α)} (h : a.Carries (plug cs (node x l r))) :
    a.unhook x.1 = (a.redirect (holeParent cs) x.1 (l.link <|> r.link)).adopt
      (l.link <|> r.link) (holeParent cs) := by
  rw [unhook, h.node?_eq]
  rfl

/-- **Unhooking** a node with one child at most deletes it from the tree: its child takes its
place. -/
theorem Carries.unhook {cs : List (Crumb (NodeId × α))} {x : NodeId × α}
    {l r : BinaryTree (NodeId × α)} (h : a.Carries (plug cs (node x l r)))
    (hnodup : (plug cs (node x l r)).ids.Nodup) (hchild : l = nil ∨ r = nil) :
    (a.unhook x.1).Carries (plug cs (node x l r).eraseRoot) ∧
      (a.unhook x.1).node? x.1 = a.node? x.1 := by
  obtain ⟨hcs, -, hl, hr⟩ := carries_plug.mp h
  rw [(ids_plug cs (node x l r)).nodup_iff, ids_node, List.append_assoc, List.cons_append]
    at hnodup
  -- What is left of the node is its only child, or nothing.
  obtain ⟨t, ht, honly, herase, hids⟩ : ∃ t, a.Holds (some x.1) t ∧
      (l.link <|> r.link) = t.link ∧ (node x l r).eraseRoot = t ∧
      (x.1 :: (t.ids ++ trailIds cs)).Nodup := by
    rcases hchild with rfl | rfl
    · exact ⟨r, hr, rfl, rfl, hnodup⟩
    · refine ⟨l, hl, ?_, ?_, List.perm_middle.nodup_iff.mp hnodup⟩
      · cases l <;> rfl
      · cases l <;> rfl
  rw [h.unhook_eq, honly, herase]
  refine ⟨carries_redirect_adopt hcs ht hids, ?_⟩
  simp only [List.nodup_cons, List.mem_append, not_or] at hids
  rw [node?_adopt_of_ne _ _ (ne_some_of_notMem hids.1.1),
    node?_redirect_of_ne a _ _ (holeParent_ne_some hids.1.2)]

/-! ### Values -/

@[simp] theorem size_exchange (a : Arena α) (x y : NodeId) : (a.exchange x y).size = a.size := by
  rw [exchange]
  split <;> simp

/-- **Exchanging** the values of a node of the tree and of one outside leaves every link alone. -/
theorem Carries.exchange {cs : List (Crumb (NodeId × α))} {id y : NodeId} {v w : α}
    {l r : BinaryTree (NodeId × α)} (h : a.Carries (plug cs (node (id, v) l r)))
    (hnodup : (plug cs (node (id, v) l r)).ids.Nodup)
    (hy : y ∉ (plug cs (node (id, v) l r)).ids) (hw : a.value? y = some w) :
    (a.exchange id y).Carries (plug cs (node (id, w) l r)) ∧
      (a.exchange id y).value? y = some v := by
  obtain ⟨hcs, hid, hl, hr⟩ := carries_plug.mp h
  have hv : a.value? id = some v := by rw [value?, hid]; rfl
  obtain ⟨m, hm, rfl⟩ := Option.map_eq_some_iff.mp hw
  rw [(ids_plug cs _).nodup_iff, ids_node] at hnodup
  rw [(ids_plug cs _).mem_iff, ids_node] at hy
  simp only [List.append_assoc, List.cons_append, List.nodup_append, List.nodup_cons,
    List.mem_append, List.mem_cons, not_or] at hnodup hy
  obtain ⟨-, ⟨⟨hidr, hidcs⟩, -⟩, hidl⟩ := hnodup
  obtain ⟨hyl, hyid, hyr, hycs⟩ := hy
  rw [Arena.exchange, hv, hw]
  show ((a.modify id _).modify y _).Carries _ ∧ ((a.modify id _).modify y _).value? y = _
  have hframe : ∀ j, j ≠ id → j ≠ y → ((a.modify id fun n => { n with value := m.value }).modify y
      fun n => { n with value := v }).node? j = a.node? j := by
    intro j hjid hjy
    rw [node?_modify_of_ne _ _ hjy, node?_modify_of_ne _ _ hjid]
  refine ⟨carries_plug.mpr ⟨?_, ?_, ?_, ?_⟩, ?_⟩
  · refine hcs.congr ?_ rfl
    intro j hj
    exact hframe j (ne_of_mem_of_not_mem hj hidcs) (ne_of_mem_of_not_mem hj hycs)
  · rw [node?_modify_of_ne _ _ (Ne.symm hyid), node?_modify_self, hid]
    rfl
  · apply hl.congr
    intro j hj
    exact hframe j (hidl j hj id (.inl rfl)) (ne_of_mem_of_not_mem hj hyl)
  · apply hr.congr
    intro j hj
    exact hframe j (ne_of_mem_of_not_mem hj hidr) (ne_of_mem_of_not_mem hj hyr)
  · rw [value?, node?_modify_self, node?_modify_of_ne _ _ hyid, hm]
    rfl

end Containers.Arena
