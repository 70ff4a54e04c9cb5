import Containers.Element.Entry
import Containers.Proofs.KeyedMap.Dictionary

/-!
# Maps as dictionaries

A map does what its dictionary does, in whatever order its entries stand.

* `KeyedMap.Reports` — what a map tells is what there is to tell about a dictionary;
* `Replaced` — the values of a list are replaced, each by one call;
* `KeyedMap.Operation` — what can be done, to a map (`Operation.onMap`) and to a dictionary
  (`Dictionary.Step`);
* `KeyedMap.Runs`, `Dictionary.Runs` — operations one after the other; the entries of a map may be
  put into another order at any time;
* **`Lists.onMap`** — one operation;
* **`refines_dictionary`** — maps as they are made, and any run of operations.
-/

namespace Containers

variable {κ β σ : Type}

/-! ### Replacing values -/

/-- The values of a list are replaced in its order, each by one call with its key. -/
inductive Replaced (f : κ → β → StateM σ β) : List (κ × β) → σ → List (κ × β) → σ → Prop
  | nil (s : σ) : Replaced f [] s [] s
  | cons {key : κ} {value new : β} {es fs : List (κ × β)} {s s' s'' : σ}
      (hcall : (f key value).run s = (new, s')) (hrest : Replaced f es s' fs s'') :
      Replaced f ((key, value) :: es) s ((key, new) :: fs) s''

theorem Replaced.keys_eq {f : κ → β → StateM σ β} {es fs : List (κ × β)} {s s' : σ}
    (h : Replaced f es s fs s') : fs.map Prod.fst = es.map Prod.fst := by
  induction h with
  | nil => rfl
  | cons _ _ ih => rw [List.map_cons, List.map_cons, ih]

/-- Calls that go by the key and the value alone give the same whatever their order is. -/
theorem Replaced.eq_map {f : κ → β → β} {es fs : List (κ × β)} {s s' : σ}
    (h : Replaced (fun k v => pure (f k v)) es s fs s') :
    fs = es.map (fun (k, v) => (k, f k v)) ∧ s' = s := by
  induction h with
  | nil => exact ⟨rfl, rfl⟩
  | cons hcall _ ih =>
    obtain ⟨rfl, rfl⟩ := Prod.mk.inj hcall
    obtain ⟨rfl, rfl⟩ := ih
    exact ⟨rfl, rfl⟩

theorem replaced_mapM (f : κ → β → StateM σ β) (es : List (κ × β)) (s : σ) :
    ∃ fs s', (es.mapM fun (k, v) => (k, ·) <$> f k v).run s = (fs, s') ∧ Replaced f es s fs s' := by
  induction es generalizing s with
  | nil => exact ⟨[], s, rfl, .nil s⟩
  | cons e es ih =>
    obtain ⟨new, s', hcall⟩ : ∃ new s', (f e.1 e.2).run s = (new, s') := ⟨_, _, rfl⟩
    obtain ⟨fs, s'', hrest, hreplaced⟩ := ih s'
    refine ⟨(e.1, new) :: fs, s'', ?_, .cons hcall hreplaced⟩
    rw [List.mapM_cons, StateT.run_bind, StateT.run_map, hcall]
    show StateT.run (_ >>= _) s' = _
    rw [StateT.run_bind, hrest]
    rfl

namespace KeyedMap

theorem update_replaced (m : KeyedMap κ β) (f : κ → β → StateM σ β) (s : σ) :
    ∃ fs s', (m.update f).run s = (⟨fs⟩, s') ∧ Replaced f m.entries s fs s' := by
  obtain ⟨fs, s', hrun, hreplaced⟩ := replaced_mapM f m.entries s
  exact ⟨fs, s', by rw [update, StateT.run_map, hrun]; rfl, hreplaced⟩

variable [BEq κ] {m m' : KeyedMap κ β} {d : Dictionary κ β}

/-! ### What a map tells -/

/-- What a map tells is what there is to tell about a dictionary. -/
structure Reports (m : KeyedMap κ β) (d : Dictionary κ β) : Prop where
  lists : d.Lists m.entries
  get? : ∀ key, m.get? key = (d key).map Prod.snd
  contains : ∀ key, m.contains key = (d key).isSome
  isEmpty : m.isEmpty ↔ ∀ key, d key = none
  size : ∀ es, d.Lists es → m.size = es.length
  keys : ∀ es, d.Lists es → m.keys.Perm (es.map Prod.fst)
  values : ∀ es, d.Lists es → m.values.Perm (es.map Prod.snd)
  /-- A fold comes by every entry once, in some order. -/
  fold : ∃ es, d.Lists es ∧
    ∀ {τ : Type} (f : τ → κ → β → τ) (s : τ), m.fold f s = es.foldl (fun s e => f s e.1 e.2) s

theorem get?_eq_of_lists (h : d.Lists m.entries) (key : κ) :
    m.get? key = (d key).map Prod.snd := by
  rw [← h.find?_eq key]
  rfl

/-- A map whose entries are those of a dictionary tells nothing else. -/
theorem reports_of_lists [EquivBEq κ] (h : d.Lists m.entries) : m.Reports d where
  lists := h
  get? := get?_eq_of_lists h
  contains key := by
    rw [KeyedMap.contains, get?_eq_of_lists h, Option.isSome_map]
  isEmpty := by
    rw [KeyedMap.isEmpty, List.isEmpty_iff, List.eq_nil_iff_forall_not_mem]
    constructor
    · intro hempty key
      rw [Option.eq_none_iff_forall_ne_some]
      intro e he
      exact hempty e ((h.find_iff key e).mp he).1
    · intro hnone e hmem
      have hsome : d e.1 = some e := (h.find_iff e.1 e).mpr ⟨hmem, BEq.rfl⟩
      rw [hnone e.1] at hsome
      cases hsome
  size es hes := (h.perm_of_lists hes).length_eq
  keys es hes := (h.perm_of_lists hes).map Prod.fst
  values es hes := (h.perm_of_lists hes).map Prod.snd
  fold := ⟨m.entries, h, fun f s => rfl⟩

/-! ### Operations -/

/-- What can be done, where the calls of an update share a state. -/
inductive Operation (κ β σ : Type) where
  | insert (key : κ) (value : β)
  | erase (key : κ)
  | update (f : κ → β → StateM σ β)

/-- The value that an operation replaces or takes away, the map that it leaves, and the state. -/
def Operation.onMap (m : KeyedMap κ β) (s : σ) :
    Operation κ β σ → (Option β × KeyedMap κ β) × σ
  | .insert key value => (m.insert key value, s)
  | .erase key => (m.erase key, s)
  | .update f =>
    let (m, s) := (m.update f).run s
    ((none, m), s)

/-- Operations one after the other, on entries that stand in any order, and in another one before
each operation and at the end. -/
inductive Runs : KeyedMap κ β → σ → List (Operation κ β σ) → List (Option β) → KeyedMap κ β → σ →
    Prop
  | done {m m' : KeyedMap κ β} {s : σ} (hperm : m.entries.Perm m'.entries) : Runs m s [] [] m' s
  | step {m m₁ m₂ m' : KeyedMap κ β} {s s₂ s' : σ} {op : Operation κ β σ}
      {ops : List (Operation κ β σ)} {reply : Option β} {replies : List (Option β)}
      (hperm : m.entries.Perm m₁.entries) (hop : op.onMap m₁ s = ((reply, m₂), s₂))
      (hrest : Runs m₂ s₂ ops replies m' s') : Runs m s (op :: ops) (reply :: replies) m' s'

/-- Any operations can be done. -/
theorem exists_runs (m : KeyedMap κ β) (s : σ) (ops : List (Operation κ β σ)) :
    ∃ replies m' s', Runs m s ops replies m' s' := by
  induction ops generalizing m s with
  | nil => exact ⟨[], m, s, .done (.refl _)⟩
  | cons op ops ih =>
    obtain ⟨replies, m', s', hrest⟩ := ih (op.onMap m s).1.2 (op.onMap m s).2
    exact ⟨_, m', s', .step (.refl _) rfl hrest⟩

end KeyedMap

namespace Dictionary

open KeyedMap (Operation)

variable [BEq κ] {d d' : Dictionary κ β} {m m' : KeyedMap κ β} {s s' : σ}

/-- One operation. An update calls for the entries in some order, as they are listed. -/
inductive Step (d : Dictionary κ β) (s : σ) :
    Operation κ β σ → Option β → Dictionary κ β → σ → Prop
  | insert (key : κ) (value : β) :
      Step d s (.insert key value) ((d key).map Prod.snd) (d.insert key value) s
  | erase (key : κ) : Step d s (.erase key) ((d key).map Prod.snd) (d.erase key) s
  | update {f : κ → β → StateM σ β} {es fs : List (κ × β)} {d' : Dictionary κ β} {s' : σ}
      (hes : d.Lists es) (hreplaced : Replaced f es s fs s') (hfs : d'.Lists fs) :
      Step d s (.update f) none d' s'

/-- Operations one after the other. -/
inductive Runs : Dictionary κ β → σ → List (Operation κ β σ) → List (Option β) → Dictionary κ β →
    σ → Prop
  | done (d : Dictionary κ β) (s : σ) : Runs d s [] [] d s
  | step {d d₁ d' : Dictionary κ β} {s s₁ s' : σ} {op : Operation κ β σ}
      {ops : List (Operation κ β σ)} {reply : Option β} {replies : List (Option β)}
      (hop : d.Step s op reply d₁ s₁) (hrest : Runs d₁ s₁ ops replies d' s') :
      Runs d s (op :: ops) (reply :: replies) d' s'

/-- An update by the key and the value alone leaves nothing to the order of its calls. -/
theorem Step.update_eq_map {f : κ → β → β} {reply : Option β}
    (h : d.Step s (.update fun k v => pure (f k v)) reply d' s') : d' = d.map f ∧ s' = s := by
  cases h with
  | update hes hreplaced hfs =>
    obtain ⟨rfl, rfl⟩ := hreplaced.eq_map
    exact ⟨hfs.unique (hes.map f), rfl⟩

/-- Pairs that are inserted make a dictionary that depends on nothing else. -/
theorem Runs.insert_eq_foldl {pairs : List (κ × β)} {replies : List (Option β)}
    (h : d.Runs s (pairs.map fun (k, v) => .insert k v) replies d' s') :
    d' = pairs.foldl (fun d (k, v) => d.insert k v) d := by
  induction pairs generalizing d s replies with
  | nil =>
    cases h
    rfl
  | cons pair pairs ih =>
    cases h with
    | step hop hrest =>
      cases hop
      exact ih hrest

section Equivalence

variable [EquivBEq κ]

theorem Lists.insert (h : d.Lists m.entries) (key : κ) (value : β) :
    (m.insert key value).1 = (d key).map Prod.snd ∧
      (d.insert key value).Lists (m.insert key value).2.entries := by
  have hget := KeyedMap.get?_eq_of_lists h key
  rw [KeyedMap.insert, hget]
  cases hd : d key with
  | none => exact ⟨rfl, h.insert_of_none hd⟩
  | some e =>
    refine ⟨rfl, ?_⟩
    rw [h.insert_eq_map (by rw [hd]; rfl)]
    exact h.map _

/-- **One operation** on a map does what it does on the dictionary. -/
theorem Lists.onMap (h : d.Lists m.entries) {op : Operation κ β σ} {reply : Option β}
    (hop : op.onMap m s = ((reply, m'), s')) :
    ∃ d', d.Step s op reply d' s' ∧ d'.Lists m'.entries := by
  cases op with
  | insert key value =>
    obtain ⟨hreply, hlists⟩ := h.insert key value
    obtain ⟨hpair, rfl⟩ := Prod.mk.inj hop
    rw [hpair] at hreply hlists
    obtain rfl : reply = (d key).map Prod.snd := hreply
    exact ⟨_, .insert key value, hlists⟩
  | erase key =>
    obtain ⟨hpair, rfl⟩ := Prod.mk.inj hop
    obtain ⟨rfl, rfl⟩ := Prod.mk.inj hpair
    rw [KeyedMap.get?_eq_of_lists h]
    exact ⟨_, .erase key, h.erase key⟩
  | update f =>
    obtain ⟨fs, t, hrun, hreplaced⟩ := m.update_replaced f s
    rw [Operation.onMap, hrun] at hop
    obtain ⟨hpair, rfl⟩ := Prod.mk.inj hop
    obtain ⟨rfl, rfl⟩ := Prod.mk.inj hpair
    have hfs : Apart fs := by
      rw [apart_iff_keys, hreplaced.keys_eq]
      exact apart_iff_keys.mp h.apart
    exact ⟨_, .update h hreplaced hfs.lists, hfs.lists⟩

/-- **Any operations**, in whatever order the entries stand. -/
theorem Lists.runs (h : d.Lists m.entries) {ops : List (Operation κ β σ)}
    {replies : List (Option β)} (hruns : KeyedMap.Runs m s ops replies m' s') :
    ∃ d', d.Runs s ops replies d' s' ∧ d'.Lists m'.entries := by
  induction hruns generalizing d with
  | done hperm => exact ⟨d, .done d _, h.perm hperm⟩
  | step hperm hop _ ih =>
    obtain ⟨d₁, hstep, h₁⟩ := (h.perm hperm).onMap hop
    obtain ⟨d', hrest, h'⟩ := ih h₁
    exact ⟨d', .step hstep hrest, h'⟩

/-- The map of some pairs, added to a map. -/
theorem Lists.foldl_insert (h : d.Lists m.entries) (pairs : List (κ × β)) :
    (pairs.foldl (fun d (k, v) => d.insert k v) d).Lists
      (pairs.foldl (fun m (k, v) => (m.insert k v).2) m).entries := by
  induction pairs generalizing d m with
  | nil => exact h
  | cons pair pairs ih => exact ih (h.insert pair.1 pair.2).2

theorem lists_ofPairs (pairs : List (κ × β)) :
    (ofPairs pairs).Lists (KeyedMap.ofList pairs).entries := by
  rw [ofPairs_eq_foldl]
  exact Lists.foldl_insert lists_empty pairs

/-- A key stays as long as it is there, and gives way to the next one that is equal. -/
theorem insert_keeps_first (d : Dictionary κ β) {key key' : κ} (hkey : key == key') (value : β) :
    (∀ e, d key' = some e → d.insert key' value key = some (e.1, value)) ∧
      (d.erase key).insert key' value key = some (key', value) := by
  constructor
  · intro e he
    rw [Dictionary.insert, if_pos hkey, he]
    rfl
  · rw [Dictionary.insert, if_pos hkey, Dictionary.erase, if_pos (BEq.symm hkey)]
    rfl

end Equivalence

end Dictionary

namespace KeyedMap

/-- **A map is a dictionary that keeps first keys.**  A map that is empty, has its entries given, or
is made of pairs reports the dictionary of these; whatever is done to a map that reports a
dictionary, in whatever order its entries stand, is done to the dictionary, with the same replies,
and the map reports what comes of it.  Pairs that are inserted one by one make the map of the pairs,
and an update whose calls share nothing does not depend on their order. -/
theorem refines_dictionary [BEq κ] [EquivBEq κ] :
    (empty : KeyedMap κ β).Reports .empty ∧
    (∀ m : KeyedMap κ β, Dictionary.Apart m.entries → m.Reports (.ofList m.entries)) ∧
    (∀ pairs : List (κ × β), (ofList pairs).Reports (.ofPairs pairs) ∧
      ∀ (s : σ) replies m' s',
        Runs empty s (pairs.map fun (k, v) => .insert k v) replies m' s' →
          m'.entries.Perm (ofList pairs).entries) ∧
    (∀ (m : KeyedMap κ β) (d : Dictionary κ β), m.Reports d →
      ∀ (s : σ) (ops : List (Operation κ β σ)), (∃ replies m' s', Runs m s ops replies m' s') ∧
        ∀ replies m' s', Runs m s ops replies m' s' →
          ∃ d', d.Runs s ops replies d' s' ∧ m'.Reports d') ∧
    (∀ (d : Dictionary κ β) (f : κ → β → β) (s : σ) reply d' s',
      d.Step s (.update fun k v => pure (f k v)) reply d' s' → d' = d.map f ∧ s' = s) ∧
    ∀ (d : Dictionary κ β) (key key' : κ), key == key' → ∀ value,
      (∀ e, d key' = some e → d.insert key' value key = some (e.1, value)) ∧
        (d.erase key).insert key' value key = some (key', value) := by
  refine ⟨reports_of_lists Dictionary.lists_empty, fun m hapart => reports_of_lists hapart.lists,
    ?_, ?_, fun d f s reply d' s' hstep => hstep.update_eq_map,
    fun d key key' hkey => d.insert_keeps_first hkey⟩
  · intro pairs
    refine ⟨reports_of_lists (Dictionary.lists_ofPairs pairs), fun s replies m' s' hruns => ?_⟩
    obtain ⟨d', hd', hlists⟩ := Dictionary.lists_empty.runs hruns
    rw [hd'.insert_eq_foldl, ← Dictionary.ofPairs_eq_foldl] at hlists
    exact hlists.perm_of_lists (Dictionary.lists_ofPairs pairs)
  · intro m d hreports s ops
    refine ⟨exists_runs m s ops, fun replies m' s' hruns => ?_⟩
    obtain ⟨d', hd', hlists⟩ := hreports.lists.runs hruns
    exact ⟨d', hd', reports_of_lists hlists⟩

instance : EquivBEq Entry where
  symm h := BEq.symm (α := Int64) h
  trans h h' := BEq.trans (α := Int64) h h'
  rfl := BEq.rfl (α := Int64)

/-- Two entries, one of them given twice. -/
def labelled : KeyedMap Entry Int64 :=
  ofList [(⟨1, "a"⟩, 10), (⟨2, "b"⟩, 20), (⟨1, "c"⟩, 30)]

/-- Gives a key that is there a value, another key a new tag, and adds up the values on the way. -/
def relabelling : List (Operation Entry Int64 Int64) :=
  [.insert ⟨2, "x"⟩ 5, .erase ⟨1, "y"⟩, .insert ⟨1, "d"⟩ 7,
    .update fun _ value sum => (value + sum, sum + value)]

/-- The entries are exchanged before the values are added up. -/
theorem refines_dictionary_labelled :
    Dictionary.Apart labelled.entries ∧ labelled.Reports (.ofList labelled.entries) ∧
    ((⟨1, "d"⟩ : Entry) == ⟨1, "q"⟩) ∧
    ∃ m' : KeyedMap Entry Int64, m'.entries.map (·.1.tag) = ["d", "b"] ∧ m'.values = [7, 12] ∧
      Runs labelled 0 relabelling [some 20, some 30, none, none] m' 12 ∧
      ∃ d', Dictionary.Runs (.ofList labelled.entries) 0 relabelling [some 20, some 30, none, none]
        d' 12 ∧ m'.Reports d' ∧ d' ⟨1, "q"⟩ = some (⟨1, "d"⟩, 7) := by
  obtain ⟨-, hfrom, -, hrun, -⟩ := refines_dictionary (κ := Entry) (β := Int64) (σ := Int64)
  have hapart : Dictionary.Apart labelled.entries := by decide
  have hreports := hfrom labelled hapart
  have hruns : Runs labelled 0 relabelling [some 20, some 30, none, none]
      ⟨[(⟨1, "d"⟩, 7), (⟨2, "b"⟩, 12)]⟩ 12 :=
    .step (.refl _) rfl (.step (.refl _) rfl (.step (.refl _) rfl
      (.step (.swap _ _ _) rfl (.done (.refl _)))))
  obtain ⟨d', hd', hreports'⟩ := (hrun labelled _ hreports 0 relabelling).2 _ _ _ hruns
  have hnew : d' ⟨1, "q"⟩ = some (⟨1, "d"⟩, 7) :=
    (hreports'.lists.find_iff _ _).mpr ⟨.head _, rfl⟩
  exact ⟨hapart, hreports, rfl, _, rfl, rfl, hruns, d', hd', hreports', hnew⟩

end KeyedMap

end Containers
