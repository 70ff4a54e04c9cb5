import Mathlib.Data.List.Induction
import Mathlib.Data.List.Pairwise
import Containers.KeyedMap.Basic

/-!
# Dictionaries

What a keyed map stands for: under each key an entry, the same one under equal keys, in no order.

* `Dictionary κ β` — the entry under each key, with the key that is kept;
* `Dictionary.insert`, `Dictionary.erase`, `Dictionary.map`, `Dictionary.ofPairs` — the changes,
  said of each key by itself;
* `Dictionary.Lists` — a list gives the entries of a dictionary, each once;
* **`Lists.unique`** and **`Lists.perm_of_lists`** — a list has one dictionary, and a dictionary one
  list up to order;
* `Lists.insert`, `Lists.erase`, `Lists.map` — lists through the changes.
-/

namespace Containers

variable {κ β : Type}

/-- The entry under each key. Its own key may be another than the one that it is looked up by. -/
def Dictionary (κ β : Type) : Type :=
  κ → Option (κ × β)

namespace Dictionary

def empty : Dictionary κ β :=
  fun _ => none

/-- Every value becomes what `f` makes of it and its key. -/
def map (d : Dictionary κ β) (f : κ → β → β) : Dictionary κ β :=
  fun key => (d key).map fun (k, v) => (k, f k v)

variable [BEq κ]

/-- A value under a key. Where there is an entry, its key stays. -/
def insert (d : Dictionary κ β) (key : κ) (value : β) : Dictionary κ β :=
  fun k => if k == key then some (((d key).map Prod.fst).getD key, value) else d k

def erase (d : Dictionary κ β) (key : κ) : Dictionary κ β :=
  fun k => if k == key then none else d k

/-- Of the pairs with equal keys, the key of the first and the value of the last. -/
def ofPairs (pairs : List (κ × β)) : Dictionary κ β :=
  fun key =>
    match (pairs.filter (·.1 == key)).head?, (pairs.filter (·.1 == key)).getLast? with
    | some first, some last => some (first.1, last.2)
    | _, _ => none

/-- Two entries do not have equal keys. -/
def Differ (e e' : κ × β) : Prop :=
  (e.1 == e'.1) = false

instance [PartialEquivBEq κ] : Std.Symm (Differ : κ × β → κ × β → Prop) where
  symm _ _ h := BEq.comm.trans h

instance : DecidableRel (Differ : κ × β → κ × β → Prop) :=
  fun e e' => inferInstanceAs (Decidable ((e.1 == e'.1) = false))

/-- No two entries of a list have equal keys. -/
def Apart (es : List (κ × β)) : Prop :=
  es.Pairwise Differ

instance (es : List (κ × β)) : Decidable (Apart es) :=
  inferInstanceAs (Decidable (es.Pairwise Differ))

theorem apart_iff_keys {es : List (κ × β)} :
    Apart es ↔ (es.map Prod.fst).Pairwise fun k k' => (k == k') = false := by
  rw [List.pairwise_map]
  exact Iff.rfl

/-- A list gives the entries of a dictionary, each once. -/
structure Lists (d : Dictionary κ β) (es : List (κ × β)) : Prop where
  apart : Apart es
  find_iff : ∀ key e, d key = some e ↔ e ∈ es ∧ e.1 == key

/-- The dictionary of a list. -/
def ofList (es : List (κ × β)) : Dictionary κ β :=
  fun key => es.find? (·.1 == key)

variable {d d' : Dictionary κ β} {es fs : List (κ × β)} {key : κ} {value : β}

theorem lists_empty : (empty : Dictionary κ β).Lists [] :=
  ⟨.nil, fun key e => by simp [empty]⟩

/-- A list has one dictionary. -/
theorem Lists.unique (h : d.Lists es) (h' : d'.Lists es) : d = d' := by
  funext key
  apply Option.ext
  intro e
  rw [h.find_iff, h'.find_iff]

theorem mem_of_find? {e : κ × β} (h : es.find? (·.1 == key) = some e) :
    e ∈ es ∧ e.1 == key :=
  ⟨List.mem_of_find?_eq_some h, by simpa using List.find?_some h⟩

theorem Lists.find?_eq (h : d.Lists es) (key : κ) : es.find? (·.1 == key) = d key := by
  cases hfind : es.find? (·.1 == key) with
  | some e =>
    exact ((h.find_iff key e).mpr (mem_of_find? hfind)).symm
  | none =>
    cases hd : d key with
    | none => rfl
    | some e =>
      obtain ⟨hmem, hkey⟩ := (h.find_iff key e).mp hd
      exact absurd hkey (List.find?_eq_none.mp hfind e hmem)

/-- In a list with keys apart, taking the first entry under a key away takes all of them away. -/
theorem Apart.eraseP_eq_filter [PartialEquivBEq κ] (h : Apart es) (key : κ) :
    es.eraseP (·.1 == key) = es.filter fun e => !(e.1 == key) := by
  induction es with
  | nil => rfl
  | cons e es ih =>
    obtain ⟨hhead, htail⟩ := List.pairwise_cons.mp h
    cases hkey : e.1 == key with
    | false =>
      rw [List.eraseP_cons, hkey, List.filter_cons_of_pos (by simp [hkey]), ← ih htail]
      rfl
    | true =>
      rw [List.eraseP_cons, hkey, List.filter_cons_of_neg (by simp [hkey])]
      symm
      show _ = es
      rw [List.filter_eq_self]
      intro e' hmem
      have hdiffer : (e.1 == e'.1) = false := hhead e' hmem
      rw [← BEq.congr_right hkey, BEq.comm, hdiffer]
      rfl

theorem Lists.erase [PartialEquivBEq κ] (h : d.Lists es) (key : κ) :
    (d.erase key).Lists (es.eraseP (·.1 == key)) := by
  refine ⟨h.apart.sublist List.eraseP_sublist, fun k e => ?_⟩
  rw [h.apart.eraseP_eq_filter, List.mem_filter, Dictionary.erase]
  cases hk : k == key with
  | true =>
    have hsame : (e.1 == k) = (e.1 == key) := BEq.congr_right hk
    rw [if_pos rfl, hsame]
    cases e.1 == key <;> simp
  | false =>
    rw [if_neg (by simp), h.find_iff]
    refine ⟨fun ⟨hmem, hek⟩ => ⟨⟨hmem, ?_⟩, hek⟩, fun ⟨⟨hmem, _⟩, hek⟩ => ⟨hmem, hek⟩⟩
    rw [BEq.congr_left hek, hk]
    rfl

/-- New values under the keys as they are. -/
theorem Lists.map (h : d.Lists es) (f : κ → β → β) :
    (d.map f).Lists (es.map fun (k, v) => (k, f k v)) := by
  refine ⟨List.pairwise_map.mpr h.apart, fun key e => ?_⟩
  rw [Dictionary.map, Option.map_eq_some_iff, List.mem_map]
  constructor
  · rintro ⟨e, hd, rfl⟩
    obtain ⟨hmem, hkey⟩ := (h.find_iff key e).mp hd
    exact ⟨⟨e, hmem, rfl⟩, hkey⟩
  · rintro ⟨⟨e, hmem, rfl⟩, hkey⟩
    exact ⟨e, (h.find_iff key e).mpr ⟨hmem, hkey⟩, rfl⟩

section Equivalence

variable [EquivBEq κ]

/-- A list with keys apart gives the entries of its dictionary. -/
theorem Apart.lists (h : Apart es) : (ofList es).Lists es := by
  refine ⟨h, fun key e => ⟨?_, ?_⟩⟩
  · exact mem_of_find?
  · rintro ⟨hmem, hkey⟩
    have hsome : (es.find? (·.1 == key)).isSome := List.find?_isSome.mpr ⟨e, hmem, hkey⟩
    obtain ⟨e', he'⟩ := Option.isSome_iff_exists.mp hsome
    obtain ⟨hmem', hkey'⟩ := mem_of_find? he'
    -- Were the entry that is found another one, their keys would be equal and yet apart.
    have hsame : e' = e := by
      by_contra hne
      have hdiffer : Differ e' e := h.forall hmem' hmem hne
      rw [Differ, BEq.trans hkey' (BEq.symm hkey)] at hdiffer
      exact Bool.noConfusion hdiffer
    exact hsame ▸ he'

theorem Apart.nodup (h : Apart es) : es.Nodup := by
  apply List.Pairwise.imp ?_ h
  rintro e _ hdiffer rfl
  rw [Differ, BEq.rfl] at hdiffer
  exact Bool.noConfusion hdiffer

theorem Lists.perm (h : d.Lists es) (hperm : es.Perm fs) : d.Lists fs := by
  refine ⟨(hperm.pairwise_iff fun hdiffer => Std.Symm.symm _ _ hdiffer).mp h.apart, ?_⟩
  intro key e
  rw [h.find_iff, hperm.mem_iff]

/-- A dictionary has one list up to order. -/
theorem Lists.perm_of_lists (h : d.Lists es) (h' : d.Lists fs) : es.Perm fs := by
  rw [List.perm_ext_iff_of_nodup h.apart.nodup h'.apart.nodup]
  intro e
  have hes := h.find_iff e.1 e
  have hfs := h'.find_iff e.1 e
  rw [BEq.rfl] at hes hfs
  simpa using hes.symm.trans hfs

/-- Equal keys have one entry. -/
theorem Lists.congr (h : d.Lists es) {k k' : κ} (hk : k == k') : d k = d k' := by
  apply Option.ext
  intro e
  rw [h.find_iff, h.find_iff, BEq.congr_right hk]

/-- A value under a key that is there changes one value. -/
theorem Lists.insert_eq_map (h : d.Lists es) (hkey : (d key).isSome) :
    d.insert key value = d.map fun k v => if k == key then value else v := by
  obtain ⟨e, he⟩ := Option.isSome_iff_exists.mp hkey
  funext k
  rw [Dictionary.insert, Dictionary.map]
  cases hk : k == key with
  | true =>
    have hmatch := ((h.find_iff key e).mp he).2
    rw [if_pos rfl, h.congr hk, he]
    simp [hmatch]
  | false =>
    rw [if_neg (by simp)]
    cases hd : d k with
    | none => rfl
    | some e' =>
      have hmatch := ((h.find_iff k e').mp hd).2
      simp [BEq.congr_left hmatch, hk]

/-- A key that is not there is added as it is. -/
theorem Lists.insert_of_none (h : d.Lists es) (hkey : d key = none) :
    (d.insert key value).Lists (es ++ [(key, value)]) := by
  have hothers : ∀ e ∈ es, (e.1 == key) = false := by
    intro e hmem
    rw [← Bool.not_eq_true]
    intro hmatch
    rw [(h.find_iff key e).mpr ⟨hmem, hmatch⟩] at hkey
    cases hkey
  refine ⟨?_, fun k e => ?_⟩
  · apply List.pairwise_append.mpr
    refine ⟨h.apart, List.pairwise_singleton _ _, fun e hmem e' hmem' => ?_⟩
    rw [List.mem_singleton.mp hmem']
    exact hothers e hmem
  · rw [List.mem_append, List.mem_singleton, Dictionary.insert, hkey]
    cases hk : k == key with
    | true =>
      rw [if_pos rfl, BEq.congr_right hk, Option.some.injEq]
      constructor
      · rintro rfl
        exact ⟨.inr rfl, BEq.rfl⟩
      · rintro ⟨hmem | rfl, hmatch⟩
        · rw [hothers e hmem] at hmatch
          exact Bool.noConfusion hmatch
        · rfl
    | false =>
      rw [if_neg (by simp), h.find_iff]
      refine ⟨fun ⟨hmem, hmatch⟩ => ⟨.inl hmem, hmatch⟩, ?_⟩
      rintro ⟨hmem | rfl, hmatch⟩
      · exact ⟨hmem, hmatch⟩
      · rw [BEq.symm hmatch] at hk
        exact Bool.noConfusion hk

/-- **Pairs one by one** make the dictionary of the pairs. -/
theorem ofPairs_concat (pairs : List (κ × β)) (key : κ) (value : β) :
    ofPairs (pairs ++ [(key, value)]) = (ofPairs pairs).insert key value := by
  funext k
  rw [Dictionary.insert, ofPairs, List.filter_append]
  cases hk : k == key with
  | false =>
    have hnone : [(key, value)].filter (·.1 == k) = [] := by
      rw [List.filter_cons_of_neg (by simp [BEq.comm.trans hk])]
      rfl
    rw [if_neg (by simp), hnone, List.append_nil, ofPairs]
  | true =>
    have hone : [(key, value)].filter (·.1 == k) = [(key, value)] :=
      List.filter_cons_of_pos (BEq.symm hk)
    have hsame : pairs.filter (·.1 == k) = pairs.filter (·.1 == key) :=
      List.filter_congr fun e _ => BEq.congr_right hk
    rw [if_pos rfl, hone, hsame, ofPairs]
    cases pairs.filter (·.1 == key) with
    | nil => rfl
    | cons first rest =>
      rw [List.getLast?_concat]
      cases hlast : (first :: rest).getLast? with
      | none => simp at hlast
      | some last => rfl

theorem ofPairs_eq_foldl (pairs : List (κ × β)) :
    ofPairs pairs = pairs.foldl (fun d (k, v) => d.insert k v) empty := by
  induction pairs using List.reverseRecOn with
  | nil => rfl
  | append_singleton pairs pair ih =>
    rw [List.foldl_append, ← ih]
    exact ofPairs_concat pairs pair.1 pair.2

end Equivalence

end Dictionary

end Containers
