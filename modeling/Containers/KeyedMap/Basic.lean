import Containers.Text.Outline
/-!
# Keyed maps

* `KeyedMap κ β` — values under keys, at most one value for keys that are equal;
* `KeyedMap.get?`, `KeyedMap.keys`, `KeyedMap.values`, `KeyedMap.fold` — reading;
* `KeyedMap.insert`, `KeyedMap.erase`, `KeyedMap.map`, `KeyedMap.update`, `KeyedMap.ofList` —
  changes.

Equal keys may be told apart. The key that came first is the one that is kept.
-/

namespace Containers

/-- Values under keys. -/
structure KeyedMap (κ β : Type) where
  entries : List (κ × β)
  deriving Repr

namespace KeyedMap

variable {κ β σ : Type}

def empty : KeyedMap κ β :=
  ⟨[]⟩

instance : Inhabited (KeyedMap κ β) :=
  ⟨empty⟩

def size (m : KeyedMap κ β) : Nat :=
  m.entries.length

def isEmpty (m : KeyedMap κ β) : Bool :=
  m.entries.isEmpty

def keys (m : KeyedMap κ β) : List κ :=
  m.entries.map Prod.fst

def values (m : KeyedMap κ β) : List β :=
  m.entries.map Prod.snd

/-- Calls `f` for every entry, with what it gave for the entries before. -/
def fold (m : KeyedMap κ β) (f : σ → κ → β → σ) (s : σ) : σ :=
  m.entries.foldl (fun s (k, v) => f s k v) s

/-- Replaces every value by what `f` makes of it and its key. -/
def map (m : KeyedMap κ β) (f : κ → β → β) : KeyedMap κ β :=
  ⟨m.entries.map fun (k, v) => (k, f k v)⟩

/-- Replaces every value by what `f` makes of it and its key, one after the other. -/
def update (m : KeyedMap κ β) (f : κ → β → StateM σ β) : StateM σ (KeyedMap κ β) :=
  (⟨·⟩) <$> m.entries.mapM fun (k, v) => (k, ·) <$> f k v

instance [Outlined κ] [Outlined β] : Outlined (KeyedMap κ β) where
  outline m := .dictionary (m.entries.map fun (k, v) => (outline k, outline v))

/-! ### By key -/

variable [BEq κ]

/-- The value under a key. -/
def get? (m : KeyedMap κ β) (key : κ) : Option β :=
  (m.entries.find? fun (k, _) => k == key).map Prod.snd

def contains (m : KeyedMap κ β) (key : κ) : Bool :=
  (m.get? key).isSome

/-- Puts a value under a key, and tells the value that it replaces. The key of an entry that is
there already stays. -/
def insert (m : KeyedMap κ β) (key : κ) (value : β) : Option β × KeyedMap κ β :=
  match m.get? key with
  | some old => (some old, m.map fun k v => if k == key then value else v)
  | none => (none, ⟨m.entries ++ [(key, value)]⟩)

/-- Takes the entry under a key away, and tells its value. -/
def erase (m : KeyedMap κ β) (key : κ) : Option β × KeyedMap κ β :=
  (m.get? key, ⟨m.entries.eraseP fun (k, _) => k == key⟩)

/-- The map of a list of entries: the last value for a key, under the first key for it. -/
def ofList (entries : List (κ × β)) : KeyedMap κ β :=
  entries.foldl (fun m (k, v) => (m.insert k v).2) empty

end KeyedMap

end Containers
