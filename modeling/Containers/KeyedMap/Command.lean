import Containers.KeyedMap.Basic
import Containers.Element.Basic
/-!
# Commands for a keyed map of integers

* `KeyedMap.Query` — what can be asked of a map; `KeyedMap.ask` answers;
* `KeyedMap.Update` — what can be done to a map; `KeyedMap.perform` does it;
* `KeyedMap.sorted` — the entries in ascending order of their keys.

A map has no order of its own, so replies give entries in the order of their keys and values in
ascending order, and a map of several entries has no outline.
-/

namespace Containers.KeyedMap

/-- The entries in ascending order of their keys. -/
def sorted {κ β : Type} [Ord κ] (m : KeyedMap κ β) : List (κ × β) :=
  m.entries.mergeSort fun a b => (compare a.1 b.1).isLE

/-- What becomes of a value when all of them change. Sums and products keep their low 64 bits. -/
inductive Change (κ : Type) where
  | add (n : Int64)
  | mul (n : Int64)
  | const (n : Int64)
  /-- Adds under the keys below a limit. -/
  | addBelow (limit : κ) (n : Int64)
  deriving Repr

def Change.apply {κ : Type} [Ord κ] (key : κ) (value : Int64) : Change κ → Int64
  | .add n => value + n
  | .mul n => value * n
  | .const n => n
  | .addBelow limit n => if (compare key limit).isLT then value + n else value

/-- What can be asked of a map. -/
inductive Query (κ : Type) where
  | get (key : κ)
  | contains (key : κ)
  | size
  | isEmpty
  | keys
  | values
  | entries
  /-- The entries that a fold comes by. -/
  | visited
  | outline (setting : Setting)

/-- What can be done to a map. -/
inductive Update (κ : Type) where
  | insert (key : κ) (value : Int64)
  | erase (key : κ)
  | change (change : Change κ)

/-- What a command tells. -/
inductive Reply (κ : Type) where
  | done
  | value (v : Option Int64)
  | count (n : Nat)
  | truth (b : Bool)
  | keys (ks : List κ)
  | values (vs : List Int64)
  | entries (es : List (κ × Int64))
  | text (s : String)
  /-- The outline would show an order that there is not. -/
  | unordered

variable {κ : Type} [Element κ]

/-- Answers a question. -/
def ask (m : KeyedMap κ Int64) : Query κ → Reply κ
  | .get key => .value (m.get? key)
  | .contains key => .truth (m.contains key)
  | .size => .count m.size
  | .isEmpty => .truth m.isEmpty
  | .keys => .keys (m.keys.mergeSort fun a b => (compare a b).isLE)
  | .values => .values (m.values.mergeSort fun a b => (compare a b).isLE)
  | .entries => .entries m.sorted
  | .visited => .entries (sorted ⟨m.fold (fun done k v => done ++ [(k, v)]) []⟩)
  | .outline setting =>
    if m.size ≤ 1 then .text ((Outlined.outline m).text setting) else .unordered

/-- Does an update. -/
def perform (m : KeyedMap κ Int64) : Update κ → Reply κ × KeyedMap κ Int64
  | .insert key value =>
    let (old, m) := m.insert key value
    (.value old, m)
  | .erase key =>
    let (old, m) := m.erase key
    (.value old, m)
  | .change change =>
    let (m, ()) := (m.update fun k v => pure (change.apply k v)).run ()
    (.done, m)

end Containers.KeyedMap
