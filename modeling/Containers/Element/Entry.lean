import Containers.Element.Basic
/-!
# Entries

An entry is a key with a tag. Entries are compared by their keys alone, so that two entries may be
equal and still be told apart.

* `Entry` — the type, with its order and its equality;
* `Entry.shape` — its stored form.
-/

namespace Containers

/-- A key with a tag. -/
structure Entry where
  key : Int64
  tag : String
  deriving Repr

namespace Entry

instance : Ord Entry where
  compare a b := compare a.key b.key

instance : BEq Entry where
  beq a b := a.key == b.key

instance : Outlined Entry where
  outline e := .record "Entry" [("key", outline e.key), ("tag", outline e.tag)]

/-! ### The stored form -/

/-- The fields of an entry that are read so far. -/
structure Draft where
  key : Option Int64
  tag : Option String

/-- The stored form of an entry. -/
def shape : Json.Shape Draft Entry where
  name := "Entry"
  fields :=
    [ { name := "key"
        filled := fun d => d.key.isSome
        fill := fun d => Json.integer.refine fun k => .ok { d with key := some k } },
      { name := "tag"
        filled := fun d => d.tag.isSome
        fill := fun d => Json.string.refine fun t => .ok { d with tag := some t } } ]
  blank := ⟨none, none⟩
  finish
    | ⟨none, _⟩ => .error (.missingField "key")
    | ⟨_, none⟩ => .error (.missingField "tag")
    | ⟨some key, some tag⟩ => .ok ⟨key, tag⟩

instance : Json.Stored Entry where
  write e :=
    Json.writeRecord [("key", Json.Stored.write e.key), ("tag", Json.Stored.write e.tag)]
  reader := Json.recordWithin fun _ => shape

end Entry

instance : Element Entry where

end Containers
