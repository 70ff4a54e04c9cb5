import Containers.Json.Sequence
import Containers.Json.Record
/-!
# Values with a stored form

* `Json.Stored α` — how values are written and read;
* the instances for integers, strings, lists and optional values.

An optional value is written as its value, and as the word for nothing where there is none. What is
read back from that word is therefore decided by the place it stands in.
-/

namespace Containers.Json

/-- Values with a stored form. -/
class Stored (α : Type) where
  write : α → List Char
  /-- Reads a value, by the number of brackets that may be opened in it. -/
  reader : Nat → Reader α

variable {α : Type} [Stored α]

/-- An optional value as it is written. -/
def writeOption : Option α → List Char
  | none => null
  | some a => Stored.write a

instance : Stored Int64 where
  write n := writeInt n.toInt
  reader _ := integer

instance : Stored String where
  write := quoted
  reader _ := string

instance : Stored (List α) where
  write := writeSequence Stored.write
  reader := sequenceWithin Stored.reader

instance : Stored (Option α) where
  write := writeOption
  reader depth := orNull (Stored.reader depth)

end Containers.Json
