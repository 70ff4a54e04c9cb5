import Containers.Json.Stored
/-!
# Elements

* `Element α` — what a collection asks of its elements: an order, an equality, an outline and a
  stored form;
* the instances for integers of 64 bits, strings, optional integers and lists of integers.

The order of optional values puts nothing first, and that of lists goes by the first difference.
-/

namespace Containers

/-- What a collection asks of its elements. -/
class Element (α : Type) extends Ord α, BEq α, Outlined α, Json.Stored α

instance : Outlined Int64 where
  outline n := .word (toString n.toInt)

instance : Element Int64 where

instance : Element String where

instance : Element (Option Int64) where

instance : Element (List Int64) where

end Containers
