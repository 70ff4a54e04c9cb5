import Containers.Text.Quoted
import Containers.Decimal.Notation
/-!
# Why a text is not read

* `Json.Found` — what stands in a text, as far as a message tells it;
* `Json.Misfit` — a value that is well formed and not what was wanted, with its `message`;
* `Json.Problem` — the four ways in which a reading ends without a value.
-/

namespace Containers.Json

/-- What stands in a text where something else was wanted. -/
inductive Found where
  | null
  | truth (b : Bool)
  | integer (n : Int)
  | fraction (x : Float)
  | text (s : String)
  | sequence
  | map

def Found.describe : Found → String
  | .null => "null"
  | .truth b => "boolean `" ++ (if b then "true" else "false") ++ "`"
  | .integer n => "integer `" ++ toString n ++ "`"
  | .fraction x => "floating point `" ++ floatText x ++ "`"
  | .text s => "string " ++ Text.quote s
  | .sequence => "sequence"
  | .map => "map"

/-- Why a well-formed value is not what was wanted. -/
inductive Misfit where
  | missingField (name : String)
  | duplicateField (name : String)
  /-- A sequence that ends before all of its elements are there. -/
  | tooShort (length : Nat) (wanted : String)
  | wrongKind (found : Found) (wanted : String)
  /-- An integer past the ends of its range. -/
  | outOfRange (value : Int) (wanted : String)
  /-- A value of the right shape that breaks a rule of its own, in the words of that rule. -/
  | rejected (reason : String)

def Misfit.message : Misfit → String
  | .missingField name => "missing field `" ++ name ++ "`"
  | .duplicateField name => "duplicate field `" ++ name ++ "`"
  | .tooShort length wanted => "invalid length " ++ toString length ++ ", expected " ++ wanted
  | .wrongKind found wanted => "invalid type: " ++ found.describe ++ ", expected " ++ wanted
  | .outOfRange value wanted =>
    "invalid value: integer `" ++ toString value ++ "`, expected " ++ wanted
  | .rejected reason => reason

/-- Why a reading ends without a value. Of a value that does not fit, the reason is kept. Of a text that
is no value, only the kind of problem is: which rule of the grammar it breaks, and where, is not told,
so that the same problem of two texts is one of the same kind. -/
inductive Problem where
  /-- The text ends before the value does. -/
  | cutShort
  /-- The text breaks a rule of the grammar. -/
  | malformed
  /-- The text opens more brackets inside each other than a reader follows. -/
  | tooDeep
  /-- The text is a value, or starts like one, and not what was wanted. -/
  | unfit (why : Misfit)

end Containers.Json
