import Containers.Text.Outline
import Containers.Text.Unprinted
/-!
# Quoted texts

* `Text.escape` — how one character stands between the quotes;
* `Text.quote` — a text between double quotes, for a reader.
-/

namespace Containers.Text

/-- A number in base sixteen, in lower case and without leading zeros. -/
def hex (n : Nat) : List Char :=
  Nat.toDigits 16 n

/-- How a character stands between double quotes: the quote, the backslash and four controls have
short escapes, other characters without a shape are named by their code point, and all else is as it
is. -/
def escape (c : Char) : List Char :=
  match c with
  | '\x00' => ['\\', '0']
  | '\t' => ['\\', 't']
  | '\r' => ['\\', 'r']
  | '\n' => ['\\', 'n']
  | '"' => ['\\', '"']
  | '\\' => ['\\', '\\']
  | c => if isUnprinted c then ['\\', 'u', '\x7b'] ++ hex c.toNat ++ ['\x7d'] else [c]

/-- A text between double quotes, for a reader. -/
def quote (s : String) : String :=
  String.ofList ('"' :: s.toList.flatMap escape ++ ['"'])

end Containers.Text

namespace Containers

instance : Outlined String where
  outline s := .word (Text.quote s)

end Containers
