/-!
# Outlines of values

The outline of a value is the structure of its text for a reader: words, and groups of parts in
brackets. It can be set on one line or on many.

* `Outline` — the structure; `Outline.record`, `Outline.tuple`, `Outline.list`,
  `Outline.dictionary` build its groups;
* `Outline.line` — all on one line, parts divided by commas;
* `Outline.block` — one part a line, four blanks deeper than the group that holds it;
* `Outlined α` — values that have an outline.
-/

namespace Containers

/-- How a group of parts is bracketed. -/
inductive Frame where
  | tuple (name : String)
  | record (name : String)
  | list
  | dictionary
  deriving DecidableEq, Repr

namespace Frame

def opening : Frame → String
  | tuple name => name ++ "("
  | record name => name ++ " \x7b"
  | list => "["
  | dictionary => "\x7b"

def closing : Frame → String
  | tuple _ => ")"
  | record _ => "\x7d"
  | list => "]"
  | dictionary => "\x7d"

/-- What stands between the brackets and the parts on one line: a record's braces stand off. -/
def gap : Frame → String
  | record _ => " "
  | _ => ""

end Frame

/-- The structure of a value's text. -/
inductive Outline where
  /-- A text without parts. -/
  | word (text : String)
  /-- A part with a label, or a key with its value. -/
  | entry (key value : Outline)
  | group (frame : Frame) (parts : List Outline)

namespace Outline

/-- A number in decimal digits. -/
def number (n : Nat) : Outline :=
  word (toString n)

def truth (b : Bool) : Outline :=
  word (if b then "true" else "false")

def tuple (name : String) (parts : List Outline) : Outline :=
  group (.tuple name) parts

def record (name : String) (fields : List (String × Outline)) : Outline :=
  group (.record name) (fields.map fun (label, value) => entry (word label) value)

def list (items : List Outline) : Outline :=
  group .list items

def dictionary (entries : List (Outline × Outline)) : Outline :=
  group .dictionary (entries.map fun (key, value) => entry key value)

/-! ### On one line -/

mutual

/-- The text on one line. -/
def line : Outline → String
  | word text => text
  | entry key value => key.line ++ ": " ++ value.line
  | group frame parts =>
    frame.opening ++ frame.gap ++ ", ".intercalate (lines parts) ++ frame.gap ++ frame.closing

def lines : List Outline → List String
  | [] => []
  | part :: parts => part.line :: lines parts

end

/-! ### One part a line -/

/-- The blanks at the start of a line at a depth. -/
def indent (depth : Nat) : String :=
  String.ofList (List.replicate (4 * depth) ' ')

mutual

/-- The text with one part a line, for a group that stands at `depth`. A comma follows each part,
and a group without parts stays on its line. -/
def block (depth : Nat) : Outline → String
  | word text => text
  | entry key value => key.block depth ++ ": " ++ value.block depth
  | group frame [] => frame.opening ++ frame.closing
  | group frame (part :: parts) =>
    frame.opening ++ "\n" ++ String.join (blocks (depth + 1) (part :: parts))
      ++ indent depth ++ frame.closing

def blocks (depth : Nat) : List Outline → List String
  | [] => []
  | part :: parts => (indent depth ++ part.block depth ++ ",\n") :: blocks depth parts

end

end Outline

/-- Values that have an outline. -/
class Outlined (α : Type) where
  outline : α → Outline

export Outlined (outline)

instance {α : Type} [Outlined α] : Outlined (Option α) where
  outline
    | none => .word "None"
    | some a => .tuple "Some" [outline a]

instance {α : Type} [Outlined α] : Outlined (List α) where
  outline as := .list (as.map outline)

/-- How the text of an outline is set. -/
inductive Setting where
  | line
  | block
  deriving DecidableEq, Repr

def Outline.text (o : Outline) : Setting → String
  | .line => o.line
  | .block => o.block 0

end Containers
