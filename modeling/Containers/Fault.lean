import Containers.Text.Outline
/-!
# Refusals and faults

Why a collection does not answer a request, as causes with their wording kept apart.

* `Refusal` — a request that a collection turns down;
* `RankRefusal` — the two ways in which a rank addresses nothing, with its `cause` as a `Refusal`;
* `Fault` — a refusal of either sort, or one of the ways in which an operation breaks down;
* `Abort` — the end of an operation that nobody answers for; `insist` makes one of every fault;
* `Form` — whether a caller takes a refusal for an answer; `Form.settle` gives such a caller one.
-/

namespace Containers

/-! ### What is turned down -/

/-- A request that a collection turns down. -/
inductive Refusal where
  /-- A position at or past the end. -/
  | indexPastEnd (index len : Nat)
  /-- A rank outside of `-len ≤ rank < len`, as it was asked for. -/
  | rankOutside (rank : Int) (len : Nat)
  /-- An element of a collection that holds none. -/
  | noElements
  /-- A collection of fixed capacity that could hold nothing. -/
  | noCapacity
  deriving DecidableEq, Repr

/-- The wording of a refusal. -/
def Refusal.message : Refusal → String
  | .indexPastEnd index len =>
    s!"Index {index} out of bounds for collection with {len} elements!"
  | .rankOutside rank len =>
    s!"Rank {rank} out of bounds for collection with {len} elements!"
  | .noElements => "Attempted to access an element of an empty collection!"
  | .noCapacity => "Fixed capacity collections require a capacity of at least 1!"

/-- The name under which a refusal is reported. -/
def Refusal.name : Refusal → String
  | .indexPastEnd .. => "IndexOutOfBounds"
  | .rankOutside .. => "RankOutOfBounds"
  | .noElements => "EmptyCollection"
  | .noCapacity => "ZeroCapacity"

instance : Outlined Refusal where
  outline r :=
    match r with
    | .indexPastEnd index len => .record r.name [("index", .number index), ("len", .number len)]
    | .rankOutside rank len =>
      .record r.name [("rank", .word (toString rank)), ("len", .number len)]
    | .noElements => .word r.name
    | .noCapacity => .word r.name

/-! ### Ranks -/

/-- Why a rank addresses no element. -/
inductive RankRefusal where
  | outside (rank : Int) (len : Nat)
  | empty
  deriving DecidableEq, Repr

namespace RankRefusal

/-- The refusal that lies behind. -/
def cause : RankRefusal → Refusal
  | outside rank len => .rankOutside rank len
  | empty => .noElements

/-- A rank refusal is worded as its cause. -/
def message (r : RankRefusal) : String :=
  r.cause.message

instance : Outlined RankRefusal where
  outline r := .tuple r.cause.name [outline r.cause]

def isOutside : RankRefusal → Bool
  | outside .. => true
  | empty => false

def isEmpty : RankRefusal → Bool
  | outside .. => false
  | empty => true

/-- A rank refusal taken for the case that it is not. -/
structure WrongCase where
  /-- The case that was wanted. -/
  wanted : String
  deriving DecidableEq, Repr

def WrongCase.message (w : WrongCase) : String :=
  s!"Only {w.wanted} can be converted to {w.wanted}"

/-- The rank and the length, where the rank is out of bounds. -/
def bounds : RankRefusal → Except WrongCase (Int × Nat)
  | outside rank len => .ok (rank, len)
  | empty => .error ⟨(Refusal.rankOutside 0 0).name⟩

/-- Succeeds where the collection is empty. -/
def emptiness : RankRefusal → Except WrongCase Unit
  | outside .. => .error ⟨Refusal.noElements.name⟩
  | empty => .ok ()

end RankRefusal

/-! ### Faults and aborts -/

/-- Why an operation has no result. -/
inductive Fault where
  | refused (refusal : Refusal)
  | unranked (refusal : RankRefusal)
  /-- A place that the collection counts as occupied holds nothing. -/
  | vacant
  /-- More places are wanted than memory can have. -/
  | noRoom
  deriving DecidableEq, Repr

def Fault.message : Fault → String
  | .refused r => r.message
  | .unranked r => r.message
  | .vacant => "A place counted as occupied holds nothing!"
  | .noRoom => "capacity overflow"

/-- The refusal that a fault is, unless the operation broke down. -/
def Fault.refusal? : Fault → Option Refusal
  | .refused r => some r
  | .unranked r => some r.cause
  | .vacant => none
  | .noRoom => none

/-- The end of an operation that has no answer for a fault, with the words that it leaves. -/
structure Abort where
  message : String
  deriving DecidableEq, Repr

/-- A fault that nobody answers for ends the operation with the fault's own wording. -/
def Fault.abort (f : Fault) : Abort :=
  ⟨f.message⟩

/-- An operation for callers that rule its faults out: it aborts in place of failing. -/
def insist {α : Type} (attempt : Except Fault α) : Except Abort α :=
  attempt.mapError Fault.abort

/-- What a caller wants of a refusal. -/
inductive Form where
  /-- The refusal is the answer. -/
  | answering
  /-- The caller rules the refusal out, so it ends the operation. -/
  | insisting
  deriving DecidableEq, Repr

/-- What a caller gets from an operation that may be at fault. A breakdown ends it in either
form. -/
def Form.settle {α : Type} : Form → Except Fault α → Except Abort (Except Refusal α)
  | .insisting, attempt => .ok <$> insist attempt
  | .answering, .ok a => .ok (.ok a)
  | .answering, .error fault =>
    match fault.refusal? with
    | some refusal => .ok (.error refusal)
    | none => .error fault.abort

end Containers
