import Containers.Condition
import Containers.Reply
/-!
# Stacks

* `Stack α` — a list that grows and shrinks at its end;
* `Stack.Query`, `Stack.Update` — its operations as data.
-/

namespace Containers

/-- A list that grows and shrinks at its end. -/
structure Stack (α : Type) where
  elements : Array α
  deriving Repr

namespace Stack

variable {α : Type}

instance [Outlined α] : Outlined (Stack α) where
  outline s := outline s.elements.toList

def push (s : Stack α) (a : α) : Stack α :=
  ⟨s.elements.push a⟩

/-- The last element, if there is one, and the stack without it. -/
def pop (s : Stack α) : Option α × Stack α :=
  (s.elements.back?, ⟨s.elements.pop⟩)

/-- What can be asked of a stack. -/
inductive Query where
  | size
  deriving DecidableEq, Repr

/-- What can be done to a stack. -/
inductive Update (α : Type) where
  | push (a : α)
  | pop
  deriving Repr

instance : Commanded (Stack α) Query (Update α) (Reply α) Empty where
  ask
    | .size, s => return .count s.elements.size
  perform
    | .push a, s => { collection := s.push a, reply := return .done }
    | .pop, s =>
      let (a, s) := s.pop
      { collection := s, reply := return .taken a }

end Stack

end Containers
