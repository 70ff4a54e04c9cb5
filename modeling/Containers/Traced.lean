/-!
# Results with their events

* `Traced ε α` — a result together with the events reported on the way to it, first to last;
* `report` — the one way to add an event;
* `Note` — an event as it is written down: a level, a sentence and named numbers.
-/

namespace Containers

/-- A result together with the events reported on the way to it, first to last. -/
structure Traced (ε α : Type) where
  result : α
  events : List ε := []
  deriving Repr

namespace Traced

variable {ε α β : Type}

/-- Reports one event. -/
def report (event : ε) : Traced ε Unit :=
  ⟨(), [event]⟩

instance : Monad (Traced ε) where
  pure a := ⟨a, []⟩
  map f t := ⟨f t.result, t.events⟩
  bind t f :=
    let next := f t.result
    ⟨next.result, t.events ++ next.events⟩

@[simp] theorem result_pure (a : α) : (pure a : Traced ε α).result = a := rfl

@[simp] theorem events_pure (a : α) : (pure a : Traced ε α).events = [] := rfl

@[simp] theorem result_map (f : α → β) (t : Traced ε α) :
    (f <$> t).result = f t.result := rfl

@[simp] theorem events_map (f : α → β) (t : Traced ε α) :
    (f <$> t).events = t.events := rfl

@[simp] theorem result_bind (t : Traced ε α) (f : α → Traced ε β) :
    (t >>= f).result = (f t.result).result := rfl

@[simp] theorem events_bind (t : Traced ε α) (f : α → Traced ε β) :
    (t >>= f).events = t.events ++ (f t.result).events := rfl

@[simp] theorem events_report (event : ε) : (report event).events = [event] := rfl

end Traced

/-- How much an event matters to a reader of the log. -/
inductive Level where
  | trace
  | debug
  deriving DecidableEq, Repr

/-- An event as it is written down. -/
structure Note where
  level : Level
  message : String
  fields : List (String × Nat)
  deriving DecidableEq, Repr

end Containers
