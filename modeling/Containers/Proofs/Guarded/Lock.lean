import Containers.Guarded

/-!
# Guards as locks

A collection that is shared is guarded by a lock, which is entered for each group of commands and
left behind it.  Nothing is said here of how a lock is made, only what is asked of one.

* `Lock κ σ` — what can be done with a lock `σ` around a collection `κ`;
* `Lock.Lawful` — a lock that is idle can be entered and is idle again when it is left, also by an
  abort; and what is inside is what was put there last;
* `Call` — a group of commands, by the way in which it comes to the collection;
* `Lock.call`, `Lock.session` — one group, and one after the other, through a lock;
* `Guarded.call`, `Guarded.session` — the same where nothing stands in between.

**`Lawful.session`** — a lawful lock makes no difference, and nobody waits for it for ever.
-/

namespace Containers

/-- What a lock is entered for. -/
inductive Access where
  /-- To look, together with others who look. -/
  | shared
  /-- To change something, alone. -/
  | exclusive
  deriving DecidableEq, Repr

/-- What can be done with a lock `σ` around a collection `κ`. -/
structure Lock (κ σ : Type) where
  make : κ → σ
  /-- The collection inside. -/
  inside : σ → κ
  /-- Enters, unless that would be to wait for ever. -/
  enter : Access → σ → Option σ
  /-- Has another collection inside. -/
  put : κ → σ → σ
  /-- Leaves, when all is done or by an abort in the middle of it. -/
  leave : Access → (aborted : Bool) → σ → σ

/-- A group of commands, by the way in which it comes to the collection. -/
inductive Call (query update : Type) where
  | read (questions : List query)
  | write (commands : List (Command query update))
  /-- The caller has the lock to itself and need not enter. -/
  | bypass (commands : List (Command query update))

/-- What is left after calls, what each of them replied, and the events on the way. -/
structure Session (σ reply event : Type) where
  left : σ
  replies : List (Except Abort (List reply))
  events : List event

variable {κ σ query update reply event : Type}

def Call.commands : Call query update → List (Command query update)
  | .read questions => questions.map .ask
  | .write commands => commands
  | .bypass commands => commands

namespace Lock

/-- A lock that is idle can be entered, and it is idle again when it is left, by an abort as well as
at the end.  What is inside is what was put there last. -/
structure Lawful (l : Lock κ σ) (idle : σ → Prop) (entered : Access → σ → Prop) : Prop where
  make : ∀ c, idle (l.make c) ∧ l.inside (l.make c) = c
  enter : ∀ access s, idle s →
    ∃ s', l.enter access s = some s' ∧ entered access s' ∧ l.inside s' = l.inside s
  put : ∀ c s, entered .exclusive s → entered .exclusive (l.put c s) ∧ l.inside (l.put c s) = c
  putIdle : ∀ c s, idle s → idle (l.put c s) ∧ l.inside (l.put c s) = c
  leave : ∀ access aborted s, entered access s →
    idle (l.leave access aborted s) ∧ l.inside (l.leave access aborted s) = l.inside s

variable [Commanded κ query update reply event]

/-- Runs a group of commands through a lock, unless that would be to wait for ever. -/
def call (l : Lock κ σ) (s : σ) : Call query update → Option (Outcome σ (List reply) event)
  | .read questions => do
    let s ← l.enter .shared s
    let reply := Guarded.read ⟨l.inside s⟩ questions
    return { collection := l.leave .shared (!reply.isOk) s, reply }
  | .write commands => do
    let s ← l.enter .exclusive s
    let outcome := Guarded.write ⟨l.inside s⟩ commands
    let s := l.put outcome.collection.collection s
    return { outcome with collection := l.leave .exclusive (!outcome.reply.isOk) s }
  | .bypass commands =>
    let outcome := Guarded.write ⟨l.inside s⟩ commands
    return { outcome with collection := l.put outcome.collection.collection s }

/-- Runs groups of commands through a lock, one after the other. -/
def session (l : Lock κ σ) (s : σ) : List (Call query update) → Option (Session σ reply event)
  | [] => return ⟨s, [], []⟩
  | c :: calls => do
    let first ← l.call s c
    let rest ← l.session first.collection calls
    return ⟨rest.left, first.reply :: rest.replies, first.events ++ rest.events⟩

end Lock

namespace Guarded

variable [Commanded κ query update reply event]

/-- Runs a group of commands. -/
def call (g : Guarded κ) : Call query update → Outcome (Guarded κ) (List reply) event
  | .read questions => { collection := g, reply := g.read questions }
  | .write commands => g.write commands
  | .bypass commands => g.write commands

/-- Runs groups of commands, one after the other. -/
def session (g : Guarded κ) : List (Call query update) → Session (Guarded κ) reply event
  | [] => ⟨g, [], []⟩
  | c :: calls =>
    let first := g.call c
    let rest := session first.collection calls
    ⟨rest.left, first.reply :: rest.replies, first.events ++ rest.events⟩

end Guarded

namespace Lock.Lawful

variable [Commanded κ query update reply event] {l : Lock κ σ} {idle : σ → Prop}
  {entered : Access → σ → Prop} {s : σ}

/-- **One group** leaves inside of a lock what it leaves without one, and the lock idle. -/
theorem call (h : l.Lawful idle entered) (hs : idle s) (c : Call query update) :
    ∃ outcome, l.call s c = some outcome ∧ idle outcome.collection ∧
      Guarded.call ⟨l.inside s⟩ c =
        { outcome with collection := ⟨l.inside outcome.collection⟩ } := by
  cases c with
  | read questions =>
    obtain ⟨s', henter, hentered, hinside⟩ := h.enter .shared s hs
    have hleave := fun aborted => h.leave .shared aborted s' hentered
    refine ⟨_, by rw [Lock.call, henter]; rfl, (hleave _).1, ?_⟩
    rw [(hleave _).2, hinside]
    rfl
  | write commands =>
    obtain ⟨s', henter, hentered, hinside⟩ := h.enter .exclusive s hs
    have hput := fun c => h.put c s' hentered
    have hleave := fun c aborted => h.leave .exclusive aborted _ (hput c).1
    refine ⟨_, by rw [Lock.call, henter]; rfl, (hleave _ _).1, ?_⟩
    rw [(hleave _ _).2, (hput _).2, hinside]
    rfl
  | bypass commands =>
    have hput := fun c => h.putIdle c s hs
    refine ⟨_, rfl, (hput _).1, ?_⟩
    rw [(hput _).2]
    rfl

/-- **A lawful lock makes no difference.**  Nobody waits for it for ever, and what groups of
commands leave inside of it is what they leave without one. -/
theorem session (h : l.Lawful idle entered) (hs : idle s) (calls : List (Call query update)) :
    ∃ s', l.session s calls = some s' ∧ idle s'.left ∧
      Guarded.session ⟨l.inside s⟩ calls = { s' with left := ⟨l.inside s'.left⟩ } := by
  induction calls generalizing s with
  | nil => exact ⟨_, rfl, hs, rfl⟩
  | cons c calls ih =>
    obtain ⟨outcome, hcall, hidle, hfirst⟩ := h.call hs c
    obtain ⟨s', hsession, hidle', hrest⟩ := ih hidle
    refine ⟨⟨s'.left, outcome.reply :: s'.replies, outcome.events ++ s'.events⟩, ?_, hidle', ?_⟩
    · rw [Lock.session, hcall, Option.bind_eq_bind, Option.bind_some, hsession]
      rfl
    · rw [Guarded.session, hfirst]
      simp only [hrest]

end Lock.Lawful

end Containers
