import Containers.Proofs.Guarded.Lock

/-!
# What a guard adds

What is done to a guarded collection is what would be done to the bare one, command by command, but
for the commands that an abort keeps from being run: those behind it in its group.

* `runEach` — commands that are run one by one on a bare collection, whatever they reply;
* `Part` — a group as it was run: the commands up to an abort with their replies, and the rest;
* `Explains` — the parts of a session, which put together are one run on the bare collection;
* `Sound` — commands that keep an invariant, and that change nothing where they abort;
* `AddsGroupingOnly`, `StaysWhole` — what this makes of guarded collections.

**`exists_explains`** — every session has such parts.  **`Sound.aborted`** — a group that aborts has
done what is in front of the abort.  **`addsGroupingOnly`** and **`Sound.staysWhole`** — the same
behind any lawful lock.
-/

namespace Containers

variable {κ σ query update reply event : Type}

/-! ### Command by command -/

/-- What is left after commands, what each of them replied, and the events on the way. -/
structure Transcript (κ reply event : Type) where
  collection : κ
  replies : List (Except Abort reply)
  events : List event

/-- A group as it was run. -/
structure Part (query update reply : Type) where
  /-- The commands up to the first that aborted, with their replies. -/
  ran : List (Command query update × Except Abort reply)
  skipped : List (Command query update)

namespace Part

def done (p : Part query update reply) : List (Command query update) :=
  p.ran.map Prod.fst

def replies (p : Part query update reply) : List (Except Abort reply) :=
  p.ran.map Prod.snd

/-- All commands of the group. -/
def commands (p : Part query update reply) : List (Command query update) :=
  p.done ++ p.skipped

/-- No command is run behind one that aborts, and none is skipped but for one that did. -/
structure EndsAtAbort (p : Part query update reply) : Prop where
  last : ∀ before command abort after,
    p.ran = before ++ (command, .error abort) :: after → after = []
  skips : p.skipped ≠ [] → ∃ before command abort, p.ran = before ++ [(command, .error abort)]

theorem endsAtAbort_empty : (⟨[], []⟩ : Part query update reply).EndsAtAbort where
  last before _ _ _ h :=
    absurd h.symm (List.append_ne_nil_of_right_ne_nil before (List.cons_ne_nil _ _))
  skips h := absurd rfl h

theorem endsAtAbort_aborted (command : Command query update) (abort : Abort)
    (skipped : List (Command query update)) :
    (⟨[(command, .error abort)], skipped⟩ : Part query update reply).EndsAtAbort where
  last before _ _ after h := by
    have hlength := congrArg List.length h
    rw [List.length_append, List.length_cons, List.length_cons, List.length_nil] at hlength
    exact List.eq_nil_of_length_eq_zero (by omega)
  skips _ := ⟨[], command, abort, rfl⟩

theorem EndsAtAbort.cons {p : Part query update reply} (h : p.EndsAtAbort)
    (command : Command query update) (r : reply) :
    (⟨(command, .ok r) :: p.ran, p.skipped⟩ : Part query update reply).EndsAtAbort where
  last before command' abort after heq := by
    cases before with
    | nil => cases heq
    | cons first before => exact h.last before command' abort after (List.cons.inj heq).2
  skips hne := by
    obtain ⟨before, command', abort, heq⟩ := h.skips hne
    exact ⟨(command, .ok r) :: before, command', abort, congrArg _ heq⟩

end Part

section Commanded

variable [Commanded κ query update reply event]

/-- Runs commands one by one, whatever they reply. -/
def runEach (c : κ) : List (Command query update) → Transcript κ reply event
  | [] => ⟨c, [], []⟩
  | command :: commands =>
    let first := command.run c
    let rest := runEach first.collection commands
    ⟨rest.collection, first.reply :: rest.replies, first.events ++ rest.events⟩

theorem runEach_cons (c : κ) (command : Command query update)
    (commands : List (Command query update)) :
    runEach c (command :: commands) =
      ⟨(runEach (command.run c).collection commands).collection,
        (command.run c).reply :: (runEach (command.run c).collection commands).replies,
        (command.run c).events ++ (runEach (command.run c).collection commands).events⟩ :=
  rfl

theorem runEach_append (c : κ) (xs ys : List (Command query update)) :
    runEach c (xs ++ ys) =
      ⟨(runEach (runEach c xs).collection ys).collection,
        (runEach c xs).replies ++ (runEach (runEach c xs).collection ys).replies,
        (runEach c xs).events ++ (runEach (runEach c xs).collection ys).events⟩ := by
  induction xs generalizing c with
  | nil => rfl
  | cons x xs ih =>
    rw [List.cons_append, runEach_cons, runEach_cons, ih, List.cons_append, List.append_assoc]

namespace Guarded

theorem runAll_of_error {c : κ} {command : Command query update} {abort : Abort}
    (h : (command.run c).reply = .error abort) (commands : List (Command query update)) :
    runAll c (command :: commands) =
      ⟨(command.run c).collection, .error abort, (command.run c).events⟩ := by
  simp only [runAll, h]

theorem runAll_of_ok {c : κ} {command : Command query update} {r : reply}
    (h : (command.run c).reply = .ok r) (commands : List (Command query update)) :
    runAll c (command :: commands) =
      ⟨(runAll (command.run c).collection commands).collection,
        (r :: ·) <$> (runAll (command.run c).collection commands).reply,
        (command.run c).events ++ (runAll (command.run c).collection commands).events⟩ := by
  simp only [runAll, h]

/-- Questions are commands that leave the collection as it is and report nothing. -/
theorem runAll_ask (c : κ) (questions : List query) :
    runAll c (questions.map (.ask : query → Command query update)) =
      ⟨c, read ⟨c⟩ questions, ([] : List event)⟩ := by
  induction questions with
  | nil => rfl
  | cons q questions ih =>
    have hrun : ((Command.ask q : Command query update).run c).reply = Commanded.ask q c := rfl
    have hsame : ((Command.ask q : Command query update).run c).collection = c := rfl
    rw [List.map_cons, read]
    cases hreply : Commanded.ask q c with
    | error abort => exact runAll_of_error (hrun.trans hreply) _
    | ok r =>
      rw [runAll_of_ok (hrun.trans hreply), hsame, ih]
      cases read ⟨c⟩ questions <;> rfl

/-- A group of any kind is a group of commands that are run. -/
theorem call_eq_write (g : Guarded κ) (c : Call query update) : g.call c = g.write c.commands := by
  cases c with
  | read questions =>
    rw [write, Call.commands, runAll_ask]
    rfl
  | write commands => rfl
  | bypass commands => rfl

end Guarded

/-! ### Group by group -/

/-- **A group** is run up to its first abort. -/
theorem exists_part (c : κ) (commands : List (Command query update)) :
    ∃ p : Part query update reply, p.commands = commands ∧ p.EndsAtAbort ∧
      runEach c p.done =
        ⟨(Guarded.runAll c commands).collection, p.replies, (Guarded.runAll c commands).events⟩ ∧
      (Guarded.runAll c commands).reply = p.replies.mapM id := by
  -- Where the first command aborts, nothing is asked of the others, so the part ends with it.
  induction commands generalizing c with
  | nil => exact ⟨⟨[], []⟩, rfl, Part.endsAtAbort_empty, rfl, rfl⟩
  | cons command commands ih =>
    cases hreply : (command.run c).reply with
    | error abort =>
      refine ⟨⟨[(command, .error abort)], commands⟩, rfl,
        Part.endsAtAbort_aborted command abort commands, ?_, ?_⟩
      · show runEach c [command] = _
        rw [Guarded.runAll_of_error hreply, runEach_cons, hreply, runEach, List.append_nil]
        rfl
      · rw [Guarded.runAll_of_error hreply]
        rfl
    | ok r =>
      obtain ⟨p, hcommands, hends, hrun, hreplies⟩ := ih (command.run c).collection
      refine ⟨⟨(command, .ok r) :: p.ran, p.skipped⟩, congrArg (command :: ·) hcommands,
        hends.cons command r, ?_, ?_⟩
      · show runEach c (command :: p.done) = _
        rw [Guarded.runAll_of_ok hreply, runEach_cons, hrun, hreply]
        rfl
      · rw [Guarded.runAll_of_ok hreply, hreplies]
        show _ = (Except.ok r :: p.replies).mapM id
        rw [List.mapM_cons]
        cases p.replies.mapM id <;> rfl

/-- The parts of a session: the groups of its calls, as they were run.  What was run of them, put
together, leaves on the bare collection what the session leaves, with the same events, and each call
replies what its part replied, or the abort that this ended in. -/
structure Explains (parts : List (Part query update reply)) (c : κ)
    (calls : List (Call query update)) (s : Session (Guarded κ) reply event) : Prop where
  commands : parts.map Part.commands = calls.map Call.commands
  endsAtAbort : ∀ p ∈ parts, p.EndsAtAbort
  ran : runEach c (parts.flatMap Part.done) =
    ⟨s.left.collection, parts.flatMap Part.replies, s.events⟩
  replies : s.replies = parts.map fun p => p.replies.mapM id

/-- **Every session** is one run on the bare collection. -/
theorem exists_explains (c : κ) (calls : List (Call query update)) :
    ∃ parts, Explains parts c calls (Guarded.session ⟨c⟩ calls) := by
  induction calls generalizing c with
  | nil => exact ⟨[], rfl, fun p hp => absurd hp List.not_mem_nil, rfl, rfl⟩
  | cons call calls ih =>
    obtain ⟨p, hcommands, hends, hrun, hreply⟩ := exists_part c call.commands
    obtain ⟨parts, hparts⟩ := ih (Guarded.runAll c call.commands).collection
    refine ⟨p :: parts, ?_, ?_, ?_, ?_⟩
    · rw [List.map_cons, List.map_cons, hcommands, hparts.commands]
    · exact List.forall_mem_cons.mpr ⟨hends, hparts.endsAtAbort⟩
    · rw [List.flatMap_cons, runEach_append, hrun, Guarded.session, Guarded.call_eq_write]
      simp only [hparts.ran, List.flatMap_cons]
      rfl
    · rw [Guarded.session, Guarded.call_eq_write]
      show (Guarded.runAll c call.commands).reply :: _ = _
      rw [hreply, List.map_cons]
      exact congrArg _ hparts.replies

/-! ### Invariants -/

/-- Commands keep an invariant, and one that aborts does so for a refusal, has changed nothing and
has reported nothing. -/
structure Sound (inv : κ → Prop) : Prop where
  kept : ∀ c, inv c → ∀ command : Command query update, inv (command.run c).collection
  aborts : ∀ c, inv c → ∀ (command : Command query update) abort,
    (command.run c).reply = .error abort →
      (∃ refusal : Refusal, abort = ⟨refusal.message⟩) ∧ (command.run c).collection = c ∧
        (command.run c).events = []

namespace Sound

variable {inv : κ → Prop} {c : κ}

theorem runAll (h : Sound inv) (hc : inv c) (commands : List (Command query update)) :
    inv (Guarded.runAll c commands).collection := by
  induction commands generalizing c with
  | nil => exact hc
  | cons command commands ih =>
    cases hreply : (command.run c).reply with
    | error abort =>
      rw [Guarded.runAll_of_error hreply]
      exact h.kept c hc command
    | ok r =>
      rw [Guarded.runAll_of_ok hreply]
      exact ih (h.kept c hc command)

theorem session (h : Sound inv) (hc : inv c) (calls : List (Call query update)) :
    inv (Guarded.session ⟨c⟩ calls).left.collection := by
  induction calls generalizing c with
  | nil => exact hc
  | cons call calls ih =>
    rw [Guarded.session, Guarded.call_eq_write]
    exact ih (h.runAll hc call.commands)

/-- **A group that aborts** leaves what the commands before the one that aborted leave. -/
theorem aborted (h : Sound inv) (hc : inv c) {commands : List (Command query update)}
    {abort : Abort} (habort : (Guarded.runAll c commands).reply = .error abort) :
    ∃ before command skipped replies, commands = before ++ command :: skipped ∧
      (Guarded.runAll c before).reply = .ok replies ∧
      (command.run (Guarded.runAll c before).collection).reply = .error abort ∧
      Guarded.runAll c commands =
        ⟨(Guarded.runAll c before).collection, .error abort, (Guarded.runAll c before).events⟩ := by
  induction commands generalizing c with
  | nil => cases habort
  | cons command commands ih =>
    cases hreply : (command.run c).reply with
    | error abort' =>
      obtain ⟨-, hcollection, hevents⟩ := h.aborts c hc command abort' hreply
      rw [Guarded.runAll_of_error hreply] at habort ⊢
      obtain rfl := Except.error.inj habort
      refine ⟨[], command, commands, [], rfl, rfl, hreply, ?_⟩
      rw [hcollection, hevents]
      rfl
    | ok r =>
      rw [Guarded.runAll_of_ok hreply] at habort ⊢
      have hrest : (Guarded.runAll (command.run c).collection commands).reply = .error abort := by
        cases hreplies : (Guarded.runAll (command.run c).collection commands).reply with
        | error abort' =>
          rw [hreplies] at habort
          exact habort
        | ok replies =>
          rw [hreplies] at habort
          cases habort
      obtain ⟨before, command', skipped, replies, rfl, hbefore, hlast, heq⟩ :=
        ih (h.kept c hc command) hrest
      refine ⟨command :: before, command', skipped, r :: replies, rfl, ?_, ?_, ?_⟩
      · rw [Guarded.runAll_of_ok hreply, hbefore]
        rfl
      · rw [Guarded.runAll_of_ok hreply]
        exact hlast
      · rw [heq, Guarded.runAll_of_ok hreply]
        rfl

end Sound

/-! ### Guarded collections -/

/-- A guard adds nothing but grouping, behind any lawful lock. -/
structure AddsGroupingOnly (κ : Type) {query update reply event : Type}
    [Commanded κ query update reply event] : Prop where
  /-- Calls to a new lock, and what is inside of it in the end. -/
  session : ∀ {σ : Type} {l : Lock κ σ} {idle : σ → Prop} {entered : Access → σ → Prop},
    l.Lawful idle entered → ∀ (c : κ) (calls : List (Call query update)),
      ∃ s, l.session (l.make c) calls = some s ∧ idle s.left ∧
        ∃ parts, Explains parts c calls { s with left := ⟨l.inside s.left⟩ }
  /-- Calls to a lock that was left, whatever happened before. -/
  later : ∀ {σ : Type} {l : Lock κ σ} {idle : σ → Prop} {entered : Access → σ → Prop},
    l.Lawful idle entered → ∀ (s : σ), idle s → ∀ calls : List (Call query update),
      ∃ s', l.session s calls = some s' ∧ idle s'.left ∧
        ∃ parts, Explains parts (l.inside s) calls { s' with left := ⟨l.inside s'.left⟩ }
  read : ∀ {σ : Type} {l : Lock κ σ} {idle : σ → Prop} {entered : Access → σ → Prop},
    l.Lawful idle entered → ∀ (s : σ), idle s → ∀ questions : List query,
      ∃ outcome, l.call s (.read questions) = some outcome ∧
        l.inside outcome.collection = l.inside s ∧ outcome.events = []

/-- What an invariant of the bare collection is worth where the collection is guarded. -/
structure StaysWhole (inv : κ → Prop) : Prop where
  sound : Sound inv
  session : ∀ {σ : Type} {l : Lock κ σ} {idle : σ → Prop} {entered : Access → σ → Prop},
    l.Lawful idle entered → ∀ c, inv c → ∀ calls : List (Call query update),
      ∃ s, l.session (l.make c) calls = some s ∧ inv (l.inside s.left)
  /-- A group that aborts leaves what the commands before the one that aborted leave. -/
  aborted : ∀ c, inv c → ∀ (commands : List (Command query update)) abort,
    (Guarded.write ⟨c⟩ commands).reply = .error abort →
      ∃ before command skipped replies, commands = before ++ command :: skipped ∧
        (Guarded.write ⟨c⟩ before).reply = .ok replies ∧
        (command.run (Guarded.write ⟨c⟩ before).collection.collection).reply = .error abort ∧
        Guarded.write ⟨c⟩ commands = { Guarded.write ⟨c⟩ before with reply := .error abort }

theorem addsGroupingOnly : AddsGroupingOnly κ where
  session h c calls := by
    obtain ⟨hidle, hinside⟩ := h.make c
    obtain ⟨s, hs, hidle', hsession⟩ := h.session hidle calls
    rw [hinside] at hsession
    exact ⟨s, hs, hidle', hsession ▸ exists_explains c calls⟩
  later h s hs calls := by
    obtain ⟨s', hs', hidle, hsession⟩ := h.session hs calls
    exact ⟨s', hs', hidle, hsession ▸ exists_explains _ calls⟩
  read h s hs questions := by
    obtain ⟨outcome, hcall, -, hguarded⟩ := h.call hs (.read questions)
    have hcollection := congrArg (fun o => o.collection.collection) hguarded
    exact ⟨outcome, hcall, hcollection.symm, (congrArg Outcome.events hguarded).symm⟩

theorem Sound.staysWhole {inv : κ → Prop} (h : Sound inv) : StaysWhole inv where
  sound := h
  session hl c hc calls := by
    obtain ⟨hidle, hinside⟩ := hl.make c
    obtain ⟨s, hs, -, hsession⟩ := hl.session hidle calls
    have hinv := h.session hc calls
    rw [hinside] at hsession
    rw [hsession] at hinv
    exact ⟨s, hs, hinv⟩
  aborted c hc commands abort habort := by
    obtain ⟨before, command, skipped, replies, hcommands, hbefore, hlast, heq⟩ :=
      h.aborted hc (show (Guarded.runAll c commands).reply = .error abort from habort)
    refine ⟨before, command, skipped, replies, hcommands, hbefore, hlast, ?_⟩
    rw [Guarded.write, heq]
    rfl

end Commanded

end Containers
