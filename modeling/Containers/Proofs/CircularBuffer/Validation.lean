import Containers.Proofs.CircularBuffer.Stored
import Containers.Proofs.Json.Locality

/-!
# Reading a buffer is reading a checkpoint and restoring it

* `Json.LocallyRead` — elements whose readers do not look behind a value: integers, strings, entries,
  and lists and optional values of them;
* `Checkpoint.closed_reader` — then that of checkpoints does not either;
* `Checkpoint.FrontDefect` — a front of a text is a checkpoint of no buffer;
* **`ofText_validates`** — what becomes of every text as a buffer, in terms of what becomes of it
  as a checkpoint.
-/

namespace Containers

open Json

/-! ### Elements -/

namespace Json

/-- The readers of a type do not look behind a value, however many brackets may be opened. -/
def LocallyRead (α : Type) [Stored α] : Prop :=
  ∀ depth : Nat, (Stored.reader depth : Reader α).Local

theorem locallyRead_int64 : LocallyRead Int64 :=
  fun _ => Reader.local_numeric _ _

theorem locallyRead_string : LocallyRead String :=
  fun _ => Reader.closed_string.toLocal

variable {α : Type} [Stored α]

theorem locallyRead_list (h : LocallyRead α) : LocallyRead (List α) :=
  Reader.local_within fun depth => (closed_sequence (h depth)).toLocal

theorem locallyRead_option (h : LocallyRead α) : LocallyRead (Option α) :=
  fun depth => (h depth).orNull

end Json

theorem locallyRead_entry : LocallyRead Entry := by
  refine Reader.local_within fun _ => Reader.Local.refine (Shape.closed_draft ?_).toLocal _
  intro field hfield d
  simp only [Entry.shape, List.mem_cons, List.not_mem_nil, or_false] at hfield
  have hinteger : integer.Local := Reader.local_numeric _ _
  have hstring : string.Local := Reader.closed_string.toLocal
  rcases hfield with rfl | rfl
  · dsimp only
    exact hinteger.refine _
  · dsimp only
    exact hstring.refine _

/-! ### Checkpoints -/

variable {α : Type}

namespace Checkpoint

section Stored

variable [Stored α]

theorem closed_reader (h : LocallyRead α) :
    (reader nestingLimit : Reader (Checkpoint α)).Closed := by
  rw [reader_nestingLimit]
  refine Reader.Closed.refine (Shape.closed_draft ?_) _
  intro field hfield d
  simp only [shape, List.mem_cons, List.not_mem_nil, or_false] at hfield
  have hnatural : natural.Local := Reader.local_numeric _ _
  rcases hfield with rfl | rfl | rfl
  · dsimp only
    exact (locallyRead_list (locallyRead_option h) _).refine _
  · dsimp only
    exact hnatural.refine _
  · dsimp only
    exact hnatural.refine _

/-- A front of a text is by itself a checkpoint of no buffer. -/
def FrontDefect (α : Type) [Stored α] (text : String) (d : Defect) : Prop :=
  ∃ (front rest : String) (c : Checkpoint α), text = front ++ rest ∧ ofText front = .ok c ∧
    CircularBuffer.restore c = .error d

end Stored

end Checkpoint

/-! ### Buffers -/

namespace CircularBuffer

/-- The rule under which a checkpoint is read as a buffer. -/
def restoreRule (c : Checkpoint α) : Except Misfit (CircularBuffer α) :=
  (restore c).mapError fun defect => .rejected defect.message

theorem restoreRule_eq_ok_iff {c : Checkpoint α} {b : CircularBuffer α} :
    restoreRule c = .ok b ↔ restore c = .ok b := by
  rw [restoreRule]
  cases restore c with
  | error d => simp [Except.mapError]
  | ok b' => simp [Except.mapError]

theorem restoreRule_eq_error_iff {c : Checkpoint α} {why : Misfit} :
    restoreRule c = .error why ↔ ∃ d, restore c = .error d ∧ why = .rejected d.message := by
  rw [restoreRule]
  cases restore c with
  | error d => simp [Except.mapError, eq_comm]
  | ok b => simp [Except.mapError]

theorem reader_eq [Stored α] (depth : Nat) :
    (reader depth : Reader (CircularBuffer α)) = (Checkpoint.reader depth).refine restoreRule :=
  rfl

/-- **What becomes of a text as a buffer** is told by what becomes of it as a checkpoint, whatever
the text.  A checkpoint that is read is restored or reported with its defect, so that no text
whatsoever is read as a buffer that is not valid.  A text that is not read as a checkpoint is not
read as a buffer either.  The problem is the same, as far as problems are told apart, unless a front
of the text is by itself a checkpoint of no buffer: then the only problem of the checkpoint is what
stands behind it, and the defect is what is reported. -/
theorem ofText_validates :
    (∀ (α : Type) [Stored α] (text : String),
      (∀ b : CircularBuffer α, ofText text = .ok b ↔
        ∃ c : Checkpoint α, Checkpoint.ofText text = .ok c ∧ restore c = .ok b) ∧
      (∀ (c : Checkpoint α) (d : Checkpoint.Defect), Checkpoint.ofText text = .ok c →
        restore c = .error d → ofText (α := α) text = .error (.unfit (.rejected d.message))) ∧
      ∀ b : CircularBuffer α, ofText text = .ok b → b.Valid) ∧
    (LocallyRead Int64 ∧ LocallyRead String ∧ LocallyRead Entry ∧
      ∀ (α : Type) [Stored α], LocallyRead α → LocallyRead (List α) ∧ LocallyRead (Option α)) ∧
    ∀ (α : Type) [Stored α], LocallyRead α →
      ∀ (text : String) (problem : Problem), Checkpoint.ofText (α := α) text = .error problem →
        (∀ d, Checkpoint.FrontDefect α text d → problem = .malformed ∧
          ofText (α := α) text = .error (.unfit (.rejected d.message))) ∧
        ((∀ d, ¬ Checkpoint.FrontDefect α text d) → ofText (α := α) text = .error problem) := by
  have hok : ∀ (α : Type) [Stored α] (text : String) (b : CircularBuffer α), ofText text = .ok b ↔
      ∃ c : Checkpoint α, Checkpoint.ofText text = .ok c ∧ restore c = .ok b := by
    intro α _ text b
    rw [ofText, reader_eq, Reader.whole_refine_eq_ok_iff]
    simp only [restoreRule_eq_ok_iff]
    rfl
  refine ⟨fun α _ text => ⟨hok α text, ?_, ?_⟩,
    ⟨locallyRead_int64, locallyRead_string, locallyRead_entry, ?_⟩, ?_⟩
  · intro c d hc hd
    exact Reader.whole_refine_of_error hc (restoreRule_eq_error_iff.mpr ⟨d, hd, rfl⟩)
  · intro b hb
    obtain ⟨c, -, hc⟩ := (hok α text b).mp hb
    exact (restore_eq_ok_iff.mp hc).2
  · exact fun α _ h => ⟨locallyRead_list h, locallyRead_option h⟩
  · intro α _ h text problem hproblem
    have hclosed := Checkpoint.closed_reader h
    refine ⟨?_, ?_⟩
    · rintro d ⟨front, rest, c, htext, hc, hd⟩
      have hrule : restoreRule c = .error (.rejected d.message) :=
        restoreRule_eq_error_iff.mpr ⟨d, hd, rfl⟩
      obtain ⟨hdefect, hmalformed⟩ :=
        hclosed.whole_refine_of_frontBreaks ⟨front, rest, c, htext, hc, hrule⟩
      exact ⟨hmalformed problem hproblem, hdefect⟩
    · intro hfront
      refine hclosed.toLocal.whole_refine_of_not_frontBreaks hproblem ?_
      rintro why ⟨front, rest, c, htext, hc, hrule⟩
      obtain ⟨d, hd, -⟩ := restoreRule_eq_error_iff.mp hrule
      exact hfront d ⟨front, rest, c, htext, hc, hd⟩

/-- Of two slots, the second holds nothing: it is not in use, or it is.  And there may be no slots at
all, by themselves and with a bracket too many behind them. -/
theorem ofText_validates_slots :
    ofText "\x7b\"slots\":[7,null],\"cursor\":1,\"free\":1\x7d" =
        .ok (⟨#[some 7, none], 1, 1⟩ : CircularBuffer Int64) ∧
      (⟨#[some 7, none], 1, 1⟩ : CircularBuffer Int64).Valid ∧
      ofText (α := Int64) "\x7b\"slots\":[7,null],\"cursor\":1,\"free\":0\x7d" =
        .error (.unfit (.rejected Checkpoint.Defect.vacantSlot.message)) ∧
      ofText (α := Int64) "\x7b\"slots\":[],\"cursor\":0,\"free\":0\x7d" =
        .error (.unfit (.rejected Checkpoint.Defect.noSlots.message)) ∧
      Checkpoint.ofText (α := Int64) "\x7b\"slots\":[],\"cursor\":0,\"free\":0\x7d]" =
        .error .malformed ∧
      ofText (α := Int64) "\x7b\"slots\":[],\"cursor\":0,\"free\":0\x7d]" =
        .error (.unfit (.rejected Checkpoint.Defect.noSlots.message)) := by
  have hheld : Checkpoint.ofText "\x7b\"slots\":[7,null],\"cursor\":1,\"free\":1\x7d" =
      .ok (⟨[some 7, none], 1, 1⟩ : Checkpoint Int64) :=
    (congrArg Checkpoint.ofText (by decide +kernel)).trans
      (Checkpoint.ofText_text faithful_int64 (by decide) (by decide) (by decide))
  have hvacant : Checkpoint.ofText "\x7b\"slots\":[7,null],\"cursor\":1,\"free\":0\x7d" =
      .ok (⟨[some 7, none], 1, 0⟩ : Checkpoint Int64) :=
    (congrArg Checkpoint.ofText (by decide +kernel)).trans
      (Checkpoint.ofText_text faithful_int64 (by decide) (by decide) (by decide))
  have hreads : (Checkpoint.reader nestingLimit).Reads
      (writeRecord (⟨[], 0, 0⟩ : Checkpoint Int64).entries) (⟨[], 0, 0⟩ : Checkpoint Int64) :=
    Checkpoint.reads_checkpoint faithful_int64.toReadable (by decide) (by decide) (by decide)
  have hfront : Checkpoint.ofText "\x7b\"slots\":[],\"cursor\":0,\"free\":0\x7d" =
      .ok (⟨[], 0, 0⟩ : Checkpoint Int64) :=
    (congrArg Checkpoint.ofText (by decide +kernel)).trans hreads.whole
  have hbehind : Checkpoint.ofText (α := Int64) "\x7b\"slots\":[],\"cursor\":0,\"free\":0\x7d]" =
      .error .malformed := by
    have hrun := hreads [']'] (stops_cons (by decide) [])
    have htext : "\x7b\"slots\":[],\"cursor\":0,\"free\":0\x7d]".toList =
        writeRecord (⟨[], 0, 0⟩ : Checkpoint Int64).entries ++ [']'] := by decide +kernel
    rw [Checkpoint.ofText, Reader.whole, htext, hrun]
    rfl
  obtain ⟨hread, ⟨hlocal, -⟩, hunread⟩ := ofText_validates
  have hbuffer := ((hread Int64 _).1 ⟨#[some 7, none], 1, 1⟩).mpr ⟨_, hheld, rfl⟩
  refine ⟨hbuffer, (hread Int64 _).2.2 _ hbuffer, (hread Int64 _).2.1 _ .vacantSlot hvacant rfl,
    (hread Int64 _).2.1 _ .noSlots hfront rfl, hbehind, ?_⟩
  refine ((hunread Int64 hlocal _ _ hbehind).1 .noSlots ?_).2
  exact ⟨_, "]", _, by decide +kernel, hfront, rfl⟩

end CircularBuffer

end Containers
