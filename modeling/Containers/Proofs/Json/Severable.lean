import Containers.Proofs.Json.Deepening
import Containers.Proofs.Json.Stored
import Containers.Proofs.Json.Truncation

/-!
# Stored forms that may be cut short

What is left of the digits of a number is a number, but nothing stands behind it any more.

* `writeNat_cut` — what is left of a written number;
* `Json.Severable` — a reader takes what is written for a value, and runs out on what is left of it;
* `severable_int64`, `severable_string`, `severable_list`, `severable_option`, `severable_entry` —
  types of which this holds, and with them all that are made of lists and options;
* **`Severable.severed_option`** — then it holds where nothing may stand for a value, too.
-/

namespace Containers

namespace Json

/-! ### Numbers -/

/-- What is left of a written number is nothing or a smaller number. -/
theorem writeNat_cut {n : Nat} {p : List Char} (hp : Cut p (writeNat n)) :
    p = [] ∨ ∃ m, 0 < m ∧ m < n ∧ p = writeNat m := by
  induction n using Nat.strongRecOn with
  | ind n ih =>
    by_cases hlt : n < 10
    · rw [writeNat, Nat.toDigits_of_lt_base hlt] at hp
      exact .inl (cut_singleton hp)
    · have hlast : writeNat n = writeNat (n / 10) ++ [Nat.digitChar (n % 10)] :=
        Nat.toDigits_of_base_le (by decide) (Nat.not_lt.mp hlt)
      rw [hlast] at hp
      rcases cut_append hp with hp | ⟨q, rfl, hq⟩
      · rcases ih (n / 10) (by omega) hp with rfl | ⟨m, hpos, hm, rfl⟩
        · exact .inl rfl
        · exact .inr ⟨m, hpos, by omega, rfl⟩
      · obtain rfl := cut_singleton hq
        exact .inr ⟨n / 10, by omega, by omega, by rw [List.append_nil]⟩

theorem severed_natural {n : Nat} (hn : n < UInt64.size) : natural.Severed (writeNat n) := by
  intro p hp
  rcases writeNat_cut hp with rfl | ⟨m, -, hm, rfl⟩
  · exact runsOut_cutShort
  · exact .inr ⟨m, (reads_natural (Nat.lt_trans hm hn)).run_eq⟩

/-- What is left of a written integer is nothing, its sign, or an integer of 64 bits as well. -/
theorem writeInt_cut {n : Int64} {p : List Char} (hp : Cut p (writeInt n.toInt)) :
    p = [] ∨ p = ['-'] ∨ ∃ m : Int64, p = writeInt m.toInt := by
  have hmin : -2 ^ 63 ≤ n.toInt := Int64.le_toInt n
  have hmax : n.toInt < 2 ^ 63 := Int64.toInt_lt n
  rw [writeInt] at hp
  split at hp
  · rcases cut_cons hp with rfl | ⟨q, rfl, hq⟩
    · exact .inl rfl
    rcases writeNat_cut hq with rfl | ⟨m, hpos, hm, rfl⟩
    · exact .inr (.inl rfl)
    · have hneg : (Int64.ofInt (-m)).toInt = -m := Int64.toInt_ofInt_of_le (by omega) (by omega)
      refine .inr (.inr ⟨Int64.ofInt (-m), ?_⟩)
      rw [hneg, writeInt, if_pos (by omega), Int.natAbs_neg, Int.natAbs_natCast]
  · rcases writeNat_cut hp with rfl | ⟨m, hpos, hm, rfl⟩
    · exact .inl rfl
    · have hnonneg : (Int64.ofInt m).toInt = m := Int64.toInt_ofInt_of_le (by omega) (by omega)
      refine .inr (.inr ⟨Int64.ofInt m, ?_⟩)
      rw [hnonneg, writeInt, if_neg (by omega), Int.natAbs_natCast]

theorem severed_integer (n : Int64) : integer.Severed (writeInt n.toInt) := by
  intro p hp
  rcases writeInt_cut hp with rfl | rfl | ⟨m, rfl⟩
  · exact runsOut_cutShort
  · exact runsOut_cutShort
  · exact .inr ⟨m, (reads_integer m).run_eq⟩

/-! ### Types -/

/-- Where the brackets of a value may be opened, a reader takes what is written for it, if only for
another value, and runs out on whatever is left of that. More brackets change nothing, unless there
was one too many. -/
structure Severable (α : Type) [Stored α] [Nested α] : Prop where
  begins : ∀ a : α, Begins (Stored.write a)
  reads : ∀ (a : α) (depth : Nat), Nested.nesting a ≤ depth →
    ∃ b, (Stored.reader depth : Reader α).Reads (Stored.write a) b
  eq_null : ∀ a : α, (Stored.write a).head? = some 'n' → Stored.write a = null
  run_nil : ∀ depth : Nat, (Stored.reader depth : Reader α).run [] = .error .cutShort
  severed : ∀ (a : α) (depth : Nat), Nested.nesting a ≤ depth →
    (Stored.reader depth : Reader α).Severed (Stored.write a)
  deepens : Reader.Deepens (Stored.reader : Nat → Reader α)

theorem Readable.severable {α : Type} [Stored α] [Nested α] (h : Readable α)
    (hnil : ∀ depth : Nat, (Stored.reader depth : Reader α).run [] = .error .cutShort)
    (hsevered : ∀ (a : α) (depth : Nat), Nested.nesting a ≤ depth →
      (Stored.reader depth : Reader α).Severed (Stored.write a))
    (hdeepens : Reader.Deepens (Stored.reader : Nat → Reader α)) : Severable α where
  begins := h.begins
  reads a depth hle := ⟨a, h.reads a depth hle⟩
  eq_null := h.eq_null
  run_nil := hnil
  severed := hsevered
  deepens := hdeepens

theorem severable_int64 : Severable Int64 :=
  faithful_int64.toReadable.severable (fun _ => rfl) (fun n _ _ => severed_integer n)
    (Reader.deepens_const integer)

theorem severable_string : Severable String := by
  refine faithful_string.toReadable.severable (fun _ => rfl) (fun s _ _ p hp => ?_)
    (Reader.deepens_const string)
  rcases cut_cons hp with rfl | ⟨q, rfl, hq⟩
  · exact runsOut_cutShort
  · have hcontent := content_cut (spelled_written s.toList) hq
    refine .inl ?_
    show string.run ('"' :: q) = _
    rw [string]
    simp only [skipBlanks_cons (show isBlank '"' = false by decide), hcontent]

variable {α : Type}

theorem severed_null {reader : Reader α} (h : reader.run [] = .error .cutShort) :
    (orNull reader).Severed null := by
  intro p hp
  rcases cut_cons hp with rfl | ⟨q, rfl, hq⟩
  · rw [Reader.orNull_of_ne reader (by decide), h]
    exact runsOut_cutShort
  · have hkeyword : keyword ['u', 'l', 'l'] q = .error .cutShort := keyword_cut hq
    refine .inl ?_
    rw [orNull]
    simp only [skipBlanks_cons (show isBlank 'n' = false by decide), hkeyword]

variable [Stored α] [Nested α]

theorem Severable.reads_list (h : Severable α) {as : List α} {depth : Nat}
    (hitems : ∀ a ∈ as, Nested.nesting a ≤ depth) :
    ∃ bs, (sequence (Stored.reader depth : Reader α)).Reads (Stored.write as) bs := by
  have hreads : ∀ a : α, ∃ b, Nested.nesting a ≤ depth →
      (Stored.reader depth : Reader α).Reads (Stored.write a) b := by
    intro a
    by_cases hle : Nested.nesting a ≤ depth
    · obtain ⟨b, hb⟩ := h.reads a depth hle
      exact ⟨b, fun _ => hb⟩
    · exact ⟨a, fun hle' => absurd hle' hle⟩
  obtain ⟨f, hf⟩ := Classical.skolem.mp hreads
  exact ⟨as.map f, reads_sequence as (fun a _ => h.begins a) fun a ha => hf a (hitems a ha)⟩

theorem severable_list (h : Severable α) : Severable (List α) where
  begins as := ⟨'[', _, rfl, by decide, by decide⟩
  reads as depth hle := by
    cases depth with
    | zero => exact absurd hle (Nat.not_succ_le_zero _)
    | succ depth => exact h.reads_list (nesting_list_le_iff.mp hle)
  eq_null as hhead := absurd (Option.some.inj hhead) (by decide)
  run_nil depth := by cases depth <;> rfl
  severed as depth hle p hp := by
    cases depth with
    | zero => exact absurd hle (Nat.not_succ_le_zero _)
    | succ depth =>
      have hitems := nesting_list_le_iff.mp hle
      exact .inl <| run_sequence_cut (h.run_nil depth) (fun a _ => h.begins a)
        (fun a ha => h.reads a depth (hitems a ha)) (fun a ha => h.severed a depth (hitems a ha)) hp
  deepens := h.deepens.sequenceWithin

theorem Severable.orNull_nil (h : Severable α) (depth : Nat) :
    (orNull (Stored.reader depth : Reader α)).run [] = .error .cutShort := by
  rw [Reader.orNull_of_ne _ (by decide), h.run_nil]
  rfl

/-- **An optional value runs out** as its value does, and as the word for nothing. -/
theorem Severable.severed_option (h : Severable α) (o : Option α) (depth : Nat)
    (hle : Nested.nesting o ≤ depth) :
    (orNull (Stored.reader depth : Reader α)).Severed (writeOption o) := by
  cases o with
  | none => exact severed_null (h.run_nil depth)
  | some a =>
    by_cases hnull : (Stored.write a).head? = some 'n'
    · rw [writeOption, h.eq_null a hnull]
      exact severed_null (h.run_nil depth)
    · intro p hp
      obtain ⟨c, s, hwrite, hblank, -⟩ := h.begins a
      have hfirst : (skipBlanks p).head? ≠ some 'n' := by
        rw [writeOption, hwrite] at hp
        rw [hwrite] at hnull
        rcases cut_cons hp with rfl | ⟨q, rfl, -⟩
        · decide
        · rw [skipBlanks_cons hblank]
          exact hnull
      rw [Reader.orNull_of_ne _ hfirst]
      rcases h.severed a depth hle p hp with hrun | ⟨b, hrun⟩
      · rw [hrun]
        exact runsOut_cutShort
      · rw [hrun]
        exact .inr ⟨some b, rfl⟩

theorem Severable.reads_option (h : Severable α) (o : Option α) (depth : Nat)
    (hle : Nested.nesting o ≤ depth) :
    ∃ b, (orNull (Stored.reader depth : Reader α)).Reads (writeOption o) b := by
  cases o with
  | none => exact ⟨none, Reader.reads_null _⟩
  | some a =>
    by_cases hnull : (Stored.write a).head? = some 'n'
    · rw [writeOption, h.eq_null a hnull]
      exact ⟨none, Reader.reads_null _⟩
    · obtain ⟨b, hreads⟩ := h.reads a depth hle
      exact ⟨some b, hreads.orNull (h.begins a) hnull⟩

/-- Optional values may be optional once more, though not all of them are read back then. -/
theorem severable_option (h : Severable α) : Severable (Option α) where
  begins := begins_writeOption h.begins
  reads := h.reads_option
  eq_null o hhead := by
    cases o with
    | none => rfl
    | some a => exact h.eq_null a hhead
  run_nil := h.orNull_nil
  severed := h.severed_option
  deepens := h.deepens.orNull

end Json

open Json

theorem severable_entry : Severable Entry := by
  refine faithful_entry.toReadable.severable (fun depth => ?_) (fun e depth hle p hp => ?_)
    (deepens_recordWithin fun _ => Entry.shape.shallower_refl)
  · cases depth <;> rfl
  cases depth with
  | zero => exact absurd hle (Nat.not_succ_le_zero _)
  | succ depth =>
    refine .inl (Reader.refine_of_error ?_ _)
    refine Shape.run_draft_cut (fills_entry e) (List.cons_ne_nil _ _) ?_ hp
    intro entry hentry field hfield d
    simp only [List.mem_cons, List.not_mem_nil, or_false] at hentry
    rcases hentry with rfl | rfl
    · obtain rfl := Option.some.inj hfield
      exact (severed_integer e.key).refine _
    · obtain rfl := Option.some.inj hfield
      exact (severable_string.severed e.tag depth (Nat.zero_le depth)).refine _

end Containers
