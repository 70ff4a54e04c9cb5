import Containers.Proofs.Json.Literal

/-!
# Reading written numbers

* `writeNat_head` — written digits start with a zero only where they are that zero;
* **`literal_writeNat`** — written digits are read as a literal without fraction and exponent;
* **`reads_natural`** and **`reads_integer`** — what 64 bits can hold is read back.
-/

namespace Containers.Json

variable {α : Type}

/-! ### Digits -/

theorem isDigit_of_mem_writeNat {n : Nat} {c : Char} (h : c ∈ writeNat n) : c.isDigit :=
  Nat.isDigit_of_mem_toDigits (by decide) (by decide) h

/-- There is a first written digit. -/
theorem exists_writeNat_cons (n : Nat) : ∃ d ds, writeNat n = d :: ds ∧ d.isDigit := by
  obtain ⟨d, ds, hds⟩ := List.exists_cons_of_ne_nil (Nat.toDigits_ne_nil (b := 10) (n := n))
  have hmem : d ∈ writeNat n := by
    rw [writeNat, hds]
    exact List.mem_cons_self
  exact ⟨d, ds, hds, isDigit_of_mem_writeNat hmem⟩

/-- Written digits start with a zero only where they are that zero. -/
theorem writeNat_head {n : Nat} (h : (writeNat n).head? = some '0') : n = 0 := by
  induction n using Nat.strongRecOn with
  | ind n ih =>
    by_cases hlt : n < 10
    · rw [writeNat, Nat.toDigits_of_lt_base hlt] at h
      exact Nat.digitChar_eq_zero.mp (Option.some.inj h)
    · obtain ⟨d, ds, hfront, -⟩ := exists_writeNat_cons (n / 10)
      have hlast : writeNat n = writeNat (n / 10) ++ [Nat.digitChar (n % 10)] :=
        Nat.toDigits_of_base_le (by decide) (Nat.not_lt.mp hlt)
      rw [hlast, hfront] at h
      have hzero := ih (n / 10) (by omega) (by rw [hfront]; exact h)
      omega

/-- Written digits stand in front of a point as they are: a zero at their start stands alone. -/
theorem wholeText_writeNat (n : Nat) : WholeText (writeNat n) := by
  obtain ⟨d, ds, hds, -⟩ := exists_writeNat_cons n
  by_cases hzero : n = 0
  · subst hzero
    exact .zero
  · refine .nonzero ⟨by rw [hds]; exact List.cons_ne_nil d ds, ?_⟩ ?_
    · exact fun c hc => isDigit_of_mem_writeNat hc
    · exact fun hhead => hzero (writeNat_head hhead)

/-- **Written digits** are a literal without a fraction and an exponent. -/
theorem literal_writeNat (negative : Bool) (n : Nat) {rest : List Char} (hrest : Stops rest) :
    literal negative (writeNat n ++ rest) = .ok (⟨negative, writeNat n, none, none⟩, rest) := by
  have htext : LiteralText ⟨negative, writeNat n, none, none⟩ (writeNat n ++ ([] ++ [])) :=
    .mk (wholeText_writeNat n) .absent .absent
  rw [List.nil_append, List.append_nil] at htext
  exact literal_text htext hrest

/-! ### Numbers -/

theorem number_writeNat {n : Nat} (hn : n < UInt64.size) {rest : List Char}
    (hrest : Stops rest) : number false (writeNat n ++ rest) = .ok (.integer n, rest) := by
  have hvalue : (⟨false, writeNat n, none, none⟩ : Literal).value = .ok (.integer n) := by
    rw [Literal.value]
    show (if _ && _ && decide (Nat.ofDigitChars 10 (writeNat n) 0 < UInt64.size) then _ else _) = _
    rw [writeNat, Nat.ofDigitChars_ten_toDigits, if_pos]
    simpa [Literal.isInteger] using hn
  rw [number, literal_writeNat false n hrest]
  show (Literal.value _).bind _ = _
  rw [hvalue]
  rfl

theorem number_writeNat_negative {n : Nat} (hpos : 0 < n)
    (hmin : Int64.minValue.toInt ≤ -(n : Int)) {rest : List Char} (hrest : Stops rest) :
    number true (writeNat n ++ rest) = .ok (.integer (-n), rest) := by
  have hvalue : (⟨true, writeNat n, none, none⟩ : Literal).value = .ok (.integer (-n)) := by
    rw [Literal.value]
    simp only [Literal.isInteger, writeNat, Nat.ofDigitChars_ten_toDigits, hpos, hmin,
      Option.isNone_none, Bool.and_self, Bool.not_true, Bool.and_false, Bool.false_and,
      Bool.false_eq_true, if_false, decide_true, if_true]
  rw [number, literal_writeNat true n hrest]
  show (Literal.value _).bind _ = _
  rw [hvalue]
  rfl

theorem begins_of_isDigit {c : Char} (h : c.isDigit) (s : List Char) : Begins (c :: s) := by
  refine ⟨c, s, rfl, ?_, ?_⟩
  · cases hblank : isBlank c with
    | false => rfl
    | true =>
      have hcases : c = ' ' ∨ c = '\n' ∨ c = '\t' ∨ c = '\r' := by
        simpa [isBlank, or_assoc] using hblank
      rcases hcases with rfl | rfl | rfl | rfl <;> exact absurd h (by decide)
  · rintro rfl
    exact absurd h (by decide)

theorem begins_writeNat (n : Nat) : Begins (writeNat n) := by
  obtain ⟨d, ds, hds, hdigit⟩ := exists_writeNat_cons n
  rw [hds]
  exact begins_of_isDigit hdigit ds

/-- A natural number that 64 bits can hold is read where the rule wants it. -/
theorem reads_numeric_writeNat {wanted : String} {rule : Number → Except Misfit α} {n : Nat}
    {a : α} (hn : n < UInt64.size) (hrule : rule (.integer n) = .ok a) :
    (numeric wanted rule).Reads (writeNat n) a := by
  refine Reader.Reads.refine ?_ _ hrule
  intro rest hrest
  have hnumber := number_writeNat hn hrest
  obtain ⟨d, ds, hds, hdigit⟩ := exists_writeNat_cons n
  simp only [(begins_writeNat n).skipBlanks_append]
  rw [hds, List.cons_append] at hnumber ⊢
  -- What is read is decided by the first character, which is a digit.
  split
  · next heq =>
    obtain rfl := (List.cons.inj heq).1
    exact absurd hdigit (by decide)
  · next heq =>
    obtain ⟨rfl, rfl⟩ := List.cons.inj heq
    rw [if_pos hdigit]
    exact hnumber
  · next heq => exact absurd heq (List.cons_ne_nil _ _)

/-- A number below zero that 64 bits can hold is read where the rule wants it. -/
theorem reads_numeric_negative {wanted : String} {rule : Number → Except Misfit α} {n : Nat}
    {a : α} (hpos : 0 < n) (hmin : Int64.minValue.toInt ≤ -(n : Int))
    (hrule : rule (.integer (-n)) = .ok a) :
    (numeric wanted rule).Reads ('-' :: writeNat n) a := by
  refine Reader.Reads.refine ?_ _ hrule
  intro rest hrest
  exact number_writeNat_negative hpos hmin hrest

/-- **A natural number of 64 bits** is read back. -/
theorem reads_natural {n : Nat} (hn : n < UInt64.size) : natural.Reads (writeNat n) n := by
  refine reads_numeric_writeNat hn ?_
  show (if (n : Int) < 0 then _ else Except.ok (n : Int).toNat) = _
  rw [if_neg (Int.not_lt.mpr (Int.natCast_nonneg n)), Int.toNat_natCast]

theorem begins_writeInt (n : Int) : Begins (writeInt n) := by
  rw [writeInt]
  split
  · exact ⟨'-', _, rfl, by decide, by decide⟩
  · exact begins_writeNat n.natAbs

/-- **An integer of 64 bits** is read back. -/
theorem reads_integer (n : Int64) : integer.Reads (writeInt n.toInt) n := by
  have hmin : Int64.minValue.toInt ≤ n.toInt := Int64.le_toInt n
  have hmax : n.toInt < 2 ^ 63 := Int64.toInt_lt n
  have hle : n.toInt ≤ Int64.maxValue.toInt := by
    have : Int64.maxValue.toInt = 2 ^ 63 - 1 := by decide
    omega
  have hrule : (if n.toInt ≤ Int64.maxValue.toInt then .ok (Int64.ofInt n.toInt)
      else .error (.outOfRange n.toInt "i64") : Except Misfit Int64) = .ok n := by
    rw [if_pos hle, Int64.ofInt_toInt]
  rw [writeInt]
  split
  · next hneg =>
    have habs : -(n.toInt.natAbs : Int) = n.toInt := by omega
    refine reads_numeric_negative (by omega) (habs.symm ▸ hmin) ?_
    rw [habs]
    exact hrule
  · next hneg =>
    have hsize : n.toInt.natAbs < UInt64.size := by
      have : UInt64.size = 2 ^ 64 := rfl
      omega
    refine reads_numeric_writeNat hsize ?_
    have habs : (n.toInt.natAbs : Int) = n.toInt := by omega
    rw [habs]
    exact hrule

end Containers.Json
