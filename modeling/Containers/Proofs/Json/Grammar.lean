import Containers.Json.Skip
import Containers.Proofs.Json.Number
import Containers.Proofs.Json.Spelling

/-!
# The grammar of values

What counts as a value, said by itself and not by a reader, with blanks wherever they may stand.

* `ScalarText` — a value without parts;
* `LabelText` — what stands in front of a value inside a bracket: a key and a colon, or nothing;
* `Grammar` — a value, and what stands inside a bracket;
* `Passed` — what becomes of a text when it is passed over inside other brackets;
* **`Grammar.passed`** and **`skip_value`** — a value is passed over to its end, however deep its
  brackets are and whatever brackets it stands in.
-/

namespace Containers.Json

/-! ### Values -/

/-- The character that opens a bracket. -/
def Bracket.opening : Bracket → Char
  | square => '['
  | curly => '\x7b'

/-- A value without parts: one of three words, a number with its sign, or a string. -/
inductive ScalarText : List Char → Prop where
  | null : ScalarText ['n', 'u', 'l', 'l']
  | truth : ScalarText ['t', 'r', 'u', 'e']
  | falsity : ScalarText ['f', 'a', 'l', 's', 'e']
  | positive {l : Literal} {t : List Char} (h : LiteralText l t) : ScalarText t
  | negative {l : Literal} {t : List Char} (h : LiteralText l t) : ScalarText ('-' :: t)
  | string {t : List Char} (h : Pieces t) : ScalarText ('"' :: (t ++ ['"']))

/-- What stands in front of a value inside a bracket: a key and a colon if it is curly. -/
inductive LabelText : Bracket → List Char → Prop where
  | square : LabelText .square []
  | curly {w k w' : List Char} (hw : Blanks w) (hk : Pieces k) (hw' : Blanks w') :
      LabelText .curly (w ++ '"' :: (k ++ '"' :: (w' ++ [':'])))

/-- The grammar of values (`none`), and of what stands inside a bracket that is not empty. -/
inductive Grammar : Option Bracket → List Char → Prop where
  | scalar {t : List Char} (h : ScalarText t) : Grammar none t
  | empty {w : List Char} (b : Bracket) (hw : Blanks w) :
      Grammar none (b.opening :: (w ++ [b.closing]))
  | bracket {b : Bracket} {t : List Char} (h : Grammar (some b) t) :
      Grammar none (b.opening :: (t ++ [b.closing]))
  | last {b : Bracket} {l w t w' : List Char} (hl : LabelText b l) (hw : Blanks w)
      (h : Grammar none t) (hw' : Blanks w') : Grammar (some b) (l ++ (w ++ (t ++ w')))
  | more {b : Bracket} {l w t w' ts : List Char} (hl : LabelText b l) (hw : Blanks w)
      (h : Grammar none t) (hw' : Blanks w') (hs : Grammar (some b) ts) :
      Grammar (some b) (l ++ (w ++ (t ++ (w' ++ ',' :: ts))))

/-! ### Values without parts -/

theorem ne_of_isDigit {c d : Char} (hd : d.isDigit) (hc : c.isDigit = false) : d ≠ c := by
  rintro rfl
  exact Bool.false_ne_true (hc.symm.trans hd)

theorem keyword_append (cs rest : List Char) : keyword cs (cs ++ rest) = .ok rest := by
  induction cs with
  | nil => rfl
  | cons c cs ih =>
    rw [List.cons_append, keyword, if_pos rfl]
    exact ih

theorem skipNumber_append {l : Literal} {t rest : List Char} (h : LiteralText l t)
    (hrest : Stops rest) : skipNumber (t ++ rest) = .ok rest := by
  obtain ⟨hw, hf, he⟩ := h
  have hliteral : literal false _ = _ := literal_text (.mk hw hf he) hrest
  rw [skipNumber]
  simp only [hliteral]

theorem skipScalar_of_isDigit {d : Char} (h : d.isDigit) (s : List Char) :
    skipScalar d s = skipNumber (d :: s) := by
  rw [skipScalar, if_neg (ne_of_isDigit h (by decide)), if_neg (ne_of_isDigit h (by decide)),
    if_neg (ne_of_isDigit h (by decide)), if_neg (ne_of_isDigit h (by decide)),
    if_neg (ne_of_isDigit h (by decide)), if_pos h]

/-- The character `c` starts a value without parts, which goes on with `s`. -/
structure StartsScalar (c : Char) (s : List Char) : Prop where
  not_blank : isBlank c = false
  ne_bracket : c ≠ ']'
  opened? : Bracket.opened? c = none
  skipScalar : ∀ rest, Stops rest → Json.skipScalar c (s ++ rest) = .ok rest

/-- **A value without parts** is told by its first character, and passed over to its end. -/
theorem ScalarText.starts {t : List Char} (h : ScalarText t) :
    ∃ c s, t = c :: s ∧ StartsScalar c s := by
  cases h with
  | null =>
    exact ⟨'n', _, rfl, by decide, by decide, by decide, fun rest _ => keyword_append _ rest⟩
  | truth =>
    exact ⟨'t', _, rfl, by decide, by decide, by decide, fun rest _ => keyword_append _ rest⟩
  | falsity =>
    exact ⟨'f', _, rfl, by decide, by decide, by decide, fun rest _ => keyword_append _ rest⟩
  | string h =>
    refine ⟨'"', _, rfl, by decide, by decide, by decide, fun rest _ => ?_⟩
    rw [List.append_assoc, List.singleton_append]
    exact skipContent_pieces h rest
  | negative h =>
    exact ⟨'-', _, rfl, by decide, by decide, by decide,
      fun rest hrest => skipNumber_append h hrest⟩
  | positive h =>
    obtain ⟨d, s, rfl, hdigit⟩ : ∃ d s, t = d :: s ∧ d.isDigit := by
      obtain @⟨_, w, f, e, _, _, hw, -, -⟩ := h
      obtain ⟨d, ds, rfl⟩ := List.exists_cons_of_ne_nil hw.digitsText.ne_nil
      exact ⟨d, ds ++ (f ++ e), rfl, hw.digitsText.isDigit d List.mem_cons_self⟩
    obtain ⟨_, _, hcons, hblank, hbracket⟩ := begins_of_isDigit hdigit s
    obtain ⟨rfl, rfl⟩ := List.cons.inj hcons
    refine ⟨d, s, rfl, hblank, hbracket, ?_, ?_⟩
    · rw [Bracket.opened?, if_neg (ne_of_isDigit hdigit (by decide)),
        if_neg (ne_of_isDigit hdigit (by decide))]
    · intro rest hrest
      rw [skipScalar_of_isDigit hdigit]
      exact skipNumber_append h hrest

/-! ### Brackets -/

theorem Bracket.isBlank_opening (b : Bracket) : isBlank b.opening = false := by
  cases b <;> decide

theorem Bracket.isBlank_closing (b : Bracket) : isBlank b.closing = false := by
  cases b <;> decide

theorem Bracket.opened?_opening (b : Bracket) : opened? b.opening = some b := by
  cases b <;> rfl

theorem Bracket.closing_ne_comma (b : Bracket) : b.closing ≠ ',' := by
  cases b <;> decide

theorem stops_closing (b : Bracket) (s : List Char) : Stops (b.closing :: s) :=
  stops_cons (by cases b <;> decide) s

theorem Grammar.begins {t : List Char} (h : Grammar none t) : Begins t := by
  cases h with
  | scalar h =>
    obtain ⟨c, s, rfl, hstarts⟩ := h.starts
    exact ⟨c, s, rfl, hstarts.not_blank, hstarts.ne_bracket⟩
  | empty b _ => exact ⟨b.opening, _, rfl, b.isBlank_opening, by cases b <;> decide⟩
  | @bracket b _ _ => exact ⟨b.opening, _, rfl, b.isBlank_opening, by cases b <;> decide⟩

/-- What stands inside a bracket does not start with its end. -/
theorem LabelText.first {b : Bracket} {l w t : List Char} (hl : LabelText b l) (hw : Blanks w)
    (ht : Grammar none t) (rest : List Char) :
    ∃ c s, skipBlanks (l ++ (w ++ (t ++ rest))) = c :: s ∧ c ≠ b.closing := by
  cases hl with
  | square =>
    obtain ⟨c, s, rfl, hblank, hbracket⟩ := ht.begins
    refine ⟨c, s ++ rest, ?_, hbracket⟩
    rw [List.nil_append, hw.skipBlanks_append]
    exact skipBlanks_cons hblank (s ++ rest)
  | @curly v k v' hv hk hv' =>
    refine ⟨'"', k ++ '"' :: (v' ++ [':']) ++ (w ++ (t ++ rest)), ?_, by decide⟩
    rw [List.append_assoc, hv.skipBlanks_append]
    exact skipBlanks_cons (by decide) _

/-- A key and its colon are passed over, and nothing where there is none. -/
theorem label_append {b : Bracket} {l : List Char} (h : LabelText b l) (s : List Char) :
    label b (l ++ s) = .ok s := by
  cases h with
  | square => rfl
  | @curly w k w' hw hk hw' =>
    have htext : w ++ '"' :: (k ++ '"' :: (w' ++ [':'])) ++ s =
        w ++ '"' :: (k ++ '"' :: (w' ++ ':' :: s)) := by simp
    rw [htext, label, hw.skipBlanks_append, skipBlanks_cons (by decide)]
    simp only [if_true, skipContent_pieces hk, bind, Except.bind, hw'.skipBlanks_append,
      skipBlanks_cons (show isBlank ':' = false by decide)]

theorem Grammar.first {b : Bracket} {t : List Char} (h : Grammar (some b) t) (rest : List Char) :
    ∃ c s, skipBlanks (t ++ rest) = c :: s ∧ c ≠ b.closing := by
  cases h with
  | @last _ l w t w' hl hw h hw' =>
    have htext : l ++ (w ++ (t ++ w')) ++ rest = l ++ (w ++ (t ++ (w' ++ rest))) := by simp
    rw [htext]
    exact hl.first hw h _
  | @more _ l w t w' ts hl hw h hw' hs =>
    have htext : l ++ (w ++ (t ++ (w' ++ ',' :: ts))) ++ rest =
        l ++ (w ++ (t ++ (w' ++ ',' :: ts ++ rest))) := by simp
    rw [htext]
    exact hl.first hw h _

/-! ### Passing over -/

section Passing

variable {b : Bracket} {bs : List Bracket} {c : Char} {w s t rest : List Char}

/-- Goes on passing over until all brackets are closed. -/
def advance : Except Problem (List Bracket × List Char) → Except Problem (List Char)
  | .error problem => .error problem
  | .ok ([], r) => .ok r
  | .ok (b :: bs, r) => skip (b :: bs) r

/-- A label leads to the value behind it, inside the same bracket. -/
def inside (b : Bracket) (bs : List Bracket) (s : List Char) :
    Except Problem (List Bracket × List Char) :=
  (label b s).bind fun r => .ok (b :: bs, r)

theorem advance_inside (b : Bracket) (bs : List Bracket) (s : List Char) :
    advance (inside b bs s) = (label b s).bind (skip (b :: bs)) := by
  rw [inside]
  cases label b s <;> rfl

theorem skip_eq_advance (bs : List Bracket) (s : List Char) : skip bs s = advance (pass bs s) := by
  rw [skip]
  split
  · next h => exact congrArg advance h.symm
  · next h => exact congrArg advance h.symm
  · next h => exact congrArg advance h.symm

theorem skip_blanks (hw : Blanks w) (bs : List Bracket) (s : List Char) :
    skip bs (w ++ s) = skip bs s := by
  rw [skip_eq_advance, skip_eq_advance, pass, pass, hw.skipBlanks_append]

theorem pass_scalar (h : StartsScalar c s) (bs : List Bracket) (hrest : Stops rest) :
    pass bs (c :: (s ++ rest)) = following bs rest := by
  rw [pass, skipBlanks_cons h.not_blank]
  simp only [h.opened?, h.skipScalar rest hrest, bind, Except.bind]

theorem pass_empty (b : Bracket) (bs : List Bracket) (hw : Blanks w) (rest : List Char) :
    pass bs (b.opening :: (w ++ b.closing :: rest)) = following bs rest := by
  rw [pass, skipBlanks_cons b.isBlank_opening]
  simp only [b.opened?_opening, hw.skipBlanks_append, skipBlanks_cons b.isBlank_closing, if_true]

theorem pass_opening (hfirst : skipBlanks s = c :: t) (hne : c ≠ b.closing) (bs : List Bracket) :
    pass bs (b.opening :: s) = inside b bs s := by
  rw [pass, skipBlanks_cons b.isBlank_opening]
  simp only [b.opened?_opening, hfirst, if_neg hne]
  rfl

theorem following_closing (b : Bracket) (bs : List Bracket) (hw : Blanks w) (rest : List Char) :
    following (b :: bs) (w ++ b.closing :: rest) = following bs rest := by
  rw [following, hw.skipBlanks_append, skipBlanks_cons b.isBlank_closing]
  simp only [if_neg b.closing_ne_comma, if_true]

theorem following_comma (b : Bracket) (bs : List Bracket) (hw : Blanks w) (s : List Char) :
    following (b :: bs) (w ++ ',' :: s) = inside b bs s := by
  rw [following, hw.skipBlanks_append, skipBlanks_cons (show isBlank ',' = false by decide)]
  simp only [if_true]
  rfl

/-- What becomes of a text that is passed over inside the brackets `bs`: a value leaves what follows
it, and what stands inside a bracket leaves what follows that bracket. -/
def Passed : Option Bracket → List Char → Prop
  | none, t => ∀ bs rest, Stops rest → skip bs (t ++ rest) = advance (following bs rest)
  | some b, t => ∀ bs rest,
      (label b (t ++ b.closing :: rest)).bind (skip (b :: bs)) = advance (following bs rest)

/-- **All of the grammar is passed over**, by induction on how a text is put together. -/
theorem Grammar.passed {o : Option Bracket} (h : Grammar o t) : Passed o t := by
  induction h with
  | scalar h =>
    intro bs rest hrest
    obtain ⟨c, s, rfl, hstarts⟩ := h.starts
    rw [skip_eq_advance, List.cons_append, pass_scalar hstarts bs hrest]
  | @empty w b hw =>
    intro bs rest _
    rw [skip_eq_advance, List.cons_append, List.append_assoc, List.singleton_append,
      pass_empty b bs hw]
  | @bracket b t h ih =>
    intro bs rest _
    obtain ⟨c, s, hfirst, hne⟩ := h.first (b.closing :: rest)
    rw [skip_eq_advance, List.cons_append, List.append_assoc, List.singleton_append,
      pass_opening hfirst hne, advance_inside]
    exact ih bs rest
  | @last b l w t w' hl hw _ hw' ih =>
    intro bs rest
    have htext : l ++ (w ++ (t ++ w')) ++ b.closing :: rest =
        l ++ (w ++ (t ++ (w' ++ b.closing :: rest))) := by simp
    rw [htext, label_append hl]
    show skip (b :: bs) _ = _
    rw [skip_blanks hw, ih _ _ (hw'.stops_append (stops_closing b rest)),
      following_closing b bs hw']
  | @more b l w t w' ts hl hw _ hw' _ ih ihs =>
    intro bs rest
    have htext : l ++ (w ++ (t ++ (w' ++ ',' :: ts))) ++ b.closing :: rest =
        l ++ (w ++ (t ++ (w' ++ ',' :: (ts ++ b.closing :: rest)))) := by simp
    rw [htext, label_append hl]
    show skip (b :: bs) _ = _
    rw [skip_blanks hw, ih _ _ (hw'.stops_append (stops_cons (by decide) _)),
      following_comma b bs hw', advance_inside]
    exact ihs bs rest

/-- **A value is passed over** to its end. -/
theorem skip_value (h : Grammar none t) (hw : Blanks w) (hrest : Stops rest) :
    skip [] (w ++ (t ++ rest)) = .ok rest := by
  rw [skip_blanks hw]
  exact h.passed [] rest hrest

end Passing

end Containers.Json
