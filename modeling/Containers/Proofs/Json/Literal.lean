import Containers.Proofs.Json.Reading

/-!
# Reading literals

The grammar of numbers, said by itself and not by a reader.

* `NoDigit` — a text that no digits go on into;
* `WholeText`, `FractionText`, `ExponentText` — the parts of a number, the last two of which may be
  missing;
* `LiteralText` — a literal and the text that it is read from, without its sign;
* **`literal_text`** — that text is read as the literal, in front of anything that stops it;
* **`literal_sound`** — and nothing else is.
-/

namespace Containers.Json

/-! ### Digits -/

/-- A text that no digits go on into. -/
def NoDigit (s : List Char) : Prop :=
  ∀ c ∈ s.head?, c.isDigit = false

theorem noDigit_cons {c : Char} (h : c.isDigit = false) (s : List Char) : NoDigit (c :: s) := by
  intro d hd
  obtain rfl : c = d := Option.some.inj hd
  exact h

theorem not_isDigit_of_goesOn {c : Char} (h : goesOn c = false) : c.isDigit = false := by
  simp_all [goesOn]

theorem Stops.noDigit {s : List Char} (h : Stops s) : NoDigit s :=
  fun c hc => not_isDigit_of_goesOn (h c hc)

theorem digits_append {ds rest : List Char} (hds : ∀ c ∈ ds, c.isDigit) (hrest : NoDigit rest) :
    digits (ds ++ rest) = (ds, rest) := by
  have hend : rest.takeWhile Char.isDigit = [] ∧ rest.dropWhile Char.isDigit = rest := by
    cases rest with
    | nil => exact ⟨rfl, rfl⟩
    | cons c rest => simp [hrest c rfl]
  rw [digits, List.takeWhile_append_of_pos hds, List.dropWhile_append_of_pos hds, hend.1, hend.2,
    List.append_nil]

/-- One digit or more. -/
structure DigitsText (ds : List Char) : Prop where
  ne_nil : ds ≠ []
  isDigit : ∀ c ∈ ds, c.isDigit

theorem someDigits_append {ds rest : List Char} (hds : DigitsText ds) (hrest : NoDigit rest) :
    someDigits (ds ++ rest) = .ok (ds, rest) := by
  obtain ⟨d, ds, rfl⟩ := List.exists_cons_of_ne_nil hds.ne_nil
  rw [someDigits, digits_append hds.isDigit hrest]

/-! ### Parts -/

/-- The digits in front of a point.  A zero at their start stands alone. -/
inductive WholeText : List Char → Prop where
  | zero : WholeText ['0']
  | nonzero {ds : List Char} (h : DigitsText ds) (hzero : ds.head? ≠ some '0') : WholeText ds

/-- A point and digits, or nothing. -/
inductive FractionText : Option (List Char) → List Char → Prop where
  | absent : FractionText none []
  | present {ds : List Char} (h : DigitsText ds) : FractionText (some ds) ('.' :: ds)

/-- The sign of an exponent, and whether it is negative. -/
inductive SignText : Bool → List Char → Prop where
  | absent : SignText false []
  | plus : SignText false ['+']
  | minus : SignText true ['-']

/-- The letter of an exponent in either case, its sign and its digits, or nothing. -/
inductive ExponentText : Option (Bool × List Char) → List Char → Prop where
  | absent : ExponentText none []
  | present {c : Char} {negative : Bool} {sign ds : List Char} (hc : c = 'e' ∨ c = 'E')
      (hsign : SignText negative sign) (h : DigitsText ds) :
      ExponentText (some (negative, ds)) (c :: (sign ++ ds))

/-- A literal and its text, without the sign. -/
inductive LiteralText : Literal → List Char → Prop where
  | mk {negative : Bool} {w f e : List Char} {fraction : Option (List Char)}
      {exponent : Option (Bool × List Char)} (hw : WholeText w) (hf : FractionText fraction f)
      (he : ExponentText exponent e) : LiteralText ⟨negative, w, fraction, exponent⟩ (w ++ (f ++ e))

theorem WholeText.digitsText {w : List Char} (h : WholeText w) : DigitsText w := by
  cases h with
  | zero => exact ⟨List.cons_ne_nil _ _, by simp⟩
  | nonzero h _ => exact h

theorem wholePart_append {w rest : List Char} (h : WholeText w) (hrest : NoDigit rest) :
    wholePart (w ++ rest) = .ok (w, rest) := by
  cases h with
  | zero =>
    cases rest with
    | nil => rfl
    | cons c rest =>
      show (if c.isDigit then _ else _) = _
      rw [hrest c rfl]
      rfl
  | nonzero h hzero =>
    have hsome := someDigits_append h hrest
    obtain ⟨d, ds, rfl⟩ := List.exists_cons_of_ne_nil h.ne_nil
    rw [List.cons_append] at hsome ⊢
    rw [wholePart]
    · exact hsome
    · rintro s hs
      obtain rfl := (List.cons.inj hs).1
      exact hzero rfl

/-- A fraction starts with a point. -/
theorem fractionPart_append {fraction : Option (List Char)} {f rest : List Char}
    (h : FractionText fraction f) (hrest : NoDigit rest) (hpoint : rest.head? ≠ some '.') :
    fractionPart (f ++ rest) = .ok (fraction, rest) := by
  cases h with
  | absent =>
    rw [List.nil_append, fractionPart]
    rintro s rfl
    exact hpoint rfl
  | present h =>
    show (someDigits (_ ++ rest)).bind _ = _
    rw [someDigits_append h hrest]
    rfl

theorem exponentSign_append {negative : Bool} {sign ds rest : List Char}
    (h : SignText negative sign) (hds : DigitsText ds) :
    exponentSign (sign ++ (ds ++ rest)) = (negative, ds ++ rest) := by
  cases h with
  | plus => rfl
  | minus => rfl
  | absent =>
    -- Without a sign, the first digit is taken for none.
    obtain ⟨d, ds, rfl⟩ := List.exists_cons_of_ne_nil hds.ne_nil
    have hdigit : d.isDigit := hds.isDigit d List.mem_cons_self
    rw [List.nil_append, List.cons_append, exponentSign]
    · rintro s hs
      obtain rfl := (List.cons.inj hs).1
      exact absurd hdigit (by decide)
    · rintro s hs
      obtain rfl := (List.cons.inj hs).1
      exact absurd hdigit (by decide)

theorem exponentPart_append {exponent : Option (Bool × List Char)} {e rest : List Char}
    (h : ExponentText exponent e) (hrest : Stops rest) :
    exponentPart (e ++ rest) = .ok (exponent, rest) := by
  cases h with
  | absent =>
    cases rest with
    | nil => rfl
    | cons c rest =>
      have hc : goesOn c = false := hrest c rfl
      have hnot : ¬ (c = 'e' ∨ c = 'E') := by
        rintro (rfl | rfl)
        · exact absurd hc (by decide)
        · exact absurd hc (by decide)
      rw [List.nil_append, exponentPart, if_neg hnot]
  | @present c negative sign ds hc hsign h =>
    rw [List.cons_append, List.append_assoc, exponentPart, if_pos hc,
      exponentSign_append hsign h]
    show (someDigits (ds ++ rest)).bind _ = _
    rw [someDigits_append h hrest.noDigit]
    rfl

theorem ExponentText.noDigit {exponent : Option (Bool × List Char)} {e rest : List Char}
    (h : ExponentText exponent e) (hrest : Stops rest) :
    NoDigit (e ++ rest) ∧ (e ++ rest).head? ≠ some '.' := by
  cases h with
  | absent =>
    refine ⟨hrest.noDigit, fun hpoint => ?_⟩
    exact absurd (hrest '.' hpoint) (by decide)
  | present hc =>
    rcases hc with rfl | rfl
    · exact ⟨noDigit_cons (by decide) _, fun hpoint => absurd (Option.some.inj hpoint) (by decide)⟩
    · exact ⟨noDigit_cons (by decide) _, fun hpoint => absurd (Option.some.inj hpoint) (by decide)⟩

theorem FractionText.noDigit {fraction : Option (List Char)} {f rest : List Char}
    (h : FractionText fraction f) (hrest : NoDigit rest) : NoDigit (f ++ rest) := by
  cases h with
  | absent => exact hrest
  | present _ => exact noDigit_cons (by decide) _

/-- **A number is read** as the literal that its parts make, in front of anything that stops it. -/
theorem literal_text {l : Literal} {t rest : List Char} (h : LiteralText l t) (hrest : Stops rest) :
    literal l.negative (t ++ rest) = .ok (l, rest) := by
  obtain ⟨hw, hf, he⟩ := h
  obtain ⟨hdigit, hpoint⟩ := he.noDigit hrest
  rw [literal, List.append_assoc, List.append_assoc, wholePart_append hw (hf.noDigit hdigit)]
  show (fractionPart _).bind _ = _
  rw [fractionPart_append hf hdigit hpoint]
  show (exponentPart _).bind _ = _
  rw [exponentPart_append he hrest]
  rfl

/-! ### What is read -/

theorem someDigits_sound {s ds r : List Char} (h : someDigits s = .ok (ds, r)) :
    s = ds ++ r ∧ DigitsText ds := by
  unfold someDigits digits at h
  split at h
  · simp at h
  · simp at h
  · next hd =>
    obtain ⟨rfl, rfl⟩ := Prod.mk.inj (Except.ok.inj h)
    obtain ⟨htake, hdrop⟩ := Prod.mk.inj hd
    refine ⟨?_, List.cons_ne_nil _ _, fun d hmem => ?_⟩
    · rw [← htake, ← hdrop, List.takeWhile_append_dropWhile]
    · rw [← htake] at hmem
      exact List.all_eq_true.mp List.all_takeWhile d hmem

theorem wholePart_sound {s w r : List Char} (h : wholePart s = .ok (w, r)) :
    s = w ++ r ∧ WholeText w := by
  unfold wholePart at h
  split at h
  · split at h
    · split at h
      · simp at h
      · obtain ⟨rfl, rfl⟩ := Prod.mk.inj (Except.ok.inj h)
        exact ⟨rfl, .zero⟩
    · obtain ⟨rfl, rfl⟩ := Prod.mk.inj (Except.ok.inj h)
      exact ⟨rfl, .zero⟩
  · next hzero =>
    obtain ⟨rfl, hdigits⟩ := someDigits_sound h
    refine ⟨rfl, .nonzero hdigits fun hhead => ?_⟩
    obtain ⟨d, ds, rfl⟩ := List.exists_cons_of_ne_nil hdigits.ne_nil
    obtain rfl := Option.some.inj hhead
    exact hzero _ rfl

theorem fractionPart_sound {s r : List Char} {fraction : Option (List Char)}
    (h : fractionPart s = .ok (fraction, r)) : ∃ f, s = f ++ r ∧ FractionText fraction f := by
  unfold fractionPart at h
  split at h
  · next s =>
    obtain ⟨u, hd, h⟩ := bind_eq_ok_iff.mp h
    obtain ⟨rfl, rfl⟩ := Prod.mk.inj (Except.ok.inj h)
    obtain ⟨hs, hdigits⟩ := someDigits_sound hd
    exact ⟨'.' :: u.1, congrArg (List.cons '.') hs, .present hdigits⟩
  · obtain ⟨rfl, rfl⟩ := Prod.mk.inj (Except.ok.inj h)
    exact ⟨[], rfl, .absent⟩

theorem exponentSign_sound (s : List Char) :
    ∃ sign, s = sign ++ (exponentSign s).2 ∧ SignText (exponentSign s).1 sign := by
  unfold exponentSign
  split
  · exact ⟨['-'], rfl, .minus⟩
  · exact ⟨['+'], rfl, .plus⟩
  · exact ⟨[], rfl, .absent⟩

theorem exponentPart_sound {s r : List Char} {exponent : Option (Bool × List Char)}
    (h : exponentPart s = .ok (exponent, r)) : ∃ e, s = e ++ r ∧ ExponentText exponent e := by
  unfold exponentPart at h
  split at h
  · next c s =>
    split at h
    · next hc =>
      obtain ⟨sign, hs, hsign⟩ := exponentSign_sound s
      generalize exponentSign s = signed at h hs hsign
      obtain ⟨u, hd, h⟩ := bind_eq_ok_iff.mp h
      obtain ⟨rfl, rfl⟩ := Prod.mk.inj (Except.ok.inj h)
      obtain ⟨hrest, hdigits⟩ := someDigits_sound hd
      refine ⟨c :: (sign ++ u.1), ?_, .present hc hsign hdigits⟩
      rw [List.cons_append, List.append_assoc, ← hrest, ← hs]
    · obtain ⟨rfl, rfl⟩ := Prod.mk.inj (Except.ok.inj h)
      exact ⟨[], rfl, .absent⟩
  · obtain ⟨rfl, rfl⟩ := Prod.mk.inj (Except.ok.inj h)
    exact ⟨[], rfl, .absent⟩

/-- **What is read as a literal** is the text of that literal. -/
theorem literal_sound {negative : Bool} {s r : List Char} {l : Literal}
    (h : literal negative s = .ok (l, r)) :
    ∃ t, s = t ++ r ∧ LiteralText l t ∧ l.negative = negative := by
  unfold literal at h
  obtain ⟨w, hw, h⟩ := bind_eq_ok_iff.mp h
  obtain ⟨f, hf, h⟩ := bind_eq_ok_iff.mp h
  obtain ⟨e, he, h⟩ := bind_eq_ok_iff.mp h
  obtain ⟨rfl, rfl⟩ := Prod.mk.inj (Except.ok.inj h)
  obtain ⟨hs, hwhole⟩ := wholePart_sound hw
  obtain ⟨tf, hwr, hfraction⟩ := fractionPart_sound hf
  obtain ⟨te, hfr, hexponent⟩ := exponentPart_sound he
  refine ⟨w.1 ++ (tf ++ te), ?_, .mk hwhole hfraction hexponent, rfl⟩
  rw [List.append_assoc, List.append_assoc, ← hfr, ← hwr, ← hs]

end Containers.Json
