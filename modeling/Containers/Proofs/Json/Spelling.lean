import Containers.Json.Quoted
import Containers.Proofs.Json.Reading

/-!
# The spelling of strings

What may stand between the quotes of a string, said by itself and not by a reader.  A character has
more than one spelling, and some pieces are well formed though they spell no character.

* `UnitText` — four digits of base sixteen, and the code unit that they name;
* `Spells`, `Spelled` — a character, and a string of them, with its spelling;
* `Piece`, `Pieces` — what is well formed, whether or not it spells a character;
* **`content_spelled`**, **`content_sound`** — a spelling is read as what it spells, up to the
  closing quote, and nothing else is;
* **`skipContent_pieces`**, **`skipContent_sound`** — what is well formed is passed over up to
  there, and nothing else is.
-/

namespace Containers.Json

/-! ### Code units -/

/-- Four digits of base sixteen, in either case, and the code unit that they name. -/
inductive UnitText : Nat → List Char → Prop where
  | mk {a b c d : Char} {v w x y : Nat} (ha : hexValue? a = some v) (hb : hexValue? b = some w)
      (hc : hexValue? c = some x) (hd : hexValue? d = some y) :
      UnitText (((v * 16 + w) * 16 + x) * 16 + y) [a, b, c, d]

theorem codeUnit_append {n : Nat} {u : List Char} (h : UnitText n u) (rest : List Char) :
    codeUnit (u ++ rest) = .ok (n, rest) := by
  obtain @⟨a, b, c, d, v, w, x, y, ha, hb, hc, hd⟩ := h
  have hbytes : ¬ byteCount [a, b, c, d] < 4 := by
    have hsize := fun e : Char => Char.utf8Size_pos e
    have := hsize a
    have := hsize b
    have := hsize c
    have := hsize d
    simp only [byteCount]
    omega
  show codeUnit (a :: b :: c :: d :: rest) = _
  rw [codeUnit]
  simp only [List.take_succ_cons, List.take_zero, if_neg hbytes, ha, hb, hc, hd]

/-! ### Spelling -/

/-- A character that stands for itself between the quotes. -/
structure Plain (c : Char) : Prop where
  ne_quote : c ≠ '"'
  ne_backslash : c ≠ '\\'
  not_control : ¬ c.toNat < 0x20

/-- A character and one of its spellings: itself, a letter after a backslash, a code unit, or the
two code units that it is made of. -/
inductive Spells : Char → List Char → Prop where
  | plain {c : Char} (h : Plain c) : Spells c [c]
  | short {c e : Char} (h : shortEscape? e = some c) : Spells c ['\\', e]
  | unit {n : Nat} {u : List Char} (h : UnitText n u) (hleading : isLeading n = false)
      (htrailing : isTrailing n = false) : Spells (Char.ofNat n) ('\\' :: 'u' :: u)
  | pair {n m : Nat} {u v : List Char} (hu : UnitText n u) (hv : UnitText m v)
      (hleading : isLeading n) (htrailing : isTrailing m) :
      Spells (joinUnits n m) ('\\' :: 'u' :: (u ++ '\\' :: 'u' :: v))

/-- The characters of a string, spelled one after the other. -/
inductive Spelled : List Char → List Char → Prop where
  | nil : Spelled [] []
  | cons {c : Char} {cs t ts : List Char} (h : Spells c t) (hs : Spelled cs ts) :
      Spelled (c :: cs) (t ++ ts)

/-- A piece of a string that is well formed, whether or not it spells a character. -/
inductive Piece : List Char → Prop where
  | plain {c : Char} (h : Plain c) : Piece [c]
  | short {e : Char} (h : (shortEscape? e).isSome) : Piece ['\\', e]
  | unit {n : Nat} {u : List Char} (h : UnitText n u) : Piece ('\\' :: 'u' :: u)

/-- Pieces one after the other. -/
inductive Pieces : List Char → Prop where
  | nil : Pieces []
  | cons {t ts : List Char} (h : Piece t) (hs : Pieces ts) : Pieces (t ++ ts)

theorem ne_u_of_isSome {e : Char} (h : (shortEscape? e).isSome) : e ≠ 'u' := by
  rintro rfl
  exact absurd h (by decide)

/-! ### Reading -/

/-- A leading code unit needs the trailing one that follows it. -/
theorem namedChar_pair {n m : Nat} {u v : List Char} (hu : UnitText n u) (hv : UnitText m v)
    (hleading : isLeading n) (htrailing : isTrailing m) (rest : List Char) :
    namedChar (u ++ '\\' :: 'u' :: (v ++ rest)) = .ok (joinUnits n m, rest) := by
  have hnot : isTrailing n = false := by
    simp only [isLeading, Bool.and_eq_true, decide_eq_true_eq] at hleading
    simp only [isTrailing, Bool.and_eq_false_iff, decide_eq_false_iff_not]
    omega
  rw [namedChar, codeUnit_append hu]
  show (if isTrailing n then _ else if isLeading n then _ else _) = _
  rw [hnot, if_neg Bool.false_ne_true, if_pos hleading]
  show (codeUnit (v ++ rest)).bind _ = _
  rw [codeUnit_append hv]
  show (if isTrailing m then _ else _) = _
  rw [if_pos htrailing]
  rfl

theorem namedChar_unit {n : Nat} {u : List Char} (h : UnitText n u)
    (hleading : isLeading n = false) (htrailing : isTrailing n = false) (rest : List Char) :
    namedChar (u ++ rest) = .ok (Char.ofNat n, rest) := by
  rw [namedChar, codeUnit_append h]
  show (if isTrailing n then _ else if isLeading n then _ else _) = _
  rw [htrailing, hleading]
  rfl

theorem escaped_short {c e : Char} (h : shortEscape? e = some c) (rest : List Char) :
    escaped (e :: rest) = .ok (c, rest) := by
  rw [escaped]
  · rw [h]
  · exact ne_u_of_isSome (by rw [h]; rfl)

/-- A spelling is read as the character that it spells. -/
theorem character_spells {c : Char} {t : List Char} (h : Spells c t) (rest : List Char) :
    character (t ++ rest) = .ok (some c, rest) := by
  cases h with
  | plain h =>
    rw [List.singleton_append, character, if_neg h.not_control]
    · exact h.ne_quote
    · exact h.ne_backslash
  | @short _ e h =>
    show (escaped (e :: rest)).bind _ = _
    rw [escaped_short h]
    rfl
  | unit h hleading htrailing =>
    show (namedChar (_ ++ rest)).bind _ = _
    rw [namedChar_unit h hleading htrailing]
    rfl
  | @pair n m u v hu hv hleading htrailing =>
    show (namedChar ((u ++ '\\' :: 'u' :: v) ++ rest)).bind _ = _
    rw [List.append_assoc, List.cons_append, List.cons_append,
      namedChar_pair hu hv hleading htrailing]
    rfl

theorem content_of_none {s r : List Char} (h : character s = .ok (none, r)) :
    content s = .ok ([], r) := by
  rw [content]
  split <;> simp_all

theorem content_of_some {s r r' cs : List Char} {c : Char} (h : character s = .ok (some c, r))
    (hrest : content r = .ok (cs, r')) : content s = .ok (c :: cs, r') := by
  rw [content]
  split <;> simp_all

/-- **A spelling is read** as what it spells, up to the closing quote. -/
theorem content_spelled {cs t : List Char} (h : Spelled cs t) (rest : List Char) :
    content (t ++ '"' :: rest) = .ok (cs, rest) := by
  induction h with
  | nil => exact content_of_none rfl
  | cons h hs ih =>
    rw [List.append_assoc]
    exact content_of_some (character_spells h _) ih

/-! ### Passing over -/

theorem skipCharacter_piece {t : List Char} (h : Piece t) (rest : List Char) :
    skipCharacter (t ++ rest) = .ok (false, rest) := by
  cases h with
  | plain h =>
    rw [List.singleton_append, skipCharacter, if_neg h.not_control]
    · exact h.ne_quote
    · exact h.ne_backslash
  | @short e h =>
    have hskip : skipEscaped (e :: rest) = .ok rest := by
      rw [skipEscaped, if_pos h]
      exact ne_u_of_isSome h
    show (skipEscaped (e :: rest)).bind _ = _
    rw [hskip]
    rfl
  | @unit n u h =>
    show ((codeUnit (u ++ rest)).bind _).bind _ = _
    rw [codeUnit_append h]
    rfl

theorem skipContent_of_true {s r : List Char} (h : skipCharacter s = .ok (true, r)) :
    skipContent s = .ok r := by
  rw [skipContent]
  split <;> simp_all

theorem skipContent_of_false {s r : List Char} (h : skipCharacter s = .ok (false, r)) :
    skipContent s = skipContent r := by
  rw [skipContent]
  split <;> simp_all

/-- **What is well formed is passed over** up to the closing quote. -/
theorem skipContent_pieces {t : List Char} (h : Pieces t) (rest : List Char) :
    skipContent (t ++ '"' :: rest) = .ok rest := by
  induction h with
  | nil => exact skipContent_of_true rfl
  | cons h hs ih =>
    rw [List.append_assoc, skipContent_of_false (skipCharacter_piece h _)]
    exact ih

/-! ### What is read -/

theorem keyword_sound {cs s r : List Char} (h : keyword cs s = .ok r) : s = cs ++ r := by
  induction cs generalizing s with
  | nil => exact Except.ok.inj h
  | cons c cs ih =>
    cases s with
    | nil => simp [keyword] at h
    | cons d s =>
      simp only [keyword] at h
      split at h
      · next heq => rw [heq, ih h, List.cons_append]
      · simp at h

theorem codeUnit_sound {s r : List Char} {n : Nat} (h : codeUnit s = .ok (n, r)) :
    ∃ u, s = u ++ r ∧ UnitText n u := by
  unfold codeUnit at h
  split at h
  · simp at h
  · split at h
    · next a b c d _ _ =>
      split at h
      · next ha hb hc hd =>
        obtain ⟨rfl, rfl⟩ := Prod.mk.inj (Except.ok.inj h)
        exact ⟨[a, b, c, d], rfl, .mk ha hb hc hd⟩
      · simp at h
    · simp at h

theorem namedChar_sound {s r : List Char} {c : Char} (h : namedChar s = .ok (c, r)) :
    ∃ t, s = t ++ r ∧ Spells c ('\\' :: 'u' :: t) := by
  unfold namedChar at h
  obtain ⟨⟨n, r₁⟩, hn, h⟩ := bind_eq_ok_iff.mp h
  obtain ⟨u, hu, hunit⟩ := codeUnit_sound hn
  dsimp only at h
  split at h
  · simp at h
  · next htrailing =>
    split at h
    · next hleading =>
      obtain ⟨r₂, hk, h⟩ := bind_eq_ok_iff.mp h
      obtain ⟨⟨m, r₃⟩, hm, h⟩ := bind_eq_ok_iff.mp h
      obtain ⟨v, hv, hsecond⟩ := codeUnit_sound hm
      dsimp only at h
      split at h
      · next htrails =>
        obtain ⟨rfl, rfl⟩ := Prod.mk.inj (Except.ok.inj h)
        refine ⟨u ++ '\\' :: 'u' :: v, ?_, .pair hunit hsecond hleading htrails⟩
        rw [hu, keyword_sound hk, hv]
        simp
      · simp at h
    · next hleading =>
      obtain ⟨rfl, rfl⟩ := Prod.mk.inj (Except.ok.inj h)
      exact ⟨u, hu, .unit hunit (Bool.eq_false_iff.mpr hleading)
        (Bool.eq_false_iff.mpr htrailing)⟩

theorem escaped_sound {s r : List Char} {c : Char} (h : escaped s = .ok (c, r)) :
    ∃ t, s = t ++ r ∧ Spells c ('\\' :: t) := by
  unfold escaped at h
  split at h
  · simp at h
  · next s =>
    obtain ⟨t, rfl, hspells⟩ := namedChar_sound h
    exact ⟨'u' :: t, rfl, hspells⟩
  · next e s _ =>
    split at h
    · next hshort =>
      obtain ⟨rfl, rfl⟩ := Prod.mk.inj (Except.ok.inj h)
      exact ⟨[e], rfl, .short hshort⟩
    · simp at h

/-- What is read as a character is a spelling of it, or the closing quote. -/
theorem character_sound {s r : List Char} {o : Option Char} (h : character s = .ok (o, r)) :
    (o = none ∧ s = '"' :: r) ∨ ∃ c t, o = some c ∧ s = t ++ r ∧ Spells c t := by
  unfold character at h
  split at h
  · simp at h
  · obtain ⟨rfl, rfl⟩ := Prod.mk.inj (Except.ok.inj h)
    exact .inl ⟨rfl, rfl⟩
  · next s =>
    obtain ⟨u, he, h⟩ := bind_eq_ok_iff.mp h
    obtain ⟨rfl, rfl⟩ := Prod.mk.inj (Except.ok.inj h)
    obtain ⟨t, rfl, hspells⟩ := escaped_sound he
    exact .inr ⟨u.1, '\\' :: t, rfl, rfl, hspells⟩
  · next c s hquote hbackslash =>
    split at h
    · simp at h
    · next hcontrol =>
      obtain ⟨rfl, rfl⟩ := Prod.mk.inj (Except.ok.inj h)
      exact .inr ⟨c, [c], rfl, rfl, .plain ⟨hquote, hbackslash, hcontrol⟩⟩

/-- **What is read as a string** is a spelling of it, with the closing quote behind. -/
theorem content_sound {s r cs : List Char} (h : content s = .ok (cs, r)) :
    ∃ t, s = t ++ '"' :: r ∧ Spelled cs t := by
  fun_induction content s generalizing cs r with
  | case1 => simp at h
  | case2 s r' hc =>
    obtain ⟨rfl, rfl⟩ := Prod.mk.inj (Except.ok.inj h)
    rcases character_sound hc with ⟨-, rfl⟩ | ⟨c, t, hnone, -, -⟩
    · exact ⟨[], rfl, .nil⟩
    · simp at hnone
  | case3 => simp at h
  | case4 s c r₁ hc _ cs' r₂ hr ih =>
    obtain ⟨rfl, rfl⟩ := Prod.mk.inj (Except.ok.inj h)
    obtain ⟨ts, rfl, hs⟩ := ih hr
    rcases character_sound hc with ⟨hsome, -⟩ | ⟨c', t, hsome, rfl, hspells⟩
    · simp at hsome
    · obtain rfl := Option.some.inj hsome
      exact ⟨t ++ ts, (List.append_assoc t ts _).symm, .cons hspells hs⟩

theorem skipEscaped_sound {s r : List Char} (h : skipEscaped s = .ok r) :
    ∃ t, s = t ++ r ∧ Piece ('\\' :: t) := by
  unfold skipEscaped at h
  split at h
  · simp at h
  · next s =>
    obtain ⟨u, hu, h⟩ := bind_eq_ok_iff.mp h
    obtain rfl := Except.ok.inj h
    obtain ⟨t, rfl, hunit⟩ := codeUnit_sound hu
    exact ⟨'u' :: t, rfl, .unit hunit⟩
  · next e s _ =>
    split at h
    · next hshort =>
      obtain rfl := Except.ok.inj h
      exact ⟨[e], rfl, .short hshort⟩
    · simp at h

/-- What is passed over is a piece, or the closing quote. -/
theorem skipCharacter_sound {s r : List Char} {closes : Bool}
    (h : skipCharacter s = .ok (closes, r)) :
    (closes = true ∧ s = '"' :: r) ∨ ∃ t, closes = false ∧ s = t ++ r ∧ Piece t := by
  unfold skipCharacter at h
  split at h
  · simp at h
  · obtain ⟨rfl, rfl⟩ := Prod.mk.inj (Except.ok.inj h)
    exact .inl ⟨rfl, rfl⟩
  · next s =>
    obtain ⟨r', he, h⟩ := bind_eq_ok_iff.mp h
    obtain ⟨rfl, rfl⟩ := Prod.mk.inj (Except.ok.inj h)
    obtain ⟨t, rfl, hpiece⟩ := skipEscaped_sound he
    exact .inr ⟨'\\' :: t, rfl, rfl, hpiece⟩
  · next c s hquote hbackslash =>
    split at h
    · simp at h
    · next hcontrol =>
      obtain ⟨rfl, rfl⟩ := Prod.mk.inj (Except.ok.inj h)
      exact .inr ⟨[c], rfl, rfl, .plain ⟨hquote, hbackslash, hcontrol⟩⟩

/-- **What is passed over as a string** is well formed, with the closing quote behind. -/
theorem skipContent_sound {s r : List Char} (h : skipContent s = .ok r) :
    ∃ t, s = t ++ '"' :: r ∧ Pieces t := by
  fun_induction skipContent s with
  | case1 => simp at h
  | case2 s r' hc =>
    obtain rfl := Except.ok.inj h
    rcases skipCharacter_sound hc with ⟨-, rfl⟩ | ⟨t, hfalse, -, -⟩
    · exact ⟨[], rfl, .nil⟩
    · simp at hfalse
  | case3 s r' hc _ ih =>
    obtain ⟨ts, rfl, hs⟩ := ih h
    rcases skipCharacter_sound hc with ⟨htrue, -⟩ | ⟨t, -, rfl, hpiece⟩
    · simp at htrue
    · exact ⟨t ++ ts, (List.append_assoc t ts _).symm, .cons hpiece hs⟩

end Containers.Json
