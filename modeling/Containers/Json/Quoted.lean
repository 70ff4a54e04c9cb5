import Containers.Json.Reader
/-!
# Strings

* `Json.quoted` — a string as it is written: the quote, the backslash and the controls are escaped;
* `Json.content` — the characters of a string that is read, up to its closing quote;
* `Json.skipContent` — the same text passed over, when nobody wants the characters.

A code unit that stands for half of a character needs its other half, unless the string is passed
over.
-/

namespace Containers.Json

/-! ### Writing -/

/-- How a character is written between the quotes. -/
def writeChar (c : Char) : List Char :=
  match c with
  | '"' => ['\\', '"']
  | '\\' => ['\\', '\\']
  | '\x08' => ['\\', 'b']
  | '\x0c' => ['\\', 'f']
  | '\n' => ['\\', 'n']
  | '\r' => ['\\', 'r']
  | '\t' => ['\\', 't']
  | c =>
    if c.toNat < 0x20 then
      ['\\', 'u', '0', '0', Nat.digitChar (c.toNat / 16), Nat.digitChar (c.toNat % 16)]
    else [c]

/-- A string between its quotes. -/
def quoted (s : String) : List Char :=
  '"' :: s.toList.flatMap writeChar ++ ['"']

/-! ### Code units -/

/-- The value of a digit of base sixteen, in either case. -/
def hexValue? (c : Char) : Option Nat :=
  if '0' ≤ c ∧ c ≤ '9' then some (c.toNat - '0'.toNat)
  else if 'a' ≤ c ∧ c ≤ 'f' then some (c.toNat - 'a'.toNat + 10)
  else if 'A' ≤ c ∧ c ≤ 'F' then some (c.toNat - 'A'.toNat + 10)
  else none

/-- The number of bytes of a text. -/
def byteCount : List Char → Nat
  | [] => 0
  | c :: s => c.utf8Size + byteCount s

/-- The code unit that four digits of base sixteen name. The text is cut short where it has fewer
than four bytes left. -/
def codeUnit (s : List Char) : Except Problem (Nat × List Char) :=
  if byteCount (s.take 4) < 4 then .error .cutShort
  else
    match s with
    | a :: b :: c :: d :: r =>
      match hexValue? a, hexValue? b, hexValue? c, hexValue? d with
      | some a, some b, some c, some d => .ok (((a * 16 + b) * 16 + c) * 16 + d, r)
      | _, _, _, _ => .error .malformed
    | _ => .error .malformed

theorem length_of_codeUnit {s r : List Char} {n : Nat} (h : codeUnit s = .ok (n, r)) :
    r.length < s.length := by
  unfold codeUnit at h
  split at h
  · simp at h
  · split at h
    · split at h
      · simp only [Except.ok.injEq, Prod.mk.injEq] at h
        rw [← h.2]
        simp only [List.length_cons]
        omega
      · simp at h
    · simp at h

/-- The first of the two code units that make up a character past `0xffff`. -/
def isLeading (n : Nat) : Bool :=
  0xd800 ≤ n && n ≤ 0xdbff

/-- The second of them. -/
def isTrailing (n : Nat) : Bool :=
  0xdc00 ≤ n && n ≤ 0xdfff

/-- The character that two code units make up. -/
def joinUnits (leading trailing : Nat) : Char :=
  Char.ofNat (0x10000 + (leading - 0xd800) * 0x400 + (trailing - 0xdc00))

/-- The character named by the code unit at the front, or by it and the one that has to follow. -/
def namedChar (s : List Char) : Except Problem (Char × List Char) := do
  let (n, r) ← codeUnit s
  if isTrailing n then .error .malformed
  else if isLeading n then
    let r ← keyword ['\\', 'u'] r
    let (m, r) ← codeUnit r
    if isTrailing m then return (joinUnits n m, r) else .error .malformed
  else return (Char.ofNat n, r)

theorem length_of_namedChar {s r : List Char} {c : Char} (h : namedChar s = .ok (c, r)) :
    r.length < s.length := by
  unfold namedChar at h
  cases hn : codeUnit s with
  | error p => simp [hn, bind, Except.bind] at h
  | ok u =>
    obtain ⟨n, r₁⟩ := u
    have h₁ := length_of_codeUnit hn
    simp only [hn, bind, Except.bind] at h
    split at h
    · simp at h
    · split at h
      · cases hk : keyword ['\\', 'u'] r₁ with
        | error p => simp [hk] at h
        | ok r₂ =>
          have h₂ := length_of_keyword hk
          cases hm : codeUnit r₂ with
          | error p => simp [hk, hm] at h
          | ok v =>
            obtain ⟨m, r₃⟩ := v
            have h₃ := length_of_codeUnit hm
            simp only [hk, hm] at h
            split at h
            · simp only [pure, Except.pure, Except.ok.injEq, Prod.mk.injEq] at h
              rw [← h.2]
              omega
            · simp at h
      · simp only [pure, Except.pure, Except.ok.injEq, Prod.mk.injEq] at h
        rw [← h.2]
        exact h₁

/-! ### Reading -/

/-- The character that a letter names after a backslash. -/
def shortEscape? : Char → Option Char
  | '"' => some '"'
  | '\\' => some '\\'
  | '/' => some '/'
  | 'b' => some '\x08'
  | 'f' => some '\x0c'
  | 'n' => some '\n'
  | 'r' => some '\r'
  | 't' => some '\t'
  | _ => none

/-- What stands after a backslash. -/
def escaped : List Char → Except Problem (Char × List Char)
  | [] => .error .cutShort
  | 'u' :: s => namedChar s
  | c :: s =>
    match shortEscape? c with
    | some c => .ok (c, s)
    | none => .error .malformed

theorem length_of_escaped {s r : List Char} {c : Char} (h : escaped s = .ok (c, r)) :
    r.length < s.length := by
  unfold escaped at h
  split at h
  · simp at h
  · have := length_of_namedChar h
    simp only [List.length_cons]
    omega
  · split at h
    · simp only [Except.ok.injEq, Prod.mk.injEq] at h
      rw [← h.2]
      simp
    · simp at h

/-- The next character of a string, or its closing quote. -/
def character : List Char → Except Problem (Option Char × List Char)
  | [] => .error .cutShort
  | '"' :: s => .ok (none, s)
  | '\\' :: s => do
    let (c, r) ← escaped s
    return (some c, r)
  | c :: s => if c.toNat < 0x20 then .error .malformed else .ok (some c, s)

theorem length_of_character {s r : List Char} {c : Option Char} (h : character s = .ok (c, r)) :
    r.length < s.length := by
  unfold character at h
  split at h
  · simp at h
  · simp only [Except.ok.injEq, Prod.mk.injEq] at h
    rw [← h.2]
    simp
  · next s =>
    cases he : escaped s with
    | error p => simp [he, bind, Except.bind] at h
    | ok u =>
      have := length_of_escaped he
      simp only [he, bind, Except.bind, pure, Except.pure, Except.ok.injEq, Prod.mk.injEq] at h
      rw [← h.2, List.length_cons]
      omega
  · split at h
    · simp at h
    · simp only [Except.ok.injEq, Prod.mk.injEq] at h
      rw [← h.2]
      simp

/-- The characters of a string up to its closing quote, for a text that starts after the opening
one. -/
def content (s : List Char) : Except Problem (List Char × List Char) :=
  match h : character s with
  | .error problem => .error problem
  | .ok (none, r) => .ok ([], r)
  | .ok (some c, r) =>
    have := length_of_character h
    match content r with
    | .error problem => .error problem
    | .ok (cs, r) => .ok (c :: cs, r)
termination_by s.length

theorem length_of_content {s r cs : List Char} (h : content s = .ok (cs, r)) :
    r.length < s.length := by
  fun_induction content s generalizing cs r with
  | case1 s p hc => simp at h
  | case2 s r' hc =>
    simp only [Except.ok.injEq, Prod.mk.injEq] at h
    rw [← h.2]
    exact length_of_character hc
  | case3 s c r' hc _ p hp => simp at h
  | case4 s c r' hc h₁ cs' r'' hr ih =>
    simp only [Except.ok.injEq, Prod.mk.injEq] at h
    have h₂ := ih hr
    rw [← h.2]
    omega

/-! ### Passing over -/

/-- Passes over what stands after a backslash. Half of a character may stand alone here. -/
def skipEscaped : List Char → Except Problem (List Char)
  | [] => .error .cutShort
  | 'u' :: s => do
    let (_, r) ← codeUnit s
    return r
  | c :: s => if (shortEscape? c).isSome then .ok s else .error .malformed

theorem length_of_skipEscaped {s r : List Char} (h : skipEscaped s = .ok r) :
    r.length < s.length := by
  unfold skipEscaped at h
  split at h
  · simp at h
  · next s =>
    cases hu : codeUnit s with
    | error p => simp [hu, bind, Except.bind] at h
    | ok u =>
      have := length_of_codeUnit hu
      simp only [hu, bind, Except.bind, pure, Except.pure, Except.ok.injEq] at h
      rw [← h, List.length_cons]
      omega
  · split at h
    · simp only [Except.ok.injEq] at h
      rw [← h]
      simp
    · simp at h

/-- Passes over a character of a string, and tells whether it was the closing quote. -/
def skipCharacter : List Char → Except Problem (Bool × List Char)
  | [] => .error .cutShort
  | '"' :: s => .ok (true, s)
  | '\\' :: s => do
    let r ← skipEscaped s
    return (false, r)
  | c :: s => if c.toNat < 0x20 then .error .malformed else .ok (false, s)

theorem length_of_skipCharacter {s r : List Char} {closes : Bool}
    (h : skipCharacter s = .ok (closes, r)) : r.length < s.length := by
  unfold skipCharacter at h
  split at h
  · simp at h
  · simp only [Except.ok.injEq, Prod.mk.injEq] at h
    rw [← h.2]
    simp
  · next s =>
    cases he : skipEscaped s with
    | error p => simp [he, bind, Except.bind] at h
    | ok u =>
      have := length_of_skipEscaped he
      simp only [he, bind, Except.bind, pure, Except.pure, Except.ok.injEq, Prod.mk.injEq] at h
      rw [← h.2, List.length_cons]
      omega
  · split at h
    · simp at h
    · simp only [Except.ok.injEq, Prod.mk.injEq] at h
      rw [← h.2]
      simp

/-- Passes over a string up to its closing quote, for a text that starts after the opening one. -/
def skipContent (s : List Char) : Except Problem (List Char) :=
  match h : skipCharacter s with
  | .error problem => .error problem
  | .ok (true, r) => .ok r
  | .ok (false, r) =>
    have := length_of_skipCharacter h
    skipContent r
termination_by s.length

theorem length_of_skipContent {s r : List Char} (h : skipContent s = .ok r) :
    r.length < s.length := by
  fun_induction skipContent s with
  | case1 s p hc => simp at h
  | case2 s r' hc =>
    simp only [Except.ok.injEq] at h
    rw [← h]
    exact length_of_skipCharacter hc
  | case3 s r' hc h₁ ih =>
    have h₂ := ih h
    omega

end Containers.Json
