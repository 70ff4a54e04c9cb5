import Containers.Proofs.Json.Reading
import Containers.Proofs.Json.Spelling

/-!
# Reading written strings

* `unitText_control` — the four digits that stand for a control;
* **`spells_writeChar`** — a character is written in one of its spellings;
* **`content_written`** — the characters between the quotes, up to the closing one;
* **`reads_string`** — a string is read back.
-/

namespace Containers.Json

/-! ### One character -/

theorem hexValue?_digitChar {n : Nat} (h : n < 16) : hexValue? (Nat.digitChar n) = some n := by
  revert n
  decide

/-- A control is named by two zeros and its two digits of base sixteen. -/
theorem unitText_control {n : Nat} (h : n < 32) :
    UnitText n ['0', '0', Nat.digitChar (n / 16), Nat.digitChar (n % 16)] := by
  have hvalue : ((0 * 16 + 0) * 16 + n / 16) * 16 + n % 16 = n := by omega
  have hzero : hexValue? '0' = some 0 := by decide
  have hunit := UnitText.mk hzero hzero (hexValue?_digitChar (show n / 16 < 16 by omega))
    (hexValue?_digitChar (show n % 16 < 16 by omega))
  rwa [hvalue] at hunit

theorem spells_control {c : Char} (h : c.toNat < 32) :
    Spells c ['\\', 'u', '0', '0', Nat.digitChar (c.toNat / 16), Nat.digitChar (c.toNat % 16)] := by
  have hleading : isLeading c.toNat = false := by
    simp only [isLeading, Bool.and_eq_false_iff, decide_eq_false_iff_not]
    omega
  have htrailing : isTrailing c.toNat = false := by
    simp only [isTrailing, Bool.and_eq_false_iff, decide_eq_false_iff_not]
    omega
  have hspells := Spells.unit (unitText_control h) hleading htrailing
  rwa [Char.ofNat_toNat] at hspells

/-- **A written character** is one of the spellings of that character. -/
theorem spells_writeChar (c : Char) : Spells c (writeChar c) := by
  unfold writeChar
  split
  -- The other characters have a short form.
  case h_8 =>
    split
    · next hcontrol => exact spells_control hcontrol
    · next hquote hbackslash _ _ _ _ _ hplain => exact .plain ⟨hquote, hbackslash, hplain⟩
  all_goals exact .short rfl

/-! ### Strings -/

theorem spelled_written (cs : List Char) : Spelled cs (cs.flatMap writeChar) := by
  induction cs with
  | nil => exact .nil
  | cons c cs ih =>
    rw [List.flatMap_cons]
    exact .cons (spells_writeChar c) ih

/-- **The characters between the quotes** are read up to the closing one. -/
theorem content_written (cs rest : List Char) :
    content (cs.flatMap writeChar ++ '"' :: rest) = .ok (cs, rest) :=
  content_spelled (spelled_written cs) rest

theorem begins_quoted (s : String) : Begins (quoted s) :=
  ⟨'"', _, rfl, by decide, by decide⟩

/-- **A string** is read back. -/
theorem reads_string (s : String) : string.Reads (quoted s) s := by
  intro rest _
  have hcontent := content_written s.toList rest
  have htext : quoted s ++ rest = '"' :: (s.toList.flatMap writeChar ++ '"' :: rest) := by
    rw [quoted]
    simp
  rw [htext, string]
  simp only [skipBlanks_cons (show isBlank '"' = false by decide), hcontent, String.ofList_toList]

end Containers.Json
