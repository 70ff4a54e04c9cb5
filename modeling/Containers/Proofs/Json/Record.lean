import Containers.Json.Record
import Containers.Proofs.Json.Quoted

/-!
# Reading written records

* `Shape.Fills` — members, one after the other, each of which fills a field that the draft does not
  have yet;
* `member_written` — one such member is read;
* **`members_written`** — all of them are, up to the closing brace;
* **`reads_record`** — a record is read back if its members fill a draft that makes it.
-/

namespace Containers.Json

variable {σ α : Type}

/-- A member of a record as it is written: the name of a field and its value. -/
def writeMember (entry : String × List Char) : List Char :=
  quoted entry.1 ++ ':' :: entry.2

theorem writeRecord_eq (entries : List (String × List Char)) :
    writeRecord entries = '\x7b' :: separated (entries.map writeMember) ++ ['\x7d'] :=
  rfl

namespace Shape

variable {shape : Shape σ α} {d d' : σ}

/-- Members that fill a draft one after the other.  Each has the name of a field that the draft does
not have yet, and a text that is read into it. -/
inductive Fills (shape : Shape σ α) : σ → List (String × List Char) → σ → Prop where
  | nil {d : σ} : Fills shape d [] d
  | cons {d d' d'' : σ} {name : String} {value : List Char} {field : Field σ}
      {entries : List (String × List Char)}
      (hfind : shape.field? name = some field) (hnew : field.filled d = false)
      (hfill : (field.fill d).Reads value d') (hrest : Fills shape d' entries d'') :
      Fills shape d ((name, value) :: entries) d''

/-- A key in any spelling is followed by what is read after it. -/
theorem member_key {key : String} {k : List Char} (hk : Spelled key.toList k) (d : σ)
    (s : List Char) : shape.member d ('"' :: (k ++ '"' :: s)) = shape.valueOf key d s := by
  rw [member, skipBlanks_cons (by decide)]
  simp only [if_true, content_spelled hk, bind, Except.bind, String.ofList_toList]

theorem colon_append {w : List Char} (hw : Blanks w) (s : List Char) :
    colon (w ++ ':' :: s) = .ok s := by
  rw [colon, hw.skipBlanks_append, skipBlanks_cons (by decide)]
  exact if_pos rfl

/-- A field that the draft does not have yet is read into it. -/
theorem valueOf_field {name : String} {field : Field σ} {w : List Char}
    (hfind : shape.field? name = some field) (hnew : field.filled d = false) (hw : Blanks w)
    (s : List Char) : shape.valueOf name d (w ++ ':' :: s) = (field.fill d).run s := by
  simp only [valueOf, hfind, hnew, colon_append hw]
  rfl

/-- One member with the name of a field is read into that field. -/
theorem member_written {name : String} {value rest : List Char} {field : Field σ}
    (hfind : shape.field? name = some field) (hnew : field.filled d = false)
    (hfill : (field.fill d).Reads value d') (hrest : Stops rest) :
    shape.member d (writeMember (name, value) ++ rest) = .ok (d', rest) := by
  have htext : writeMember (name, value) ++ rest =
      '"' :: (name.toList.flatMap writeChar ++ '"' :: ([] ++ ':' :: (value ++ rest))) := by
    rw [writeMember, quoted]
    simp
  rw [htext, member_key (spelled_written name.toList), valueOf_field hfind hnew blanks_nil]
  exact hfill rest hrest

/-- How the members of a map go on after one of them. -/
def afterMember (shape : Shape σ α) (d : σ) (r : List Char) : Except Problem (σ × List Char) :=
  match skipBlanks r with
  | '\x7d' :: r => .ok (d, r)
  | ',' :: r => shape.members d r
  | [] => .error .cutShort
  | _ :: _ => .error .malformed

theorem afterMember_brace {r r' : List Char} (hr : skipBlanks r = '\x7d' :: r') (d : σ) :
    shape.afterMember d r = .ok (d, r') := by
  rw [afterMember, hr]
  rfl

theorem afterMember_comma {r r' : List Char} (hr : skipBlanks r = ',' :: r') (d : σ) :
    shape.afterMember d r = shape.members d r' := by
  rw [afterMember, hr]
  rfl

theorem members_eq (shape : Shape σ α) (d : σ) (s : List Char) :
    shape.members d s = (shape.member d s).bind fun u => shape.afterMember u.1 u.2 := by
  rw [members]
  split
  · next h => rw [h]; rfl
  · next d' r h =>
    have hright : ((shape.member d s).bind fun u => shape.afterMember u.1 u.2) =
        shape.afterMember d' r := by
      rw [h]
      rfl
    rw [hright]
    split
    · next hr => exact (afterMember_brace hr d').symm
    · next hr => exact (afterMember_comma hr d').symm
    · next hr => rw [afterMember, hr]
    · next hbrace hcomma hr =>
      rw [afterMember, hr]
      split <;> simp_all

theorem members_of_brace {s r r' : List Char} (h : shape.member d s = .ok (d', r))
    (hr : skipBlanks r = '\x7d' :: r') : shape.members d s = .ok (d', r') := by
  rw [members_eq, h]
  exact afterMember_brace hr d'

theorem members_of_comma {s r r' : List Char} (h : shape.member d s = .ok (d', r))
    (hr : skipBlanks r = ',' :: r') : shape.members d s = shape.members d' r' := by
  rw [members_eq, h]
  exact afterMember_comma hr d'

/-- **The members of a written record** are read up to the closing brace. -/
theorem members_written {entries : List (String × List Char)} (h : shape.Fills d entries d')
    (hne : entries ≠ []) (rest : List Char) :
    shape.members d (separated (entries.map writeMember) ++ '\x7d' :: rest) = .ok (d', rest) := by
  -- The induction is on how the members fill the draft, as that is what is passed on.
  induction h with
  | nil => exact absurd rfl hne
  | @cons d d₁ d₂ name value field entries hfind hnew hfill hrest ih =>
    by_cases hlast : entries = []
    · subst hlast
      cases hrest
      exact members_of_brace
        (member_written hfind hnew hfill (stops_cons (by decide) rest)) rfl
    · have hne' : entries.map writeMember ≠ [] := fun h => hlast (List.map_eq_nil_iff.mp h)
      rw [List.map_cons, separated_cons hne', List.append_assoc]
      have hstops : Stops (',' :: (separated (entries.map writeMember) ++ '\x7d' :: rest)) :=
        stops_cons (by decide) _
      rw [← ih hlast]
      exact members_of_comma (member_written hfind hnew hfill hstops) rfl

/-- Behind its bracket, a sequence is read by its elements. -/
theorem run_draft_elements (shape : Shape σ α) (s : List Char) :
    shape.draft.run ('[' :: s) = shape.elements 0 shape.fields shape.blank s := by
  rw [Shape.draft]
  simp only [skipBlanks_cons (show isBlank '[' = false by decide)]

theorem run_draft_empty (shape : Shape σ α) {w : List Char} (hw : Blanks w) (rest : List Char) :
    shape.draft.run ('\x7b' :: (w ++ '\x7d' :: rest)) = .ok (shape.blank, rest) := by
  rw [Shape.draft]
  simp only [skipBlanks_cons (show isBlank '\x7b' = false by decide), hw.skipBlanks_append,
    skipBlanks_cons (show isBlank '\x7d' = false by decide)]

/-- Behind its brace, a map is read by its members if there are any. -/
theorem run_draft_members (shape : Shape σ α) {s r : List Char} (hfirst : skipBlanks s = '"' :: r) :
    shape.draft.run ('\x7b' :: s) = shape.members shape.blank ('"' :: r) := by
  rw [Shape.draft]
  simp only [skipBlanks_cons (show isBlank '\x7b' = false by decide), hfirst]
  rfl

/-- **A record is read back** if its members fill a draft that makes it. -/
theorem reads_record {entries : List (String × List Char)} {d : σ} {a : α}
    (h : shape.Fills shape.blank entries d) (hne : entries ≠ [])
    (hfinish : shape.finish d = .ok a) : shape.reader.Reads (writeRecord entries) a := by
  refine Reader.Reads.refine ?_ _ hfinish
  intro rest _
  have hmembers := members_written h hne rest
  obtain ⟨⟨name, value⟩, entries, rfl⟩ := List.exists_cons_of_ne_nil hne
  obtain ⟨s', htext⟩ : ∃ s', separated (((name, value) :: entries).map writeMember) = '"' :: s' :=
    exists_separated_cons '"' _ (entries.map writeMember)
  have hsplit : writeRecord ((name, value) :: entries) ++ rest =
      '\x7b' :: '"' :: (s' ++ '\x7d' :: rest) := by
    rw [writeRecord_eq, htext]
    simp
  rw [htext] at hmembers
  rw [hsplit, run_draft_members shape (skipBlanks_cons (by decide) _)]
  exact hmembers

theorem begins_writeRecord (entries : List (String × List Char)) : Begins (writeRecord entries) :=
  ⟨'\x7b', _, rfl, by decide, by decide⟩

end Shape

end Containers.Json
