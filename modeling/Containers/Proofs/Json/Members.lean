import Containers.Proofs.Json.Grammar
import Containers.Proofs.Json.Presentation
import Containers.Proofs.Json.Record

/-!
# Presentations of records

A record may be presented as a map, its fields in any order and other members between them, or as
the sequence of its fields in order.  Blanks may stand around every part.

* `MemberText`, `MembersText` — members of a map, with the fields that have been seen before and
  after;
* `MapText`, `TupleText` — the two forms of a record; `RecordText` — either, with all fields;
* `RepeatText` — the front of a map, up to the key of a field that it has already;
* `Shape.Describes` — how the fields of a shape are presented, and the draft that has just some of
  them;
* **`reads_mapText`** and **`reads_tupleText`** — what is read of either form;
* **`run_repeatText`** — what is reported at the second key, whatever stands behind it.
-/

namespace Containers.Json

/-! ### Texts -/

/-- A key between its quotes, in any spelling and with blanks in front. -/
inductive KeyText (name : String) : List Char → Prop where
  | mk {w k : List Char} (hw : Blanks w) (hk : StringText name k) : KeyText name (w ++ k)

section Texts

variable (names : List String) (Shows : String → List Char → Prop)

/-- A member of a map: a field that has not been seen before and is seen now, or any other key
with any value. -/
inductive MemberText (seen : List String) : List Char → List String → Prop where
  | field {name : String} {k w w' t : List Char} (hname : name ∈ names) (hnew : name ∉ seen)
      (hk : KeyText name k) (hw : Blanks w) (hw' : Blanks w') (h : Shows name t) :
      MemberText seen (k ++ (w ++ ':' :: (w' ++ t))) (name :: seen)
  | other {name : String} {k w w' t : List Char} (hname : name ∉ names) (hk : KeyText name k)
      (hw : Blanks w) (hw' : Blanks w') (h : Grammar none t) :
      MemberText seen (k ++ (w ++ ':' :: (w' ++ t))) seen

/-- One member or more, with commas between them. -/
inductive MembersText : List String → List Char → List String → Prop where
  | last {seen seen' : List String} {t w : List Char} (h : MemberText names Shows seen t seen')
      (hw : Blanks w) : MembersText seen (t ++ w) seen'
  | more {seen seen' seen'' : List String} {t w ts : List Char}
      (h : MemberText names Shows seen t seen') (hw : Blanks w)
      (hs : MembersText seen' ts seen'') : MembersText seen (t ++ (w ++ ',' :: ts)) seen''

/-- A record as a map, and the fields that are in it. -/
inductive MapText : List String → List Char → Prop where
  | empty {w : List Char} (hw : Blanks w) : MapText [] ('\x7b' :: (w ++ ['\x7d']))
  | members {seen : List String} {t : List Char} (h : MembersText names Shows [] t seen) :
      MapText seen ('\x7b' :: (t ++ ['\x7d']))

/-- A record as the sequence of all its fields in order. -/
inductive TupleText : List Char → Prop where
  | mk {t : List Char} (h : ItemsText Shows names t) : TupleText ('[' :: (t ++ [']']))

/-- A record with all its fields, in either form. -/
inductive RecordText : List Char → Prop where
  | map {seen : List String} {t : List Char} (h : MapText names Shows seen t)
      (hall : ∀ name ∈ names, name ∈ seen) : RecordText t
  | tuple {t : List Char} (h : TupleText names Shows t) : RecordText t

/-- The front of a record as a map, up to the key of a field that is in it already. -/
inductive RepeatText (name : String) : List Char → Prop where
  | mk {seen : List String} {t k : List Char} (h : MembersText names Shows [] t seen)
      (hname : name ∈ seen) (hk : KeyText name k) : RepeatText name ('\x7b' :: (t ++ ',' :: k))

end Texts

section Texts

variable {names : List String} {Shows : String → List Char → Prop} {seen seen' : List String}
  {t : List Char}

/-- Only fields are seen. -/
theorem MembersText.mem_of_mem {name : String} (h : MembersText names Shows seen t seen')
    (hmem : name ∈ seen') : name ∈ seen ∨ name ∈ names := by
  have hmember : ∀ {seen seen' : List String} {t : List Char},
      MemberText names Shows seen t seen' → name ∈ seen' → name ∈ seen ∨ name ∈ names := by
    intro seen seen' t h hmem
    cases h with
    | field hname =>
      rcases List.mem_cons.mp hmem with rfl | hmem
      · exact .inr hname
      · exact .inl hmem
    | other => exact .inl hmem
  induction h with
  | last h hw => exact hmember h hmem
  | more h hw hs ih =>
    rcases ih hmem with hmem | hmem
    · exact hmember h hmem
    · exact .inr hmem

/-- Members start with a quote. -/
theorem MembersText.first (h : MembersText names Shows seen t seen') (rest : List Char) :
    ∃ s, skipBlanks (t ++ rest) = '"' :: s := by
  have hkey : ∀ {name : String} {k : List Char}, KeyText name k → ∀ rest,
      ∃ s, skipBlanks (k ++ rest) = '"' :: s := by
    rintro name k ⟨hw, ⟨hk⟩⟩ rest
    rw [List.append_assoc, hw.skipBlanks_append]
    exact ⟨_, skipBlanks_cons (by decide) _⟩
  have hmember : ∀ {seen seen' : List String} {t : List Char},
      MemberText names Shows seen t seen' → ∀ rest, ∃ s, skipBlanks (t ++ rest) = '"' :: s := by
    intro seen seen' t h rest
    cases h with
    | field _ _ hk => rw [List.append_assoc]; exact hkey hk _
    | other _ hk => rw [List.append_assoc]; exact hkey hk _
  cases h with
  | last h hw => rw [List.append_assoc]; exact hmember h _
  | more h hw hs => rw [List.append_assoc]; exact hmember h _

theorem RecordText.begins (h : RecordText names Shows t) : Begins t := by
  cases h with
  | map h => cases h <;> exact ⟨'\x7b', _, rfl, by decide, by decide⟩
  | tuple h =>
    cases h
    exact ⟨'[', _, rfl, by decide, by decide⟩

theorem RecordText.head?_ne (h : RecordText names Shows t) : t.head? ≠ some 'n' := by
  cases h with
  | map h => cases h <;> exact fun hhead => absurd (Option.some.inj hhead) (by decide)
  | tuple h =>
    cases h
    exact fun hhead => absurd (Option.some.inj hhead) (by decide)

/-! ### What is written -/

theorem keyText_quoted (name : String) : KeyText name (quoted name) := by
  show KeyText name ([] ++ quoted name)
  exact .mk blanks_nil (.mk (spelled_written name.toList))

theorem memberText_written {name : String} {value : List Char} (hname : name ∈ names)
    (hnew : name ∉ seen) (h : Shows name value) :
    MemberText names Shows seen (writeMember (name, value)) (name :: seen) :=
  .field hname hnew (keyText_quoted name) blanks_nil blanks_nil h

theorem membersText_written {entries : List (String × List Char)} (hne : entries ≠ [])
    (hshows : ∀ entry ∈ entries, entry.1 ∈ names ∧ Shows entry.1 entry.2)
    (hnew : ∀ entry ∈ entries, entry.1 ∉ seen) (hnodup : (entries.map Prod.fst).Nodup) :
    MembersText names Shows seen (separated (entries.map writeMember))
      ((entries.map Prod.fst).reverse ++ seen) := by
  induction entries generalizing seen with
  | nil => exact absurd rfl hne
  | cons entry entries ih =>
    obtain ⟨hname, hvalue⟩ := hshows entry List.mem_cons_self
    have hmember := memberText_written hname (hnew entry List.mem_cons_self) hvalue
    by_cases hlast : entries = []
    · subst hlast
      have hlast := MembersText.last hmember blanks_nil
      rwa [List.append_nil] at hlast
    · have hne' : entries.map writeMember ≠ [] := fun h => hlast (List.map_eq_nil_iff.mp h)
      obtain ⟨hfresh, hnodup⟩ := List.nodup_cons.mp hnodup
      have hnew' : ∀ other ∈ entries, other.1 ∉ entry.1 :: seen := by
        intro other hother hmem
        rcases List.mem_cons.mp hmem with heq | hmem
        · exact hfresh (heq ▸ List.mem_map_of_mem hother)
        · exact hnew other (List.mem_cons_of_mem entry hother) hmem
      have htail := ih hlast (fun other hother => hshows other (List.mem_cons_of_mem entry hother))
        hnew' hnodup
      rw [List.map_cons, separated_cons hne', List.map_cons, List.reverse_cons, List.append_assoc]
      exact .more hmember blanks_nil htail

/-- **What is written** is one of the presentations. -/
theorem recordText_written (entries : List (String × List Char)) (hne : entries ≠ [])
    (hshows : ∀ entry ∈ entries, Shows entry.1 entry.2) (hnodup : (entries.map Prod.fst).Nodup) :
    RecordText (entries.map Prod.fst) Shows (writeRecord entries) := by
  have hmembers : MembersText (entries.map Prod.fst) Shows [] _ _ :=
    membersText_written hne
      (fun entry hentry => ⟨List.mem_map_of_mem hentry, hshows entry hentry⟩)
      (fun _ _ => List.not_mem_nil) hnodup
  refine .map (.members hmembers) fun name hname => ?_
  exact List.mem_append_left _ (List.mem_reverse.mpr hname)

end Texts

/-! ### Reading -/

namespace Shape

variable {σ α : Type}

def names (shape : Shape σ α) : List String :=
  shape.fields.map Field.name

/-- How the fields of a shape are presented, and the draft with just the fields of some names. -/
structure Describes (shape : Shape σ α) (Shows : String → List Char → Prop)
    (draft : List String → σ) : Prop where
  draft_nil : draft [] = shape.blank
  filled_iff : ∀ field ∈ shape.fields, ∀ seen, field.filled (draft seen) ↔ field.name ∈ seen
  ignoresBlanks : ∀ field ∈ shape.fields, ∀ d, (field.fill d).IgnoresBlanks
  begins : ∀ name t, Shows name t → Begins t
  reads : ∀ field ∈ shape.fields, ∀ seen t, Shows field.name t →
    (field.fill (draft seen)).Reads t (draft (field.name :: seen))

variable {shape : Shape σ α} {Shows : String → List Char → Prop} {draft : List String → σ}
  {seen seen' : List String} {name : String} {k w t : List Char} {d : σ}

theorem exists_field?_eq (h : name ∈ shape.names) :
    ∃ field ∈ shape.fields, field.name = name ∧ shape.field? name = some field := by
  obtain ⟨field, hmem, hname⟩ := List.mem_map.mp h
  have hsome : (shape.field? name).isSome := by
    rw [field?, List.find?_isSome]
    exact ⟨field, hmem, beq_iff_eq.mpr hname⟩
  obtain ⟨found, hfound⟩ := Option.isSome_iff_exists.mp hsome
  have hnamed : (found.name == name) = true :=
    List.find?_some (p := fun field : Field σ => field.name == name) hfound
  exact ⟨found, List.mem_of_find?_eq_some hfound, beq_iff_eq.mp hnamed, hfound⟩

theorem field?_eq_none (h : name ∉ shape.names) : shape.field? name = none := by
  rw [field?, List.find?_eq_none]
  intro field hmem hname
  exact h (List.mem_map.mpr ⟨field, hmem, beq_iff_eq.mp hname⟩)

theorem member_skipBlanks (s : List Char) : shape.member d (skipBlanks s) = shape.member d s := by
  rw [member, member, skipBlanks_idem]

theorem member_keyText (hk : KeyText name k) (d : σ) (s : List Char) :
    shape.member d (k ++ s) = shape.valueOf name d s := by
  obtain ⟨hw, ⟨hk⟩⟩ := hk
  rw [← member_skipBlanks, List.append_assoc, hw.skipBlanks_append, member_skipBlanks,
    List.cons_append, List.append_assoc]
  exact member_key hk d s

/-- A key that names no field is passed over with its value. -/
theorem valueOf_other (hfind : shape.field? name = none) (hw : Blanks w) (s : List Char) :
    shape.valueOf name d (w ++ ':' :: s) = (skip [] s).map fun r => (d, r) := by
  simp only [valueOf, hfind, colon_append hw]
  show (skip [] s).bind _ = _
  cases skip [] s <;> rfl

namespace Describes

variable (h : shape.Describes Shows draft)
include h

/-- **One member** is read into the draft of what has been seen with it. -/
theorem member_text (hm : MemberText shape.names Shows seen t seen') {rest : List Char}
    (hrest : Stops rest) : shape.member (draft seen) (t ++ rest) = .ok (draft seen', rest) := by
  cases hm with
  | @field name k w w' t hname hnew hk hw hw' ht =>
    have htext : k ++ (w ++ ':' :: (w' ++ t)) ++ rest = k ++ (w ++ ':' :: (w' ++ (t ++ rest))) := by
      simp
    obtain ⟨field, hmem, rfl, hfind⟩ := exists_field?_eq hname
    have hfilled : field.filled (draft seen) = false :=
      Bool.eq_false_iff.mpr fun hfilled => hnew ((h.filled_iff field hmem seen).mp hfilled)
    rw [htext, member_keyText hk, valueOf_field hfind hfilled hw,
      (h.ignoresBlanks field hmem _).run_append hw']
    exact h.reads field hmem seen t ht rest hrest
  | @other name k w w' t hname hk hw hw' ht =>
    have htext : k ++ (w ++ ':' :: (w' ++ t)) ++ rest = k ++ (w ++ ':' :: (w' ++ (t ++ rest))) := by
      simp
    rw [htext, member_keyText hk, valueOf_other (field?_eq_none hname) hw, skip_value ht hw' hrest]
    rfl

/-- **Members one after the other** lead to what stands behind them, by induction on them. -/
theorem members_text (hm : MembersText shape.names Shows seen t seen') {rest : List Char}
    (hrest : Stops rest) :
    shape.members (draft seen) (t ++ rest) = shape.afterMember (draft seen') rest := by
  induction hm with
  | @last seen seen' t w hm hw =>
    rw [List.append_assoc, members_eq, h.member_text hm (hw.stops_append hrest)]
    show shape.afterMember (draft seen') (w ++ rest) = _
    rw [afterMember, afterMember, hw.skipBlanks_append]
  | @more seen seen' seen'' t w ts hm hw hs ih =>
    have htext : t ++ (w ++ ',' :: ts) ++ rest = t ++ (w ++ ',' :: (ts ++ rest)) := by simp
    have hstops : Stops (w ++ ',' :: (ts ++ rest)) := hw.stops_append (stops_cons (by decide) _)
    rw [htext, members_of_comma (h.member_text hm hstops) (hw.skipBlanks_append _)]
    exact ih

end Describes

theorem members_skipBlanks (s : List Char) :
    shape.members d (skipBlanks s) = shape.members d s := by
  rw [members_eq, members_eq, member_skipBlanks]

namespace Describes

variable (h : shape.Describes Shows draft)
include h

/-- **A map is read** as the draft of the fields that are in it. -/
theorem reads_mapText (ht : MapText shape.names Shows seen t) :
    shape.draft.Reads t (draft seen) := by
  intro rest _
  cases ht with
  | @empty w hw =>
    rw [List.cons_append, List.append_assoc, List.singleton_append, run_draft_empty shape hw,
      h.draft_nil]
  | @members _ t hm =>
    rw [List.cons_append, List.append_assoc, List.singleton_append]
    obtain ⟨s, hfirst⟩ := hm.first ('\x7d' :: rest)
    rw [run_draft_members shape hfirst, ← hfirst, members_skipBlanks, ← h.draft_nil,
      h.members_text hm (stops_cons (by decide) rest)]
    exact afterMember_brace (skipBlanks_cons (by decide) rest) _

/-- **The second key of a field is reported**, whatever stands behind it. -/
theorem run_repeatText (ht : RepeatText shape.names Shows name t) (rest : List Char) :
    shape.draft.run (t ++ rest) = .error (.unfit (.duplicateField name)) := by
  obtain @⟨seen, t, k, hm, hname, hk⟩ := ht
  have hmem : name ∈ shape.names := (hm.mem_of_mem hname).resolve_left List.not_mem_nil
  obtain ⟨field, hfield, rfl, hfind⟩ := exists_field?_eq hmem
  have hfilled : field.filled (draft seen) = true := (h.filled_iff field hfield seen).mpr hname
  have hvalue : shape.valueOf field.name (draft seen) rest =
      .error (.unfit (.duplicateField field.name)) := by
    simp only [valueOf, hfind, hfilled, if_true]
  rw [List.cons_append, List.append_assoc, List.cons_append]
  obtain ⟨s, hfirst⟩ := hm.first (',' :: (k ++ rest))
  rw [run_draft_members shape hfirst, ← hfirst, members_skipBlanks, ← h.draft_nil,
    h.members_text hm (stops_cons (by decide) _),
    afterMember_comma (skipBlanks_cons (by decide) _), members_eq,
    member_keyText hk, hvalue]
  rfl

end Describes

/-! ### The sequence form -/

/-- The text `s` leads to the element at `index`, which starts as `u` does: past a comma, unless the
element is the first. -/
def Leads (index : Nat) (s u : List Char) : Prop :=
  ∃ c s' r, skipBlanks s = c :: s' ∧ c ≠ ']' ∧ nextElement (index = 0) (c :: s') = .ok r ∧
    skipBlanks r = skipBlanks u

theorem leads_first {c : Char} {s s' : List Char} (hw : Blanks w) (hs : skipBlanks s = c :: s')
    (hc : c ≠ ']') : Leads 0 (w ++ s) s :=
  ⟨c, s', c :: s', by rw [hw.skipBlanks_append, hs], hc, rfl, by rw [← hs, skipBlanks_idem]⟩

theorem leads_next (index : Nat) (hw : Blanks w) (s : List Char) :
    Leads (index + 1) (w ++ ',' :: s) s := by
  refine ⟨',', s, s, ?_, by decide, rfl, rfl⟩
  rw [hw.skipBlanks_append, skipBlanks_cons (by decide)]

theorem elements_nil (shape : Shape σ α) (index : Nat) (d : σ) (hw : Blanks w) (rest : List Char) :
    shape.elements index [] d (w ++ ']' :: rest) = .ok (d, rest) := by
  rw [elements, hw.skipBlanks_append, skipBlanks_cons (by decide)]
  exact if_pos rfl

theorem Leads.elements_cons {index : Nat} {s u : List Char} {field : Field σ}
    {fields : List (Field σ)} (h : Leads index s u) (hignores : (field.fill d).IgnoresBlanks) :
    shape.elements index (field :: fields) d s =
      ((field.fill d).run u).bind fun v => shape.elements (index + 1) fields v.1 v.2 := by
  obtain ⟨c, s', r, hs, hbracket, hnext, hu⟩ := h
  rw [elements, hs]
  split
  · next heq => simp at heq
  · next heq => exact absurd (List.cons.inj heq).1 hbracket
  · next heq =>
    rw [← heq, hnext, ← hignores.run_congr hu]
    rfl

namespace Describes

variable (h : shape.Describes Shows draft)
include h

/-- **Fields in order** are read up to the closing bracket, by induction on them. -/
theorem elements_text {fields : List (Field σ)} (hfields : ∀ field ∈ fields, field ∈ shape.fields)
    {u : List Char} (hu : ItemsText Shows (fields.map Field.name) u) {index : Nat}
    {s rest : List Char} (hs : Leads index s (u ++ ']' :: rest)) :
    shape.elements index fields (draft seen) s =
      .ok (draft ((fields.map Field.name).reverse ++ seen), rest) := by
  induction fields generalizing index s u seen with
  | nil => cases hu
  | cons field fields ih =>
    have hmem : field ∈ shape.fields := hfields field List.mem_cons_self
    have hignores := h.ignoresBlanks field hmem (draft seen)
    rw [hs.elements_cons hignores, List.map_cons, List.reverse_cons, List.append_assoc,
      List.singleton_append]
    rw [List.map_cons] at hu
    generalize hnames : fields.map Field.name = names at hu
    cases hu with
    | @last _ w t w' hw ht hw' =>
      have htext : w ++ (t ++ w') ++ ']' :: rest = w ++ (t ++ (w' ++ ']' :: rest)) := by simp
      obtain rfl : fields = [] := List.map_eq_nil_iff.mp hnames
      rw [htext, hignores.run_append hw, h.reads field hmem seen t ht _
        (hw'.stops_append (stops_cons (by decide) rest))]
      exact elements_nil shape (index + 1) (draft (field.name :: seen)) hw' rest
    | @more _ _ w t w' ts hw ht hw' hts =>
      have htext : w ++ (t ++ (w' ++ ',' :: ts)) ++ ']' :: rest =
          w ++ (t ++ (w' ++ ',' :: (ts ++ ']' :: rest))) := by simp
      subst hnames
      rw [htext, hignores.run_append hw, h.reads field hmem seen t ht _
        (hw'.stops_append (stops_cons (by decide) _))]
      exact ih (fun other hother => hfields other (List.mem_cons_of_mem field hother)) hts
        (leads_next index hw' _)

/-- **A sequence is read** as the draft of all fields. -/
theorem reads_tupleText (ht : TupleText shape.names Shows t) :
    shape.draft.Reads t (draft shape.names.reverse) := by
  intro rest _
  obtain @⟨t, hu⟩ := ht
  obtain ⟨c, s, hfirst, hbracket⟩ := hu.first h.begins (']' :: rest)
  have helements : shape.elements 0 shape.fields (draft []) (t ++ ']' :: rest) =
      .ok (draft (shape.names.reverse ++ []), rest) :=
    h.elements_text (fun _ hfield => hfield) hu (leads_first blanks_nil hfirst hbracket)
  rw [List.append_nil, h.draft_nil] at helements
  rw [List.cons_append, List.append_assoc, List.singleton_append, run_draft_elements]
  exact helements

/-- **A record is read** in either form, if the draft of all its fields makes it. -/
theorem reads_recordText {a : α} (hfinish : ∀ seen, (∀ name ∈ shape.names, name ∈ seen) →
    shape.finish (draft seen) = .ok a) (ht : RecordText shape.names Shows t) :
    shape.reader.Reads t a := by
  cases ht with
  | map ht hall => exact (h.reads_mapText ht).refine _ (hfinish _ hall)
  | tuple ht =>
    exact (h.reads_tupleText ht).refine _ (hfinish _ fun _ hname => List.mem_reverse.mpr hname)

end Describes

theorem ignoresBlanks_draft (shape : Shape σ α) : shape.draft.IgnoresBlanks := by
  intro s
  simp only [Shape.draft, skipBlanks_idem]

end Shape

end Containers.Json
