import Containers.Proofs.Json.Grammar
import Containers.Proofs.Json.Record

/-!
# Texts that are cut short

* `Cut` — a text that is another one without some of its end;
* `RunsOut` — a reading that comes to the end of the text, in the middle of a value or right
  behind it;
* `Reader.Severed` — a reader runs out on whatever is left of a written text;
* **`content_cut`** — a string runs out, wherever its spelling is cut;
* **`run_sequence_cut`** and **`run_draft_cut`** — so do a sequence and a record if their parts
  do, and never with a value, as their end is missing.
-/

namespace Containers.Json

variable {α β : Type}

/-! ### Cutting -/

/-- The text `p` is `t` without some of its end. -/
def Cut (p t : List Char) : Prop :=
  ∃ c s, t = p ++ c :: s

section Cut

variable {p q s t u : List Char} {c : Char}

theorem cut_of_prefix (h : p <+: t) (hne : p ≠ t) : Cut p t := by
  obtain ⟨s, rfl⟩ := h
  cases s with
  | nil => exact absurd (List.append_nil p).symm hne
  | cons c s => exact ⟨c, s, rfl⟩

theorem not_cut_nil : ¬ Cut p [] := by
  rintro ⟨c, s, h⟩
  exact absurd h.symm (by simp)

theorem cut_nil_cons (c : Char) (t : List Char) : Cut [] (c :: t) :=
  ⟨c, t, rfl⟩

/-- What is left is nothing, or the first character and what is left of the others. -/
theorem cut_cons (h : Cut p (c :: t)) : p = [] ∨ ∃ q, p = c :: q ∧ Cut q t := by
  obtain ⟨d, s, h⟩ := h
  cases p with
  | nil => exact .inl rfl
  | cons e p =>
    obtain ⟨rfl, rfl⟩ := List.cons.inj h
    exact .inr ⟨p, rfl, d, s, rfl⟩

theorem cut_singleton (h : Cut p [c]) : p = [] := by
  rcases cut_cons h with rfl | ⟨q, -, hq⟩
  · rfl
  · exact absurd hq not_cut_nil

/-- The cut is in the first of two texts, or at its end or in the second. -/
theorem cut_append (h : Cut p (t ++ u)) : Cut p t ∨ ∃ q, p = t ++ q ∧ Cut q u := by
  induction t generalizing p with
  | nil => exact .inr ⟨p, rfl, h⟩
  | cons c t ih =>
    rcases cut_cons h with rfl | ⟨q, rfl, hq⟩
    · exact .inl (cut_nil_cons c t)
    · rcases ih hq with ⟨d, s, rfl⟩ | ⟨r, rfl, hr⟩
      · exact .inl ⟨d, s, rfl⟩
      · exact .inr ⟨r, rfl, hr⟩

end Cut

/-! ### Running out -/

/-- A reading that comes to the end of the text: in the middle of a value, or right behind it. -/
def RunsOut (x : Except Problem (β × List Char)) : Prop :=
  x = .error .cutShort ∨ ∃ b, x = .ok (b, [])

theorem runsOut_cutShort : RunsOut (.error .cutShort : Except Problem (β × List Char)) :=
  .inl rfl

namespace Reader

variable {reader : Reader α} {p t : List Char}

/-- A reader runs out on whatever is left of a text. -/
def Severed (reader : Reader α) (t : List Char) : Prop :=
  ∀ p, Cut p t → RunsOut (reader.run p)

/-- A rule that takes every value changes nothing about where a text ends. -/
theorem Severed.refine (h : reader.Severed t) (f : α → β) :
    (reader.refine fun a => .ok (f a)).Severed t := by
  intro p hp
  rcases h p hp with hrun | ⟨a, hrun⟩
  · exact .inl (refine_of_error hrun _)
  · exact .inr ⟨f a, refine_eq_ok_iff.mpr ⟨a, hrun, rfl⟩⟩

end Reader

/-! ### Words and strings -/

theorem keyword_cut {cs p : List Char} (h : Cut p cs) : keyword cs p = .error .cutShort := by
  induction cs generalizing p with
  | nil => exact absurd h not_cut_nil
  | cons c cs ih =>
    rcases cut_cons h with rfl | ⟨q, rfl, hq⟩
    · rfl
    · rw [keyword, if_pos rfl]
      exact ih hq

/-- A digit of base sixteen takes one byte. -/
theorem utf8Size_of_hexValue? {c : Char} {n : Nat} (h : hexValue? c = some n) :
    c.utf8Size = 1 := by
  have hle : c ≤ 'f' := by
    unfold hexValue? at h
    split at h
    · next hc => exact Char.le_trans hc.2 (by decide)
    · split at h
      · next hc => exact hc.2
      · split at h
        · next hc => exact Char.le_trans hc.2 (by decide)
        · exact absurd h (by simp)
  rw [Char.utf8Size_eq_one_iff]
  exact UInt32.le_trans hle (by decide)

/-- Fewer than four digits are fewer than four bytes. -/
theorem codeUnit_cut {n : Nat} {u p : List Char} (h : UnitText n u) (hp : Cut p u) :
    codeUnit p = .error .cutShort := by
  obtain @⟨a, b, c, d, v, w, x, y, ha, hb, hc, hd⟩ := h
  have hbytes : byteCount (p.take 4) < 4 := by
    rcases cut_cons hp with rfl | ⟨q, rfl, hq⟩
    · decide
    rcases cut_cons hq with rfl | ⟨r, rfl, hr⟩
    · simp [byteCount, utf8Size_of_hexValue? ha]
    rcases cut_cons hr with rfl | ⟨s, rfl, hs⟩
    · simp [byteCount, utf8Size_of_hexValue? ha, utf8Size_of_hexValue? hb]
    obtain rfl := cut_singleton hs
    simp [byteCount, utf8Size_of_hexValue? ha, utf8Size_of_hexValue? hb, utf8Size_of_hexValue? hc]
  simp only [codeUnit, if_pos hbytes]

theorem namedChar_cut_unit {n : Nat} {u p : List Char} (h : UnitText n u) (hp : Cut p u) :
    namedChar p = .error .cutShort := by
  rw [namedChar, codeUnit_cut h hp]
  rfl

/-- Where two code units make up a character, the cut is in the first, in the backslash and the
letter between them, or in the second. -/
theorem namedChar_cut_pair {n m : Nat} {u v p : List Char} (hu : UnitText n u)
    (hv : UnitText m v) (hleading : isLeading n) (hp : Cut p (u ++ (['\\', 'u'] ++ v))) :
    namedChar p = .error .cutShort := by
  rcases cut_append hp with hp | ⟨q, rfl, hq⟩
  · exact namedChar_cut_unit hu hp
  have hnot : isTrailing n = false := by
    simp only [isLeading, Bool.and_eq_true, decide_eq_true_eq] at hleading
    simp only [isTrailing, Bool.and_eq_false_iff, decide_eq_false_iff_not]
    omega
  rw [namedChar, codeUnit_append hu]
  show (if isTrailing n then _ else if isLeading n then _ else _) = _
  rw [hnot, if_neg Bool.false_ne_true, if_pos hleading]
  rcases cut_append hq with hq | ⟨r, rfl, hr⟩
  · rw [keyword_cut hq]
    rfl
  · rw [keyword_append]
    show (codeUnit r).bind _ = _
    rw [codeUnit_cut hv hr]
    rfl

/-- A spelling of a character that is cut runs out. -/
theorem character_cut {c : Char} {t p : List Char} (h : Spells c t) (hp : Cut p t) :
    character p = .error .cutShort := by
  cases h with
  | plain h =>
    obtain rfl := cut_singleton hp
    rfl
  | short h =>
    rcases cut_cons hp with rfl | ⟨q, rfl, hq⟩
    · rfl
    · obtain rfl := cut_singleton hq
      rfl
  | unit h =>
    rcases cut_cons hp with rfl | ⟨q, rfl, hq⟩
    · rfl
    rcases cut_cons hq with rfl | ⟨r, rfl, hr⟩
    · rfl
    show (namedChar r).bind _ = _
    rw [namedChar_cut_unit h hr]
    rfl
  | pair hu hv hleading =>
    rcases cut_cons hp with rfl | ⟨q, rfl, hq⟩
    · rfl
    rcases cut_cons hq with rfl | ⟨r, rfl, hr⟩
    · rfl
    show (namedChar r).bind _ = _
    rw [namedChar_cut_pair hu hv hleading hr]
    rfl

theorem content_of_error {s : List Char} {problem : Problem}
    (h : character s = .error problem) : content s = .error problem := by
  rw [content]
  split <;> simp_all

theorem content_of_some_error {s r : List Char} {c : Char} {problem : Problem}
    (h : character s = .ok (some c, r)) (hrest : content r = .error problem) :
    content s = .error problem := by
  rw [content]
  split <;> simp_all

/-- **A string that is cut runs out**, by induction on its spelling. -/
theorem content_cut {cs t p : List Char} (h : Spelled cs t) (hp : Cut p (t ++ ['"'])) :
    content p = .error .cutShort := by
  induction h generalizing p with
  | nil =>
    obtain rfl := cut_singleton hp
    exact content_of_error rfl
  | @cons c cs t ts h hs ih =>
    rw [List.append_assoc] at hp
    rcases cut_append hp with hp | ⟨q, rfl, hq⟩
    · exact content_of_error (character_cut h hp)
    · exact content_of_some_error (character_spells h q) (ih hq)

/-! ### Sequences -/

section Sequences

variable {item : Reader β} {write : α → List Char} {as : List α} {p : List Char}

theorem items_of_runsOut (h : RunsOut (item.run p)) : items item p = .error .cutShort := by
  rcases h with h | ⟨a, h⟩
  · rw [items_eq, h]
    rfl
  · rw [items_eq, h]
    rfl

/-- **The elements of a sequence run out** wherever they are cut, as no bracket ends them. -/
theorem items_cut (hreads : ∀ a ∈ as, ∃ b, item.Reads (write a) b)
    (hsevered : ∀ a ∈ as, item.Severed (write a)) (hne : as ≠ [])
    (hp : Cut p (separated (as.map write) ++ [']'])) : items item p = .error .cutShort := by
  induction as generalizing p with
  | nil => exact absurd rfl hne
  | cons a as ih =>
    obtain ⟨b, hrun⟩ := hreads a List.mem_cons_self
    have hcut := hsevered a List.mem_cons_self
    by_cases hlast : as = []
    · subst hlast
      rcases cut_append hp with hp | ⟨q, rfl, hq⟩
      · exact items_of_runsOut (hcut p hp)
      · obtain rfl := cut_singleton hq
        exact items_of_runsOut (.inr ⟨b, hrun [] stops_nil⟩)
    · have hne' : as.map write ≠ [] := fun h => hlast (List.map_eq_nil_iff.mp h)
      rw [List.map_cons, separated_cons hne', List.append_assoc, List.cons_append] at hp
      rcases cut_append hp with hp | ⟨q, rfl, hq⟩
      · exact items_of_runsOut (hcut p hp)
      rcases cut_cons hq with rfl | ⟨r, rfl, hr⟩
      · exact items_of_runsOut (.inr ⟨b, hrun [] stops_nil⟩)
      · refine items_of_comma_error (hrun (',' :: r) (stops_cons (by decide) r)) rfl ?_
        exact ih (fun b hb => hreads b (List.mem_cons_of_mem a hb))
          (fun b hb => hsevered b (List.mem_cons_of_mem a hb)) hlast hr

/-- **A sequence runs out** wherever it is cut. -/
theorem run_sequence_cut (hend : item.run [] = .error .cutShort)
    (hbegins : ∀ a ∈ as, Begins (write a)) (hreads : ∀ a ∈ as, ∃ b, item.Reads (write a) b)
    (hsevered : ∀ a ∈ as, item.Severed (write a)) (hp : Cut p (writeSequence write as)) :
    (sequence item).run p = .error .cutShort := by
  rcases cut_cons hp with rfl | ⟨q, rfl, hq⟩
  · rfl
  cases q with
  | nil => exact items_of_runsOut (.inl hend)
  | cons c q =>
    cases as with
    | nil => exact absurd (cut_singleton hq) (List.cons_ne_nil c q)
    | cons a as =>
      have hitems := items_cut hreads hsevered (List.cons_ne_nil a as) hq
      obtain ⟨d, s, hwrite, hblank, hbracket⟩ := hbegins a List.mem_cons_self
      obtain ⟨s', htext⟩ := exists_separated_cons d s (as.map write)
      -- What is left of the elements starts as they do.
      rw [List.append_eq, List.map_cons, hwrite, htext, List.cons_append] at hq
      rcases cut_cons hq with hnil | ⟨r, hcons, -⟩
      · exact absurd hnil (List.cons_ne_nil c q)
      · obtain ⟨rfl, rfl⟩ := List.cons.inj hcons
        rw [run_sequence_items item (skipBlanks_cons hblank _) hbracket]
        exact hitems

end Sequences

/-! ### Records -/

namespace Shape

variable {σ : Type} {shape : Shape σ α} {d d' : σ} {p : List Char}

theorem member_of_content_error {s : List Char} {problem : Problem}
    (h : content s = .error problem) : shape.member d ('"' :: s) = .error problem := by
  rw [member, skipBlanks_cons (by decide)]
  simp only [if_true, h, bind, Except.bind]

/-- A member runs out wherever it is cut: in its key, in front of its colon or in its value. -/
theorem member_cut {name : String} {value : List Char} {field : Field σ}
    (hfind : shape.field? name = some field) (hnew : field.filled d = false)
    (hsevered : (field.fill d).Severed value) (hp : Cut p (writeMember (name, value))) :
    RunsOut (shape.member d p) := by
  have hkey := spelled_written name.toList
  rcases cut_append hp with hp | ⟨q, rfl, hq⟩
  · rcases cut_cons hp with rfl | ⟨q, rfl, hq⟩
    · exact runsOut_cutShort
    · rw [member_of_content_error (content_cut hkey hq)]
      exact runsOut_cutShort
  · have htext : quoted name ++ q = '"' :: (name.toList.flatMap writeChar ++ '"' :: q) := by
      rw [quoted]
      simp
    rw [htext, member_key hkey]
    rcases cut_cons hq with rfl | ⟨r, rfl, hr⟩
    · simp only [valueOf, hfind, hnew]
      exact runsOut_cutShort
    · rw [← List.nil_append (':' :: r), valueOf_field hfind hnew blanks_nil]
      exact hsevered r hr

theorem members_of_runsOut (h : RunsOut (shape.member d p)) :
    shape.members d p = .error .cutShort := by
  rcases h with h | ⟨d', h⟩
  · rw [members_eq, h]
    rfl
  · rw [members_eq, h]
    rfl

/-- **The members of a record run out** wherever they are cut, as no brace ends them. -/
theorem members_cut {entries : List (String × List Char)} (h : shape.Fills d entries d')
    (hsevered : ∀ entry ∈ entries, ∀ field, shape.field? entry.1 = some field →
      ∀ d, (field.fill d).Severed entry.2)
    (hne : entries ≠ []) (hp : Cut p (separated (entries.map writeMember) ++ ['\x7d'])) :
    shape.members d p = .error .cutShort := by
  induction h generalizing p with
  | nil => exact absurd rfl hne
  | @cons d d₁ d₂ name value field entries hfind hnew hfill hrest ih =>
    have hcut := hsevered (name, value) List.mem_cons_self field hfind d
    have hwhole := member_written hfind hnew hfill stops_nil
    rw [List.append_nil] at hwhole
    by_cases hlast : entries = []
    · subst hlast
      rcases cut_append hp with hp | ⟨q, rfl, hq⟩
      · exact members_of_runsOut (member_cut hfind hnew hcut hp)
      · obtain rfl := cut_singleton hq
        rw [List.append_nil]
        exact members_of_runsOut (.inr ⟨d₁, hwhole⟩)
    · have hne' : entries.map writeMember ≠ [] := fun h => hlast (List.map_eq_nil_iff.mp h)
      rw [List.map_cons, separated_cons hne', List.append_assoc, List.cons_append] at hp
      rcases cut_append hp with hp | ⟨q, rfl, hq⟩
      · exact members_of_runsOut (member_cut hfind hnew hcut hp)
      rcases cut_cons hq with rfl | ⟨r, rfl, hr⟩
      · rw [List.append_nil]
        exact members_of_runsOut (.inr ⟨d₁, hwhole⟩)
      · have hmember := member_written hfind hnew hfill (stops_cons (c := ',') (by decide) r)
        rw [members_of_comma hmember rfl]
        exact ih (fun entry hentry => hsevered entry (List.mem_cons_of_mem _ hentry)) hlast hr

/-- **A record runs out** wherever it is cut. -/
theorem run_draft_cut {entries : List (String × List Char)}
    (h : shape.Fills shape.blank entries d) (hne : entries ≠ [])
    (hsevered : ∀ entry ∈ entries, ∀ field, shape.field? entry.1 = some field →
      ∀ d, (field.fill d).Severed entry.2)
    (hp : Cut p (writeRecord entries)) : shape.draft.run p = .error .cutShort := by
  rcases cut_cons hp with rfl | ⟨q, rfl, hq⟩
  · rfl
  cases q with
  | nil => rfl
  | cons c q =>
    have hmembers := members_cut h hsevered hne hq
    obtain ⟨entry, entries, rfl⟩ := List.exists_cons_of_ne_nil hne
    obtain ⟨s', htext⟩ : ∃ s', separated ((entry :: entries).map writeMember) = '"' :: s' :=
      exists_separated_cons '"' _ (entries.map writeMember)
    have hstart : Cut (c :: q) ('"' :: (s' ++ ['\x7d'])) := by
      rw [← List.cons_append, ← htext]
      exact hq
    rcases cut_cons hstart with hnil | ⟨r, hcons, -⟩
    · exact absurd hnil (List.cons_ne_nil c q)
    · obtain ⟨rfl, rfl⟩ := List.cons.inj hcons
      rw [run_draft_members shape (skipBlanks_cons (by decide) _)]
      exact hmembers

end Shape

end Containers.Json
