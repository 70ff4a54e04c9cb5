import Containers.Proofs.Json.Members
import Containers.Proofs.Json.Passing

/-!
# What a reader takes off the front

A reader does not look behind the value that it takes, apart from the one character that ends a
number.

* `Reader.Local` — what is taken off the front of a text is taken for the same by itself, and in
  front of all that stops it;
* `Reader.Closed` — it is, in front of anything;
* `local_numeric`, `closed_string`, `Local.orNull`, `closed_sequence` — readers of which this holds;
* **`Shape.closed_draft`** — a record is closed if its fields are local;
* **`Closed.whole_refine_of_frontBreaks`**, **`Local.whole_refine_of_not_frontBreaks`** — what
  becomes of a whole text under a rule that is asked before the text is known to be over.
-/

namespace Containers.Json

variable {α β : Type}

theorem not_isBlank_of_skipBlanks {s r : List Char} {c : Char} (h : skipBlanks s = c :: r) :
    isBlank c = false := by
  have hhead := List.head?_dropWhile_not isBlank s
  rw [← skipBlanks, h] at hhead
  exact hhead

theorem skipBlanks_append_of_cons {t u : List Char} {c : Char} (h : skipBlanks t = c :: u)
    (rest : List Char) : skipBlanks (t ++ rest) = c :: (u ++ rest) := by
  obtain ⟨w, hw, ht⟩ := exists_blanks t
  rw [ht, h, List.append_assoc, hw.skipBlanks_append, List.cons_append]
  exact skipBlanks_cons (not_isBlank_of_skipBlanks h) (u ++ rest)

/-- A text with another character in front than the one behind it is not empty. -/
theorem exists_eq_cons {c d : Char} {s t r : List Char} (h : c :: s = t ++ d :: r) (hne : c ≠ d) :
    ∃ u, t = c :: u := by
  cases t with
  | nil => exact absurd (List.cons.inj h).1 hne
  | cons e t => exact ⟨t, by rw [(List.cons.inj h).1]⟩

namespace Reader

/-- What is taken off the front of a text is taken for the same in front of all that stops it. -/
structure Local (reader : Reader α) : Prop where
  ignoresBlanks : reader.IgnoresBlanks
  front : ∀ {s r : List Char} {a : α}, reader.run s = .ok (a, r) →
    ∃ t, s = t ++ r ∧ reader.Reads t a

/-- What is taken off the front of a text is taken for the same in front of anything. -/
structure Closed (reader : Reader α) : Prop where
  ignoresBlanks : reader.IgnoresBlanks
  front : ∀ {s r : List Char} {a : α}, reader.run s = .ok (a, r) →
    ∃ t, s = t ++ r ∧ ∀ rest, reader.run (t ++ rest) = .ok (a, rest)

variable {reader : Reader α}

theorem Closed.toLocal (h : reader.Closed) : reader.Local where
  ignoresBlanks := h.ignoresBlanks
  front hrun := by
    obtain ⟨t, hs, ht⟩ := h.front hrun
    exact ⟨t, hs, fun rest _ => ht rest⟩

theorem Local.refine (h : reader.Local) (rule : α → Except Misfit β) :
    (reader.refine rule).Local where
  ignoresBlanks := h.ignoresBlanks.refine rule
  front hrun := by
    obtain ⟨a, hrun, hrule⟩ := refine_eq_ok_iff.mp hrun
    obtain ⟨t, hs, ht⟩ := h.front hrun
    exact ⟨t, hs, ht.refine rule hrule⟩

/-- It is enough to look at texts without blanks in front. -/
theorem Closed.of_first (hignores : reader.IgnoresBlanks)
    (hfront : ∀ {c : Char} {s r : List Char} {a : α}, isBlank c = false →
      reader.run (c :: s) = .ok (a, r) →
      ∃ t, c :: s = t ++ r ∧ ∀ rest, reader.run (t ++ rest) = .ok (a, rest)) :
    reader.Closed where
  ignoresBlanks := hignores
  front {s r a} hrun := by
    obtain ⟨w, hw, hs⟩ := exists_blanks s
    rw [← hignores] at hrun
    cases hfirst : skipBlanks s with
    | nil =>
      rw [hfirst] at hrun
      exact absurd (reader.shortens hrun) (Nat.not_lt_zero _)
    | cons c s' =>
      rw [hfirst] at hrun
      obtain ⟨t, ht, htakes⟩ := hfront (not_isBlank_of_skipBlanks hfirst) hrun
      refine ⟨w ++ t, by rw [hs, hfirst, ht, List.append_assoc], fun rest => ?_⟩
      rw [List.append_assoc, hignores.run_append hw]
      exact htakes rest

/-- What is taken for a value does not consist of blanks. -/
theorem Local.first (h : reader.Local) {t : List Char} {a : α} (ht : reader.Reads t a) :
    ∃ c u, skipBlanks t = c :: u := by
  cases hfirst : skipBlanks t with
  | cons c u => exact ⟨c, u, rfl⟩
  | nil =>
    have hrun := h.ignoresBlanks t
    rw [hfirst, ht.run_eq] at hrun
    exact absurd (reader.shortens hrun) (Nat.lt_irrefl 0)

end Reader

/-! ### Values without parts -/

/-- A number is taken for the same in front of all that stops it. -/
theorem number_front {negative : Bool} {s r : List Char} {n : Number}
    (h : number negative s = .ok (n, r)) :
    ∃ t, s = t ++ r ∧ ∀ rest, Stops rest → number negative (t ++ rest) = .ok (n, rest) := by
  unfold number at h
  obtain ⟨⟨l, r'⟩, hl, h⟩ := bind_eq_ok_iff.mp h
  obtain ⟨v, hv, h⟩ := bind_eq_ok_iff.mp h
  obtain ⟨rfl, rfl⟩ := Prod.mk.inj (Except.ok.inj h)
  obtain ⟨t, hs, htext, hnegative⟩ := literal_sound hl
  refine ⟨t, hs, fun rest hrest => ?_⟩
  have hliteral := literal_text htext hrest
  rw [hnegative] at hliteral
  rw [number]
  exact bind_eq_ok_iff.mpr ⟨_, hliteral, bind_eq_ok_iff.mpr ⟨v, hv, rfl⟩⟩

namespace Reader

theorem local_numeric (wanted : String) (rule : Number → Except Misfit α) :
    (numeric wanted rule).Local := by
  refine Local.refine ⟨?_, ?_⟩ rule
  · intro s
    simp only [skipBlanks_idem]
  · intro s r n h
    obtain ⟨w, hw, hs⟩ := exists_blanks s
    simp only at h
    split at h
    · next r₁ hr₁ =>
      obtain ⟨t, ht, htakes⟩ := number_front h
      refine ⟨w ++ '-' :: t, by rw [hs, hr₁, ht]; simp, fun rest hrest => ?_⟩
      have hfirst : skipBlanks (w ++ '-' :: t ++ rest) = '-' :: (t ++ rest) := by
        rw [List.append_assoc, hw.skipBlanks_append]
        exact skipBlanks_cons (by decide) (t ++ rest)
      simp only [hfirst]
      exact htakes rest hrest
    · next c r₁ hminus hr₁ =>
      split at h
      · next hdigit =>
        obtain ⟨t, ht, htakes⟩ := number_front h
        obtain ⟨t', rfl⟩ : ∃ t', t = c :: t' := by
          cases t with
          | nil =>
            have hshort := length_of_number h
            rw [ht] at hshort
            exact absurd hshort (Nat.lt_irrefl _)
          | cons d t => exact ⟨t, by rw [(List.cons.inj ht).1]⟩
        refine ⟨w ++ c :: t', by rw [hs, hr₁, ht]; simp, fun rest hrest => ?_⟩
        have hfirst : skipBlanks (w ++ c :: t' ++ rest) = c :: (t' ++ rest) := by
          rw [List.append_assoc, hw.skipBlanks_append]
          exact skipBlanks_cons (not_isBlank_of_skipBlanks hr₁) (t' ++ rest)
        simp only [hfirst, if_pos hdigit]
        exact htakes rest hrest
      · simp at h
    · simp at h

theorem closed_string : string.Closed := by
  refine .of_first ignoresBlanks_string fun {c s r a} hblank h => ?_
  simp only [string, skipBlanks_cons hblank] at h
  split at h
  · next r₁ hr₁ =>
    split at h
    · simp at h
    · next cs r₂ hc =>
      obtain ⟨rfl, rfl⟩ := Prod.mk.inj (Except.ok.inj h)
      obtain ⟨t, ht, hspelled⟩ := content_sound hc
      have htext : StringText (String.ofList cs) ('"' :: (t ++ ['"'])) :=
        .mk (by rwa [String.toList_ofList])
      exact ⟨'"' :: (t ++ ['"']), by rw [hr₁, ht]; simp, run_stringText htext⟩
  · simp at h

theorem Local.shut {reader : Reader α} (h : reader.Local) (opening : List Char) :
    (reader.shut opening).Local where
  ignoresBlanks := h.ignoresBlanks.shut opening
  front {s r a} hrun := by
    cases hfirst : skipBlanks s with
    | nil =>
      simp only [Reader.shut, hfirst] at hrun
      rw [← h.ignoresBlanks, hfirst] at hrun
      exact absurd (reader.shortens hrun) (Nat.not_lt_zero _)
    | cons c s' =>
      simp only [Reader.shut, hfirst] at hrun
      split at hrun
      · simp at hrun
      · next hopening =>
        obtain ⟨t, rfl, ht⟩ := h.front hrun
        obtain ⟨d, u, hd⟩ := h.first ht
        refine ⟨t, rfl, fun rest hrest => ?_⟩
        -- The first character is that of the value, whatever follows it.
        obtain ⟨rfl, -⟩ := List.cons.inj ((skipBlanks_append_of_cons hd r).symm.trans hfirst)
        simp only [Reader.shut, skipBlanks_append_of_cons hd, if_neg hopening]
        exact ht rest hrest

theorem local_within {opening : List Char} {reader : Nat → Reader α}
    (h : ∀ depth, (reader depth).Local) : ∀ depth, (within opening reader depth).Local
  | 0 => (h 0).shut opening
  | depth + 1 => h depth

theorem Local.orNull {reader : Reader α} (h : reader.Local) : (orNull reader).Local where
  ignoresBlanks := h.ignoresBlanks.orNull
  front {s r o} hrun := by
    obtain ⟨w, hw, hs⟩ := exists_blanks s
    simp only [Json.orNull] at hrun
    split at hrun
    · next r₁ hr₁ =>
      split at hrun
      · simp at hrun
      · next r₂ hk =>
        obtain ⟨rfl, rfl⟩ := Prod.mk.inj (Except.ok.inj hrun)
        refine ⟨w ++ null, by rw [hs, hr₁, keyword_sound hk]; simp [null], fun rest hrest => ?_⟩
        rw [List.append_assoc, h.ignoresBlanks.orNull.run_append hw]
        exact reads_null reader rest hrest
    · next hnull =>
      split at hrun
      · simp at hrun
      · next a r' hvalue =>
        obtain ⟨rfl, rfl⟩ := Prod.mk.inj (Except.ok.inj hrun)
        obtain ⟨t, rfl, ht⟩ := h.front hvalue
        obtain ⟨c, u, hfirst⟩ := h.first ht
        refine ⟨t, rfl, fun rest hrest => ?_⟩
        -- The first character is that of the value, whatever follows it.
        have hne : (skipBlanks (t ++ rest)).head? ≠ some 'n' := by
          rw [skipBlanks_append_of_cons hfirst]
          intro hn
          obtain rfl := Option.some.inj hn
          exact hnull _ (skipBlanks_append_of_cons hfirst r')
        rw [orNull_of_ne reader hne, ht rest hrest]
        rfl

end Reader

/-! ### Sequences -/

section Sequences

variable {item : Reader α} {s r : List Char} {as : List α}

/-- Elements up to the closing bracket are taken for the same in front of anything. -/
theorem items_front (hitem : item.Local) (h : items item s = .ok (as, r)) :
    ∃ t, s = t ++ ']' :: r ∧ ∀ rest, items item (t ++ ']' :: rest) = .ok (as, rest) := by
  fun_induction items item s generalizing as r with
  | case1 => simp at h
  | case2 s a r₁ hrun _ r₂ hr₂ =>
    obtain ⟨rfl, rfl⟩ := Prod.mk.inj (Except.ok.inj h)
    obtain ⟨t, hs, ht⟩ := hitem.front hrun
    obtain ⟨w, hw, hr₁⟩ := exists_blanks r₁
    refine ⟨t ++ w, by rw [hs, hr₁, hr₂]; simp, fun rest => ?_⟩
    have hstops : Stops (w ++ ']' :: rest) := hw.stops_append (stops_cons (by decide) rest)
    rw [List.append_assoc]
    exact items_of_bracket (ht _ hstops) (hw.skipBlanks_append _)
  | case3 => simp at h
  | case4 s a r₁ hrun _ r₂ hr₂ _ as' r₃ hitems ih =>
    obtain ⟨rfl, rfl⟩ := Prod.mk.inj (Except.ok.inj h)
    obtain ⟨t, hs, ht⟩ := hitem.front hrun
    obtain ⟨w, hw, hr₁⟩ := exists_blanks r₁
    obtain ⟨t', hr₂', ht'⟩ := ih hitems
    refine ⟨t ++ (w ++ ',' :: t'), by rw [hs, hr₁, hr₂, hr₂']; simp, fun rest => ?_⟩
    have hstops : Stops (w ++ ',' :: (t' ++ ']' :: rest)) :=
      hw.stops_append (stops_cons (by decide) _)
    have htext : t ++ (w ++ ',' :: t') ++ ']' :: rest = t ++ (w ++ ',' :: (t' ++ ']' :: rest)) := by
      simp
    rw [htext]
    exact items_of_comma (ht _ hstops) (hw.skipBlanks_append _) (ht' rest)
  | case5 => simp at h
  | case6 => simp at h

theorem closed_sequence (hitem : item.Local) : (sequence item).Closed := by
  refine .of_first (Reader.ignoresBlanks_sequence item) fun {c s r as} hblank h => ?_
  simp only [sequence, skipBlanks_cons hblank] at h
  split at h
  · next s' hs' =>
    obtain ⟨rfl, rfl⟩ := List.cons.inj hs'
    obtain ⟨w, hw, hs⟩ := exists_blanks s
    split at h
    · next r₁ hr₁ =>
      obtain ⟨rfl, rfl⟩ := Prod.mk.inj (Except.ok.inj h)
      refine ⟨'[' :: (w ++ [']']), by rw [hs, hr₁]; simp, fun rest => ?_⟩
      rw [List.cons_append, List.append_assoc]
      exact run_sequence_empty item hw rest
    · next hbracket =>
      obtain ⟨t, ht, htakes⟩ := items_front hitem h
      cases hfirst : skipBlanks s with
      | nil => exact absurd (hfirst.symm.trans ht) (by simp)
      | cons c s₁ =>
        have hne : c ≠ ']' := fun hc => hbracket s₁ (by rw [hfirst, hc])
        obtain ⟨t', rfl⟩ := exists_eq_cons (hfirst.symm.trans ht) hne
        refine ⟨'[' :: (w ++ (c :: t' ++ [']'])), by rw [hs, ht]; simp, fun rest => ?_⟩
        have htext : '[' :: (w ++ (c :: t' ++ [']'])) ++ rest =
            '[' :: (w ++ c :: (t' ++ ']' :: rest)) := by simp
        have hskip : skipBlanks (w ++ c :: (t' ++ ']' :: rest)) = c :: (t' ++ ']' :: rest) := by
          rw [hw.skipBlanks_append]
          exact skipBlanks_cons (not_isBlank_of_skipBlanks hfirst) _
        rw [htext, run_sequence_items item hskip hne]
        exact htakes rest
  · simp at h

end Sequences

/-! ### Records -/

namespace Shape

variable {σ : Type} {shape : Shape σ α} {d d' : σ} {s r : List Char}

theorem colon_sound (h : colon s = .ok r) : ∃ w, Blanks w ∧ s = w ++ ':' :: r := by
  obtain ⟨w, hw, hs⟩ := exists_blanks s
  unfold colon at h
  split at h
  · simp at h
  · next c r' hr' =>
    split at h
    · next hc =>
      obtain rfl := Except.ok.inj h
      exact ⟨w, hw, by rw [hs, hr', hc]⟩
    · simp at h

/-- The value behind a key is taken for the same in front of all that stops it. -/
theorem valueOf_front (hfields : ∀ field ∈ shape.fields, ∀ d, (field.fill d).Local) {key : String}
    (h : shape.valueOf key d s = .ok (d', r)) :
    ∃ t, s = t ++ r ∧ ∀ rest, Stops rest → shape.valueOf key d (t ++ rest) = .ok (d', rest) := by
  cases hfind : shape.field? key with
  | none =>
    simp only [valueOf, hfind] at h
    obtain ⟨r₁, hc, h⟩ := bind_eq_ok_iff.mp h
    obtain ⟨r₂, hskip, h⟩ := bind_eq_ok_iff.mp h
    obtain ⟨rfl, rfl⟩ := Prod.mk.inj (Except.ok.inj h)
    obtain ⟨w, hw, rfl⟩ := colon_sound hc
    obtain ⟨w', t, u, rfl, hw', ht, hu⟩ := skip_sound hskip
    cases hu
    refine ⟨w ++ ':' :: (w' ++ t), by simp, fun rest hrest => ?_⟩
    rw [List.append_assoc, List.cons_append, List.append_assoc, valueOf_other hfind hw,
      skip_value ht hw' hrest]
    rfl
  | some field =>
    cases hfilled : field.filled d with
    | true => simp [valueOf, hfind, hfilled] at h
    | false =>
      simp only [valueOf, hfind, hfilled, Bool.false_eq_true, if_false] at h
      obtain ⟨r₁, hc, hfill⟩ := bind_eq_ok_iff.mp h
      obtain ⟨w, hw, rfl⟩ := colon_sound hc
      obtain ⟨t, rfl, ht⟩ := (hfields field (List.mem_of_find?_eq_some hfind) d).front hfill
      refine ⟨w ++ ':' :: t, by simp, fun rest hrest => ?_⟩
      rw [List.append_assoc, List.cons_append, valueOf_field hfind hfilled hw]
      exact ht rest hrest

theorem member_front (hfields : ∀ field ∈ shape.fields, ∀ d, (field.fill d).Local)
    (h : shape.member d s = .ok (d', r)) :
    ∃ t, s = t ++ r ∧ ∀ rest, Stops rest → shape.member d (t ++ rest) = .ok (d', rest) := by
  obtain ⟨w, hw, hs⟩ := exists_blanks s
  unfold member at h
  split at h
  · simp at h
  · next c r₁ hr₁ =>
    split at h
    · next hquote =>
      subst hquote
      obtain ⟨⟨key, r₂⟩, hk, h⟩ := bind_eq_ok_iff.mp h
      obtain ⟨k, hkey, hspelled⟩ := content_sound hk
      obtain ⟨t, ht, htakes⟩ := valueOf_front hfields h
      refine ⟨w ++ '"' :: (k ++ '"' :: t), by rw [hs, hr₁, hkey, ht]; simp, fun rest hrest => ?_⟩
      have htext : w ++ '"' :: (k ++ '"' :: t) ++ rest =
          w ++ '"' :: (k ++ '"' :: (t ++ rest)) := by
        simp
      have hspelled' : Spelled (String.ofList key).toList k := by
        rwa [String.toList_ofList]
      rw [htext, ← member_skipBlanks, hw.skipBlanks_append, member_skipBlanks,
        member_key hspelled']
      exact htakes rest hrest
    · simp at h

/-- What is taken for members, up to the closing brace, is taken for them in front of anything. -/
theorem members_front (hfields : ∀ field ∈ shape.fields, ∀ d, (field.fill d).Local)
    (h : shape.members d s = .ok (d', r)) :
    ∃ t, s = t ++ '\x7d' :: r ∧ ∀ rest, shape.members d (t ++ '\x7d' :: rest) = .ok (d', rest) := by
  fun_induction members shape d s with
  | case1 => simp at h
  | case2 d s d₁ r₁ hmember _ r₂ hr₂ =>
    obtain ⟨rfl, rfl⟩ := Prod.mk.inj (Except.ok.inj h)
    obtain ⟨t, hs, ht⟩ := member_front hfields hmember
    obtain ⟨w, hw, hr₁⟩ := exists_blanks r₁
    refine ⟨t ++ w, by rw [hs, hr₁, hr₂]; simp, fun rest => ?_⟩
    have hstops : Stops (w ++ '\x7d' :: rest) := hw.stops_append (stops_cons (by decide) rest)
    rw [List.append_assoc]
    exact members_of_brace (ht _ hstops) (hw.skipBlanks_append _)
  | case3 d s d₁ r₁ hmember _ r₂ hr₂ _ ih =>
    obtain ⟨t, hs, ht⟩ := member_front hfields hmember
    obtain ⟨w, hw, hr₁⟩ := exists_blanks r₁
    obtain ⟨t', hr₂', ht'⟩ := ih h
    refine ⟨t ++ (w ++ ',' :: t'), by rw [hs, hr₁, hr₂, hr₂']; simp, fun rest => ?_⟩
    have hstops : Stops (w ++ ',' :: (t' ++ '\x7d' :: rest)) :=
      hw.stops_append (stops_cons (by decide) _)
    have htext : t ++ (w ++ ',' :: t') ++ '\x7d' :: rest =
        t ++ (w ++ ',' :: (t' ++ '\x7d' :: rest)) := by simp
    rw [htext, members_of_comma (ht _ hstops) (hw.skipBlanks_append _)]
    exact ht' rest
  | case4 => simp at h
  | case5 => simp at h

/-- In front of an element that is not the first, there is a comma. -/
theorem nextElement_sound {index : Nat} (hindex : index ≠ 0) {c : Char} {s' : List Char}
    (h : nextElement (index = 0) (c :: s') = .ok r) : c = ',' ∧ s' = r := by
  rw [decide_eq_false hindex] at h
  unfold nextElement at h
  split at h
  · next hfalse => simp at hfalse
  · split at h
    · next hcons =>
      obtain ⟨rfl, rfl⟩ := List.cons.inj hcons
      exact ⟨rfl, Except.ok.inj h⟩
    · simp at h

/-- What leads to an element is told by the character that the element starts with. -/
theorem elements_cons_sound {index : Nat} {field : Field σ} {fields : List (Field σ)}
    (h : shape.elements index (field :: fields) d s = .ok (d', r)) :
    ∃ v u d₁ r₁, s = v ++ u ∧ (field.fill d).run u = .ok (d₁, r₁) ∧
      shape.elements (index + 1) fields d₁ r₁ = .ok (d', r) ∧
      ∀ u', (skipBlanks u').head? = (skipBlanks u).head? → Leads index (v ++ u') u' := by
  obtain ⟨w, hw, hs⟩ := exists_blanks s
  simp only [elements] at h
  split at h
  · simp at h
  · simp at h
  · next c s' hbracket hs' =>
    obtain ⟨u, hnext, hthen⟩ := bind_eq_ok_iff.mp h
    obtain ⟨v, hfill, hrest⟩ := bind_eq_ok_iff.mp hthen
    by_cases hindex : index = 0
    · subst hindex
      obtain rfl : c :: s' = u := Except.ok.inj hnext
      refine ⟨w, c :: s', v.1, v.2, by rw [hs, hs'], hfill, hrest, fun u' hu' => ?_⟩
      rw [skipBlanks_cons (not_isBlank_of_skipBlanks hs')] at hu'
      cases hfirst : skipBlanks u' with
      | nil => simp [hfirst] at hu'
      | cons c' s'' =>
        rw [hfirst] at hu'
        obtain rfl := Option.some.inj hu'
        exact leads_first hw hfirst hbracket
    · obtain ⟨rfl, rfl⟩ := nextElement_sound hindex hnext
      refine ⟨w ++ [','], s', v.1, v.2, by rw [hs, hs']; simp, hfill, hrest, fun u' _ => ?_⟩
      obtain ⟨n, rfl⟩ := Nat.exists_eq_succ_of_ne_zero hindex
      rw [List.append_assoc]
      exact leads_next n hw u'

theorem elements_nil_sound {index : Nat} (h : shape.elements index [] d s = .ok (d', r)) :
    ∃ w, Blanks w ∧ s = w ++ ']' :: r ∧ d = d' := by
  obtain ⟨w, hw, hs⟩ := exists_blanks s
  simp only [elements] at h
  split at h
  · simp at h
  · next c s' hs' =>
    split at h
    · next hc =>
      obtain ⟨rfl, rfl⟩ := Prod.mk.inj (Except.ok.inj h)
      exact ⟨w, hw, by rw [hs, hs', hc], rfl⟩
    · simp at h

theorem Leads.stops {index : Nat} {u : List Char} (h : Leads (index + 1) s u) : Stops s := by
  obtain ⟨c, s', r, hs', -, hnext, -⟩ := h
  obtain ⟨w, hw, hs⟩ := exists_blanks s
  obtain ⟨rfl, -⟩ := nextElement_sound (Nat.succ_ne_zero index) hnext
  rw [hs, hs']
  exact hw.stops_append (stops_cons (by decide) s')

theorem stops_elements {index : Nat} {fields : List (Field σ)}
    (h : shape.elements (index + 1) fields d s = .ok (d', r)) : Stops s := by
  cases fields with
  | nil =>
    obtain ⟨w, hw, rfl, -⟩ := elements_nil_sound h
    exact hw.stops_append (stops_cons (by decide) r)
  | cons field fields =>
    obtain ⟨v, u, -, -, rfl, -, -, hleads⟩ := elements_cons_sound h
    exact (hleads u rfl).stops

/-- What is taken for the elements, with the closing bracket, is taken for them in front of
anything. -/
theorem elements_front {index : Nat} {fields : List (Field σ)}
    (hfields : ∀ field ∈ fields, ∀ d, (field.fill d).Local)
    (h : shape.elements index fields d s = .ok (d', r)) :
    ∃ t, s = t ++ r ∧ ∀ rest, shape.elements index fields d (t ++ rest) = .ok (d', rest) := by
  induction fields generalizing index d s with
  | nil =>
    obtain ⟨w, hw, rfl, rfl⟩ := elements_nil_sound h
    refine ⟨w ++ [']'], by simp, fun rest => ?_⟩
    rw [List.append_assoc]
    exact elements_nil shape index d hw rest
  | cons field fields ih =>
    obtain ⟨v, u, d₁, r₁, rfl, hfill, hrest, hleads⟩ := elements_cons_sound h
    have hlocal := hfields field List.mem_cons_self d
    obtain ⟨t, rfl, ht⟩ := hlocal.front hfill
    obtain ⟨t', rfl, ht'⟩ := ih (fun other hother => hfields other (List.mem_cons_of_mem _ hother))
      hrest
    obtain ⟨c, u, hfirst⟩ := hlocal.first ht
    refine ⟨v ++ (t ++ t'), by simp, fun rest => ?_⟩
    have htext : v ++ (t ++ t') ++ rest = v ++ (t ++ (t' ++ rest)) := by simp
    have hlead : Leads index (v ++ (t ++ (t' ++ rest))) (t ++ (t' ++ rest)) := by
      refine hleads _ ?_
      rw [skipBlanks_append_of_cons hfirst, skipBlanks_append_of_cons hfirst]
      rfl
    rw [htext, hlead.elements_cons hlocal.ignoresBlanks, ht _ (stops_elements (ht' rest))]
    exact ht' rest

/-- Members start with a quote. -/
theorem members_first (h : shape.members d s = .ok (d', r)) : ∃ s', skipBlanks s = '"' :: s' := by
  rw [members_eq] at h
  obtain ⟨u, hmember, -⟩ := bind_eq_ok_iff.mp h
  unfold member at hmember
  split at hmember
  · simp at hmember
  · next c s' hs =>
    split at hmember
    · next hc => exact ⟨s', by rw [hs, hc]⟩
    · simp at hmember

/-- **A record is closed** if its fields are local, in either form. -/
theorem closed_draft (hfields : ∀ field ∈ shape.fields, ∀ d, (field.fill d).Local) :
    shape.draft.Closed := by
  refine .of_first (ignoresBlanks_draft shape) fun {c s r d} hblank h => ?_
  simp only [Shape.draft, skipBlanks_cons hblank] at h
  split at h
  · next r₁ hr₁ =>
    obtain ⟨t, ht, htakes⟩ := elements_front hfields h
    refine ⟨'[' :: t, by rw [hr₁, ht, List.cons_append], fun rest => ?_⟩
    rw [List.cons_append, run_draft_elements]
    exact htakes rest
  · next r₁ hr₁ =>
    obtain ⟨w, hw, hs⟩ := exists_blanks r₁
    split at h
    · next r₂ hr₂ =>
      obtain ⟨rfl, rfl⟩ := Prod.mk.inj (Except.ok.inj h)
      refine ⟨'\x7b' :: (w ++ ['\x7d']), by rw [hr₁, hs, hr₂]; simp, fun rest => ?_⟩
      rw [List.cons_append, List.append_assoc]
      exact run_draft_empty shape hw rest
    · simp at h
    · obtain ⟨s', hfirst⟩ := members_first h
      obtain ⟨t, ht, htakes⟩ := members_front hfields h
      rw [skipBlanks_idem] at hfirst
      obtain ⟨t', rfl⟩ := exists_eq_cons (hfirst.symm.trans ht) (by decide)
      refine ⟨'\x7b' :: (w ++ ('"' :: t' ++ ['\x7d'])), by rw [hr₁, hs, ht]; simp, fun rest => ?_⟩
      have htext : '\x7b' :: (w ++ ('"' :: t' ++ ['\x7d'])) ++ rest =
          '\x7b' :: (w ++ '"' :: (t' ++ '\x7d' :: rest)) := by simp
      have hskip : skipBlanks (w ++ '"' :: (t' ++ '\x7d' :: rest)) =
          '"' :: (t' ++ '\x7d' :: rest) := by
        rw [hw.skipBlanks_append]
        exact skipBlanks_cons (by decide) _
      rw [htext, run_draft_members shape hskip]
      exact htakes rest
  · simp at h

end Shape

/-! ### Whole texts -/

namespace Reader

variable {reader : Reader α} {rule : α → Except Misfit β} {text : String}

theorem Closed.refine (h : reader.Closed) (rule : α → Except Misfit β) :
    (reader.refine rule).Closed where
  ignoresBlanks := h.ignoresBlanks.refine rule
  front hrun := by
    obtain ⟨a, hrun, hrule⟩ := refine_eq_ok_iff.mp hrun
    obtain ⟨t, hs, ht⟩ := h.front hrun
    exact ⟨t, hs, fun rest => refine_eq_ok_iff.mpr ⟨a, ht rest, hrule⟩⟩

/-- What is taken off the front of a text is a text of its own. -/
theorem Local.whole_of_run (h : reader.Local) {r : List Char} {a : α}
    (hrun : reader.run text.toList = .ok (a, r)) :
    ∃ value rest : String, text = value ++ rest ∧ reader.whole value = .ok a := by
  obtain ⟨t, htext, ht⟩ := h.front hrun
  refine ⟨String.ofList t, String.ofList r, ?_, ht.whole⟩
  rw [← String.ofList_append, ← htext, String.ofList_toList]

/-- A text of its own is taken off the front of any text that starts with it. -/
theorem Closed.run_append (h : reader.Closed) {value : String} {a : α}
    (hvalue : reader.whole value = .ok a) (rest : String) :
    ∃ r, reader.run (value ++ rest).toList = .ok (a, r) := by
  obtain ⟨r, hrun, -⟩ := whole_eq_ok_iff.mp hvalue
  obtain ⟨t, hs, ht⟩ := h.front hrun
  refine ⟨r ++ rest.toList, ?_⟩
  rw [String.toList_append, hs, List.append_assoc]
  exact ht _

/-- The front of a text is a text of its own, with a value that breaks the rule. -/
def FrontBreaks (reader : Reader α) (rule : α → Except Misfit β) (text : String) (why : Misfit) :
    Prop :=
  ∃ value rest a, text = value ++ rest ∧ reader.whole value = .ok a ∧ rule a = .error why

/-- **A front that breaks the rule is reported**, and so nothing but what stands behind it is
wrong with the text by itself. -/
theorem Closed.whole_refine_of_frontBreaks (h : reader.Closed) {why : Misfit}
    (hfront : FrontBreaks reader rule text why) :
    (reader.refine rule).whole text = .error (.unfit why) ∧
      ∀ problem, reader.whole text = .error problem → problem = .malformed := by
  obtain ⟨value, rest, a, rfl, hvalue, hrule⟩ := hfront
  obtain ⟨r, hrun⟩ := h.run_append hvalue rest
  refine ⟨whole_refine_of_run hrun hrule, fun problem hproblem => ?_⟩
  simp only [whole, hrun] at hproblem
  split at hproblem
  · simp at hproblem
  · exact (Except.error.inj hproblem).symm

/-- **A problem with the text is reported as it is**, unless a front of the text breaks the rule. -/
theorem Local.whole_refine_of_not_frontBreaks (h : reader.Local) {problem : Problem}
    (hproblem : reader.whole text = .error problem)
    (hfront : ∀ why, ¬ FrontBreaks reader rule text why) :
    (reader.refine rule).whole text = .error problem := by
  cases hrun : reader.run text.toList with
  | error problem' =>
    simp only [whole, hrun] at hproblem
    obtain rfl := Except.error.inj hproblem
    exact whole_of_error (refine_of_error hrun rule)
  | ok u =>
    obtain ⟨a, r⟩ := u
    cases hrule : rule a with
    | error why =>
      obtain ⟨value, rest, htext, hvalue⟩ := h.whole_of_run hrun
      exact absurd ⟨value, rest, a, htext, hvalue, hrule⟩ (hfront why)
    | ok b =>
      have hrefined : (reader.refine rule).run text.toList = .ok (b, r) :=
        refine_eq_ok_iff.mpr ⟨a, hrun, hrule⟩
      simp only [whole, hrun] at hproblem
      simp only [whole, hrefined]
      split at hproblem
      · simp at hproblem
      · next hblank => rw [if_neg hblank, Except.error.inj hproblem]

end Reader

end Containers.Json
