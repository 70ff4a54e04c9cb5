import Containers.Proofs.Json.Grammar

/-!
# What is passed over

A value is passed over with a list of the brackets that are open, and not by recursion.  What is
passed over is a value all the same.

* `exists_blanks` — the blanks in front of a text;
* `label_sound`, `skipScalar_sound` — what is passed over as a label and as a value without parts;
* `Follows` — what stands between a value and the next one, and the brackets that are open there;
* `Closes` — what closes all open brackets behind a value;
* **`skip_sound`** — what is passed over is a value, with the text behind it that closes the
  brackets.
-/

namespace Containers.Json

/-! ### Blanks, labels and values without parts -/

/-- A text is some blanks and the text past them. -/
theorem exists_blanks (s : List Char) : ∃ w, Blanks w ∧ s = w ++ skipBlanks s := by
  refine ⟨s.takeWhile isBlank, ?_, List.takeWhile_append_dropWhile.symm⟩
  exact fun c hc => List.all_eq_true.mp List.all_takeWhile c hc

theorem label_sound {b : Bracket} {s r : List Char} (h : label b s = .ok r) :
    ∃ l, s = l ++ r ∧ LabelText b l := by
  cases b with
  | square =>
    obtain rfl := Except.ok.inj h
    exact ⟨[], rfl, .square⟩
  | curly =>
    obtain ⟨w, hw, hs⟩ := exists_blanks s
    simp only [label] at h
    split at h
    · simp at h
    · next c r₁ hr₁ =>
      split at h
      · next hquote =>
        subst hquote
        obtain ⟨r₂, hk, h⟩ := bind_eq_ok_iff.mp h
        obtain ⟨k, hkey, hpieces⟩ := skipContent_sound hk
        obtain ⟨w', hw', hs'⟩ := exists_blanks r₂
        split at h
        · simp at h
        · next d r₃ hr₃ =>
          split at h
          · next hcolon =>
            subst hcolon
            obtain rfl := Except.ok.inj h
            refine ⟨w ++ '"' :: (k ++ '"' :: (w' ++ [':'])), ?_, .curly hw hpieces hw'⟩
            rw [hs, hr₁, hkey, hs', hr₃]
            simp
          · simp at h
      · simp at h

theorem skipNumber_sound {s r : List Char} (h : skipNumber s = .ok r) :
    ∃ l t, s = t ++ r ∧ LiteralText l t := by
  unfold skipNumber at h
  split at h
  · simp at h
  · next l r' hl =>
    obtain rfl := Except.ok.inj h
    obtain ⟨t, hs, htext, -⟩ := literal_sound hl
    exact ⟨l, t, hs, htext⟩

/-- What is passed over as a value without parts is one. -/
theorem skipScalar_sound {c : Char} {s r : List Char} (h : skipScalar c s = .ok r) :
    ∃ t, c :: s = t ++ r ∧ ScalarText t := by
  unfold skipScalar at h
  split at h
  · next hc => exact ⟨['n', 'u', 'l', 'l'], by rw [hc, keyword_sound h]; rfl, .null⟩
  split at h
  · next hc => exact ⟨['t', 'r', 'u', 'e'], by rw [hc, keyword_sound h]; rfl, .truth⟩
  split at h
  · next hc => exact ⟨['f', 'a', 'l', 's', 'e'], by rw [hc, keyword_sound h]; rfl, .falsity⟩
  split at h
  · next hc =>
    obtain ⟨t, rfl, hpieces⟩ := skipContent_sound h
    exact ⟨'"' :: (t ++ ['"']), by rw [hc]; simp, .string hpieces⟩
  split at h
  · next hc =>
    obtain ⟨l, t, rfl, hl⟩ := skipNumber_sound h
    exact ⟨'-' :: t, by rw [hc]; rfl, .negative hl⟩
  split at h
  · obtain ⟨l, t, hs, hl⟩ := skipNumber_sound h
    exact ⟨t, hs, .positive hl⟩
  · simp at h

/-! ### Behind a value -/

/-- What stands between a value and the next one, inside the open brackets: brackets that close, a
comma and a label.  Where all brackets close, nothing stands behind them. -/
inductive Follows : List Bracket → List Char → List Bracket → Prop where
  | nil : Follows [] [] []
  | comma {b : Bracket} {bs : List Bracket} {w l : List Char} (hw : Blanks w) (hl : LabelText b l) :
      Follows (b :: bs) (w ++ ',' :: l) (b :: bs)
  | closing {b : Bracket} {bs bs' : List Bracket} {w v : List Char} (hw : Blanks w)
      (h : Follows bs v bs') : Follows (b :: bs) (w ++ b.closing :: v) bs'

theorem following_sound {bs bs' : List Bracket} {s r : List Char}
    (h : following bs s = .ok (bs', r)) : ∃ v, s = v ++ r ∧ Follows bs v bs' := by
  induction bs generalizing s with
  | nil =>
    obtain ⟨rfl, rfl⟩ := Prod.mk.inj (Except.ok.inj h)
    exact ⟨[], rfl, .nil⟩
  | cons b bs ih =>
    obtain ⟨w, hw, hs⟩ := exists_blanks s
    simp only [following] at h
    split at h
    · simp at h
    · next c r₁ hr₁ =>
      split at h
      · next hcomma =>
        subst hcomma
        obtain ⟨r₂, hl, h⟩ := bind_eq_ok_iff.mp h
        obtain ⟨rfl, rfl⟩ := Prod.mk.inj (Except.ok.inj h)
        obtain ⟨l, hlabel, htext⟩ := label_sound hl
        refine ⟨w ++ ',' :: l, ?_, .comma hw htext⟩
        rw [hs, hr₁, hlabel]
        simp
      · split at h
        · next hclosing =>
          subst hclosing
          obtain ⟨v, hv, hfollows⟩ := ih h
          refine ⟨w ++ b.closing :: v, ?_, .closing hw hfollows⟩
          rw [hs, hr₁, hv]
          simp
        · simp at h

/-- What closes the open brackets behind a value, with more values before it does. -/
inductive Closes : List Bracket → List Char → Prop where
  | nil : Closes [] []
  | closing {b : Bracket} {bs : List Bracket} {w u : List Char} (hw : Blanks w) (h : Closes bs u) :
      Closes (b :: bs) (w ++ b.closing :: u)
  | comma {b : Bracket} {bs : List Bracket} {w l w' t u : List Char} (hw : Blanks w)
      (hl : LabelText b l) (hw' : Blanks w') (ht : Grammar none t) (h : Closes (b :: bs) u) :
      Closes (b :: bs) (w ++ ',' :: (l ++ (w' ++ (t ++ u))))

/-- Where all brackets have closed, they are closed. -/
theorem Follows.closes_of_nil {bs : List Bracket} {v : List Char} (h : Follows bs v []) :
    Closes bs v := by
  generalize hnil : ([] : List Bracket) = bs' at h
  induction h with
  | nil => exact .nil
  | comma => simp at hnil
  | closing hw _ ih => exact .closing hw (ih hnil)

/-- Where a value follows, the brackets are closed behind it. -/
theorem Follows.closes {bs : List Bracket} {b : Bracket} {bs' : List Bracket} {v w t u : List Char}
    (h : Follows bs v (b :: bs')) (hw : Blanks w) (ht : Grammar none t)
    (hu : Closes (b :: bs') u) : Closes bs (v ++ (w ++ (t ++ u))) := by
  generalize hcons : b :: bs' = opened at h hu
  induction h with
  | nil => simp at hcons
  | @comma b bs w₁ l hw₁ hl =>
    have htext : w₁ ++ ',' :: l ++ (w ++ (t ++ u)) = w₁ ++ ',' :: (l ++ (w ++ (t ++ u))) := by simp
    rw [htext]
    exact .comma hw₁ hl hw ht hu
  | @closing b bs bs' w₁ v hw₁ _ ih =>
    have htext : w₁ ++ b.closing :: v ++ (w ++ (t ++ u)) =
        w₁ ++ b.closing :: (v ++ (w ++ (t ++ u))) := by simp
    rw [htext]
    exact .closing hw₁ (ih hcons hu)

/-- A value inside a bracket, and what closes it behind that value, is what stands inside the
bracket, its end, and what closes the other brackets. -/
theorem Closes.split {b : Bracket} {bs : List Bracket} {u : List Char} (h : Closes (b :: bs) u)
    {l w t : List Char} (hl : LabelText b l) (hw : Blanks w) (ht : Grammar none t) :
    ∃ i v, l ++ (w ++ (t ++ u)) = i ++ b.closing :: v ∧ Grammar (some b) i ∧ Closes bs v := by
  generalize hcons : b :: bs = opened at h
  induction h generalizing l w t with
  | nil => simp at hcons
  | @closing b' bs' w' u hw' h _ =>
    obtain ⟨rfl, rfl⟩ := List.cons.inj hcons
    exact ⟨l ++ (w ++ (t ++ w')), u, by simp, .last hl hw ht hw', h⟩
  | @comma b' bs' w₁ l' w' t' u hw₁ hl' hw' ht' _ ih =>
    obtain ⟨rfl, rfl⟩ := List.cons.inj hcons
    obtain ⟨i, v, htext, hi, hv⟩ := ih hl' hw' ht' rfl
    refine ⟨l ++ (w ++ (t ++ (w₁ ++ ',' :: i))), v, ?_, .more hl hw ht hw₁ hi, hv⟩
    rw [htext]
    simp

/-! ### Values -/

theorem Bracket.eq_opening_of_opened? {b : Bracket} {c : Char} (h : opened? c = some b) :
    c = b.opening := by
  unfold opened? at h
  split at h
  · next hc => exact (Option.some.inj h) ▸ hc
  · split at h
    · next hc => exact (Option.some.inj h) ▸ hc
    · simp at h

/-- What is passed over in one step: a value and what follows it, or the start of a bracket with
the label of its first value. -/
theorem pass_sound {bs bs' : List Bracket} {s r : List Char} (h : pass bs s = .ok (bs', r)) :
    (∃ w t v, s = w ++ (t ++ (v ++ r)) ∧ Blanks w ∧ Grammar none t ∧ Follows bs v bs') ∨
      ∃ w b l, s = w ++ b.opening :: (l ++ r) ∧ Blanks w ∧ LabelText b l ∧ bs' = b :: bs := by
  obtain ⟨w, hw, hs⟩ := exists_blanks s
  unfold pass at h
  split at h
  · simp at h
  · next c r₁ hr₁ =>
    split at h
    · obtain ⟨r₂, hscalar, h⟩ := bind_eq_ok_iff.mp h
      obtain ⟨t, ht, htext⟩ := skipScalar_sound hscalar
      obtain ⟨v, hv, hfollows⟩ := following_sound h
      exact .inl ⟨w, t, v, by rw [hs, hr₁, ht, hv], hw, .scalar htext, hfollows⟩
    · next b hopened =>
      obtain rfl := Bracket.eq_opening_of_opened? hopened
      obtain ⟨w', hw', hs'⟩ := exists_blanks r₁
      split at h
      · simp at h
      · next d r₂ hr₂ =>
        split at h
        · next hclosing =>
          subst hclosing
          obtain ⟨v, hv, hfollows⟩ := following_sound h
          refine .inl ⟨w, b.opening :: (w' ++ [b.closing]), v, ?_, hw, .empty b hw', hfollows⟩
          rw [hs, hr₁, hs', hr₂, hv]
          simp
        · obtain ⟨r₃, hl, h⟩ := bind_eq_ok_iff.mp h
          obtain ⟨rfl, rfl⟩ := Prod.mk.inj (Except.ok.inj h)
          obtain ⟨l, hlabel, htext⟩ := label_sound hl
          exact .inr ⟨w, b, l, by rw [hs, hr₁, hlabel], hw, htext, rfl⟩

/-- **What is passed over is a value**, with the text behind it that closes the open brackets. -/
theorem skip_sound {bs : List Bracket} {s r : List Char} (h : skip bs s = .ok r) :
    ∃ w t u, s = w ++ (t ++ (u ++ r)) ∧ Blanks w ∧ Grammar none t ∧ Closes bs u := by
  fun_induction skip bs s with
  | case1 => simp at h
  | case2 bs s r' hpass =>
    obtain rfl := Except.ok.inj h
    rcases pass_sound hpass with ⟨w, t, v, hs, hw, ht, hfollows⟩ | ⟨w, b, l, -, -, -, hnil⟩
    · exact ⟨w, t, v, hs, hw, ht, hfollows.closes_of_nil⟩
    · simp at hnil
  | case3 bs s b bs' r' hpass _ ih =>
    obtain ⟨w', t', u, hr', hw', ht', hu⟩ := ih h
    rcases pass_sound hpass with ⟨w, t, v, hs, hw, ht, hfollows⟩ | ⟨w, b₁, l, hs, hw, hl, hcons⟩
    · refine ⟨w, t, v ++ (w' ++ (t' ++ u)), ?_, hw, ht, hfollows.closes hw' ht' hu⟩
      rw [hs, hr']
      simp
    · obtain ⟨rfl, rfl⟩ := List.cons.inj hcons
      obtain ⟨i, v, htext, hi, hv⟩ := hu.split hl hw' ht'
      refine ⟨w, b.opening :: (i ++ [b.closing]), v, ?_, hw, .bracket hi, hv⟩
      have hsplit : l ++ r' = i ++ b.closing :: (v ++ r) := by
        rw [hr', ← List.cons_append, ← List.append_assoc i, ← htext]
        simp
      rw [hs, hsplit]
      simp

end Containers.Json
