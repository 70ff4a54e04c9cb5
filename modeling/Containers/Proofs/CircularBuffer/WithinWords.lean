import Containers.Proofs.CircularBuffer.Width

/-!
# Within words

What a buffer answers and becomes, it answers and becomes in words.

* `NarrowSpan.Gives` — what a span in words gives from its front: all that a visit and a comparison
  need to know of it;
* `Span.FitsIn` — the offsets of a span are within the elements of a buffer that fits:
  **`FitsIn.take_narrow`** for one element at an end;
* `CircularBuffer.StaysInWords` — all that can be asked of a buffer and done to it;
* **`Fits.staysInWords`** and **`Fits.runOnNarrow`** — every buffer that fits, and every run on it;
* **`index_arithmetic_stays_in_words`** — every buffer that can come about, and every checkpoint.
-/

namespace Containers

open Word

variable {α σ : Type}

/-! ### What a span gives -/

namespace NarrowSpan

/-- From its front, a span gives the elements of a list and then nothing. -/
def Gives (p : NarrowSpan α) : List α → Prop
  | [] => ∃ q : NarrowSpan α, p.take .front = some (none, q)
  | a :: as => ∃ q : NarrowSpan α, p.take .front = some (some a, q) ∧ q.Gives as

variable {p q : NarrowSpan α} {as bs : List α}

theorem visitUpTo_eq (f : Nat → α → StateM σ Bool) (h : p.Gives as) {limit rank : Nat}
    (hlimit : as.length < limit) (hrank : rank + as.length < 2 ^ 64) (s : σ) :
    p.visitUpTo f limit (.ofNat rank) s = some (visitList f rank as s) := by
  induction as generalizing p limit rank s with
  | nil =>
    obtain ⟨limit, rfl⟩ := Nat.exists_eq_succ_of_ne_zero (Nat.ne_zero_of_lt hlimit)
    obtain ⟨q, htake⟩ := h
    rw [visitUpTo, htake]
    rfl
  | cons a as ih =>
    obtain ⟨limit, rfl⟩ := Nat.exists_eq_succ_of_ne_zero (Nat.ne_zero_of_lt hlimit)
    obtain ⟨q, htake, hq⟩ := h
    rw [List.length_cons] at hlimit hrank
    have hnext : add? (.ofNat rank) 1 = some (.ofNat (rank + 1)) := add?_one (by omega)
    have htold : (UInt64.ofNat rank).toNat = rank := toNat_ofNat (by omega)
    have hrest : ∀ s, q.visitUpTo f limit (.ofNat (rank + 1)) s =
        some (visitList f (rank + 1) as s) :=
      ih hq (by omega) (by omega)
    rcases hcall : (f rank a).run s with ⟨goOn, s'⟩
    simp only [visitUpTo, visitList, htake, hnext, htold, hcall, hrest, Option.bind_eq_bind,
      Option.bind_some]
    cases goOn <;> rfl

theorem sameUpTo_of_none [BEq α] {p' q' : NarrowSpan α} {b : Option α}
    (hp : p.take .front = some (none, p')) (hq : q.take .front = some (b, q')) (limit : Nat) :
    p.sameUpTo (limit + 1) q = some b.isNone := by
  rw [sameUpTo, hp, hq]
  cases b <;> rfl

theorem sameUpTo_of_some [BEq α] {p' q' : NarrowSpan α} {a : α} {b : Option α}
    (hp : p.take .front = some (some a, p')) (hq : q.take .front = some (b, q')) (limit : Nat) :
    p.sameUpTo (limit + 1) q = if b.any (a == ·) then p'.sameUpTo limit q' else some false := by
  rw [sameUpTo, hp, hq]
  cases b <;> rfl

theorem sameUpTo_eq [BEq α] (hp : p.Gives as) (hq : q.Gives bs) {limit : Nat}
    (hlimit : as.length < limit) : p.sameUpTo limit q = some (as == bs) := by
  induction as generalizing p q bs limit with
  | nil =>
    obtain ⟨limit, rfl⟩ := Nat.exists_eq_succ_of_ne_zero (Nat.ne_zero_of_lt hlimit)
    obtain ⟨p', hp'⟩ := hp
    cases bs with
    | nil =>
      obtain ⟨q', hq'⟩ := hq
      exact sameUpTo_of_none hp' hq' limit
    | cons b bs =>
      obtain ⟨q', hq', -⟩ := hq
      exact sameUpTo_of_none hp' hq' limit
  | cons a as ih =>
    obtain ⟨limit, rfl⟩ := Nat.exists_eq_succ_of_ne_zero (Nat.ne_zero_of_lt hlimit)
    obtain ⟨p', hp', hp⟩ := hp
    cases bs with
    | nil =>
      obtain ⟨q', hq'⟩ := hq
      exact sameUpTo_of_some hp' hq' limit
    | cons b bs =>
      obtain ⟨q', hq', hq⟩ := hq
      rw [sameUpTo_of_some hp' hq', Option.any_some, ih hp hq (Nat.lt_of_succ_lt_succ hlimit),
        List.cons_beq_cons]
      cases a == b <;> rfl

end NarrowSpan

namespace CircularBuffer

variable {b c : CircularBuffer α} {xs ys : List α} {p : Span α}

/-! ### Traversing -/

/-- A span of a buffer that fits lies within its elements. -/
structure Span.FitsIn (p : Span α) (xs : List α) : Prop where
  fits : p.buffer.Fits xs
  front_le_back : p.front ≤ p.back
  back_le_length : p.back ≤ xs.length

namespace Span.FitsIn

theorem back_lt_word (h : p.FitsIn xs) : p.back < 2 ^ 64 := by
  have hback := h.back_le_length
  have hlength := h.fits.length_add_free
  have hcapacity := h.fits.capacity_lt
  omega

theorem widen_narrow (h : p.FitsIn xs) : p.narrow.widen = p := by
  have hfront := Nat.lt_of_le_of_lt h.front_le_back h.back_lt_word
  show (⟨p.buffer.narrow.widen, (UInt64.ofNat p.front).toNat, (UInt64.ofNat p.back).toNat⟩ :
    Span α) = p
  rw [h.fits.inRange.widen_narrow, toNat_ofNat hfront, toNat_ofNat h.back_lt_word]

theorem remaining_narrow (h : p.FitsIn xs) :
    p.narrow.remaining = some (.ofNat (Traversal.remaining p)) :=
  sub?_ofNat h.front_le_back h.back_lt_word

theorem front_eq_back_iff (h : p.FitsIn xs) :
    p.narrow.front = p.narrow.back ↔ p.front = p.back :=
  ofNat_eq_iff (Nat.lt_of_le_of_lt h.front_le_back h.back_lt_word) h.back_lt_word

/-- **One element at an end.** -/
theorem take_narrow (h : p.FitsIn xs) (e : End) :
    ∃ o q, p.take e = .ok (o, q) ∧ p.narrow.take e = some (o, q.narrow) ∧ q.FitsIn xs := by
  have hfits := h.fits
  have hfront := h.front_le_back
  have hback := h.back_le_length
  have hword := h.back_lt_word
  by_cases hempty : p.front = p.back
  · exact ⟨none, p, if_pos hempty, if_pos (h.front_eq_back_iff.mpr hempty), h⟩
  have hne : p.narrow.front ≠ p.narrow.back := mt h.front_eq_back_iff.mp hempty
  cases e with
  | front =>
    have hlt : p.front < xs.length := by omega
    have helement : p.narrow.buffer.element p.narrow.front = some xs[p.front] :=
      hfits.element_narrow hlt
    have hnext : add? p.narrow.front 1 = some (.ofNat (p.front + 1)) := add?_one (by omega)
    refine ⟨some xs[p.front], { p with front := p.front + 1 }, hfits.take_front hempty hlt, ?_,
      hfits, show p.front + 1 ≤ p.back by omega, hback⟩
    simp only [NarrowSpan.take, if_neg hne, helement, hnext, Option.bind_eq_bind, Option.bind_some]
    rfl
  | back =>
    have hlt : p.back - 1 < xs.length := by omega
    have hless : sub? p.narrow.back 1 = some (.ofNat (p.back - 1)) := sub?_one (by omega) hword
    have helement : p.narrow.buffer.element (.ofNat (p.back - 1)) = some xs[p.back - 1] :=
      hfits.element_narrow hlt
    refine ⟨some xs[p.back - 1], { p with back := p.back - 1 }, hfits.take_back hempty hlt, ?_,
      hfits, show p.front ≤ p.back - 1 by omega, Nat.le_of_lt hlt⟩
    simp only [NarrowSpan.take, if_neg hne, hless, helement, Option.bind_eq_bind, Option.bind_some]
    rfl

theorem gives_narrow (h : p.FitsIn xs) {as : List α} (hgives : Traversal.Gives p as) :
    p.narrow.Gives as := by
  induction as generalizing p with
  | nil =>
    obtain ⟨p', htake⟩ := hgives
    obtain ⟨o, q, htake', hnarrow, -⟩ := h.take_narrow .front
    obtain ⟨rfl, -⟩ := Prod.mk.inj (Except.ok.inj (htake'.symm.trans htake))
    exact ⟨q.narrow, hnarrow⟩
  | cons a as ih =>
    obtain ⟨p', htake, hrest⟩ := hgives
    obtain ⟨o, q, htake', hnarrow, hq⟩ := h.take_narrow .front
    obtain ⟨rfl, rfl⟩ := Prod.mk.inj (Except.ok.inj (htake'.symm.trans htake))
    exact ⟨q.narrow, hnarrow, ih hq hrest⟩

end Span.FitsIn

namespace Fits

theorem elements_narrow (h : b.Fits xs) : b.narrow.elements = some b.elements.narrow := by
  rw [NarrowBuffer.elements, h.inRange.size_narrow]
  rfl

theorem fitsIn_elements (h : b.Fits xs) : b.elements.FitsIn xs :=
  ⟨h, Nat.zero_le _, Nat.le_of_eq h.size_eq⟩

theorem gives_narrow (h : b.Fits xs) : b.elements.narrow.Gives xs :=
  h.fitsIn_elements.gives_narrow h.gives_elements

theorem visit_narrow (h : b.Fits xs) (f : Nat → α → StateM σ Bool) (s : σ) :
    ∃ s', b.visit f s = .ok s' ∧ b.narrow.visit f s = some s' := by
  have hlength := h.length_add_free
  have hcapacity := h.capacity_lt
  refine ⟨visitList f 0 xs s, h.actsAsList.visited f s, ?_⟩
  rw [NarrowBuffer.visit, h.elements_narrow]
  exact NarrowSpan.visitUpTo_eq f h.gives_narrow (show xs.length < b.capacity + 1 by omega)
    (show 0 + xs.length < 2 ^ 64 by omega) s

theorem same_narrow [BEq α] (hb : b.Fits xs) (hc : c.Fits ys) :
    b.narrow.same c.narrow = some (b == c) := by
  have hlength := hb.length_add_free
  have hsame : b.elements.narrow.sameUpTo (b.narrow.slots.size + 1) c.elements.narrow =
      some (xs == ys) :=
    NarrowSpan.sameUpTo_eq hb.gives_narrow hc.gives_narrow
      (show xs.length < b.capacity + 1 by omega)
  have hwide : Traversal.same b.elements c.elements = .ok (xs == ys) :=
    Traversal.same_eq hb.gives_elements hc.gives_elements (Nat.le_of_eq hb.size_eq.symm)
  have hsize : UInt64.ofNat b.size = .ofNat c.size ↔ b.size = c.size :=
    ofNat_eq_iff hb.inRange.size_lt_word hc.inRange.size_lt_word
  show _ = some (b.size == c.size && (Traversal.same b.elements c.elements).toOption == some true)
  rw [hwide]
  simp only [NarrowBuffer.same, hb.inRange.size_narrow, hc.inRange.size_narrow, hb.elements_narrow,
    hc.elements_narrow, hsame, hsize, Option.bind_eq_bind, Option.bind_some]
  by_cases heq : b.size = c.size
  · rw [if_pos heq, heq, beq_self_eq_true, Bool.true_and]
    cases xs == ys <;> rfl
  · rw [if_neg heq, beq_false_of_ne heq, Bool.false_and]
    rfl

end Fits

/-! ### Everything that can be done -/

theorem widen_map_narrow {t : Traced Event (CircularBuffer α)} (h : t.result.InRange) :
    NarrowBuffer.widen <$> narrow <$> t = t := by
  show (⟨t.result.narrow.widen, t.events⟩ : Traced Event (CircularBuffer α)) = t
  rw [h.widen_narrow]

/-- A span answers the same in words. -/
structure Span.StaysInWords (p : Span α) : Prop where
  widen : p.narrow.widen = p
  remaining : ∃ n, p.narrow.remaining = some n ∧ n.toNat = Traversal.remaining p
  take : ∀ e, ∃ o q, p.narrow.take e = some (o, q) ∧ p.take e = .ok (o, q.widen)

theorem Span.FitsIn.staysInWords (h : p.FitsIn xs) : p.StaysInWords := by
  constructor
  case widen => exact h.widen_narrow
  case remaining =>
    have hword : Traversal.remaining p < 2 ^ 64 :=
      Nat.lt_of_le_of_lt (Nat.sub_le p.back p.front) h.back_lt_word
    exact ⟨_, h.remaining_narrow, toNat_ofNat hword⟩
  case take =>
    intro e
    obtain ⟨o, q, htake, hnarrow, hq⟩ := h.take_narrow e
    exact ⟨o, q.narrow, hnarrow, by rw [hq.widen_narrow, htake]⟩

/-- All that can be asked of a buffer or done to it is the same in words: no number on the way
leaves them, and no slot is looked for outside of the buffer. -/
structure StaysInWords (b : CircularBuffer α) : Prop where
  widen : b.narrow.widen = b
  capacity : b.narrow.capacity.toNat = b.capacity
  size : ∃ n, b.narrow.size = some n ∧ n.toNat = b.size
  isEmpty : b.narrow.isEmpty = b.isEmpty
  isFull : b.narrow.isFull = b.isFull
  slot : ∀ offset : UInt64, offset.toNat ≤ b.size →
    ∃ i, b.narrow.slot offset = some i ∧ i.toNat = b.slot offset.toNat ∧ i.toNat < b.capacity
  oldest : b.narrow.oldest = some b.oldest
  newest : b.narrow.newest = some b.newest
  get : ∀ index : UInt64, b.narrow.get index = some (b.get index.toNat)
  elements : ∃ p, b.narrow.elements = some p ∧ p.widen = b.elements
  /-- Wherever a script has led to, each next step. -/
  iterate : ∀ script answers p, Traversal.runTo b.elements script = .ok (answers, p) →
    p.StaysInWords
  visit : ∀ {τ : Type} (f : Nat → α → StateM τ Bool) (s : τ),
    ∃ s', b.narrow.visit f s = some s' ∧ b.visit f s = .ok s'
  push : ∀ a, ∃ t, b.narrow.push a = some t ∧ NarrowBuffer.widen <$> t = b.push a
  pushAll : ∀ as, ∃ t, b.narrow.pushAll as = some t ∧ NarrowBuffer.widen <$> t = b.pushAll as
  pushFront : ∀ a, ∃ t, b.narrow.pushFront a = some t ∧ NarrowBuffer.widen <$> t = b.pushFront a
  evictWhile : ∀ {τ : Type} (accepts : α → StateM τ Bool) (s : τ),
    ∃ t, b.narrow.evictWhile accepts s = some t ∧
      (fun e => .ok e.widen) <$> t = b.evictWhile accepts s
  clear : b.narrow.clear.widen = b.clear

/-- The place that a script leads to lies within the elements. -/
theorem Fits.fitsIn_of_runTo (h : b.Fits xs) {script : List (Step End)}
    {answers : List (Answer α)} (hrun : Traversal.runTo b.elements script = .ok (answers, p)) :
    p.FitsIn xs := by
  obtain ⟨q, hiterates, hstands⟩ := elements_iterate_as_cursor h.valid script
  obtain ⟨-, rfl⟩ := Prod.mk.inj (Except.ok.inj (hrun.symm.trans hiterates.runTo))
  have hholds := hstands.holds h.valid
  obtain ⟨all, hall, hback, -⟩ := hholds.exists_contains
  have hbuffer := hstands.buffer
  rw [hbuffer] at hall
  obtain rfl : all = xs := hall.toList_eq.symm.trans h.toList_eq
  exact ⟨hbuffer ▸ h, hholds.front_le_back, hback⟩

theorem Fits.staysInWords (h : b.Fits xs) : b.StaysInWords := by
  have hrange := h.inRange
  have hcapacity := h.capacity_lt
  constructor
  case widen => exact hrange.widen_narrow
  case capacity => exact toNat_ofNat (show b.capacity < 2 ^ 64 by omega)
  case size => exact ⟨_, hrange.size_narrow, toNat_ofNat hrange.size_lt_word⟩
  case isEmpty => exact hrange.isEmpty_narrow
  case isFull => exact hrange.isFull_narrow
  case slot =>
    intro offset hle
    have hslot := hrange.slot_narrow hle
    rw [UInt64.ofNat_toNat] at hslot
    have htold := toNat_ofNat (hrange.slot_lt_word offset.toNat)
    refine ⟨_, hslot, htold, ?_⟩
    rw [htold]
    exact hrange.slot_lt_capacity offset.toNat
  case oldest => exact h.oldest_narrow
  case newest => exact h.newest_narrow
  case get => exact h.get_narrow
  case elements => exact ⟨_, h.elements_narrow, h.fitsIn_elements.widen_narrow⟩
  case iterate =>
    intro script answers p hrun
    exact (h.fitsIn_of_runTo hrun).staysInWords
  case visit =>
    intro τ f s
    obtain ⟨s', hvisit, hnarrow⟩ := h.visit_narrow f s
    exact ⟨s', hnarrow, hvisit⟩
  case push => exact fun a => ⟨_, h.push_narrow a, widen_map_narrow (h.push a).inRange⟩
  case pushAll => exact fun as => ⟨_, h.pushAll_narrow as, widen_map_narrow (h.pushAll as).inRange⟩
  case pushFront =>
    exact fun a => ⟨_, h.pushFront_narrow a, widen_map_narrow (h.pushFront a).inRange⟩
  case evictWhile =>
    intro τ accepts s
    obtain ⟨e, hresult, hnarrow, hcount, ys, hfits⟩ := h.evictWhile_narrow accepts s
    refine ⟨_, hnarrow, ?_⟩
    have hwiden : e.narrow.widen = e := by
      show (⟨e.buffer.narrow.widen, (UInt64.ofNat e.count).toNat, e.state⟩ : Eviction α τ) = e
      rw [hfits.inRange.widen_narrow, toNat_ofNat hcount]
    show (⟨.ok e.narrow.widen, (b.evictWhile accepts s).events⟩ :
      Traced Event (Except Fault (Eviction α τ))) = _
    rw [hwiden, ← hresult]
  case clear => exact h.clear.inRange.widen_narrow

/-- **One operation.** -/
theorem Fits.onNarrow (h : b.Fits xs) (s : σ) (op : Operation α σ) : ∃ c s' ys,
    op.onBuffer b s = .ok (c, s') ∧ op.onNarrow b.narrow s = some (c.narrow, s') ∧ c.Fits ys := by
  cases op with
  | push a => exact ⟨_, s, _, rfl, by rw [Operation.onNarrow, h.push_narrow]; rfl, h.push a⟩
  | pushFront a =>
    exact ⟨_, s, _, rfl, by rw [Operation.onNarrow, h.pushFront_narrow]; rfl, h.pushFront a⟩
  | pushAll as =>
    exact ⟨_, s, _, rfl, by rw [Operation.onNarrow, h.pushAll_narrow]; rfl, h.pushAll as⟩
  | evictWhile accepts =>
    obtain ⟨e, hresult, hnarrow, -, ys, hfits⟩ := h.evictWhile_narrow accepts s
    refine ⟨e.buffer, e.state, ys, ?_, ?_, hfits⟩
    · rw [Operation.onBuffer, hresult]
      rfl
    · rw [Operation.onNarrow, hnarrow]
      rfl
  | clear => exact ⟨b.clear, s, [], rfl, rfl, h.clear⟩

/-- **Any number of operations.** -/
theorem Fits.runOnNarrow (h : b.Fits xs) (ops : List (Operation α σ)) (s : σ) : ∃ c s' ys,
    runOnBuffer ops b s = .ok (c, s') ∧ runOnNarrow ops b.narrow s = some (c.narrow, s') ∧
      c.Fits ys := by
  induction ops generalizing b xs s with
  | nil => exact ⟨b, s, xs, rfl, rfl, h⟩
  | cons op ops ih =>
    obtain ⟨c, s', ys, hop, hnarrow, hc⟩ := h.onNarrow s op
    obtain ⟨d, s'', zs, hrun, hnarrow', hd⟩ := ih hc s'
    refine ⟨d, s'', zs, ?_, ?_, hd⟩
    · rw [runOnBuffer, hop]
      exact hrun
    · rw [CircularBuffer.runOnNarrow, hnarrow]
      exact hnarrow'

theorem Reachable.fits (h : b.Reachable) (hcapacity : b.capacity ≤ 2 ^ 63 - 1) :
    b.Fits b.toList :=
  ⟨h.valid.contains, by omega⟩

/-- **No number leaves the words.**  A buffer that can come about, with as many slots as there can
be, is asked, traversed, compared and changed in words with the answers and the results that it has
in natural numbers, and so is every buffer that it is changed to.  A checkpoint with any words for
numbers is taken or refused, and for the same defect. -/
theorem index_arithmetic_stays_in_words :
    (∀ b : CircularBuffer α, b.Reachable → b.capacity ≤ 2 ^ 63 - 1 →
      b.StaysInWords ∧
      (∀ [BEq α] (c : CircularBuffer α), c.Reachable → c.capacity ≤ 2 ^ 63 - 1 →
        b.narrow.same c.narrow = some (b == c)) ∧
      ∀ {σ : Type} (ops : List (Operation α σ)) (s : σ), ∃ c s',
        runOnNarrow ops b.narrow s = some (c, s') ∧
          runOnBuffer ops b s = .ok (c.widen, s') ∧ c.widen.StaysInWords) ∧
    ∀ c : NarrowBuffer α, c.slots.size ≤ 2 ^ 63 - 1 →
      ∃ r, c.restore = some r ∧ r.map NarrowBuffer.widen = restore c.widen.checkpoint := by
  refine ⟨fun b hb hcapacity => ⟨(hb.fits hcapacity).staysInWords, ?_, ?_⟩, restore_narrow⟩
  · intro _ c hc hcapacity'
    exact (hb.fits hcapacity).same_narrow (hc.fits hcapacity')
  · intro σ ops s
    obtain ⟨c, s', ys, hrun, hnarrow, hc⟩ := (hb.fits hcapacity).runOnNarrow ops s
    have hwiden := hc.inRange.widen_narrow
    refine ⟨c.narrow, s', hnarrow, ?_, ?_⟩
    · rw [hwiden, hrun]
    · rw [hwiden]
      exact hc.staysInWords

/-- A slot in use, with numbers at the end of the words. -/
def atLastWord : NarrowBuffer Int64 :=
  ⟨#[some 3], 0xffffffffffffffff, 0xffffffffffffffff⟩

/-- A run on three elements around the end of four slots.  Numbers at the end of the words, with
which no slot can be told, are refused before one is asked for. -/
theorem index_arithmetic_stays_in_words_wrapped :
    wrapped.Reachable ∧ wrapped.StaysInWords ∧ wrapped.narrow.same wrapped.narrow = some true ∧
      (∃ c sum, runOnNarrow wrappedScript wrapped.narrow 0 = some (c, sum) ∧
        c.widen.toList = [5] ∧ sum = 19 ∧ c.widen.StaysInWords) ∧
      atLastWord.slot 0 = none ∧
        ∃ r, atLastWord.restore = some r ∧ r.map NarrowBuffer.widen = .error .cursorPastEnd := by
  obtain ⟨hreachable, hrestore⟩ := index_arithmetic_stays_in_words (α := Int64)
  have hwrapped : wrapped.Reachable := .restored restore_wrapped
  obtain ⟨hstays, hsame, hrun⟩ := hreachable wrapped hwrapped (by decide)
  obtain ⟨c, sum, hnarrow, hbuffer, hc⟩ := hrun wrappedScript 0
  have hresult : runOnBuffer wrappedScript wrapped 0 =
      .ok (⟨#[some 2, some 8, some 4, some 5], 0, 3⟩, 19) := rfl
  obtain ⟨hwiden, hsum⟩ := Prod.mk.inj (Except.ok.inj (hbuffer.symm.trans hresult))
  refine ⟨hwrapped, hstays, hsame wrapped hwrapped (by decide), ⟨c, sum, hnarrow, ?_, hsum, hc⟩,
    by decide, hrestore atLastWord (by decide)⟩
  rw [hwiden]
  rfl

end CircularBuffer

end Containers
