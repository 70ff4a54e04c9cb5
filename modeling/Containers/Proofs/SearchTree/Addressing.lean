import Containers.Proofs.SearchTree.SortedList
import Containers.Proofs.SearchTree.Walk

/-!
# Ranks at every integer

A rank addresses a value from the front or from the back, and every other integer is refused as it
was asked for.  A position to remove at counts from the front only.

* `SearchTree.AddressesByRank` — which value is addressed, and how the other ranks are refused, by
  the list of the values;
* `magnitude`, `wordPosition?`, `wordRank` — what becomes of ranks and positions, in words of 64
  bits;
* `SearchTree.CountsInWords` — no number on the way to an answer leaves the words;
* **`addressesByRank_and_countsInWords`** — both hold of every reachable tree and of every rank.

The least rank has no counterpart among the ranks that are words, but its distance from zero is a
word (`toNat_magnitude`).
-/

namespace Containers.SearchTree

open BinaryTree

variable {α : Type}

/-! ### By the list of the values -/

/-- What ranks address, and what becomes of those that address nothing. -/
structure AddressesByRank (t : SearchTree α) : Prop where
  empty_iff : ∀ rank, t.get rank = .error (.unranked .empty) ↔ t.toList.length = 0
  /-- A value is addressed from the front and from the back. -/
  found : ∀ (i : Nat) (h : i < t.toList.length) (rank : Int),
    rank = i ∨ rank = i - t.toList.length → t.get rank = .ok t.toList[i]
  outside : ∀ rank : Int, t.toList.length ≠ 0 →
    ¬ (-t.toList.length ≤ rank ∧ rank < t.toList.length) →
      t.get rank = .error (.unranked (.outside rank t.toList.length))
  removed_iff : ∀ r, (∃ a u, (t.removeAt r).result = .ok (a, u)) ↔ r < t.toList.length
  removed : ∀ r a u, (t.removeAt r).result = .ok (a, u) →
    t.get r = .ok a ∧ t.get (r - t.toList.length) = .ok a
  refused : ∀ r, t.toList.length ≤ r → (t.removeAt r).result = .error (.unranked
    (if t.toList.length = 0 then .empty
      else .outside (min r 9223372036854775807) t.toList.length))

theorem valueAt_eq_empty_iff {xs : List α} {rank : Int} :
    valueAt xs rank = .error (.unranked .empty) ↔ xs.length = 0 := by
  by_cases hbounds : -(xs.length : Int) ≤ rank ∧ rank < xs.length
  · obtain ⟨i, hposition, hlt⟩ := position?_lt_iff.mpr hbounds
    rw [valueAt_of_lt hlt ((position?_eq_some_iff hlt).mp hposition)]
    simp only [reduceCtorEq, false_iff]
    omega
  · rw [valueAt_of_outside hbounds]
    split <;> simp_all

variable {t : SearchTree α} {p : BinaryTree (NodeId × α)}

theorem addressesByRank (h : t.arena.Represents p) : AddressesByRank t := by
  have hlength : t.toList.length = p.numNodes := (size_eq_length h).symm.trans h.size_eq
  have hremoved : ∀ r (hlt : r < t.toList.length), ∃ u, (t.removeAt r).result =
      .ok (t.toList[r], u) := by
    intro r hlt
    obtain ⟨u, hu, -⟩ := toList_removeAt h hlt
    exact ⟨u, hu⟩
  constructor
  case empty_iff =>
    intro rank
    rw [get_eq h]
    exact valueAt_eq_empty_iff
  case found =>
    intro i hlt rank hrank
    rw [get_eq h]
    exact valueAt_of_lt hlt hrank
  case outside =>
    intro rank hne hbounds
    rw [get_eq h, valueAt_of_outside hbounds, if_neg hne]
  case removed_iff =>
    intro r
    constructor
    · rintro ⟨a, u, hremove⟩
      rw [hlength]
      exact (removeAt_ok h hremove).1
    · intro hlt
      obtain ⟨u, hu⟩ := hremoved r hlt
      exact ⟨t.toList[r], u, hu⟩
  case removed =>
    intro r a u hremove
    have hlt : r < t.toList.length := hlength ▸ (removeAt_ok h hremove).1
    obtain ⟨v, hv⟩ := hremoved r hlt
    obtain rfl : t.toList[r] = a := by
      rw [hv] at hremove
      exact (Prod.mk.inj (Except.ok.inj hremove)).1
    rw [get_eq h, get_eq h]
    exact ⟨valueAt_of_lt hlt (.inl rfl), valueAt_of_lt hlt (.inr rfl)⟩
  case refused =>
    intro r hge
    rw [removeAt_refused h (hlength ▸ hge), hlength]
    rfl

/-! ### In words -/

/-- How far a rank is from zero, as a word. -/
def magnitude (rank : Int64) : UInt64 :=
  rank.abs.toUInt64

/-- The difference of two words, unless it is below zero. -/
def lessBy? (a b : UInt64) : Option UInt64 :=
  if b ≤ a then some (a - b) else none

/-- The position that a rank addresses, in words. -/
def wordPosition? (rank : Int64) (size : UInt64) : Option UInt64 :=
  if 0 ≤ rank then some (magnitude rank) else lessBy? size (magnitude rank)

/-- The rank that a refusal names for a position, in words. -/
def wordRank (position : UInt64) : Int64 :=
  if position ≤ Int64.maxValue.toUInt64 then position.toInt64 else Int64.maxValue

theorem toNat_magnitude (rank : Int64) : (magnitude rank).toNat = rank.toInt.natAbs := by
  have habs : (magnitude rank).toNat = rank.toBitVec.abs.toNat := rfl
  have hint : rank.toInt = rank.toBitVec.toInt := rfl
  have hlt := rank.toBitVec.isLt
  rw [habs, hint, BitVec.toNat_abs, BitVec.toInt_eq_msb_cond]
  split <;> omega

theorem map_toNat_wordPosition? (rank : Int64) (size : UInt64) :
    (wordPosition? rank size).map UInt64.toNat = position? rank.toInt size.toNat := by
  rw [wordPosition?, position?]
  simp only [Int64.le_iff_toInt_le, Int64.toInt_zero]
  by_cases hahead : 0 ≤ rank.toInt
  · rw [if_pos hahead, if_pos hahead, Option.map_some, toNat_magnitude]
  · rw [if_neg hahead, if_neg hahead, lessBy?, ← toNat_magnitude]
    simp only [UInt64.le_iff_toNat_le]
    split
    · next hle => rw [Option.map_some, UInt64.toNat_sub_of_le _ _ (UInt64.le_iff_toNat_le.mpr hle)]
    · rfl

theorem toInt_wordRank (position : UInt64) :
    (wordRank position).toInt = min (position.toNat : Int) greatestRank := by
  have hgreatest : greatestRank = 9223372036854775807 := rfl
  have hbound : Int64.maxValue.toUInt64.toNat = 9223372036854775807 := rfl
  rw [wordRank, hgreatest]
  simp only [UInt64.le_iff_toNat_le, hbound]
  split
  · next hle =>
    have hword : position.toBitVec.toNat = position.toNat := rfl
    have hsame : position.toInt64.toInt = position.toBitVec.toInt := rfl
    rw [hsame, BitVec.toInt_eq_toNat_of_lt (by omega), hword]
    omega
  · next hgt =>
    have hmax : Int64.maxValue.toInt = 9223372036854775807 := rfl
    omega

/-- No number that is come by on the way to an answer leaves the words of 64 bits. -/
structure CountsInWords (t : SearchTree α) : Prop where
  position : ∀ (rank : Int64) (size : UInt64), size.toNat = t.size →
    (wordPosition? rank size).map UInt64.toNat = position? rank.toInt t.size
  named : ∀ position : UInt64, (wordRank position).toInt = min (position.toNat : Int) greatestRank
  /-- A step of a walk counts down the nodes to come, and there is one. -/
  counted : ∀ ids w id v, (Walk.start t.arena).Leads ids w → w.next = some (id, v) →
    w.remaining = v.remaining + 1
  /-- The last place is counted down from the size, which is not zero. -/
  removed : ∀ r a u, (t.removeAt r).result = .ok (a, u) → t.size = u.size + 1

theorem remaining_of_next {w v : Walk α} {xs : List (NodeId × α)} {id : NodeId} (h : w.Awaits xs)
    (hnext : w.next = some (id, v)) : w.remaining = v.remaining + 1 := by
  cases xs with
  | nil =>
    rw [h.next_eq_none] at hnext
    cases hnext
  | cons x xs =>
    obtain ⟨u, hpops, -⟩ := h.pops
    obtain ⟨-, rfl⟩ := Prod.mk.inj (Option.some.inj (hpops.next.symm.trans hnext))
    exact hpops.remaining

theorem countsInWords (h : t.arena.Represents p) : CountsInWords t where
  position rank size hsize := hsize ▸ map_toNat_wordPosition? rank size
  named := toInt_wordRank
  counted ids w id v hrun hnext := by
    obtain ⟨ys, zs, -, -, hzs⟩ := h.awaits_start.awaits_of_leads hrun
    exact remaining_of_next hzs hnext
  removed r a u hremove := by
    obtain ⟨hlt, -, -, q, hq, hshape⟩ := removeAt_ok h hremove
    have hlist : u.toList = t.toList.eraseIdx r := by
      rw [toList_eq hq, toList_eq h, hshape, inorder_eraseAt]
    have hlength : r < t.toList.length := by
      rwa [← size_eq_length h, size, h.size_eq]
    rw [size_eq_length h, size_eq_length hq, hlist, List.length_eraseIdx_of_lt hlength]
    omega

variable [Ord α]

/-- **Ranks at every integer.**  In a tree that can come about, a value is read by its rank from the
front or from the back and removed by the one from the front, and every other integer is refused, in
words as without bounds. -/
theorem addressesByRank_and_countsInWords (h : Reachable t) :
    AddressesByRank t ∧ CountsInWords t := by
  obtain ⟨p, hp⟩ := h.exists_represents
  exact ⟨addressesByRank hp, countsInWords hp⟩

/-- The first value by its rank from the back, the least rank, and a position past the greatest
one. -/
theorem addressesByRank_and_countsInWords_extremes : Reachable tied ∧
    tied.get (-4) = .ok ⟨0, "b"⟩ ∧
    tied.get Int64.minValue.toInt =
      .error (.unranked (.outside (-9223372036854775808) 4)) ∧
    (wordPosition? Int64.minValue 4).map UInt64.toNat = none ∧
    (tied.removeAt 9223372036854775808).result =
      .error (.unranked (.outside 9223372036854775807 4)) := by
  obtain ⟨haddresses, hcounts⟩ := addressesByRank_and_countsInWords reachable_tied
  have hlength : tied.toList.length = 4 := rfl
  refine ⟨reachable_tied, ?_, ?_, ?_, ?_⟩
  · exact haddresses.found 0 (by decide +kernel) (-4) (.inr (by rw [hlength]; rfl))
  · exact haddresses.outside _ (by rw [hlength]; decide) (by rw [hlength]; decide)
  · exact (hcounts.position Int64.minValue 4 rfl).trans rfl
  · exact haddresses.refused 9223372036854775808 (by rw [hlength]; decide)

end Containers.SearchTree
