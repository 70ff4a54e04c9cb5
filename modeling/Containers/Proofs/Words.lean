import Mathlib.Algebra.Group.Nat.Defs

/-!
# Checked words

Arithmetic on words of 64 bits that has no result where the number is not a word, and places of an
array that are found by words.

* `Word.add?`, `Word.sub?`, `Word.mod?` — a sum, a difference and a remainder;
* `Word.read?`, `Word.write?` — what stands at a place, and the array with something else there.

A computation in these steps has a result only if no number on the way to it leaves the words and
no place is outside of its array.  **`add?_ofNat`**, **`sub?_ofNat`** and **`mod?_ofNat`** — numbers
that stay within the words are computed as they are.
-/

namespace Containers.Word

variable {β : Type}

def add? (a b : UInt64) : Option UInt64 :=
  if a.toNat + b.toNat < 2 ^ 64 then some (a + b) else none

def sub? (a b : UInt64) : Option UInt64 :=
  if b ≤ a then some (a - b) else none

def mod? (a b : UInt64) : Option UInt64 :=
  if b = 0 then none else some (a % b)

def read? (xs : Array β) (i : UInt64) : Option β :=
  xs[i.toNat]?

def write? (xs : Array β) (i : UInt64) (x : β) : Option (Array β) :=
  if i.toNat < xs.size then some (xs.setIfInBounds i.toNat x) else none

/-! ### Numbers that are words -/

theorem toNat_ofNat {n : Nat} (h : n < 2 ^ 64) : (UInt64.ofNat n).toNat = n :=
  UInt64.toNat_ofNat_of_lt' h

theorem ofNat_eq_iff {m n : Nat} (hm : m < 2 ^ 64) (hn : n < 2 ^ 64) :
    UInt64.ofNat m = UInt64.ofNat n ↔ m = n := by
  rw [← UInt64.toNat_inj, toNat_ofNat hm, toNat_ofNat hn]

theorem ofNat_lt_iff {m n : Nat} (hm : m < 2 ^ 64) (hn : n < 2 ^ 64) :
    UInt64.ofNat m < UInt64.ofNat n ↔ m < n :=
  UInt64.ofNat_lt_iff_lt hm hn

theorem add?_ofNat {m n : Nat} (h : m + n < 2 ^ 64) :
    add? (.ofNat m) (.ofNat n) = some (.ofNat (m + n)) := by
  rw [add?, toNat_ofNat (by omega), toNat_ofNat (by omega), if_pos h, UInt64.ofNat_add]

theorem add?_one {n : Nat} (h : n + 1 < 2 ^ 64) : add? (.ofNat n) 1 = some (.ofNat (n + 1)) :=
  add?_ofNat h

theorem sub?_ofNat {m n : Nat} (hle : n ≤ m) (hm : m < 2 ^ 64) :
    sub? (.ofNat m) (.ofNat n) = some (.ofNat (m - n)) := by
  have hword : UInt64.ofNat n ≤ UInt64.ofNat m :=
    (UInt64.ofNat_le_iff_le (Nat.lt_of_le_of_lt hle hm) hm).mpr hle
  rw [sub?, if_pos hword, UInt64.ofNat_sub hle]

theorem sub?_one {n : Nat} (hpos : 0 < n) (h : n < 2 ^ 64) :
    sub? (.ofNat n) 1 = some (.ofNat (n - 1)) :=
  sub?_ofNat hpos h

theorem mod?_ofNat {m n : Nat} (hpos : 0 < n) (hm : m < 2 ^ 64) (hn : n < 2 ^ 64) :
    mod? (.ofNat m) (.ofNat n) = some (.ofNat (m % n)) := by
  have hne : UInt64.ofNat n ≠ 0 := by
    intro hzero
    have hnone : n = 0 := (ofNat_eq_iff hn (show 0 < 2 ^ 64 by decide)).mp hzero
    omega
  rw [mod?, if_neg hne, UInt64.ofNat_mod hm hn]

theorem read?_ofNat {i : Nat} (xs : Array β) (hi : i < 2 ^ 64) : read? xs (.ofNat i) = xs[i]? := by
  rw [read?, toNat_ofNat hi]

theorem write?_ofNat {i : Nat} {xs : Array β} (hi : i < xs.size) (hword : i < 2 ^ 64) (x : β) :
    write? xs (.ofNat i) x = some (xs.setIfInBounds i x) := by
  rw [write?, toNat_ofNat hword, if_pos hi]

end Containers.Word
