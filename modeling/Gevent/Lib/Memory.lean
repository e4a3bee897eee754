import Mathlib.Logic.Function.Basic

/-!
# Memory, and parts of it that are stored elsewhere

Memory is a function from addresses. `copyRange` is `memcpy` between two
objects. The bytes of a `Segment` from its start on may have moved to another
place: `Segment.image` is what it holds all the same, `Segment.save` moves more
of it and `Segment.restore` brings it back.
-/

section
variable {B : Type}

/-- `memcpy(dst + i, src + j, n)` -/
def copyRange (dst : Nat → B) (i : Nat) (src : Nat → B) (j n : Nat) : Nat → B :=
  fun a => if i ≤ a ∧ a < i + n then src (j + (a - i)) else dst a

theorem copyRange_inside {dst src : Nat → B} {i j n a : Nat} (low : i ≤ a) (high : a < i + n) :
    copyRange dst i src j n a = src (j + (a - i)) := if_pos ⟨low, high⟩

theorem copyRange_outside {dst src : Nat → B} {i j n a : Nat} (h : a < i ∨ i + n ≤ a) :
    copyRange dst i src j n a = dst a := by
  refine if_neg fun ⟨low, high⟩ => ?_
  omega

/-- A part of memory from `start` to `stop`, the first `saved` bytes of which
have moved to `copy`. -/
structure Segment (B : Type) where
  start : Nat
  stop : Nat
  saved : Nat
  copy : Nat → B

namespace Segment
variable {g : Segment B} {mem mem' : Nat → B} {a : Nat}

/-- What the segment holds. -/
def image (g : Segment B) (mem : Nat → B) (a : Nat) : B :=
  if a - g.start < g.saved then g.copy (a - g.start) else mem a

/-- The bytes up to `stop` move as well. -/
def save (g : Segment B) (mem : Nat → B) (stop : Nat) : Segment B :=
  if g.saved < stop - g.start then
    { g with
      copy := copyRange g.copy g.saved mem (g.start + g.saved) (stop - g.start - g.saved)
      saved := stop - g.start }
  else g

/-- The bytes that have moved come back. -/
def restore (g : Segment B) (mem : Nat → B) : Nat → B := copyRange mem g.start g.copy 0 g.saved

/-- Saving moves bytes and changes none. -/
theorem save_image (low : g.start ≤ a) {stop : Nat} :
    (g.save mem stop).image mem a = g.image mem a := by
  rw [save]
  split
  · next more =>
    simp only [image]
    by_cases old : a - g.start < g.saved
    · rw [if_pos (by omega), if_pos old, copyRange_outside (.inl old)]
    · rw [if_neg old]
      split
      · next new =>
        rw [copyRange_inside (by omega) (by omega)]
        congr 1
        omega
      · rfl
  · rfl

/-- Only the bytes that have not moved depend on memory. -/
theorem image_congr (h : g.saved ≤ a - g.start → mem' a = mem a) :
    g.image mem' a = g.image mem a := by
  simp only [image]
  split
  · rfl
  · exact h (by omega)

theorem restore_image (low : g.start ≤ a) : g.restore mem a = g.image mem a := by
  simp only [restore, image]
  by_cases old : a - g.start < g.saved
  · rw [if_pos old, copyRange_inside low (by omega), Nat.zero_add]
  · rw [if_neg old, copyRange_outside (.inr (by omega))]

end Segment
end
