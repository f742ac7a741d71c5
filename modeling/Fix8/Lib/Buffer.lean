import Mathlib.Tactic.Common

/-!
# Buffers

A buffer of fixed length that is written and read at positions, which may be outside. A text
written over a segment of the same length replaces the segment, so a buffer is best looked at as
the list of the segments that are written.

* `write_segment`, `read_segments`: writing one segment and reading consecutive ones;
* `exists_segment`: a buffer splits behind any number of its items.
-/

namespace Lib

variable {α : Type}

/-- `buffer` with `text` at `pos`, when that is inside. -/
def write (buffer : List α) (pos : Int) (text : List α) : Option (List α) :=
  if 0 ≤ pos ∧ pos + text.length ≤ buffer.length then
    some (buffer.take pos.toNat ++ (text ++ buffer.drop (pos.toNat + text.length)))
  else none

/-- `len` items of `buffer` from `pos` on, when they are inside. -/
def read (buffer : List α) (pos : Int) (len : Nat) : Option (List α) :=
  if 0 ≤ pos ∧ pos + len ≤ buffer.length then some ((buffer.drop pos.toNat).take len) else none

variable {old text : List α} {pos : Int} {len : Nat}

theorem write_append {a b c : List α} (hpos : pos = a.length) (hlen : text.length = b.length) :
    write (a ++ (b ++ c)) pos text = some (a ++ (text ++ c)) := by
  subst hpos
  have hinside : (0 : Int) ≤ a.length ∧ (a.length : Int) + text.length ≤ (a ++ (b ++ c)).length := by
    simp only [List.length_append]
    omega
  have hdrop : (a ++ (b ++ c)).drop (a.length + text.length) = c := by
    rw [hlen, ← List.length_append, ← List.append_assoc, List.drop_left]
  rw [write, if_pos hinside, Int.toNat_natCast, List.take_left, hdrop]

theorem read_append {a b c : List α} (hpos : pos = a.length) (hlen : len = b.length) :
    read (a ++ (b ++ c)) pos len = some b := by
  subst hpos hlen
  have hinside : (0 : Int) ≤ a.length ∧ (a.length : Int) + b.length ≤ (a ++ (b ++ c)).length := by
    simp only [List.length_append]
    omega
  rw [read, if_pos hinside, Int.toNat_natCast, List.drop_left, List.take_left]

/-- A text over a segment of its length replaces it. -/
theorem write_segment (before after : List (List α)) (hpos : pos = before.flatten.length)
    (hlen : text.length = old.length) :
    write (before ++ old :: after).flatten pos text = some (before ++ text :: after).flatten := by
  rw [List.flatten_append, List.flatten_cons, List.flatten_append, List.flatten_cons]
  exact write_append hpos hlen

theorem read_segments (before segments after : List (List α))
    (hpos : pos = before.flatten.length) (hlen : len = segments.flatten.length) :
    read (before ++ (segments ++ after)).flatten pos len = some segments.flatten := by
  rw [List.flatten_append, List.flatten_append]
  exact read_append hpos hlen

theorem exists_segment {l : List α} {n : Nat} (h : n ≤ l.length) :
    ∃ segment rest, l = segment ++ rest ∧ segment.length = n :=
  ⟨l.take n, l.drop n, (List.take_append_drop n l).symm, List.length_take_of_le h⟩

end Lib
