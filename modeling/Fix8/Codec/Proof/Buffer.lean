import Fix8.Codec.Proof.CStr
import Fix8.Codec.Proof.Numeral
import Fix8.Codec.Decode

/-!
# The tag buffer

`decode` has one buffer for the tags of all elements of a section. `extract_element` ends a tag with
a NUL, `extract_element_fixed_width` does not: behind the digits that it writes stands what longer
tags have left there.

* `Cursor.read`, `Cursor.looked`: the buffer behind either call;
* **`bufferText_looked`**: what the buffer holds begins with the digits;
* **`bufferText_read_looked`**: it holds them alone if the tag before has as many;
* **`bufferText_same`**: from two buffers that go on the same way behind the tag.
-/

namespace Fix8.Codec

/-- The cursor when `extract_element` has read an element. -/
def Cursor.read (c : Cursor) (e : Element) : Cursor :=
  { c with tag := overwrite c.tag (e.tag ++ [0]) }

/-- The cursor behind an element that `extract_element` has read. -/
def Cursor.behind (c : Cursor) (e : Element) : Cursor :=
  { c.read e with sOffset := c.sOffset + e.result }

/-- The cursor when `extract_element_fixed_width` has looked at an element. -/
def Cursor.looked (c : Cursor) (e : Element) : Cursor :=
  { c with tag := overwrite (overwrite c.tag [0]) e.tag }

section
variable (c : Cursor) (e : Element)

@[simp] theorem Cursor.read_sOffset : (c.read e).sOffset = c.sOffset := rfl
@[simp] theorem Cursor.read_pos : (c.read e).pos = c.pos := rfl
@[simp] theorem Cursor.read_last : (c.read e).last = c.last := rfl
@[simp] theorem Cursor.behind_sOffset : (c.behind e).sOffset = c.sOffset + e.result := rfl
@[simp] theorem Cursor.behind_pos : (c.behind e).pos = c.pos := rfl
@[simp] theorem Cursor.looked_sOffset : (c.looked e).sOffset = c.sOffset := rfl
@[simp] theorem Cursor.looked_pos : (c.looked e).pos = c.pos := rfl
@[simp] theorem Cursor.looked_last : (c.looked e).last = c.last := rfl

end

/-- What was looked at leaves nothing behind when it is read. -/
theorem Cursor.looked_read {c : Cursor} {e e' : Element} (h : e'.tag = e.tag) :
    (c.looked e').read e = c.read e := by
  unfold Cursor.read Cursor.looked
  rw [h]
  congr 1
  unfold overwrite
  cases e.tag with
  | nil => simp
  | cons x t => simp [List.drop_append]

variable {buf rest s t : F8String}

theorem bufferText_nul : bufferText (0 :: rest) = some [] := by
  simp [bufferText, cstr]

theorem not_mem_nul (h : ∀ c ∈ t, isdigit c = true) : 0 ∉ t := by
  intro hmem
  exact absurd (h 0 hmem) (by decide)

theorem bufferText_append (h : 0 ∉ t) :
    bufferText (t ++ rest) = (bufferText rest).map (t ++ ·) := by
  have hcstr : cstr (t ++ rest) = t ++ cstr rest := by
    unfold cstr
    exact List.takeWhile_append_of_pos fun c hc => by simpa using fun hz : c = 0 => h (hz ▸ hc)
  unfold bufferText
  rw [hcstr]
  by_cases hrest : 0 ∈ rest
  · rw [if_pos (List.mem_append_right _ hrest), if_pos hrest]
    rfl
  · rw [if_neg (by simp [h, hrest]), if_neg hrest]
    rfl

/-- **Nothing is left over** where the tag before has as many digits. -/
theorem bufferText_read_looked (h : ∀ c ∈ t, isdigit c = true) (hlen : t.length = s.length) :
    bufferText (overwrite (overwrite (overwrite buf (s ++ [0])) [0]) t) = some t := by
  have hdrop : (overwrite (overwrite buf (s ++ [0])) [0]).drop t.length =
      0 :: buf.drop (s.length + 1) := by
    cases s with
    | nil =>
      rw [hlen]
      simp [overwrite]
    | cons c s =>
      rw [hlen]
      simp [overwrite, List.drop_append]
  rw [overwrite, hdrop, bufferText_append (not_mem_nul h), bufferText_nul]
  simp

/-- Behind what is written the buffer stays. -/
theorem drop_overwrite {n : Nat} (h : s.length ≤ n) : (overwrite buf s).drop n = buf.drop n := by
  unfold overwrite
  rw [List.drop_append, List.drop_eq_nil_of_le h, List.nil_append, List.drop_drop]
  congr 1
  omega

theorem drop_overwrite_congr {buf' : F8String} {n : Nat} (h : buf'.drop n = buf.drop n) :
    (overwrite buf' s).drop n = (overwrite buf s).drop n := by
  rcases Nat.lt_or_ge s.length n with hlt | hle
  · rw [drop_overwrite hlt.le, drop_overwrite hlt.le, h]
  · have hbehind : buf'.drop s.length = buf.drop s.length := by
      rw [← Nat.add_sub_cancel' hle, ← List.drop_drop, ← List.drop_drop, h]
    unfold overwrite
    rw [hbehind]

/-- A text ends with the first NUL. -/
theorem bufferText_ended {s r r' : F8String} :
    bufferText (s ++ 0 :: r) = bufferText (s ++ 0 :: r') := by
  have hcstr : ∀ r, cstr (s ++ 0 :: r) = cstr (s ++ [0]) := by
    intro r
    unfold cstr
    induction s with
    | nil => simp
    | cons c s ih =>
      simp only [List.cons_append, List.takeWhile_cons, ih]
  unfold bufferText
  rw [if_pos (by simp), if_pos (by simp), hcstr r, hcstr r']

/-- **What is left over comes from the tag before, or from behind it.** -/
theorem bufferText_same {buf' : F8String}
    (h : t.length ≤ s.length ∨ buf'.drop t.length = buf.drop t.length) :
    bufferText (overwrite (overwrite (overwrite buf' (s ++ [0])) [0]) t) =
      bufferText (overwrite (overwrite (overwrite buf (s ++ [0])) [0]) t) := by
  -- the buffer that the tag is written to: the NUL of the tag before stands at its end
  have hbuf : ∀ buf, overwrite (overwrite buf (s ++ [0])) [0] =
      overwrite (s ++ [0]) [0] ++ buf.drop (s.length + 1) := by
    intro buf
    cases s <;> simp [overwrite, List.drop_append]
  have hlength : (overwrite (s ++ [0]) [0]).length = s.length + 1 := by
    simp only [overwrite, List.length_append, List.length_drop, List.length_singleton]
    omega
  rw [hbuf, hbuf]
  generalize hw : overwrite (s ++ [0]) [0] = w at hlength
  unfold overwrite
  rcases Nat.lt_or_ge s.length t.length with hlt | hle
  · have hdrop := h.resolve_left (Nat.not_le.2 hlt)
    have hbehind : ∀ b : F8String, (w ++ b.drop (s.length + 1)).drop t.length =
        b.drop t.length := by
      intro b
      rw [← hlength]
      exact drop_overwrite (by omega)
    rw [hbehind, hbehind, hdrop]
  · obtain ⟨w₁, hlast⟩ : ∃ w₁, w.drop t.length = w₁ ++ [0] := by
      subst hw
      cases s with
      | nil =>
        have hzero : t.length = 0 := Nat.le_zero.1 hle
        exact ⟨[], by simp [overwrite, hzero]⟩
      | cons c s =>
        refine ⟨((0 :: s).drop t.length), ?_⟩
        rw [← List.drop_append_of_le_length (by simpa using hle)]
        rfl
    have hbehind : ∀ b : F8String, (w ++ b.drop (s.length + 1)).drop t.length =
        w₁ ++ 0 :: b.drop (s.length + 1) := by
      intro b
      rw [List.drop_append_of_le_length (by omega), hlast]
      simp
    rw [hbehind, hbehind, ← List.append_assoc, ← List.append_assoc]
    exact bufferText_ended

/-- All that is written to the buffer are digits and NULs. -/
def TagBytes (buf : F8String) : Prop := ∀ c ∈ buf, isdigit c = true ∨ c = 0

theorem TagBytes.overwrite (h : TagBytes buf) (ht : TagBytes t) : TagBytes (overwrite buf t) := by
  intro c hc
  rcases List.mem_append.1 hc with hc | hc
  · exact ht c hc
  · exact h c (List.mem_of_mem_drop hc)

theorem TagBytes.read {c : Cursor} {e : Element} (h : TagBytes c.tag)
    (he : ∀ b ∈ e.tag, isdigit b = true) : TagBytes (c.read e).tag := by
  refine h.overwrite fun b hb => ?_
  rcases List.mem_append.1 hb with hb | hb
  · exact .inl (he b hb)
  · exact .inr (List.mem_singleton.1 hb)

theorem TagBytes.looked {c : Cursor} {e : Element} (h : TagBytes c.tag)
    (he : ∀ b ∈ e.tag, isdigit b = true) : TagBytes (c.looked e).tag := by
  refine (h.overwrite fun b hb => ?_).overwrite fun b hb => .inl (he b hb)
  exact .inr (List.mem_singleton.1 hb)

/-- So the text in it is a numeral. -/
theorem TagBytes.digits (h : TagBytes buf) (htext : bufferText buf = some s) :
    ∀ c ∈ s, isdigit c = true := by
  unfold bufferText at htext
  split at htext
  · obtain rfl := Option.some.inj htext
    intro c hc
    refine (h c (List.takeWhile_subset _ hc)).resolve_right ?_
    rintro rfl
    exact not_mem_cstr hc
  · cases htext

end Fix8.Codec
