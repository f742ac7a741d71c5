import Fix8.Lib.Simulate
import Fix8.Codec.Proof.Section

/-!
# Enough fuel

A decode that ends within its fuel ends the same with more of it, so that how a section decodes
(`Decodes`) is a matter of the text and the message alone.

* `extends_decodeGroup`, **`extends_decode`**: more fuel;
* **`Decodes.unique`**: a decode has one end.
-/

namespace Fix8.Codec

open Lib

section
variable {D : Type} [FpType D] {d : Feed} {fuel fuel' : Nat}

theorem extends_groupTurn {nestedGroup nestedGroup' : Nat → Nat → Act (MessageBase D) Stop Nat}
    (h : ∀ fnum o, Act.Extends .fuel (nestedGroup fnum o) (nestedGroup' fnum o)) (c : Nat × Nat) :
    Act.Extends .fuel (groupTurn d nestedGroup c) (groupTurn d nestedGroup' c) := by
  unfold groupTurn
  cases extractElement (d.rest c.1) with
  | none => exact Act.extends_refl _
  | some e =>
    refine Act.extends_get fun grp => ?_
    refine Act.extends_ite (Act.extends_refl _) (Act.extends_ite (Act.extends_refl _) ?_)
    cases d.cx.findBe (fastAtoiU16 e.tag) with
    | none => exact Act.extends_refl _
    | some be =>
      cases grp.own.fp.find (fastAtoiU16 e.tag) with
      | none => exact Act.extends_refl _
      | some itr =>
        refine Act.extends_bind (Act.extends_refl _) fun _ => ?_
        exact Act.extends_ite (Act.extends_bind (h _ _) fun _ => Act.extends_refl _)
          (Act.extends_refl _)

theorem extends_elementTurn {nestedGroup nestedGroup' : Nat → Nat → Act (MessageBase D) Stop Nat}
    (hf : fuel ≤ fuel')
    (h : ∀ fnum o, Act.Extends .fuel (nestedGroup fnum o) (nestedGroup' fnum o))
    (c : GroupClass) (fnum o : Nat) :
    Act.Extends .fuel (elementTurn d fuel nestedGroup c fnum o)
      (elementTurn d fuel' nestedGroup' c fnum o) := by
  unfold elementTurn
  refine Act.extends_ite (Act.extends_bind (Act.extends_onLocal ?_) fun _ => Act.extends_refl _)
    (Act.extends_refl _)
  exact Act.extends_bind (Act.extends_loop (extends_groupTurn h) hf _) fun _ => Act.extends_refl _

theorem extends_decodeGroup (hf : fuel ≤ fuel') {classes : List GroupClass} {fnum o : Nat} :
    Act.Extends .fuel (decodeGroup (D := D) d fuel classes fnum o)
      (decodeGroup d fuel' classes fnum o) := by
  induction fuel generalizing fuel' classes fnum o with
  | zero => exact Act.extends_throw _
  | succ fuel ih =>
    obtain ⟨fuel', rfl⟩ : ∃ n, fuel' = n + 1 := ⟨fuel' - 1, by omega⟩
    have hf := Nat.le_of_succ_le_succ hf
    unfold decodeGroup
    refine Act.extends_bind (Act.extends_refl _) fun c => ?_
    exact Act.extends_loop (extends_elementTurn hf (fun _ _ => ih hf) c fnum) hf _

theorem extends_storeField (hf : fuel ≤ fuel') {itr : FieldTrait} {tv start : Nat}
    {val : F8String} {c : Cursor} : Act.Extends .fuel
      (storeField (D := D) d fuel itr tv start val c) (storeField d fuel' itr tv start val c) := by
  unfold storeField
  cases d.cx.findBe tv with
  | none => exact Act.extends_refl _
  | some be =>
    refine Act.extends_bind (Act.extends_refl _) fun _ => ?_
    refine Act.extends_ite (Act.extends_get fun m => ?_) (Act.extends_refl _)
    exact Act.extends_bind (extends_decodeGroup hf) fun _ => Act.extends_refl _

theorem extends_decodeTurn (hf : fuel ≤ fuel') {permissive : Bool} (c : Cursor) :
    Act.Extends .fuel (decodeTurn (D := D) d permissive fuel c)
      (decodeTurn d permissive fuel' c) := by
  unfold decodeTurn
  cases extractElement (d.rest c.sOffset) with
  | none => exact Act.extends_refl _
  | some e =>
    refine Act.extends_get fun m => ?_
    cases m.own.fp.find (fastAtoiU16 e.tag) with
    | none => exact Act.extends_refl _
    | some itr =>
      refine Act.extends_ite (Act.extends_refl _) ?_
      refine Act.extends_bind (extends_storeField hf) fun c' => ?_
      refine Act.extends_ite (Act.extends_refl _) ?_
      unfold decodeData
      refine Act.extends_ite (Act.extends_refl _) ?_
      cases extractElementFixedWidth (fastAtoiU32 e.val) (d.rest c'.sOffset) with
      | none => exact Act.extends_refl _
      | some e' =>
        dsimp only
        cases bufferText (overwrite (overwrite c'.tag [0]) e'.tag) with
        | none => exact Act.extends_refl _
        | some tag =>
          refine Act.extends_get fun m' => ?_
          cases m'.own.fp.find (fastAtoiU16 tag) with
          | none => exact Act.extends_refl _
          | some itr' =>
            refine Act.extends_ite (Act.extends_refl _) ?_
            exact Act.extends_bind (extends_storeField hf) fun _ => Act.extends_refl _

/-- **A section that decodes within its fuel decodes the same with more.** -/
theorem extends_decode (hf : fuel ≤ fuel') {permissive : Bool} {o : Nat} :
    Act.Extends .fuel (decode (D := D) d permissive fuel o) (decode d permissive fuel' o) := by
  unfold decode
  refine Act.extends_get fun m => ?_
  exact Act.extends_bind (Act.extends_loop (extends_decodeTurn hf) hf _) fun _ => Act.extends_refl _

/-- The decode of a section ends in `r`. -/
def Decodes (d : Feed) (permissive : Bool) (o : Nat) (m : MessageBase D)
    (r : Res (MessageBase D) Stop Nat) : Prop :=
  ∃ fuel, decode d permissive fuel o m = r ∧ Act.InTime .fuel r

theorem Decodes.unique {permissive : Bool} {o : Nat} {m : MessageBase D}
    {r r' : Res (MessageBase D) Stop Nat} (h : Decodes d permissive o m r)
    (h' : Decodes d permissive o m r') : r = r' := by
  obtain ⟨n, rfl, hr⟩ := h
  obtain ⟨n', rfl, hr'⟩ := h'
  rcases Nat.le_total n n' with hle | hle
  · exact (extends_decode hle m hr).symm
  · exact extends_decode hle m hr'

end

end Fix8.Codec
