import Fix8.Codec.Message

/-!
# Trait bits and positions

What a change of the bits of one trait leaves alone, and what the changes of `_pos` do to its
entries.
-/

namespace Fix8.Codec

/-! ## Traits -/

namespace FieldTraits

variable {fp : FieldTraits} {field k : Nat} {f : FieldTrait → FieldTrait}

theorem find_update (hf : ∀ t, (f t).fnum = t.fnum) :
    (fp.update field f).find k = (fp.find k).map fun t => if t.fnum = field then f t else t := by
  unfold update find
  induction fp with
  | nil => rfl
  | cons t fp ih =>
    have hfnum : (if t.fnum = field then f t else t).fnum = t.fnum := by
      split
      · exact hf t
      · rfl
    rw [List.map_cons, List.find?_cons, List.find?_cons, hfnum]
    cases t.fnum == k with
    | true => rfl
    | false => exact ih

theorem find_fnum {t : FieldTrait} (h : fp.find k = some t) : t.fnum = k := by
  have hfind : List.find? (fun t => t.fnum == k) fp = some t := h
  simpa using List.find?_some hfind

theorem has_of_find {t : FieldTrait} (h : fp.find k = some t) : fp.has k = true := by
  rw [has, h]
  rfl

theorem present_of_find {t : FieldTrait} (h : fp.find k = some t) : fp.present k = t.present := by
  rw [present, h]
  rfl

theorem isGroup_of_find {t : FieldTrait} (h : fp.find k = some t) : fp.isGroup k = t.group := by
  rw [isGroup, h]
  rfl

/-- Another trait is as it was. -/
theorem find_update_of_ne (hf : ∀ t, (f t).fnum = t.fnum) (hk : k ≠ field) :
    (fp.update field f).find k = fp.find k := by
  rw [find_update hf]
  cases h : fp.find k with
  | none => rfl
  | some t =>
    rw [Option.map_some, if_neg]
    rw [find_fnum h]
    exact hk

theorem any_update {g : FieldTrait → Bool} (hf : ∀ t, (f t).fnum = t.fnum)
    (hg : ∀ t, g (f t) = g t) : ((fp.update field f).find k).any g = (fp.find k).any g := by
  rw [find_update hf]
  cases fp.find k with
  | none => rfl
  | some t =>
    simp only [Option.map_some, Option.any_some]
    split
    · exact hg t
    · rfl

theorem has_update (hf : ∀ t, (f t).fnum = t.fnum) :
    (fp.update field f).has k = fp.has k := by
  unfold has
  rw [find_update hf, Option.isSome_map]

theorem getPos_update (hf : ∀ t, (f t).fnum = t.fnum) (hpos : ∀ t, (f t).pos = t.pos) :
    (fp.update field f).getPos k = fp.getPos k := by
  unfold getPos
  rw [find_update hf]
  cases fp.find k with
  | none => rfl
  | some t =>
    simp only [Option.map_some, Option.elim_some]
    split
    · exact hpos t
    · rfl

theorem find_setPresent : (fp.setPresent field).find k =
    (fp.find k).map fun t => if t.fnum = field then { t with present := true } else t :=
  find_update fun _ => rfl

theorem find_clearPresent : (fp.clearPresent field).find k =
    (fp.find k).map fun t => if t.fnum = field then { t with present := false } else t :=
  find_update fun _ => rfl

/-- What is present stays present. -/
theorem present_setPresent (h : ∀ t, fp.find k = some t → t.present = true) :
    ∀ t, (fp.setPresent field).find k = some t → t.present = true := by
  intro t ht
  rw [find_setPresent] at ht
  obtain ⟨t', ht', rfl⟩ := Option.map_eq_some_iff.1 ht
  split
  · rfl
  · exact h t' ht'

theorem present_setPresent_self :
    ∀ t, (fp.setPresent field).find field = some t → t.present = true := by
  intro t ht
  rw [find_setPresent] at ht
  obtain ⟨t', ht', rfl⟩ := Option.map_eq_some_iff.1 ht
  rw [if_pos (find_fnum ht')]

theorem present_setPresent_eq :
    (fp.setPresent field).present k = if k = field then fp.has k else fp.present k := by
  rw [present, find_setPresent, has, present]
  cases h : fp.find k with
  | none => simp
  | some t =>
    rw [Option.map_some, Option.any_some, find_fnum h]
    split <;> rfl

theorem present_clearPresent_eq :
    (fp.clearPresent field).present k = if k = field then false else fp.present k := by
  rw [present, find_clearPresent, present]
  cases h : fp.find k with
  | none => simp
  | some t =>
    rw [Option.map_some, Option.any_some, find_fnum h]
    split <;> rfl

theorem find_clearPresent_of_ne (hk : k ≠ field) : (fp.clearPresent field).find k = fp.find k :=
  find_update_of_ne (fun _ => rfl) hk

theorem has_setPresent : (fp.setPresent field).has k = fp.has k := has_update fun _ => rfl
theorem has_clearPresent : (fp.clearPresent field).has k = fp.has k := has_update fun _ => rfl

theorem suppress_setPresent : (fp.setPresent field).suppress k = fp.suppress k :=
  any_update (fun _ => rfl) fun _ => rfl

theorem suppress_clearPresent : (fp.clearPresent field).suppress k = fp.suppress k :=
  any_update (fun _ => rfl) fun _ => rfl

theorem getPos_setPresent : (fp.setPresent field).getPos k = fp.getPos k :=
  getPos_update (fun _ => rfl) fun _ => rfl

theorem getPos_clearPresent : (fp.clearPresent field).getPos k = fp.getPos k :=
  getPos_update (fun _ => rfl) fun _ => rfl

end FieldTraits

/-! ## Positions -/

section
variable {D : Type} {pos : Nat} {what : BaseField D} {l : Positions D} {e : Nat × BaseField D}

theorem Positions.mem_insert : e ∈ Positions.insert pos what l ↔ e = (pos, what) ∨ e ∈ l := by
  induction l with
  | nil => simp [Positions.insert]
  | cons e' l ih =>
    unfold Positions.insert
    split
    · simp
    · rw [List.mem_cons, ih, List.mem_cons]
      tauto

theorem Positions.insert_cons_of_le {e' : Nat × BaseField D} (h : e'.1 ≤ pos) :
    Positions.insert pos what (e' :: l) = e' :: Positions.insert pos what l :=
  if_neg (Nat.not_lt.2 h)

theorem Positions.mem_erase {old : ObjId} (h : e ∈ l.erase old) : e ∈ l := List.mem_of_mem_eraseP h

theorem Positions.erase_cons_of_ne {old : ObjId} {e' : Nat × BaseField D} (h : e'.2.id ≠ old) :
    Positions.erase old (e' :: l) = e' :: l.erase old := by
  unfold Positions.erase
  rw [List.eraseP_cons_of_neg]
  simpa using h

theorem Positions.entryOf_cons_of_ne {old : ObjId} {e' : Nat × BaseField D} (h : e'.2.id ≠ old) :
    Positions.entryOf old (e' :: l) = l.entryOf old := by
  unfold Positions.entryOf
  rw [List.find?_cons_of_neg]
  simpa using h

end

end Fix8.Codec
