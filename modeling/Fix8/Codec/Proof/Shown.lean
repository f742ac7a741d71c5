import Fix8.Codec.Proof.Pieces

/-!
# What a part writes

`encode` walks the positions of a part, passes over the suppressed fields, and writes behind the
field that counts a group the elements of that group.

* `FieldStore.shown`: the fields that are written, in order; **`text_eq`**: the text of a part;
* `encode_ok`: a part whose counted groups are there encodes.
-/

namespace Fix8.Codec

open Lib

section
variable {D : Type}

/-- The fields that `encode` writes, in order. -/
def FieldStore.shown (o : FieldStore D) : List (BaseField D) :=
  (o.pos.map (·.2)).filter fun f => !o.fp.suppress f.fnum

/-- The elements of its group are written behind the field. -/
def MessageBase.counts (m : MessageBase D) (f : BaseField D) : Bool :=
  m.own.fp.isGroup f.fnum && f.hasGroupCount

theorem shown_cons_suppressed {o : FieldStore D} {e : Nat × BaseField D} {rest : Positions D}
    (h : o.fp.suppress e.2.fnum = true) : ({ o with pos := e :: rest } : FieldStore D).shown =
      ({ o with pos := rest } : FieldStore D).shown := by
  simp [FieldStore.shown, h]

theorem shown_cons {o : FieldStore D} {e : Nat × BaseField D} {rest : Positions D}
    (h : o.fp.suppress e.2.fnum = false) : ({ o with pos := e :: rest } : FieldStore D).shown =
      e.2 :: ({ o with pos := rest } : FieldStore D).shown := by
  simp [FieldStore.shown, h]

theorem lookup_groups {β : Type} {k : Nat} {gs : List (GroupBase D)} {F : GroupBase D → β} :
    (gs.map fun g => (g.fnum, F g)).lookup k = (gs.find? fun g => g.fnum == k).map F := by
  induction gs with
  | nil => rfl
  | cons g gs ih =>
    rw [List.map_cons, List.lookup_cons, List.find?_cons, BEq.comm (a := k)]
    cases g.fnum == k with
    | true => rfl
    | false => exact ih

theorem mem_groups_of_findGroup {m : MessageBase D} {k : Nat} {g : GroupBase D}
    (hg : m.findGroup k = some g) : g ∈ m.groups ∧ g.fnum = k :=
  ⟨List.mem_of_find?_eq_some hg, by simpa using List.find?_some hg⟩

theorem elements_of_findGroup {m : MessageBase D} {k : Nat} {g : GroupBase D}
    (hg : m.findGroup k = some g) : m.elements k = g.msgs := by
  rw [MessageBase.elements, hg]
  rfl

/-- The elements are under a group. -/
theorem of_mem_elements {m e : MessageBase D} {k : Nat} (he : e ∈ m.elements k) :
    ∃ g, m.findGroup k = some g ∧ e ∈ g.msgs := by
  unfold MessageBase.elements at he
  cases hg : m.findGroup k with
  | none =>
    rw [hg] at he
    exact absurd he List.not_mem_nil
  | some g =>
    rw [hg] at he
    exact ⟨g, rfl, he⟩

theorem mem_elements {m e : MessageBase D} {k : Nat} (he : e ∈ m.elements k) :
    ∃ g ∈ m.groups, e ∈ g.msgs := by
  obtain ⟨g, hg, hmem⟩ := of_mem_elements he
  exact ⟨g, (mem_groups_of_findGroup hg).1, hmem⟩

theorem groupPieces_eq : ∀ gs : List (GroupBase D),
    groupPieces gs = gs.map fun g => (g.fnum, GroupBase.pieces g)
  | [] => rfl
  | g :: gs => congrArg ((g.fnum, GroupBase.pieces g) :: ·) (groupPieces_eq gs)

variable [FpType D]

/-- The text of a part. -/
def MessageBase.text (m : MessageBase D) : F8String := m.pieces.flatMap Piece.text

/-- The text of the elements of a group. -/
def elementsText (ms : List (MessageBase D)) : F8String := ms.flatMap MessageBase.text

/-- What a part writes for one of its fields. -/
def MessageBase.fieldText (m : MessageBase D) (f : BaseField D) : F8String :=
  f.encode ++ if m.counts f then elementsText (m.elements f.fnum) else []

theorem elementPieces_text {ms : List (MessageBase D)} :
    (elementPieces ms).flatMap Piece.text = elementsText ms := by
  induction ms with
  | nil => rfl
  | cons m ms ih =>
    rw [elementPieces, List.flatMap_append, ih]
    rfl

theorem lookup_text {m : MessageBase D} {k : Nat} :
    (((groupPieces m.groups).lookup k).getD []).flatMap Piece.text =
      elementsText (m.elements k) := by
  rw [groupPieces_eq, lookup_groups, MessageBase.elements, MessageBase.findGroup]
  cases m.groups.find? fun g => g.fnum == k with
  | none => rfl
  | some g =>
    obtain ⟨cls, msgs⟩ := g
    exact elementPieces_text

theorem fieldPieces_shown {m : MessageBase D} : ∀ pos : Positions D,
    (fieldPieces m.own.fp (groupPieces m.groups) pos).flatMap Piece.text =
      ({ m.own with pos := pos } : FieldStore D).shown.flatMap m.fieldText := by
  intro pos
  induction pos with
  | nil => rfl
  | cons pp rest ih =>
    cases hsuppress : m.own.fp.suppress pp.2.fnum with
    | true =>
      rw [fieldPieces_suppressed hsuppress, shown_cons_suppressed hsuppress]
      exact ih
    | false =>
      rw [shown_cons hsuppress, List.flatMap_cons, ← ih, fieldPieces, hsuppress,
        if_neg Bool.false_ne_true]
      unfold MessageBase.fieldText MessageBase.counts
      split
      · rw [List.flatMap_cons, List.flatMap_append, lookup_text, List.append_assoc]
        rfl
      · rw [List.append_nil]
        rfl

/-- **A part writes its fields, and what a permissive decode has put aside.** -/
theorem text_eq {m : MessageBase D} :
    m.text = m.own.shown.flatMap m.fieldText ++ m.own.unknown := by
  have hfields := fieldPieces_shown (m := m) m.own.pos
  obtain ⟨own, nested, groups⟩ := m
  rw [MessageBase.text, MessageBase.pieces, List.flatMap_append]
  congr 1
  simp [Piece.text]

/-! ## Encoding returns -/

theorem encodeElements_ok {ms : List (MessageBase D)} (h : ∀ e ∈ ms, ∃ t, e.encode = .ok t) :
    ∃ t, encodeElements ms = .ok t := by
  induction ms with
  | nil => exact ⟨[], rfl⟩
  | cons e ms ih =>
    obtain ⟨t, ht⟩ := h e List.mem_cons_self
    obtain ⟨t', ht'⟩ := ih fun e he => h e (List.mem_cons_of_mem _ he)
    exact ⟨t ++ t', by rw [encodeElements, ht, ht']; rfl⟩

theorem encodeGroups_eq : ∀ gs : List (GroupBase D),
    encodeGroups gs = gs.map fun g => (g.fnum, GroupBase.encode g)
  | [] => rfl
  | g :: gs => congrArg ((g.fnum, GroupBase.encode g) :: ·) (encodeGroups_eq gs)

theorem encodeFields_ok {m : MessageBase D} : ∀ pos : Positions D,
    (∀ f ∈ ({ m.own with pos := pos } : FieldStore D).shown, m.counts f = true →
      ∃ g, m.findGroup f.fnum = some g ∧ ∃ t, GroupBase.encode g = .ok t) →
    ∃ t, encodeFields m.own.fp (encodeGroups m.groups) pos = .ok t := by
  intro pos
  induction pos with
  | nil => exact fun _ => ⟨[], rfl⟩
  | cons pp rest ih =>
    intro h
    unfold encodeFields
    cases hsuppress : m.own.fp.suppress pp.2.fnum with
    | true =>
      rw [shown_cons_suppressed hsuppress] at h
      rw [if_pos rfl]
      exact ih h
    | false =>
      rw [shown_cons hsuppress] at h
      obtain ⟨t, ht⟩ := ih fun f hf => h f (List.mem_cons_of_mem _ hf)
      rw [if_neg Bool.false_ne_true]
      split
      · rename_i hcounts
        obtain ⟨g, hg, t', ht'⟩ := h pp.2 List.mem_cons_self hcounts
        have hlookup : (encodeGroups m.groups).lookup pp.2.fnum = some (GroupBase.encode g) := by
          rw [encodeGroups_eq, lookup_groups]
          exact congrArg (Option.map GroupBase.encode) hg
        rw [hlookup, ht', ht]
        exact ⟨_, rfl⟩
      · rw [ht]
        exact ⟨_, rfl⟩

/-- A part whose counted groups are there, with elements that encode, encodes. -/
theorem encode_ok {m : MessageBase D} (h : ∀ f ∈ m.own.shown, m.counts f = true →
    ∃ g, m.findGroup f.fnum = some g ∧ ∀ e ∈ g.msgs, ∃ t, e.encode = .ok t) :
    m.encode = .ok m.text := by
  have hfields : ∃ t, encodeFields m.own.fp (encodeGroups m.groups) m.own.pos = .ok t := by
    refine encodeFields_ok m.own.pos fun f hf hcounts => ?_
    obtain ⟨⟨cls, msgs⟩, hg, hmsgs⟩ := h f hf hcounts
    exact ⟨_, hg, encodeElements_ok hmsgs⟩
  obtain ⟨t, ht⟩ : ∃ t, m.encode = .ok t := by
    obtain ⟨own, nested, groups⟩ := m
    obtain ⟨t, ht⟩ := hfields
    rw [MessageBase.own_mk, MessageBase.groups_mk] at ht
    rw [MessageBase.encode, ht]
    exact ⟨_, rfl⟩
  rw [ht, encode_pieces m t ht]
  rfl

end

end Fix8.Codec
