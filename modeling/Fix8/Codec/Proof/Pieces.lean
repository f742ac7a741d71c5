import Fix8.Codec.Proof.Composed

/-!
# The pieces of an encoded message

The text of a message is that of the fields it encodes, and of what a permissive decode has put
aside in `_unknown`.

* **`encode_pieces`**: an encoding is the text of its pieces;
* **`mem_tags_iff`**: of the tags of the frame, the content of a part has those in its unknown text.
-/

namespace Fix8.Codec

open Lib

/-- A field, or unknown elements as they were received. -/
inductive Piece (D : Type) where
  | field (f : BaseField D)
  | unknown (text : F8String)

/-- The tags of the elements of a text, one behind the other. -/
def elementTags : Nat → F8String → List Nat
  | 0, _ => []
  | fuel + 1, text =>
    match extractElement text with
    | none => []
    | some e => (fastAtoi e.tag).toNat :: elementTags fuel (text.drop e.result)

/-- The tags of the elements that a message has put aside. -/
def FieldStore.unknownTags {D : Type} (o : FieldStore D) : List Nat :=
  elementTags o.unknown.length o.unknown

section
variable {D : Type}

/-- What the loop of `encode` visits; `groups` holds the pieces of each group. -/
def fieldPieces (fp : FieldTraits) (groups : List (Nat × List (Piece D))) :
    Positions D → List (Piece D)
  | [] => []
  | pp :: rest =>
    if fp.suppress pp.2.fnum then fieldPieces fp groups rest
    else if fp.isGroup pp.2.fnum && pp.2.hasGroupCount then
      .field pp.2 :: ((groups.lookup pp.2.fnum).getD [] ++ fieldPieces fp groups rest)
    else .field pp.2 :: fieldPieces fp groups rest

theorem fieldPieces_suppressed {fp : FieldTraits} {groups : List (Nat × List (Piece D))}
    {pp : Nat × BaseField D} {rest : Positions D} (h : fp.suppress pp.2.fnum = true) :
    fieldPieces fp groups (pp :: rest) = fieldPieces fp groups rest := if_pos h

theorem fieldPieces_plain {fp : FieldTraits} {groups : List (Nat × List (Piece D))}
    {pp : Nat × BaseField D} {rest : Positions D} (h : fp.suppress pp.2.fnum = false)
    (hcount : pp.2.hasGroupCount = false) :
    fieldPieces fp groups (pp :: rest) = .field pp.2 :: fieldPieces fp groups rest := by
  rw [fieldPieces, h, hcount, Bool.and_false]
  rfl

mutual

def MessageBase.pieces : MessageBase D → List (Piece D)
  | .mk own _ groups => fieldPieces own.fp (groupPieces groups) own.pos ++ [.unknown own.unknown]

def groupPieces : List (GroupBase D) → List (Nat × List (Piece D))
  | [] => []
  | g :: gs => (g.fnum, GroupBase.pieces g) :: groupPieces gs

def GroupBase.pieces : GroupBase D → List (Piece D)
  | .mk _ msgs => elementPieces msgs

def elementPieces : List (MessageBase D) → List (Piece D)
  | [] => []
  | m :: ms => m.pieces ++ elementPieces ms

end

end

/-! ## The text -/

section
variable {D : Type} [FpType D]

def Piece.text : Piece D → F8String
  | field f => f.encode
  | unknown text => text

theorem fieldPieces_text {fp : FieldTraits} {texts : List (Nat × Except Stop F8String)}
    {groups : List (Nat × List (Piece D))}
    (hgroups : ∀ k text, texts.lookup k = some (.ok text) →
      ∃ ps, groups.lookup k = some ps ∧ text = ps.flatMap Piece.text) :
    ∀ (pos : Positions D) (text : F8String), encodeFields fp texts pos = .ok text →
      text = (fieldPieces fp groups pos).flatMap Piece.text := by
  intro pos
  induction pos with
  | nil =>
    intro text h
    exact (Except.ok.inj h).symm
  | cons pp rest ih =>
    intro text h
    unfold encodeFields at h
    unfold fieldPieces
    split at h
    · rename_i hsuppress
      rw [if_pos hsuppress]
      exact ih text h
    · rename_i hsuppress
      rw [if_neg hsuppress]
      split at h
      · rename_i hgroup
        rw [if_pos hgroup]
        obtain ⟨group, hlookup, h⟩ := bind_eq_ok h
        obtain ⟨more, hmore, h⟩ := bind_eq_ok h
        obtain rfl := Except.ok.inj h
        cases htext : texts.lookup pp.2.fnum with
        | none =>
          rw [htext] at hlookup
          exact absurd hlookup (by simp [throw, throwThe, MonadExceptOf.throw])
        | some r =>
          rw [htext, Option.getD_some] at hlookup
          subst hlookup
          obtain ⟨ps, hps, rfl⟩ := hgroups _ _ htext
          rw [hps, Option.getD_some, List.flatMap_cons, List.flatMap_append, ← ih more hmore,
            List.append_assoc]
          rfl
      · rename_i hgroup
        rw [if_neg hgroup]
        obtain ⟨more, hmore, h⟩ := bind_eq_ok h
        obtain rfl := Except.ok.inj h
        rw [List.flatMap_cons, ← ih more hmore]
        rfl

mutual

/-- **An encoding is the text of its pieces.** -/
theorem encode_pieces : ∀ (m : MessageBase D) (text : F8String), m.encode = .ok text →
    text = m.pieces.flatMap Piece.text
  | .mk own _ groups, text, h => by
    unfold MessageBase.encode at h
    obtain ⟨fields, hfields, h⟩ := bind_eq_ok h
    obtain rfl := Except.ok.inj h
    have hpieces := fieldPieces_text (encodeGroups_pieces groups) _ _ hfields
    unfold MessageBase.pieces
    rw [List.flatMap_append, ← hpieces, List.flatMap_singleton]
    rfl

theorem encodeGroups_pieces : ∀ (gs : List (GroupBase D)) (k : Nat) (text : F8String),
    (encodeGroups gs).lookup k = some (.ok text) →
      ∃ ps, (groupPieces gs).lookup k = some ps ∧ text = ps.flatMap Piece.text
  | [], k, text, h => by simp [encodeGroups] at h
  | g :: gs, k, text, h => by
    unfold encodeGroups at h
    unfold groupPieces
    rw [List.lookup_cons] at h ⊢
    cases hk : k == g.fnum with
    | true =>
      rw [hk] at h
      exact ⟨_, rfl, encodeGroup_pieces g text (Option.some.inj h)⟩
    | false =>
      rw [hk] at h
      exact encodeGroups_pieces gs k text h

theorem encodeGroup_pieces : ∀ (g : GroupBase D) (text : F8String),
    GroupBase.encode g = .ok text → text = g.pieces.flatMap Piece.text
  | .mk _ msgs, text, h => encodeElements_pieces msgs text h

theorem encodeElements_pieces : ∀ (ms : List (MessageBase D)) (text : F8String),
    encodeElements ms = .ok text → text = (elementPieces ms).flatMap Piece.text
  | [], text, h => (Except.ok.inj h).symm
  | m :: ms, text, h => by
    unfold encodeElements at h
    obtain ⟨first, hfirst, h⟩ := bind_eq_ok h
    obtain ⟨more, hmore, h⟩ := bind_eq_ok h
    obtain rfl := Except.ok.inj h
    unfold elementPieces
    rw [List.flatMap_append, ← encode_pieces m first hfirst, ← encodeElements_pieces ms more hmore]

end

end

/-! ## The tags -/

section
variable {D : Type}

def Piece.tags : Piece D → List Nat
  | field f => [f.fnum]
  | unknown text => elementTags text.length text

theorem mem_fieldPieces {fp : FieldTraits} {groups : List (Nat × List (Piece D))} {p : Piece D} :
    ∀ {pos : Positions D}, p ∈ fieldPieces fp groups pos →
      (∃ e ∈ pos, fp.suppress e.2.fnum = false ∧ p = .field e.2) ∨
        ∃ k ps, groups.lookup k = some ps ∧ p ∈ ps := by
  intro pos hp
  induction pos with
  | nil => exact absurd hp List.not_mem_nil
  | cons pp rest ih =>
    have hrest : p ∈ fieldPieces fp groups rest →
        (∃ e ∈ pp :: rest, fp.suppress e.2.fnum = false ∧ p = .field e.2) ∨
          ∃ k ps, groups.lookup k = some ps ∧ p ∈ ps := by
      intro hp
      obtain ⟨e, he, hfield⟩ | hgroup := ih hp
      · exact .inl ⟨e, List.mem_cons_of_mem _ he, hfield⟩
      · exact .inr hgroup
    unfold fieldPieces at hp
    split at hp
    · exact hrest hp
    · rename_i hsuppress
      have hself : (∃ e ∈ pp :: rest, fp.suppress e.2.fnum = false ∧ Piece.field pp.2 = .field e.2) :=
        ⟨pp, List.mem_cons_self .., Bool.not_eq_true _ ▸ hsuppress, rfl⟩
      split at hp
      · obtain rfl | hp := List.mem_cons.1 hp
        · exact .inl hself
        · obtain hp | hp := List.mem_append.1 hp
          · cases hlookup : groups.lookup pp.2.fnum with
            | none =>
              rw [hlookup] at hp
              exact absurd hp List.not_mem_nil
            | some ps =>
              rw [hlookup] at hp
              exact .inr ⟨_, ps, hlookup, hp⟩
          · exact hrest hp
      · obtain rfl | hp := List.mem_cons.1 hp
        · exact .inl hself
        · exact hrest hp

theorem mem_elementPieces {p : Piece D} : ∀ {ms : List (MessageBase D)}, p ∈ elementPieces ms →
    ∃ m ∈ ms, p ∈ m.pieces := by
  intro ms hp
  induction ms with
  | nil => exact absurd hp List.not_mem_nil
  | cons m ms ih =>
    unfold elementPieces at hp
    obtain hp | hp := List.mem_append.1 hp
    · exact ⟨m, List.mem_cons_self .., hp⟩
    · obtain ⟨m', hm', hp⟩ := ih hp
      exact ⟨m', List.mem_cons_of_mem _ hm', hp⟩

theorem lookup_groupPieces {k : Nat} {ps : List (Piece D)} : ∀ {gs : List (GroupBase D)},
    (groupPieces gs).lookup k = some ps → ∃ g ∈ gs, ps = g.pieces := by
  intro gs h
  induction gs with
  | nil => exact absurd h (by simp [groupPieces])
  | cons g gs ih =>
    unfold groupPieces at h
    rw [List.lookup_cons] at h
    split at h
    · exact ⟨g, List.mem_cons_self .., (Option.some.inj h).symm⟩
    · obtain ⟨g', hg', hps⟩ := ih h
      exact ⟨g', List.mem_cons_of_mem _ hg', hps⟩

theorem mem_groupPieces {k : Nat} {ps : List (Piece D)} {p : Piece D} {gs : List (GroupBase D)}
    (h : (groupPieces gs).lookup k = some ps) (hp : p ∈ ps) :
    ∃ g ∈ gs, ∃ e ∈ g.msgs, p ∈ e.pieces := by
  obtain ⟨⟨cls, msgs⟩, hg, rfl⟩ := lookup_groupPieces h
  unfold GroupBase.pieces at hp
  obtain ⟨e, he, hp⟩ := mem_elementPieces hp
  exact ⟨_, hg, e, he, hp⟩

/-- A field that is encoded in a part is under no tag of the frame. -/
theorem PartOk.tag_of_encoded {kept : List Nat} {o : FieldStore D} {e : Nat × BaseField D}
    (h : PartOk kept o) (he : e ∈ o.pos) (hsuppress : o.fp.suppress e.2.fnum = false) :
    e.2.fnum ∉ frameTags := by
  obtain ⟨-, hkept⟩ | ⟨-, -, hframe⟩ := h.entries e he
  · rw [h.traits.suppressed _ hkept] at hsuppress
    exact of_decide_eq_false hsuppress
  · exact hframe

theorem Pure.tags {m : MessageBase D} (h : Pure m) :
    ∀ p ∈ m.pieces, ∀ k ∈ p.tags, k ∉ frameTags := by
  induction h with
  | mk own nested groups hown _ ih =>
    intro p hp k hk
    unfold MessageBase.pieces at hp
    obtain hp | hp := List.mem_append.1 hp
    · obtain ⟨e, he, hsuppress, rfl⟩ | ⟨_, ps, hlookup, hp⟩ := mem_fieldPieces hp
      · obtain rfl := List.mem_singleton.1 hk
        exact hown.1.tag_of_encoded he hsuppress
      · obtain ⟨g, hg, e, he, hp⟩ := mem_groupPieces hlookup hp
        exact ih g hg e he p hp k hk
    · obtain rfl := List.mem_singleton.1 hp
      rw [hown.2] at hk
      exact absurd hk List.not_mem_nil

/-- **Of the tags of the frame, the content of a part has those in its unknown text.** -/
theorem mem_tags_iff {kept : List Nat} {m : MessageBase D} {k : Nat} (h : Whole (PartOk kept) m)
    (hk : k ∈ frameTags) : k ∈ m.pieces.flatMap Piece.tags ↔ k ∈ m.own.unknownTags := by
  obtain ⟨own, nested, groups⟩ := m
  rw [List.mem_flatMap]
  unfold MessageBase.pieces
  constructor
  · rintro ⟨p, hp, hkp⟩
    obtain hp | hp := List.mem_append.1 hp
    · obtain ⟨e, he, hsuppress, rfl⟩ | ⟨_, ps, hlookup, hp⟩ := mem_fieldPieces hp
      · obtain rfl := List.mem_singleton.1 hkp
        exact absurd hk (h.own.tag_of_encoded he hsuppress)
      · obtain ⟨g, hg, e, he, hp⟩ := mem_groupPieces hlookup hp
        exact absurd hk ((h.msgs g hg e he).tags p hp k hkp)
    · obtain rfl := List.mem_singleton.1 hp
      exact hkp
  · intro hunknown
    exact ⟨_, List.mem_append_right _ (List.mem_singleton_self _), hunknown⟩

end

end Fix8.Codec
