import Fix8.Codec.Move
import Fix8.Codec.Proof.Forced

/-!
# Moves

`move_legal` hands the fields and groups of the source over to the target. It is defined without
`force` alone, or where it has nothing to hand over, and where each group field of the source has
its group, which a decoded message has not for a count of zero.

* `Movable`: the turns of the loop are defined; **`moveFields_spec`**: what they leave then, and
  that the loop is undefined else;
* `Same`, `Overt`: elements with the same contents; those of which a copy has all;
* **`moves_like_iff`**: where a move is like a copy.
-/

namespace Fix8.Codec

open Lib

/-! ## Turns -/

section
variable {D : Type} {force : Bool} {fp : FieldTraits} {src T T₁ T' : MessageBase D}
  {S S' : Nat → Prop} {m : Moving D} {k : Nat}

/-- What is handed over under the tags `S`. -/
structure MovedTo (src : MessageBase D) (S : Nat → Prop) (T T' : MessageBase D) : Prop where
  inStep : ∀ {fp : FieldTraits}, InStep [] fp T.own → InStep [] fp T'.own
  present : ∀ k, ¬ S k → T'.own.fp.present k = T.own.fp.present k
  value : ∀ k, S k → T'.own.value k = src.own.value k
  other : ∀ k, ¬ S k → T'.own.value k = T.own.value k
  group : ∀ k, S k → src.own.fp.isGroup k = true → T'.findGroup k = src.findGroup k
  otherGroup : ∀ k, ¬ (S k ∧ src.own.fp.isGroup k = true) → T'.findGroup k = T.findGroup k

theorem MovedTo.refl (src T : MessageBase D) (h : ∀ k, ¬ S k) : MovedTo src S T T where
  inStep := fun hfp => hfp
  present := fun _ _ => rfl
  value := fun k hk => absurd hk (h k)
  other := fun _ _ => rfl
  group := fun k hk => absurd hk (h k)
  otherGroup := fun _ _ => rfl

theorem MovedTo.trans (h : MovedTo src S T T₁) (h' : MovedTo src S' T₁ T')
    (hdisjoint : ∀ k, S k → ¬ S' k) : MovedTo src (fun k => S k ∨ S' k) T T' where
  inStep := fun hfp => h'.inStep (h.inStep hfp)
  present := by
    intro k hk
    rw [h'.present k (mt .inr hk), h.present k (mt .inl hk)]
  value := by
    rintro k (hk | hk)
    · rw [h'.other k (hdisjoint k hk), h.value k hk]
    · exact h'.value k hk
  other := by
    intro k hk
    rw [h'.other k (mt .inr hk), h.other k (mt .inl hk)]
  group := by
    rintro k (hk | hk) hgroup
    · rw [h'.otherGroup k fun hk' => hdisjoint k hk hk'.1]
      exact h.group k hk hgroup
    · exact h'.group k hk hgroup
  otherGroup := by
    intro k hk
    rw [h'.otherGroup k fun hk' => hk ⟨.inr hk'.1, hk'.2⟩,
      h.otherGroup k fun hk' => hk ⟨.inl hk'.1, hk'.2⟩]

theorem MovedTo.congr (h : MovedTo src S T T') (hS : ∀ k, S k ↔ S' k) : MovedTo src S' T T' := by
  have heq : S = S' := funext fun k => propext (hS k)
  rwa [← heq]

/-- The group is in the target, whether this had one or not. -/
theorem findGroup_takeGroup {g : GroupBase D} (hg : g.fnum = k) (j : Nat) :
    (T.takeGroup k g).findGroup j = if j = k then some g else T.findGroup j := by
  unfold MessageBase.takeGroup
  cases hold : T.findGroup k with
  | some old =>
    have hreplace : (T.replaceGroup k g).findGroup j =
        (T.findGroup j).map fun g' => if g'.fnum = k then g else g' := by
      unfold MessageBase.findGroup MessageBase.replaceGroup
      rw [MessageBase.groups_withGroups, List.find?_map]
      congr 1
      refine congrArg (List.find? · T.groups) (funext fun g' => ?_)
      show ((if g'.fnum = k then g else g').fnum == j) = (g'.fnum == j)
      split
      · rename_i hfnum
        rw [hg, hfnum]
      · rfl
    dsimp only
    rw [hreplace]
    split
    · rename_i hj
      rw [hj, hold, Option.map_some, if_pos (mem_groups_of_findGroup hold).2]
    · rename_i hj
      cases hfind : T.findGroup j with
      | none => rfl
      | some g' =>
        rw [Option.map_some, if_neg]
        rwa [(mem_groups_of_findGroup hfind).2]
  | none =>
    dsimp only
    unfold MessageBase.addGroup
    rw [hg, hold, Option.isSome_none, if_neg Bool.false_ne_true]
    unfold MessageBase.findGroup
    rw [MessageBase.groups_withGroups, List.find?_append, List.find?_singleton, hg]
    by_cases hj : j = k
    · have hnone : T.groups.find? (fun g => g.fnum == k) = none := hold
      rw [hj, hnone, if_pos rfl, if_pos (beq_self_eq_true k), Option.none_or]
    · rw [if_neg hj, if_neg (by simpa using Ne.symm hj), Option.or_none]

/-- The turn for a tag is defined. -/
def Movable (force : Bool) (src : MessageBase D) (k : Nat) : Prop :=
  force = false ∧ (src.own.fp.isGroup k = true → (src.findGroup k).isSome = true)

/-- One turn that takes a field. -/
theorem moveTurn_spec (force : Bool) {pp : FieldTrait} (hsrc : InStep [] fp m.src.own)
    (hfind : m.src.own.fp.find pp.fnum = some pp) (hfp : InStep [] fp m.target.own)
    (hpresent : m.src.own.fp.present pp.fnum = true) :
    (Movable force m.src pp.fnum ∧ ∃ m₁ m₂, moveGroup pp m = .ok () m₁ ∧
      moveField force pp.fnum m₁ = .ok () m₂ ∧ m₂.src = m.src ∧
      MovedTo m.src (· = pp.fnum) m.target m₂.target) ∨
    (¬ Movable force m.src pp.fnum ∧ ((∃ s, moveGroup pp m = .throw .undefined s) ∨
      ∃ m₁ s, moveGroup pp m = .ok () m₁ ∧ moveField force pp.fnum m₁ = .throw .undefined s)) := by
  have hhas : m.src.own.fp.has pp.fnum = true := has_of_present hpresent
  obtain ⟨f, hf⟩ : ∃ f, m.src.own.fields.get? pp.fnum = some f :=
    Option.isSome_iff_exists.1 ((hsrc.present _ hhas).symm.trans hpresent)
  have hfnum : f.fnum = pp.fnum := hsrc.field _ _ hf
  have hisGroup : m.src.own.fp.isGroup pp.fnum = pp.group := FieldTraits.isGroup_of_find hfind
  have hhasT : m.target.own.fp.has f.fnum = true := by
    rw [hfnum, hfp.traits.has, ← hsrc.traits.has, hhas]
  -- The groups of the target after the group part.
  have hgroup : (pp.group = true ∧ m.src.findGroup pp.fnum = none ∧
        moveGroup pp m = .throw .undefined m) ∨
      ((pp.group = true → (m.src.findGroup pp.fnum).isSome = true) ∧ ∃ m₁,
        moveGroup pp m = .ok () m₁ ∧ m₁.src = m.src ∧ m₁.target.own = m.target.own ∧
        ∀ j, m₁.target.findGroup j = if j = pp.fnum ∧ pp.group = true
          then m.src.findGroup pp.fnum else m.target.findGroup j) := by
    unfold moveGroup
    cases hpp : pp.group with
    | false => exact .inr ⟨fun h => absurd h (by simp), m, rfl, rfl, rfl, fun j => by simp⟩
    | true =>
      rw [if_pos rfl, Act.get_bind_apply]
      cases hg : m.src.findGroup pp.fnum with
      | none => exact .inl ⟨rfl, rfl, rfl⟩
      | some gb =>
        have hgb := (mem_groups_of_findGroup hg).2
        refine .inr ⟨fun _ => rfl, _, rfl, rfl, ?_, fun j => ?_⟩
        · show (m.target.takeGroup pp.fnum gb).own = _
          unfold MessageBase.takeGroup
          split
          · rfl
          · exact own_addGroup
        · show (m.target.takeGroup pp.fnum gb).findGroup j = _
          rw [findGroup_takeGroup hgb]
          simp
  rcases hgroup with ⟨hpp, hnone, hthrow⟩ | ⟨hsome, m₁, hok, hm₁, hown, hgroups⟩
  · refine .inr ⟨fun hmovable => ?_, .inl ⟨m, hthrow⟩⟩
    have hsome := hmovable.2 (hisGroup.trans hpp)
    rw [hnone] at hsome
    exact absurd hsome (by simp)
  · have hget : m₁.src.getField pp.fnum = some f := by
      rw [hm₁]
      exact hf
    cases force with
    | true =>
      refine .inr ⟨fun hmovable => absurd hmovable.1 (by decide), .inr ⟨m₁, m₁, hok, ?_⟩⟩
      unfold moveField
      rw [Act.get_bind_apply, hget]
      rfl
    | false =>
      obtain ⟨own, hadd⟩ : ∃ own, m.target.own.addField f = .ok own := ⟨_, if_pos hhasT⟩
      refine .inl ⟨⟨rfl, fun h => hsome (hisGroup.symm.trans h)⟩, m₁,
        { m₁ with target := m₁.target.withOwn own, fields := pp.fnum :: m₁.fields }, hok, ?_, hm₁, ?_⟩
      · have hinto : moveInto false pp.fnum f m₁.target.own = .ok own := by
          rw [hown]
          unfold moveInto
          simp only [Bool.false_eq_true, if_false, pure_bind, hadd]
          rfl
        unfold moveField
        rw [Act.get_bind_apply, hget]
        simp only [hinto]
        rfl
      · have hvalues : ∀ j, own.value j =
            if j = pp.fnum then m.src.own.value pp.fnum else m.target.own.value j := by
          intro j
          unfold FieldStore.value
          rw [get?_addField (hfp.present _ hhasT) hadd, hfnum]
          split
          · rw [hf]
          · rfl
        refine ⟨fun h => h.addField hadd, fun j hj => ?_, ?_, fun j hj => ?_, ?_, fun j hj => ?_⟩
        · exact present_addField hadd (hfnum ▸ hj)
        · rintro j rfl
          exact (hvalues _).trans (if_pos rfl)
        · exact (hvalues j).trans (if_neg hj)
        · rintro j rfl hj
          exact (hgroups _).trans (if_pos ⟨rfl, hisGroup.symm.trans hj⟩)
        · refine (hgroups j).trans (if_neg fun h => hj ⟨h.1, ?_⟩)
          rw [h.1, hisGroup]
          exact h.2

/-- The turns of the loop are defined. -/
def AllMovable (force : Bool) (m : Moving D) (l : FieldTraits) : Prop :=
  ∀ k ∈ l.map FieldTrait.fnum, Taken force m.src.own m.target.own k → Movable force m.src k

/-- **The loop hands over what it takes if each turn is defined**, and is undefined else. -/
theorem moveFields_spec (force : Bool) : ∀ (l : FieldTraits) (m : Moving D), InStep [] fp m.src.own →
    (∀ pp ∈ l, m.src.own.fp.find pp.fnum = some pp) → (l.map FieldTrait.fnum).Nodup →
    InStep [] fp m.target.own →
    (AllMovable force m l ∧ ∃ n m', moveFields force l m = .ok n m' ∧
      MovedTo m.src (fun k => k ∈ l.map FieldTrait.fnum ∧ Taken force m.src.own m.target.own k)
        m.target m'.target) ∨
    (¬ AllMovable force m l ∧ ∃ s, moveFields force l m = .throw .undefined s)
  | [], m, _, _, _, _ =>
    .inl ⟨fun _ hk => absurd hk List.not_mem_nil, 0, m, rfl,
      .refl _ _ fun _ hk => absurd hk.1 List.not_mem_nil⟩
  | pp :: rest, m, hsrc, hfind, hnodup, hfp => by
    obtain ⟨hnew, hnodup'⟩ := List.nodup_cons.1 hnodup
    have hpp := hfind pp List.mem_cons_self
    have hfind' : ∀ pp ∈ rest, m.src.own.fp.find pp.fnum = some pp :=
      fun pp' hpp' => hfind pp' (List.mem_cons_of_mem _ hpp')
    have hiff := taken_iff force hsrc hfp hpp
    have hne : ∀ k ∈ rest.map FieldTrait.fnum, k ≠ pp.fnum := fun k hk heq => hnew (heq ▸ hk)
    rw [moveFields]
    simp only [Act.get_bind_apply]
    by_cases htaken : Taken force m.src.own m.target.own pp.fnum
    · rw [if_pos (hiff.2 htaken)]
      rcases moveTurn_spec force hsrc hpp hfp htaken.1 with
        ⟨hmovable, m₁, m₂, hgroup, hfield, hm₂, hmoved⟩ | ⟨hnot, hthrow⟩
      · have hsame : ∀ k ∈ rest.map FieldTrait.fnum,
            (Taken force m.src.own m₂.target.own k ↔ Taken force m.src.own m.target.own k) :=
          fun k hk => taken_later hmoved.present (hne k hk)
        have hall : AllMovable force m₂ rest ↔ AllMovable force m (pp :: rest) := by
          unfold AllMovable
          rw [hm₂, List.map_cons, List.forall_mem_cons]
          refine ⟨fun h => ⟨fun _ => hmovable, fun k hk hk' => h k hk ((hsame k hk).2 hk')⟩,
            fun h k hk hk' => h.2 k hk ((hsame k hk).1 hk')⟩
        rcases moveFields_spec force rest m₂ (hm₂ ▸ hsrc) (hm₂ ▸ hfind') hnodup' (hmoved.inStep hfp) with
          ⟨hrest, n, m', hok, hmoved'⟩ | ⟨hnot, s, hthrow⟩
        · refine .inl ⟨hall.1 hrest, n + 1, m', ?_, ?_⟩
          · rw [Act.bind_ok hgroup, Act.bind_ok hfield, Act.bind_ok hok]
            rfl
          · rw [hm₂] at hmoved'
            exact (hmoved.trans hmoved' fun k hk hk' => hne k hk'.1 hk).congr fun k =>
              taken_cons hnew hmoved.present htaken
        · refine .inr ⟨mt hall.2 hnot, s, ?_⟩
          rw [Act.bind_ok hgroup, Act.bind_ok hfield, Act.bind_throw hthrow]
      · refine .inr ⟨fun hall => hnot (hall _ List.mem_cons_self htaken), ?_⟩
        rcases hthrow with ⟨s, hthrow⟩ | ⟨m₁, s, hgroup, hthrow⟩
        · exact ⟨s, by rw [Act.bind_throw hthrow]⟩
        · exact ⟨s, by rw [Act.bind_ok hgroup, Act.bind_throw hthrow]⟩
    · rw [if_neg (mt hiff.1 htaken)]
      have hall : AllMovable force m rest ↔ AllMovable force m (pp :: rest) := by
        unfold AllMovable
        rw [List.map_cons, List.forall_mem_cons]
        exact ⟨fun h => ⟨fun h' => absurd h' htaken, h⟩, fun h => h.2⟩
      rcases moveFields_spec force rest m hsrc hfind' hnodup' hfp with
        ⟨hrest, n, m', hok, hmoved⟩ | ⟨hnot, s, hthrow⟩
      · exact .inl ⟨hall.1 hrest, n, m', hok, hmoved.congr fun k => taken_skip htaken⟩
      · exact .inr ⟨mt hall.2 hnot, s, hthrow⟩

/-- **What `move_legal` does between parts of the same class.** -/
theorem moveLegal_spec (force : Bool) (htags : (fp.map FieldTrait.fnum).Nodup) (hsrc : InStep [] fp src.own)
    (hfp : InStep [] fp T.own) :
    ((∀ k, Taken force src.own T.own k → Movable force src k) ∧
      ∃ n m, src.moveLegal force T = .ok n m ∧
        MovedTo src (Taken force src.own T.own) T m.target) ∨
    (¬ (∀ k, Taken force src.own T.own k → Movable force src k) ∧
      ∃ s, src.moveLegal force T = .throw .undefined s) := by
  have hnodup : (src.own.fp.map FieldTrait.fnum).Nodup := hsrc.traits.tags ▸ htags
  have hall : AllMovable force ⟨src, [], [], T⟩ src.own.fp ↔
      ∀ k, Taken force src.own T.own k → Movable force src k :=
    ⟨fun h k hk => h k (mem_tags_of_present hk.1) hk, fun h k _ => h k⟩
  rcases moveFields_spec force src.own.fp ⟨src, [], [], T⟩ hsrc
    (fun pp hpp => find_of_mem hnodup hpp) hnodup hfp with
    ⟨hmovable, n, m, hok, hmoved⟩ | ⟨hnot, s, hthrow⟩
  · refine .inl ⟨hall.1 hmovable, n, { m with src := m.src.withOwn { m.src.own with pos := [] } },
      ?_, hmoved.congr fun k => and_iff_right_of_imp fun hk => mem_tags_of_present hk.1⟩
    unfold MessageBase.moveLegal
    dsimp only
    rw [Act.bind_ok hok]
    rfl
  · refine .inr ⟨mt hall.2 hnot, s, ?_⟩
    unfold MessageBase.moveLegal
    dsimp only
    rw [Act.bind_throw hthrow]

end

/-! ## Contents -/

section
variable {D : Type} {c : GroupClass} {e e' : MessageBase D} {k : Nat}

/-- The same values, and elements with the same contents in every group, at every depth. -/
inductive Same : MessageBase D → MessageBase D → Prop where
  | mk (e e' : MessageBase D) (value : ∀ k, e'.own.value k = e.own.value k)
      (elements : ∀ k, List.Forall₂ Same (e.elements k) (e'.elements k)) : Same e e'

/-- Every group that has elements shows them in its count field, at every depth. -/
inductive Overt : MessageBase D → Prop where
  | mk (e : MessageBase D) (hidden : ∀ k, ¬ e.Shows k → e.elements k = [])
      (elements : ∀ k, ∀ e' ∈ e.elements k, Overt e') : Overt e

/-- An element of which nothing is hidden has the contents of its copy. -/
theorem Overt.same (h : Overt e) : ∀ {e' : MessageBase D}, Alike e e' → Same e' e := by
  induction h with
  | mk e hidden _ ih =>
    intro e' hlike
    obtain ⟨_, _, value, group, other⟩ := hlike
    refine .mk e' e (fun k => (value k).symm) fun k => ?_
    by_cases hk : e.Shows k
    · refine List.Forall₂.flip ?_
      exact ((List.forall₂_and_left (p := fun e => ∀ {e'}, Alike e e' → Same e' e) _ _).2
        ⟨fun e he => ih k e he, group k hk⟩).imp fun _ _ h => h.1 h.2
    · rw [hidden k hk, other k hk]
      exact .nil

/-- What a copy does not have of an element is hidden in it. -/
theorem overt_of_same (h : Everywhere Regular c e) :
    ∀ {e' : MessageBase D}, Alike e e' → Same e' e → Overt e := by
  induction h with
  | mk c e _ _ ih =>
    intro e' hlike hsame
    obtain ⟨_, _, -, group, other⟩ := hlike
    obtain ⟨_, _, -, helements⟩ := hsame
    have hhidden : ∀ k, ¬ e.Shows k → e.elements k = [] := by
      intro k hk
      have hall := helements k
      rw [other k hk] at hall
      exact List.forall₂_nil_left_iff.1 hall
    refine .mk e hhidden fun k e₁ he₁ => ?_
    obtain ⟨g, hg, hmem⟩ := mem_elements he₁
    by_cases hk : e.Shows k
    · obtain ⟨i, hi, rfl⟩ := List.mem_iff_getElem.1 he₁
      have hlike := group k hk
      have hi' : i < (e'.elements k).length := hlike.length_eq ▸ hi
      exact ih g hg _ hmem (hlike.get hi hi') ((helements k).get hi' hi)
    · rw [hhidden k hk] at he₁
      exact absurd he₁ List.not_mem_nil

end

/-! ## Moves and copies -/

section
variable {D : Type} {call : Nat} {force : Bool} {c : GroupClass} {src T : MessageBase D}

/-- A move is defined, and leaves in the target what a copy leaves. -/
def MovesLike (call : Nat) (force : Bool) (src T : MessageBase D) : Prop :=
  ∃ n m, src.moveLegal force T = .ok n m ∧ ∃ n' T', src.copyLegal call force T = .ok n' T' ∧
    (∀ k, m.target.own.value k = T'.own.value k) ∧
      ∀ k, List.Forall₂ Same (T'.elements k) (m.target.elements k)

theorem moves_like_iff_regular (hc : c.Tables) (hsrc : Everywhere Regular c src)
    (hT : Fresh c T) : MovesLike call force src T ↔
      (force = false ∨ ∀ k, src.isPresent k = false) ∧
      ∀ k, src.Shows k →
        (src.findGroup k).isSome = true ∧ ∀ e ∈ src.elements k, Overt e := by
  have htaken : ∀ k, Taken force src.own T.own k ↔ src.isPresent k = true :=
    fun k => hT.taken_iff hc
  obtain ⟨n', T', hcopy, hlike⟩ := copy_alike call force hsrc hc T hT
  obtain ⟨_, _, value, group, other⟩ := hlike
  have hmovable : (∀ k, Taken force src.own T.own k → Movable force src k) ↔
      (force = false ∨ ∀ k, src.isPresent k = false) ∧
        ∀ k, src.Shows k → (src.findGroup k).isSome = true := by
    constructor
    · intro h
      refine ⟨?_, fun k hk => (h k ((htaken k).2 hk.1)).2 hk.2⟩
      by_cases hpresent : ∃ k, src.isPresent k = true
      · obtain ⟨k, hk⟩ := hpresent
        exact .inl (h k ((htaken k).2 hk)).1
      · exact .inr fun k => Bool.not_eq_true _ |>.mp fun hk => hpresent ⟨k, hk⟩
    · rintro ⟨hforce, hgroups⟩ k hk
      have hpresent := (htaken k).1 hk
      refine ⟨hforce.resolve_right fun hnone => ?_, fun hisGroup => hgroups k ⟨hpresent, hisGroup⟩⟩
      rw [hnone k] at hpresent
      exact absurd hpresent (by decide)
  have hregular := hT.regular hc
  rcases moveLegal_spec force hc.traits.tags hsrc.node.inStep hregular.inStep with
    ⟨hall, n, m, hok, hmoved⟩ | ⟨hnot, s, hthrow⟩
  · -- The move is defined: what is left are the contents of the elements.
    have hvalues : ∀ k, m.target.own.value k = src.own.value k := by
      intro k
      by_cases hk : src.isPresent k = true
      · exact hmoved.value k ((htaken k).2 hk)
      · have habsent : src.own.fp.present k = false := Bool.not_eq_true _ |>.mp hk
        rw [hmoved.other k (mt (htaken k).1 hk), hsrc.node.inStep.value_of_absent habsent,
          hregular.inStep.value_of_absent (by rw [hT.1]; exact hc.traits.absent k)]
    have hshown : ∀ k, src.Shows k → m.target.elements k = src.elements k := by
      intro k hk
      rw [MessageBase.elements, MessageBase.elements, hmoved.group k ((htaken k).2 hk.1) hk.2]
    have hothers : ∀ k, ¬ src.Shows k → m.target.elements k = [] := by
      intro k hk
      rw [← hT.elements k, MessageBase.elements, MessageBase.elements,
        hmoved.otherGroup k fun h => hk ⟨(htaken k).1 h.1, h.2⟩]
    have hsame : (∀ k, List.Forall₂ Same (T'.elements k) (m.target.elements k)) ↔
        ∀ k, src.Shows k → ∀ e ∈ src.elements k, Overt e := by
      constructor
      · intro hall k hk e he
        have hpair := hall k
        rw [hshown k hk] at hpair
        obtain ⟨i, hi, rfl⟩ := List.mem_iff_getElem.1 he
        have hlike := group k hk
        have hi' : i < (T'.elements k).length := hlike.length_eq ▸ hi
        obtain ⟨g, hg, hmem⟩ := mem_elements he
        exact overt_of_same (hsrc.msgs g hg _ hmem) (hlike.get hi hi') (hpair.get hi' hi)
      · intro hovert k
        by_cases hk : src.Shows k
        · rw [hshown k hk]
          refine List.Forall₂.flip ?_
          exact ((List.forall₂_and_left _ _).2 ⟨hovert k hk, group k hk⟩).imp
            fun _ _ h => h.1.same h.2
        · rw [hothers k hk, other k hk]
          exact .nil
    obtain ⟨hforce, hgroups⟩ := hmovable.1 hall
    constructor
    · rintro ⟨n₁, m₁, hok₁, n₂, T₂, hcopy₂, -, helements⟩
      obtain rfl : m = m₁ := by injection hok.symm.trans hok₁
      obtain rfl : T' = T₂ := by injection hcopy.symm.trans hcopy₂
      exact ⟨hforce, fun k hk => ⟨hgroups k hk, hsame.1 helements k hk⟩⟩
    · rintro ⟨-, hshows⟩
      exact ⟨n, m, hok, n', T', hcopy, fun k => (hvalues k).trans (value k).symm,
        hsame.2 fun k hk => (hshows k hk).2⟩
  · refine iff_of_false ?_ ?_
    · rintro ⟨n, m, hok, -⟩
      exact absurd (hthrow.symm.trans hok) (by simp)
    · rintro ⟨hforce, hshows⟩
      exact hnot (hmovable.2 ⟨hforce, fun k hk => (hshows k hk).1⟩)

variable [FpType D] {cx : F8MetaCntx} {bme : MessageClass} {msg : Message D}

/-- **A move of a composed message into a new deep one of its type is like a copy** if it is not
forced, or has nothing to hand over, and each count field has its group, in whose elements nothing
is hidden. -/
theorem moves_like_iff (hmsg : Composed cx msg) (hbme : cx.findBme msg.msgType = some bme)
    (hc : bme.cls.Tables) : MovesLike call force msg.body (bme.create true) ↔
      (force = false ∨ ∀ k, msg.body.isPresent k = false) ∧
      ∀ k, msg.body.Shows k →
        (msg.body.findGroup k).isSome = true ∧ ∀ e ∈ msg.body.elements k, Overt e :=
  moves_like_iff_regular hc (composed_regular hmsg hbme hc).1 fresh_create

end

/-! ## An order that is moved -/

theorem moves_like_leg : MovesLike 2 false legMessage.body (legBme.create true) := by
  refine (moves_like_iff legMessage_composed rfl legBme_tables).2 ⟨.inl rfl, fun k hk => ?_⟩
  obtain rfl : k = 555 := List.mem_singleton.1 (mem_tags_of_present hk.1)
  refine ⟨by decide +kernel, fun e he => ?_⟩
  obtain rfl := List.mem_singleton.1 he
  exact .mk _ (fun _ _ => rfl) fun _ _ he => absurd he List.not_mem_nil

/-- An order with NoLegs=0, as a decode makes it: without the group. -/
def noLegMessage : Message Unit :=
  let msg := legCntx.newMessage (ascii "AB") legBme false
  let own := msg.body.own.addFieldAt 555 1 ⟨⟨1, 0⟩, 555, .int 0⟩ true
  { msg with body := msg.body.withOwn own }

theorem moves_unlike_leg : Composed legCntx legMessage ∧ Composed legCntx noLegMessage ∧
    ¬ MovesLike 2 true legMessage.body (legBme.create true) ∧
    ¬ MovesLike 2 false noLegMessage.body (legBme.create true) := by
  have hforced : ∃ s, legMessage.body.moveLegal true (legBme.create true) =
      .throw .undefined s := ⟨_, rfl⟩
  have hnone : ∃ s, noLegMessage.body.moveLegal false (legBme.create true) =
      .throw .undefined s := ⟨_, rfl⟩
  refine ⟨legMessage_composed, .body _ _ (.create _ _ false rfl)
    (.add ⟨⟨1, 0⟩, 555, .int 0⟩ _ (.refl _ _ _) (by decide) (by decide) rfl), ?_, ?_⟩
  · obtain ⟨s, hs⟩ := hforced
    rintro ⟨n, m, hok, -⟩
    exact absurd (hs.symm.trans hok) (by simp)
  · obtain ⟨s, hs⟩ := hnone
    rintro ⟨n, m, hok, -⟩
    exact absurd (hs.symm.trans hok) (by simp)

end Fix8.Codec
