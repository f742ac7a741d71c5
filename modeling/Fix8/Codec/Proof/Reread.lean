import Fix8.Codec.Proof.Numeral
import Fix8.Codec.Proof.Shown
import Fix8.Codec.Proof.Turns
import Mathlib.Data.List.Forall2

/-!
# What a decode makes of a part that was written

Each field that a part writes is made again from its text and stored behind the ones before it, the
elements of a group one after the other.

* `Reread`, `Mirrors`: a field, and a part with its groups, as they come back;
* `FieldStore.storeAll`: the containers with fields stored one after the other;
* **`ReadInto`**: a message with the fields of another read into it; `ReadInto.trans`.
-/

namespace Fix8.Codec

open Lib

/-! ## Storing fields -/

section
variable {D : Type}

/-- The containers with the fields stored, behind the position `n`. -/
def FieldStore.storeAll (o : FieldStore D) : Nat → List (BaseField D) → FieldStore D
  | _, [] => o
  | n, f :: fs => ((o.addFieldDecoder f.fnum (n + 1) f).setPresent f.fnum).storeAll (n + 1) fs

/-- The table with the fields of the tags present. -/
def FieldTraits.mark (fp : FieldTraits) (tags : List Nat) : FieldTraits :=
  fp.map fun t => if t.fnum ∈ tags then { t with present := true } else t

/-- The tags of fields. -/
abbrev tagsOf (fs : List (BaseField D)) : List Nat := fs.map (·.fnum)

variable {o : FieldStore D} {f : BaseField D} {fs gs : List (BaseField D)} {n k : Nat}

theorem storeAll_append : ∀ {fs : List (BaseField D)} {o : FieldStore D} {n : Nat},
    o.storeAll n (fs ++ gs) = (o.storeAll n fs).storeAll (n + fs.length) gs
  | [], _, _ => rfl
  | f :: fs, o, n => by
    rw [List.cons_append, FieldStore.storeAll, storeAll_append, FieldStore.storeAll,
      List.length_cons, Nat.add_assoc, Nat.add_comm 1]

theorem mark_cons {fp : FieldTraits} {tags : List Nat} :
    (fp.setPresent k).mark tags = fp.mark (k :: tags) := by
  unfold FieldTraits.mark FieldTraits.setPresent FieldTraits.update
  rw [List.map_map]
  refine List.map_congr_left fun t _ => ?_
  by_cases h1 : t.fnum = k <;> by_cases h2 : t.fnum ∈ tags <;> simp [h1, h2]

theorem fp_storeAll : ∀ {fs : List (BaseField D)} {o : FieldStore D} {n : Nat},
    (o.storeAll n fs).fp = o.fp.mark (tagsOf fs)
  | [], o, _ => by simp [FieldStore.storeAll, FieldTraits.mark]
  | f :: fs, o, n => by
    rw [FieldStore.storeAll, fp_storeAll]
    exact mark_cons

theorem get?_storeAll : ∀ {fs : List (BaseField D)} {o : FieldStore D} {n : Nat},
    (o.storeAll n fs).fields.get? k =
      (o.fields.get? k).or (fs.find? fun f => f.fnum == k)
  | [], _, _ => by simp [FieldStore.storeAll]
  | f :: fs, o, n => by
    have hins : ((o.addFieldDecoder f.fnum (n + 1) f).setPresent f.fnum).fields.get? k =
        if k = f.fnum then some ((o.fields.get? f.fnum).getD f) else o.fields.get? k :=
      OrdMap.get?_insert
    rw [FieldStore.storeAll, get?_storeAll, hins, List.find?_cons]
    by_cases hk : k = f.fnum
    · subst hk
      cases o.fields.get? f.fnum <;> simp
    · rw [if_neg hk, beq_eq_false_iff_ne.2 (Ne.symm hk)]

theorem find_mark {fp : FieldTraits} {tags : List Nat} : (fp.mark tags).find k =
    (fp.find k).map fun t => if t.fnum ∈ tags then { t with present := true } else t := by
  unfold FieldTraits.mark FieldTraits.find
  induction fp with
  | nil => rfl
  | cons t fp ih =>
    have hfnum : (if t.fnum ∈ tags then { t with present := true } else t).fnum = t.fnum := by
      split <;> rfl
    rw [List.map_cons, List.find?_cons, List.find?_cons, hfnum]
    cases t.fnum == k with
    | true => rfl
    | false => exact ih

theorem any_mark {fp : FieldTraits} {tags : List Nat} {g : FieldTrait → Bool}
    (hg : ∀ t : FieldTrait, g { t with present := true } = g t) :
    ((fp.mark tags).find k).any g = (fp.find k).any g := by
  rw [find_mark]
  cases fp.find k with
  | none => rfl
  | some t =>
    simp only [Option.map_some, Option.any_some]
    split
    · exact hg t
    · rfl

theorem isGroup_mark {fp : FieldTraits} {tags : List Nat} :
    (fp.mark tags).isGroup k = fp.isGroup k := any_mark fun _ => rfl

/-- Nothing is missing once every mandatory field is present. -/
theorem findMissing_mark {fp : FieldTraits} {tags : List Nat}
    (h : ∀ t ∈ fp, t.mandatory = true → t.present = true ∨ t.fnum ∈ tags) :
    (fp.mark tags).findMissing = 0 := by
  have hnone : List.find? (fun t : FieldTrait => t.mandatory && !t.present) (fp.mark tags) = none := by
    rw [List.find?_eq_none]
    intro t ht
    obtain ⟨t', ht', rfl⟩ := List.mem_map.1 ht
    have hmandatory := h t' ht'
    split
    · simp
    · rename_i hnot
      cases hm : t'.mandatory with
      | false => simp
      | true => simp [(hmandatory hm).resolve_right hnot]
  rw [FieldTraits.findMissing, hnone]
  rfl

/-- The entries are in the order of their positions, those that are written not behind `n`. -/
structure Ranked (n : Nat) (o : FieldStore D) : Prop where
  sorted : o.pos.Pairwise fun a b => a.1 ≤ b.1
  shown : ∀ e ∈ o.pos, o.fp.suppress e.2.fnum = false → e.1 ≤ n

theorem pairwise_insert {l : Positions D} (h : l.Pairwise fun a b => a.1 ≤ b.1) :
    (Positions.insert n f l).Pairwise fun a b => a.1 ≤ b.1 := by
  induction l with
  | nil => exact List.pairwise_singleton _ _
  | cons e l ih =>
    obtain ⟨he, hl⟩ := List.pairwise_cons.1 h
    unfold Positions.insert
    split
    · rename_i hlt
      refine List.pairwise_cons.2 ⟨fun e' he' => ?_, h⟩
      rcases List.mem_cons.1 he' with rfl | he'
      · exact Nat.le_of_lt hlt
      · exact (Nat.le_of_lt hlt).trans (he e' he')
    · rename_i hge
      refine List.pairwise_cons.2 ⟨fun e' he' => ?_, ih hl⟩
      rcases Positions.mem_insert.1 he' with rfl | he'
      · exact Nat.not_lt.1 hge
      · exact he e' he'

/-- Behind `n` nothing is written. -/
theorem filter_insert {p : BaseField D → Bool} {l : Positions D}
    (hsorted : l.Pairwise fun a b => a.1 ≤ b.1) (hshown : ∀ e ∈ l, p e.2 = true → e.1 ≤ n)
    (hf : p f = true) : ((Positions.insert (n + 1) f l).map (·.2)).filter p =
      (l.map (·.2)).filter p ++ [f] := by
  induction l with
  | nil => simp [Positions.insert, hf]
  | cons e l ih =>
    obtain ⟨he, hl⟩ := List.pairwise_cons.1 hsorted
    unfold Positions.insert
    split
    · rename_i hlt
      have hnone : ((e :: l).map (·.2)).filter p = [] := by
        refine List.filter_eq_nil_iff.2 fun f' hf' => ?_
        obtain ⟨e', he', rfl⟩ := List.mem_map.1 hf'
        have hle : e.1 ≤ e'.1 := by
          rcases List.mem_cons.1 he' with rfl | he'
          · exact le_refl _
          · exact he e' he'
        intro hp
        have := hshown e' he' hp
        omega
      rw [List.map_cons, List.filter_cons, if_pos hf, hnone]
      rfl
    · have ih := ih hl fun e he => hshown e (List.mem_cons_of_mem _ he)
      rw [List.map_cons, List.filter_cons, ih, List.map_cons, List.filter_cons]
      split <;> rfl

theorem shown_storeAll : ∀ {fs : List (BaseField D)} {o : FieldStore D} {n : Nat}, Ranked n o →
    (∀ f ∈ fs, o.fp.suppress f.fnum = false) → (o.storeAll n fs).shown = o.shown ++ fs
  | [], _, _, _, _ => by simp [FieldStore.storeAll]
  | f :: fs, o, n, ho, hfs => by
    have hf := hfs f List.mem_cons_self
    have hfp : ∀ k, ((o.addFieldDecoder f.fnum (n + 1) f).setPresent f.fnum).fp.suppress k =
        o.fp.suppress k := fun k => FieldTraits.suppress_setPresent
    have hranked : Ranked (n + 1) ((o.addFieldDecoder f.fnum (n + 1) f).setPresent f.fnum) := by
      refine ⟨pairwise_insert ho.sorted, fun e he hshown => ?_⟩
      rw [hfp] at hshown
      rcases Positions.mem_insert.1 he with rfl | he
      · exact le_refl _
      · exact Nat.le_succ_of_le (ho.shown e he hshown)
    have hfirst : ((o.addFieldDecoder f.fnum (n + 1) f).setPresent f.fnum).shown =
        o.shown ++ [f] := by
      unfold FieldStore.shown
      rw [funext fun f' : BaseField D => congrArg not (hfp f'.fnum)]
      exact filter_insert ho.sorted (fun e he hp => ho.shown e he (by simpa using hp)) (by simp [hf])
    rw [FieldStore.storeAll, shown_storeAll hranked fun f' hf' => by
      rw [hfp]; exact hfs f' (List.mem_cons_of_mem _ hf'), hfirst, List.append_assoc]
    rfl

end

/-! ## Groups -/

section
variable {D : Type} {m : MessageBase D} {c : GroupClass} {ms : List (MessageBase D)} {k : Nat}

/-- `m` with a further group. -/
def MessageBase.openGroup (m : MessageBase D) (c : GroupClass) (ms : List (MessageBase D)) :
    MessageBase D := m.withGroups (m.groups ++ [.mk c ms])

theorem findGroup_openGroup (h : c.fnum ≠ k) : (m.openGroup c ms).findGroup k = m.findGroup k := by
  have hne : ((GroupBase.mk c ms).fnum == k) = false := beq_eq_false_iff_ne.2 h
  unfold MessageBase.findGroup MessageBase.openGroup
  rw [MessageBase.groups_withGroups, List.find?_append, List.find?_cons, hne]
  simp

theorem findGroup_openGroup_self (h : c.fnum = k) (hnone : m.findGroup k = none) :
    (m.openGroup c ms).findGroup k = some (.mk c ms) := by
  have heq : ((GroupBase.mk c ms).fnum == k) = true := beq_iff_eq.2 h
  unfold MessageBase.findGroup MessageBase.openGroup at *
  rw [MessageBase.groups_withGroups, List.find?_append, hnone, List.find?_cons, heq]
  rfl

theorem elements_openGroup (h : c.fnum = k) (hnone : m.findGroup k = none) :
    (m.openGroup c ms).elements k = ms := by
  rw [MessageBase.elements, findGroup_openGroup_self h hnone]
  rfl

end

/-! ## What comes back -/

section
variable {D : Type} [FpType D]

/-- The field `f'` is made from the text of `f`. -/
structure Reread (cx : F8MetaCntx) (now : Ticks) (f f' : BaseField D) : Prop where
  fnum : f'.fnum = f.fnum
  value : ∃ be, cx.findBe f.fnum = some be ∧ f'.value = .create now be.cls f.value.print

/-- A part has come back: what it writes is made from what `m` writes, at every depth. -/
inductive Mirrors (cx : F8MetaCntx) (now : Ticks) : MessageBase D → MessageBase D → Prop where
  | mk (m m' : MessageBase D) (hshown : List.Forall₂ (Reread cx now) m.own.shown m'.own.shown)
      (hget : ∀ f ∈ m'.own.shown, m'.getField f.fnum = some f)
      (honly : ∀ k f, m'.getField k = some f → f ∈ m'.own.shown ∨ m'.own.fp.suppress k = true)
      (hgroup : ∀ f ∈ m.own.shown, m'.own.fp.isGroup f.fnum = m.own.fp.isGroup f.fnum)
      (hmsgs : ∀ f ∈ m.own.shown, m.counts f = true →
        List.Forall₂ (Mirrors cx now) (m.elements f.fnum) (m'.elements f.fnum)) :
      Mirrors cx now m m'

/-- `m'` is `m₀` with the fields `fs` of `m` read into it, behind the position `n`. -/
structure ReadInto (cx : F8MetaCntx) (now : Ticks) (m : MessageBase D) (fs : List (BaseField D))
    (n : Nat) (m₀ m' : MessageBase D) : Prop where
  own : ∃ bfs, List.Forall₂ (Reread cx now) fs bfs ∧ m'.own = m₀.own.storeAll n bfs
  nested : m'.nested = m₀.nested
  counted : ∀ f ∈ fs, m.counts f = true →
    List.Forall₂ (Mirrors cx now) (m.elements f.fnum) (m'.elements f.fnum)
  others : ∀ k, (∀ f ∈ fs, m.counts f = true → f.fnum ≠ k) → m'.findGroup k = m₀.findGroup k

variable {cx : F8MetaCntx} {now : Ticks} {m m₀ m₁ m₂ : MessageBase D} {f bf : BaseField D}
  {fs gs : List (BaseField D)} {n : Nat}

theorem ReadInto.nil : ReadInto cx now m [] n m₀ m₀ where
  own := ⟨[], .nil, rfl⟩
  nested := rfl
  counted := fun _ h => absurd h List.not_mem_nil
  others := fun _ _ => rfl

omit [FpType D] in
theorem elements_congr {k : Nat} (h : m₁.findGroup k = m₂.findGroup k) :
    m₁.elements k = m₂.elements k := by
  rw [MessageBase.elements, h]
  rfl

theorem ReadInto.trans (h : ReadInto cx now m fs n m₀ m₁)
    (h' : ReadInto cx now m gs (n + fs.length) m₁ m₂) (hnodup : (tagsOf (fs ++ gs)).Nodup) :
    ReadInto cx now m (fs ++ gs) n m₀ m₂ := by
  obtain ⟨bfs, hbfs, hown⟩ := h.own
  obtain ⟨bgs, hbgs, hown'⟩ := h'.own
  rw [tagsOf, List.map_append] at hnodup
  have hapart := (List.nodup_append.1 hnodup).2.2
  constructor
  · refine ⟨bfs ++ bgs, List.rel_append hbfs hbgs, ?_⟩
    rw [hown', hown, storeAll_append, hbfs.length_eq]
  · exact h'.nested.trans h.nested
  · intro f hf hcounts
    rcases List.mem_append.1 hf with hf | hf
    · have hsame : m₂.findGroup f.fnum = m₁.findGroup f.fnum := by
        refine h'.others _ fun g hg _ heq => ?_
        exact hapart _ (List.mem_map_of_mem hf) _ (List.mem_map_of_mem hg) heq.symm
      rw [elements_congr hsame]
      exact h.counted f hf hcounts
    · exact h'.counted f hf hcounts
  · intro k hk
    rw [h'.others k fun f hf => hk f (List.mem_append_right _ hf),
      h.others k fun f hf => hk f (List.mem_append_left _ hf)]

/-- A field that counts no group. -/
theorem ReadInto.field (hbf : Reread cx now f bf) (hcounts : m.counts f = false) :
    ReadInto cx now m [f] n m₀ (m₀.store f.fnum (n + 1) bf) where
  own := ⟨[bf], .cons hbf .nil, by rw [← hbf.fnum]; rfl⟩
  nested := rfl
  counted := by
    intro f' hf' hcounts'
    obtain rfl := List.mem_singleton.1 hf'
    exact absurd hcounts' (by simp [hcounts])
  others := fun _ _ => rfl

/-- A field with the elements of the group that it counts. -/
theorem ReadInto.group {c : GroupClass} {ms : List (MessageBase D)} (hbf : Reread cx now f bf)
    (hcounts : m.counts f = true) (hc : c.fnum = f.fnum) (hnone : m₀.findGroup f.fnum = none)
    (hms : List.Forall₂ (Mirrors cx now) (m.elements f.fnum) ms) :
    ReadInto cx now m [f] n m₀ ((m₀.store f.fnum (n + 1) bf).openGroup c ms) where
  own := ⟨[bf], .cons hbf .nil, by rw [← hbf.fnum]; rfl⟩
  nested := rfl
  counted := by
    intro f' hf' _
    obtain rfl := List.mem_singleton.1 hf'
    have hnone' : (m₀.store f'.fnum (n + 1) bf).findGroup f'.fnum = none := hnone
    rw [elements_openGroup hc hnone']
    exact hms
  others := by
    intro k hk
    have hne := hk f (List.mem_singleton_self f) hcounts
    exact findGroup_openGroup (hc ▸ hne)

end

end Fix8.Codec
