import Fix8.Codec.Assembled
import Fix8.Codec.Proof.Shown
import Fix8.Codec.Proof.Traits
import Mathlib.Data.List.Sort

/-!
# The order of the fields

`add_field` puts every field at the place that its tag has in the table, whatever the order of the
calls: what a constructor and `add_field` have put together is in `_pos` in the order of a rank, and
determined by what `_fields` holds.

* `rank`, `Placed`: the order, and the containers that are in it;
* `placed_addField`, `placed_replace`, `placed_remove`, `placed_assign`: what the edits keep;
* **`wire_eq`**: containers with the same fields write them in the same order.
-/

namespace Fix8.Codec

open Lib

/-! ## Ranked lists -/

section
variable {α : Type} {p : α → Bool} {r : α → Nat} {l : List α}

/-- Where at most one element is meant, `eraseP` is a filter. -/
theorem eraseP_eq_filter (h : l.Pairwise fun a b => ¬ (p a = true ∧ p b = true)) :
    l.eraseP p = l.filter (!p ·) := by
  induction l with
  | nil => rfl
  | cons a l ih =>
    obtain ⟨ha, hl⟩ := List.pairwise_cons.1 h
    cases hp : p a with
    | true =>
      rw [List.eraseP_cons_of_pos hp, List.filter_cons_of_neg (by simp [hp])]
      exact (List.filter_eq_self.2 fun b hb => by simpa [hp] using ha b hb).symm
    | false =>
      rw [List.eraseP_cons_of_neg (by simp [hp]), List.filter_cons_of_pos (by simp [hp]), ih hl]

/-- Lists in strictly ascending rank with the same elements are the same. -/
theorem ranked_ext {l' : List α} (h : l.Pairwise fun a b => r a < r b)
    (h' : l'.Pairwise fun a b => r a < r b) (hmem : ∀ a, a ∈ l ↔ a ∈ l') : l = l' := by
  have hanti : Std.Antisymm fun a b => r a < r b :=
    ⟨fun a b hab hba => absurd hab (Nat.lt_asymm hba)⟩
  have hirrefl : Std.Irrefl fun a b => r a < r b := ⟨fun a => Nat.lt_irrefl _⟩
  exact h.eq_of_mem_iff h' hmem

end

/-! ## Ranks -/

/-- The fields of the header's constructor, with their positions. -/
def headerLead : List (Nat × Nat) :=
  [(commonBeginString, 1), (commonBodyLength, 2), (commonMsgType, 3)]

/-- That of the trailer's. -/
def trailerLead : List (Nat × Nat) := [(commonCheckSum, 3)]

/-- The place of a tag: a field of the constructor, in `lead`, stands before the others at its
position. -/
def rank (lead : List (Nat × Nat)) (fp : FieldTraits) (fnum : Nat) : Nat :=
  (lead.lookup fnum).elim (2 * fp.getPos fnum + 1) (2 * ·)

/-- The containers are in step, with `_pos` in the order of the ranks. -/
structure Placed {D : Type} (lead : List (Nat × Nat)) (o : FieldStore D) : Prop where
  apart : TraitsApart o.fp
  present : ∀ k, o.fp.has k = true → o.fp.present k = (o.fields.get? k).isSome
  legal : ∀ k f, o.fields.get? k = some f → lead.lookup k = none → o.fp.has k = true
  field : ∀ k f, o.fields.get? k = some f →
    f.fnum = k ∧ (rank lead o.fp k / 2, f) ∈ o.pos
  entry : ∀ e ∈ o.pos, o.fields.get? e.2.fnum = some e.2 ∧ e.1 = rank lead o.fp e.2.fnum / 2
  ranked : o.pos.Pairwise fun a b => rank lead o.fp a.2.fnum < rank lead o.fp b.2.fnum
  ids : ∀ k k' f f', o.fields.get? k = some f → o.fields.get? k' = some f' → f.id = f'.id → k = k'

section
variable {D : Type} {lead : List (Nat × Nat)} {o own : FieldStore D} {f old : BaseField D}
  {k pos : Nat} {fp : FieldTraits}

theorem rank_setPresent {j : Nat} : rank lead (fp.setPresent j) k = rank lead fp k := by
  simp only [rank, FieldTraits.getPos_setPresent]

theorem rank_clearPresent {j : Nat} : rank lead (fp.clearPresent j) k = rank lead fp k := by
  simp only [rank, FieldTraits.getPos_clearPresent]

theorem rank_of_none (h : lead.lookup k = none) : rank lead fp k = 2 * fp.getPos k + 1 := by
  rw [rank, h, Option.elim_none]

/-- Behind all entries up to the position is the place of an odd rank. -/
theorem Positions.insert_ranked {l : Positions D} {r : BaseField D → Nat}
    (h : l.Pairwise fun a b => r a.2 < r b.2) (hkey : ∀ e ∈ l, e.1 = r e.2 / 2)
    (hpos : r f = 2 * pos + 1) (hne : ∀ e ∈ l, r e.2 ≠ r f) :
    (Positions.insert pos f l).Pairwise fun a b => r a.2 < r b.2 := by
  induction l with
  | nil => exact List.pairwise_singleton _ _
  | cons e l ih =>
    obtain ⟨he, hl⟩ := List.pairwise_cons.1 h
    have hkey₀ := hkey e List.mem_cons_self
    have hne₀ := hne e List.mem_cons_self
    unfold Positions.insert
    split
    · rename_i hlt
      refine List.pairwise_cons.2 ⟨fun b hb => ?_, h⟩
      rcases List.mem_cons.1 hb with rfl | hb
      · dsimp only
        omega
      · have hb' := he b hb
        dsimp only
        omega
    · rename_i hle
      refine List.pairwise_cons.2 ⟨fun b hb => ?_, ih hl
        (fun e he => hkey e (List.mem_cons_of_mem _ he))
        fun e he => hne e (List.mem_cons_of_mem _ he)⟩
      rcases Positions.mem_insert.1 hb with rfl | hb
      · dsimp only
        omega
      · exact he b hb

/-! ## Edits -/

theorem placed_create (h : Table fp) : Placed (D := D) [] (.create fp) where
  apart := h.apart
  present := fun k _ => h.absent k
  legal := fun k f hf => by simp [FieldStore.create] at hf
  field := fun k f hf => by simp [FieldStore.create] at hf
  entry := fun e he => absurd he List.not_mem_nil
  ranked := List.Pairwise.nil
  ids := fun k k' f f' hf => by simp [FieldStore.create] at hf

/-- An entry is known by its object. -/
theorem Placed.entry_id (h : Placed lead o) {e : Nat × BaseField D} (he : e ∈ o.pos)
    (hold : o.fields.get? k = some old) : e.2.id = old.id ↔ e.2.fnum = k := by
  obtain ⟨hget, -⟩ := h.entry e he
  constructor
  · exact h.ids _ _ _ _ hget hold
  · intro hk
    rw [hk, hold] at hget
    rw [← Option.some.inj hget]

theorem Placed.erase_eq (h : Placed lead o) (hold : o.fields.get? k = some old) :
    Positions.erase old.id o.pos = o.pos.filter fun e => e.2.fnum ≠ k := by
  unfold Positions.erase
  have hone : o.pos.Pairwise fun a b =>
      ¬ ((a.2.id == old.id) = true ∧ (b.2.id == old.id) = true) := by
    refine List.Pairwise.imp_of_mem ?_ h.ranked
    rintro a b ha hb hab ⟨hida, hidb⟩
    have hka := (h.entry_id ha hold).1 (beq_iff_eq.1 hida)
    have hkb := (h.entry_id hb hold).1 (beq_iff_eq.1 hidb)
    rw [hka, hkb] at hab
    exact Nat.lt_irrefl _ hab
  rw [eraseP_eq_filter hone]
  refine List.filter_congr fun e he => ?_
  have hid := h.entry_id he hold
  by_cases hk : e.2.fnum = k
  · simp [hk, hid.2 hk]
  · simp [hk, mt hid.1 hk]

theorem Placed.entryOf_eq (h : Placed lead o) (hold : o.fields.get? k = some old) :
    Positions.entryOf old.id o.pos = some (rank lead o.fp k / 2, old) := by
  have hmem := (h.field k old hold).2
  cases hfind : Positions.entryOf old.id o.pos with
  | none => exact absurd (List.find?_eq_none.1 hfind _ hmem) (by simp)
  | some e =>
    have he := List.mem_of_find?_eq_some hfind
    have hfind : o.pos.find? (fun e => e.2.id == old.id) = some e := hfind
    have hid : e.2.id = old.id := by simpa using List.find?_some hfind
    have hk := (h.entry_id he hold).1 hid
    obtain ⟨hget, hkey⟩ := h.entry e he
    rw [hk, hold] at hget
    rw [hk] at hkey
    exact congrArg some (Prod.ext hkey (Option.some.inj hget).symm)

/-- Only what the containers say counts. -/
theorem Placed.congr (h : Placed lead o) (hpos : own.pos = o.pos)
    (hget : ∀ k, own.fields.get? k = o.fields.get? k) (hhas : ∀ k, own.fp.has k = o.fp.has k)
    (hgetPos : ∀ k, own.fp.getPos k = o.fp.getPos k)
    (hpresent : ∀ k, own.fp.present k = o.fp.present k) : Placed lead own := by
  have hrank : ∀ k, rank lead own.fp k = rank lead o.fp k := by
    intro k
    rw [rank, rank, hgetPos]
  constructor
  · intro k k' hk hk' heq
    rw [hhas] at hk hk'
    rw [hgetPos, hgetPos] at heq
    exact h.apart k k' hk hk' heq
  · intro k hk
    rw [hhas] at hk
    rw [hpresent, hget]
    exact h.present k hk
  · intro k f hf hk
    rw [hget] at hf
    rw [hhas]
    exact h.legal k f hf hk
  · intro k f hf
    rw [hget] at hf
    rw [hrank, hpos]
    exact h.field k f hf
  · intro e he
    rw [hpos] at he
    rw [hget, hrank]
    exact h.entry e he
  · rw [hpos]
    simp only [hrank]
    exact h.ranked
  · intro k k' f f' hf hf'
    rw [hget] at hf hf'
    exact h.ids k k' f f' hf hf'

theorem placed_add (h : Placed lead o) (hnone : o.fields.get? f.fnum = none)
    (hhas : o.fp.has f.fnum = true) (hlead : lead.lookup f.fnum = none)
    (hnew : ∀ e ∈ o.pos, e.2.id ≠ f.id) :
    Placed lead ((o.addFieldDecoder f.fnum (o.fp.getPos f.fnum) f).setPresent f.fnum) := by
  have hget : ∀ k, (o.fields.insert f.fnum f).get? k =
      if k = f.fnum then some f else o.fields.get? k := by
    intro k
    rw [OrdMap.get?_insert, hnone, Option.getD_none]
  have hrank : rank lead o.fp f.fnum = 2 * o.fp.getPos f.fnum + 1 := rank_of_none hlead
  have hids : ∀ k f', o.fields.get? k = some f' → f'.id ≠ f.id :=
    fun k f' hf' => hnew _ (h.field k f' hf').2
  constructor
  · intro k k' hk hk' heq
    rw [FieldStore.setPresent, FieldTraits.has_setPresent] at hk hk'
    rw [FieldStore.setPresent, FieldTraits.getPos_setPresent, FieldTraits.getPos_setPresent] at heq
    exact h.apart k k' hk hk' heq
  · intro k hk
    show (o.fp.setPresent f.fnum).present k = ((o.fields.insert f.fnum f).get? k).isSome
    rw [FieldStore.setPresent, FieldTraits.has_setPresent] at hk
    rw [FieldTraits.present_setPresent_eq, hget]
    split
    · exact hk
    · exact h.present k hk
  · intro k f' hf' hk
    have hf' : (o.fields.insert f.fnum f).get? k = some f' := hf'
    rw [FieldStore.setPresent, FieldTraits.has_setPresent]
    rw [hget] at hf'
    split at hf'
    · rename_i heq
      exact heq ▸ hhas
    · exact h.legal k f' hf' hk
  · intro k f' hf'
    have hf' : (o.fields.insert f.fnum f).get? k = some f' := hf'
    show f'.fnum = k ∧ (rank lead (o.fp.setPresent f.fnum) k / 2, f') ∈
      Positions.insert (o.fp.getPos f.fnum) f o.pos
    rw [hget] at hf'
    rw [Positions.mem_insert, rank_setPresent]
    split at hf'
    · rename_i heq
      obtain rfl := Option.some.inj hf'
      rw [heq, hrank]
      exact ⟨rfl, .inl (Prod.ext (by dsimp only; omega) rfl)⟩
    · exact (h.field k f' hf').imp_right .inr
  · intro e he
    show (o.fields.insert f.fnum f).get? e.2.fnum = some e.2 ∧
      e.1 = rank lead (o.fp.setPresent f.fnum) e.2.fnum / 2
    rw [hget, rank_setPresent]
    rcases Positions.mem_insert.1 he with rfl | he
    · rw [if_pos rfl, hrank]
      exact ⟨rfl, by dsimp only; omega⟩
    · obtain ⟨hold, hkey⟩ := h.entry e he
      rw [if_neg fun heq => by rw [heq, hnone] at hold; exact absurd hold (by simp)]
      exact ⟨hold, hkey⟩
  · show (Positions.insert (o.fp.getPos f.fnum) f o.pos).Pairwise fun a b =>
      rank lead (o.fp.setPresent f.fnum) a.2.fnum < rank lead (o.fp.setPresent f.fnum) b.2.fnum
    simp only [rank_setPresent]
    refine Positions.insert_ranked (r := fun g => rank lead o.fp g.fnum) h.ranked
      (fun e he => (h.entry e he).2) hrank fun e he heq => ?_
    obtain ⟨hold, -⟩ := h.entry e he
    rw [hrank] at heq
    cases hl : lead.lookup e.2.fnum with
    | some p =>
      rw [rank, hl, Option.elim_some] at heq
      omega
    | none =>
      rw [rank_of_none hl] at heq
      have hk := h.apart _ _ (h.legal _ _ hold hl) hhas (by omega)
      rw [hk, hnone] at hold
      exact absurd hold (by simp)
  · intro k k' f₁ f₂ h₁ h₂ hid
    have h₁ : (o.fields.insert f.fnum f).get? k = some f₁ := h₁
    have h₂ : (o.fields.insert f.fnum f).get? k' = some f₂ := h₂
    rw [hget] at h₁ h₂
    split at h₁
    · rename_i hk
      obtain rfl := Option.some.inj h₁
      split at h₂
      · rename_i hk'
        rw [hk, hk']
      · exact absurd hid.symm (hids _ _ h₂)
    · split at h₂
      · obtain rfl := Option.some.inj h₂
        exact absurd hid (hids _ _ h₁)
      · exact h.ids k k' f₁ f₂ h₁ h₂ hid

theorem placed_remove (h : Placed lead o) : Placed lead (o.remove k) := by
  unfold FieldStore.remove
  cases hold : o.fields.get? k with
  | none => exact h
  | some old =>
    have hget : ∀ j, (o.fields.erase k).get? j = if j = k then none else o.fields.get? j :=
      fun j => OrdMap.get?_erase
    dsimp only
    rw [h.erase_eq hold]
    constructor
    · intro j j' hj hj' heq
      rw [FieldTraits.has_clearPresent] at hj hj'
      rw [FieldTraits.getPos_clearPresent, FieldTraits.getPos_clearPresent] at heq
      exact h.apart j j' hj hj' heq
    · intro j hj
      rw [FieldTraits.has_clearPresent] at hj
      rw [FieldTraits.present_clearPresent_eq, hget]
      split
      · rfl
      · exact h.present j hj
    · intro j f' hf' hj
      rw [hget] at hf'
      rw [FieldTraits.has_clearPresent]
      split at hf'
      · exact absurd hf' (by simp)
      · exact h.legal j f' hf' hj
    · intro j f' hf'
      rw [hget] at hf'
      rw [rank_clearPresent]
      split at hf'
      · exact absurd hf' (by simp)
      · rename_i hne
        obtain ⟨hfnum, hmem⟩ := h.field j f' hf'
        exact ⟨hfnum, List.mem_filter.2 ⟨hmem, by simpa [hfnum] using hne⟩⟩
    · intro e he
      obtain ⟨hmem, hne⟩ := List.mem_filter.1 he
      rw [hget, rank_clearPresent, if_neg (by simpa using hne)]
      exact h.entry e hmem
    · simp only [rank_clearPresent]
      exact h.ranked.filter _
    · intro j j' f₁ f₂ h₁ h₂
      rw [hget] at h₁ h₂
      split at h₁
      · exact absurd h₁ (by simp)
      · split at h₂
        · exact absurd h₂ (by simp)
        · exact h.ids j j' f₁ f₂ h₁ h₂

/-- A field is replaced by another at its place. -/
theorem placed_replace (h : Placed lead o) (hlead : lead.lookup f.fnum = none)
    (hnew : ∀ e ∈ o.pos, e.2.id ≠ f.id) : Placed lead (o.replace f.fnum f) := by
  cases hold : o.fields.get? f.fnum with
  | none =>
    unfold FieldStore.replace
    rwa [hold]
  | some old =>
    have hhas := h.legal _ _ hold hlead
    -- As if the field were removed and added.
    have hremove : o.remove f.fnum = { o with
        pos := o.pos.erase old.id, fp := o.fp.clearPresent f.fnum,
        fields := o.fields.erase f.fnum } := by
      unfold FieldStore.remove
      rw [hold]
    have hremoved : Placed lead (o.remove f.fnum) := placed_remove h
    have hadded := placed_add (f := f) hremoved (by rw [hremove]; simp [OrdMap.get?_erase])
      (by rw [hremove]; exact FieldTraits.has_clearPresent.trans hhas) hlead
      (fun e he => hnew e (Positions.mem_erase (by rwa [hremove] at he)))
    rw [hremove] at hadded
    unfold FieldStore.replace
    rw [hold]
    refine hadded.congr ?_ ?_ ?_ ?_ ?_
    · show Positions.insert ((o.pos.entryOf old.id).elim (o.fp.getPos f.fnum) (·.1)) f _ =
        Positions.insert ((o.fp.clearPresent f.fnum).getPos f.fnum) f _
      rw [h.entryOf_eq hold, FieldTraits.getPos_clearPresent, Option.elim_some, rank_of_none hlead]
      congr 1
      dsimp only
      omega
    · intro k
      show (o.fields.replace f.fnum f).get? k = ((o.fields.erase f.fnum).insert f.fnum f).get? k
      rw [OrdMap.get?_replace, OrdMap.get?_insert, OrdMap.get?_erase, OrdMap.get?_erase, hold]
      split <;> simp
    · intro k
      show (o.fp.setPresent f.fnum).has k = ((o.fp.clearPresent f.fnum).setPresent f.fnum).has k
      simp only [FieldTraits.has_setPresent, FieldTraits.has_clearPresent]
    · intro k
      show (o.fp.setPresent f.fnum).getPos k =
        ((o.fp.clearPresent f.fnum).setPresent f.fnum).getPos k
      simp only [FieldTraits.getPos_setPresent, FieldTraits.getPos_clearPresent]
    · intro k
      show (o.fp.setPresent f.fnum).present k =
        ((o.fp.clearPresent f.fnum).setPresent f.fnum).present k
      simp only [FieldTraits.present_setPresent_eq, FieldTraits.present_clearPresent_eq,
        FieldTraits.has_clearPresent]
      split <;> rfl

theorem placed_addField (h : Placed lead o) (hlead : lead.lookup f.fnum = none)
    (hnew : ∀ e ∈ o.pos, e.2.id ≠ f.id) (hadd : o.addField f = .ok own) : Placed lead own := by
  unfold FieldStore.addField FieldStore.addFieldAt at hadd
  split at hadd
  · rename_i hhas
    obtain rfl := Except.ok.inj hadd
    split
    · exact placed_replace h hlead hnew
    · rename_i habsent
      refine placed_add h ?_ hhas hlead hnew
      have hpresent := h.present _ hhas
      rw [Bool.true_and] at habsent
      rw [Bool.not_eq_true _ |>.mp habsent] at hpresent
      simpa using hpresent.symm
  · exact absurd hadd (by simp)

theorem placed_assign {id : ObjId} {value : Value D} (h : Placed lead o) :
    Placed lead (o.assign id k value) := by
  unfold FieldStore.assign
  cases hold : o.fields.get? k with
  | none => exact h
  | some old =>
    dsimp only
    split
    · rename_i hid
      subst hid
      have hget : ∀ j, (o.fields.replace k { old with value := value }).get? j =
          if j = k then some { old with value := value } else o.fields.get? j := by
        intro j
        rw [OrdMap.get?_replace, hold, Option.map_some]
      obtain ⟨hfnum, hentry⟩ := h.field k old hold
      constructor
      · exact h.apart
      · intro j hj
        rw [hget]
        split
        · rename_i heq
          rw [heq] at hj ⊢
          rw [h.present k hj, hold]
          rfl
        · exact h.present j hj
      · intro j f' hf' hj
        rw [hget] at hf'
        split at hf'
        · rename_i heq
          exact heq ▸ h.legal k old hold (heq ▸ hj)
        · exact h.legal j f' hf' hj
      · intro j f' hf'
        rw [hget] at hf'
        split at hf'
        · rename_i heq
          subst heq
          obtain rfl := Option.some.inj hf'
          exact ⟨hfnum, List.mem_map.2 ⟨_, hentry, if_pos rfl⟩⟩
        · rename_i hne
          obtain ⟨hfnum', hentry'⟩ := h.field j f' hf'
          refine ⟨hfnum', List.mem_map.2 ⟨_, hentry', if_neg fun hid => hne ?_⟩⟩
          exact h.ids _ _ _ _ hf' hold hid
      · intro e he
        obtain ⟨e', he', rfl⟩ := List.mem_map.1 he
        obtain ⟨hget', hkey⟩ := h.entry e' he'
        have hiff := h.entry_id he' hold
        rw [hget]
        split
        · rename_i hid
          have hk := hiff.1 hid
          rw [hk, hold] at hget'
          dsimp only
          rw [if_pos hk, Option.some.inj hget']
          exact ⟨rfl, hkey⟩
        · rename_i hid
          rw [if_neg (mt hiff.2 hid)]
          exact ⟨hget', hkey⟩
      · refine List.pairwise_map.2 (h.ranked.imp fun {a b} hab => ?_)
        split <;> split <;> exact hab
      · intro j j' f₁ f₂ h₁ h₂ hid
        rw [hget] at h₁ h₂
        split at h₁
        · rename_i hj
          obtain rfl := Option.some.inj h₁
          split at h₂
          · rename_i hj'
            rw [hj, hj']
          · exact hj.trans (h.ids k j' _ _ hold h₂ hid)
        · split at h₂
          · rename_i hj'
            obtain rfl := Option.some.inj h₂
            exact (h.ids j k _ _ h₁ hold hid).trans hj'.symm
          · exact h.ids j j' f₁ f₂ h₁ h₂ hid
    · exact h

end

/-! ## What is written -/

section
variable {D : Type} {lead : List (Nat × Nat)} {o o' : FieldStore D}

/-- The tags and values that `encode` writes, in order. -/
def FieldStore.wire (o : FieldStore D) : List (Nat × Value D) :=
  o.shown.map fun f => (f.fnum, f.value)

theorem Placed.mem_wire (h : Placed lead o) {w : Nat × Value D} :
    w ∈ o.wire ↔ o.fp.suppress w.1 = false ∧ (o.fields.get? w.1).map (·.value) = some w.2 := by
  simp only [FieldStore.wire, FieldStore.shown, List.mem_map, List.mem_filter, Bool.not_eq_true']
  constructor
  · rintro ⟨f, ⟨⟨e, he, rfl⟩, hshown⟩, rfl⟩
    refine ⟨hshown, ?_⟩
    rw [(h.entry e he).1, Option.map_some]
  · rintro ⟨hshown, hvalue⟩
    obtain ⟨f, hf, hv⟩ := Option.map_eq_some_iff.1 hvalue
    obtain ⟨hfnum, hmem⟩ := h.field _ _ hf
    exact ⟨f, ⟨⟨_, hmem, rfl⟩, hfnum.symm ▸ hshown⟩, Prod.ext hfnum hv⟩

theorem Placed.wire_ranked (h : Placed lead o) :
    o.wire.Pairwise fun a b => rank lead o.fp a.1 < rank lead o.fp b.1 :=
  List.pairwise_map.2 (List.Pairwise.filter _ (List.pairwise_map.2 h.ranked))

/-- **Containers with the same values under the tags that are written write the same**, whatever
the order in which these were added. -/
theorem Placed.wire_eq (h : Placed lead o) (h' : Placed lead o')
    (hgetPos : ∀ k, o'.fp.getPos k = o.fp.getPos k)
    (hsuppress : ∀ k, o'.fp.suppress k = o.fp.suppress k)
    (hvalue : ∀ k, o.fp.suppress k = false →
      (o'.fields.get? k).map (·.value) = (o.fields.get? k).map (·.value)) :
    o'.wire = o.wire := by
  have hrank : ∀ k, rank lead o'.fp k = rank lead o.fp k := by
    intro k
    rw [rank, rank, hgetPos]
  have hranked := h'.wire_ranked
  simp only [hrank] at hranked
  refine ranked_ext hranked h.wire_ranked fun w => ?_
  rw [h.mem_wire, h'.mem_wire, hsuppress]
  exact and_congr_right fun hshown => by rw [hvalue _ hshown]

end

/-! ## Texts -/

section
variable {D : Type} [FpType D]

/-- The loop of `encode` over what is written; `groups` holds what `encode_group` writes. -/
def encodeWire (isGroup : Nat → Bool) (groups : Nat → Except Stop F8String) :
    List (Nat × Value D) → Except Stop F8String
  | [] => pure []
  | w :: rest =>
    let f : BaseField D := ⟨preambleId 0, w.1, w.2⟩
    if isGroup w.1 && f.hasGroupCount then do
      let group ← groups w.1
      let more ← encodeWire isGroup groups rest
      pure (f.encode ++ group ++ more)
    else do
      let more ← encodeWire isGroup groups rest
      pure (f.encode ++ more)

/-- What `encode_group` writes for the group under a tag. -/
def MessageBase.groupText (m : MessageBase D) (fnum : Nat) : Except Stop F8String :=
  match m.findGroup fnum with
  | none => .error (.exn (.invalidRepeatingGroup fnum))
  | some g => g.encode

theorem encodeFields_wire {m : MessageBase D} : ∀ pos : Positions D,
    encodeFields m.own.fp (encodeGroups m.groups) pos =
      encodeWire m.own.fp.isGroup m.groupText ({ m.own with pos := pos } : FieldStore D).wire
  | [] => rfl
  | pp :: rest => by
    have ih := encodeFields_wire (m := m) rest
    unfold FieldStore.wire at ih ⊢
    unfold encodeFields
    cases hsuppress : m.own.fp.suppress pp.2.fnum with
    | true =>
      rw [shown_cons_suppressed hsuppress, ← ih]
      rfl
    | false =>
      have hgroup : ((encodeGroups m.groups).lookup pp.2.fnum).getD
          (throw (.exn (.invalidRepeatingGroup pp.2.fnum))) = m.groupText pp.2.fnum := by
        rw [encodeGroups_eq, lookup_groups]
        unfold MessageBase.groupText MessageBase.findGroup
        cases m.groups.find? fun g => g.fnum == pp.2.fnum <;> rfl
      rw [shown_cons hsuppress, List.map_cons, encodeWire, ← ih, hgroup]
      rfl

/-- The text of a part, from what it writes. -/
theorem encode_eq_wire (m : MessageBase D) :
    m.encode = (encodeWire m.own.fp.isGroup m.groupText m.own.wire >>= fun text =>
      pure (text ++ m.own.unknown)) := by
  have hfields := encodeFields_wire (m := m) m.own.pos
  obtain ⟨own, nested, groups⟩ := m
  rw [MessageBase.encode]
  exact congrArg (· >>= fun text => pure (text ++ own.unknown)) hfields

end

end Fix8.Codec
