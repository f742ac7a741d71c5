import Fix8.Codec.Proof.Presorted

/-!
# Runs of insertions

A run of single insertions, with the result of the last one. The set is always what it should be; the
pointer to a new element is not, when the array was full: it points to where the element would have
been in the array that has been given up.

* `Inserting.Sound`: the set, and the pointer that is returned;
* `Grows`: an insertion that gives up the array;
* **`inserts_sound_iff`**.
-/

namespace Fix8.Codec.PresortedSet

open Lib

section
variable {α κ : Type} [LinearOrder κ]

/-- A set, what has been inserted into it, and what the last insertion has returned. -/
structure Inserting (α : Type) where
  set : PresortedSet α
  inserted : List α
  last : Option (Pointer × Bool)

/-- One insertion. -/
def insertStep (key : α → κ) (st : Option (Inserting α)) (what : α) : Option (Inserting α) :=
  st.bind fun o => (o.set.insert key what).map fun (set, result) =>
    ⟨set, o.inserted ++ [what], some result⟩

/-- Where a run begins. -/
def inserting (s : PresortedSet α) : Option (Inserting α) := some ⟨s, [], none⟩

/-- The space that has been allocated. -/
def allocated (s : PresortedSet α) : Nat := s.arr.elim 0 fun b => b.cells.length

/-- The pointer is one to this element of the set's array. -/
def Designates (s : PresortedSet α) (it : Pointer) (what : α) : Prop :=
  ∃ b, s.arr = some b ∧ b.id = it.block ∧ it.index < s.sz ∧ b.read it.index = some what

/-- The pointer that the last insertion has returned is one to what has been inserted, if that was
new. -/
def Inserting.Designated (o : Inserting α) : Prop :=
  ∀ it what, o.last = some (it, true) → o.inserted.getLast? = some what → o.set.Designates it what

/-- The array has the elements that were there and those that have been inserted, and no others, in
strict order and within its space; and the pointer is right. -/
structure Inserting.Sound (key : α → κ) (xs₀ : List α) (o : Inserting α) : Prop where
  contents : ∃ xs, o.set.Formed key xs ∧ xs.length = o.set.sz ∧
    ∀ k, (∃ x ∈ xs, key x = k) ↔ ∃ x ∈ xs₀ ++ o.inserted, key x = k
  size : o.set.sz ≤ o.set.allocated
  designated : o.Designated

/-- A run has come to a set that is sound. -/
def Sound (key : α → κ) (xs₀ : List α) (st : Option (Inserting α)) : Prop :=
  ∃ o, st = some o ∧ o.Sound key xs₀

/-- The key is that of an element. -/
def contains (key : α → κ) (s : PresortedSet α) (k : κ) : Bool :=
  (List.range s.sz).any fun i => (s.read i).any fun x => key x = k

/-- The element is new, and the array is full. -/
def Grows (key : α → κ) (s : PresortedSet α) (what : α) : Prop :=
  s.contains key (key what) = false ∧ s.sz ≠ 0 ∧ s.rsz = some s.sz

/-- The next insertion of a run finds room, or the element. -/
def Stays (key : α → κ) (st : Option (Inserting α)) (what : α) : Prop :=
  ∀ o ∈ st, ¬ Grows key o.set what

instance (key : α → κ) (s : PresortedSet α) (what : α) : Decidable (Grows key s what) :=
  inferInstanceAs (Decidable (_ ∧ _))

instance (key : α → κ) (st : Option (Inserting α)) (what : α) : Decidable (Stays key st what) :=
  inferInstanceAs (Decidable (∀ o ∈ st, ¬ Grows key o.set what))

/-! ## Steps -/

variable {key : α → κ} {s s' : PresortedSet α} {xs xs₀ before behind : List α} {what x : α} {k : κ}
  {it : Pointer} {o : Inserting α} {st : Option (Inserting α)}

theorem Ready.contains_iff (h : Ready key s xs) :
    s.contains key k = true ↔ ∃ x ∈ xs, key x = k := by
  unfold contains
  rw [List.any_eq_true]
  constructor
  · rintro ⟨i, hi, hx⟩
    have hlt : i < xs.length := h.counted ▸ List.mem_range.1 hi
    obtain ⟨x, hread, hkey⟩ := (Option.any_eq_true _ _).1 hx
    rw [h.read hlt] at hread
    exact ⟨x, List.mem_of_getElem? hread, of_decide_eq_true hkey⟩
  · rintro ⟨x, hx, hkey⟩
    obtain ⟨i, hi, rfl⟩ := List.getElem_of_mem hx
    refine ⟨i, List.mem_range.2 (h.counted ▸ hi), ?_⟩
    rw [h.read hi, List.getElem?_eq_getElem hi, Option.any_some]
    exact decide_eq_true hkey

theorem Ready.size_le (h : Ready key s xs) : s.sz ≤ s.allocated := by
  unfold allocated
  cases hb : s.arr with
  | none =>
    rw [← h.counted, h.empty hb]
    exact Nat.le_refl 0
  | some b =>
    rw [← h.counted]
    exact (h.stored b hb).length_le

theorem InsertedAt.designates_iff (h : InsertedAt key s what before behind s' it) :
    s'.Designates it what ↔ ¬ (s.sz ≠ 0 ∧ s.rsz = some s.sz) := by
  rw [← h.block]
  constructor
  · rintro ⟨b, hb, hid, -⟩
    exact ⟨b, hb, hid⟩
  · rintro ⟨b, hb, hid⟩
    have hlt : before.length < (before ++ what :: behind).length := by simp
    refine ⟨b, hb, hid, ?_, ?_⟩
    · rw [h.index, ← h.ready.counted]
      exact hlt
    · rw [h.index, (h.ready.stored b hb).read hlt, List.getElem?_append_right (Nat.le_refl _),
        Nat.sub_self]
      rfl

/-- The keys of a run so far. -/
structure Tracked (key : α → κ) (xs₀ : List α) (o : Inserting α) (xs : List α) : Prop where
  ready : Ready key o.set xs
  keys : ∀ k, (∃ x ∈ xs, key x = k) ↔ ∃ x ∈ xs₀ ++ o.inserted, key x = k

theorem Tracked.sound_iff (h : Tracked key xs₀ o xs) : o.Sound key xs₀ ↔ o.Designated :=
  ⟨fun hs => hs.designated, fun hd =>
    ⟨⟨xs, h.ready.toFormed, h.ready.counted, h.keys⟩, h.ready.size_le, hd⟩⟩

/-- **One insertion of a run.** -/
theorem Tracked.step (h : Tracked key xs₀ o xs) (what : α) : ∃ o' xs',
    insertStep key (some o) what = some o' ∧ Tracked key xs₀ o' xs' ∧
      (o'.Designated ↔ ¬ Grows key o.set what) := by
  obtain ⟨before, behind, hsplit, hbefore, hbehind⟩ := h.ready.sorted.cut (key what)
  have hlast : (o.inserted ++ [what]).getLast? = some what := List.getLast?_concat
  rcases h.ready.insert ⟨hsplit, hbefore, hbehind⟩ with
    ⟨hmem, it, hinsert⟩ | ⟨hnew, s', it, hinsert, hplaced⟩
  · refine ⟨⟨o.set, o.inserted ++ [what], some (it, false)⟩, xs, ?_, ⟨h.ready, fun k => ?_⟩, ?_⟩
    · rw [insertStep, Option.bind_some, hinsert]
      rfl
    · obtain ⟨y, hy, hkey⟩ := hmem
      rw [h.keys]
      constructor
      · rintro ⟨x, hx, hk⟩
        exact ⟨x, by rw [← List.append_assoc]; exact List.mem_append_left _ hx, hk⟩
      · rintro ⟨x, hx, hk⟩
        rw [← List.append_assoc] at hx
        rcases List.mem_append.1 hx with hx | hx
        · exact ⟨x, hx, hk⟩
        · rw [List.mem_singleton.1 hx, ← hkey] at hk
          exact (h.keys k).1 ⟨y, hy, hk⟩
    · refine iff_of_true (fun it what hit => ?_) fun hgrows => ?_
      · exact absurd (Prod.mk.inj (Option.some.inj hit)).2 Bool.false_ne_true
      · exact Bool.false_ne_true (hgrows.1.symm.trans (h.ready.contains_iff.2 hmem))
  · refine ⟨⟨s', o.inserted ++ [what], some (it, true)⟩, before ++ what :: behind, ?_,
      ⟨hplaced.ready, fun k => ?_⟩, ?_⟩
    · rw [insertStep, Option.bind_some, hinsert]
      rfl
    · have hperm : (before ++ what :: behind).Perm (xs ++ [what]) := by
        rw [hsplit]
        exact List.perm_middle.trans (List.perm_append_singleton _ _).symm
      constructor
      · rintro ⟨x, hx, hk⟩
        rcases List.mem_append.1 (hperm.mem_iff.1 hx) with hx | hx
        · obtain ⟨y, hy, hky⟩ := (h.keys k).1 ⟨x, hx, hk⟩
          exact ⟨y, by rw [← List.append_assoc]; exact List.mem_append_left _ hy, hky⟩
        · exact ⟨x, List.mem_append_right _ (List.mem_append_right _ hx), hk⟩
      · rintro ⟨x, hx, hk⟩
        rw [← List.append_assoc] at hx
        rcases List.mem_append.1 hx with hx | hx
        · obtain ⟨y, hy, hky⟩ := (h.keys k).2 ⟨x, hx, hk⟩
          exact ⟨y, hperm.mem_iff.2 (List.mem_append_left _ hy), hky⟩
        · exact ⟨x, hperm.mem_iff.2 (List.mem_append_right _ hx), hk⟩
    · have hcontains : o.set.contains key (key what) = false :=
        Bool.eq_false_iff.2 fun htrue => hnew (h.ready.contains_iff.1 htrue)
      have hdesignated : Inserting.Designated ⟨s', o.inserted ++ [what], some (it, true)⟩ ↔
          s'.Designates it what := by
        constructor
        · exact fun hd => hd it what rfl hlast
        · rintro hd it' what' hit hwhat
          obtain ⟨rfl, -⟩ := Prod.mk.inj (Option.some.inj hit)
          obtain rfl := Option.some.inj (hlast.symm.trans hwhat)
          exact hd
      rw [hdesignated, hplaced.designates_iff]
      exact not_congr ⟨fun hfull => ⟨hcontains, hfull⟩, fun hgrows => hgrows.2⟩

/-! ## Runs -/

/-- **A run of insertions**, into a set with an array or without elements, is sound throughout exactly
when no new element comes to a full array. -/
theorem inserts_sound_iff (h : Constructed key s xs₀) (elements : List α) :
    Throughout (insertStep key) (Sound key xs₀) (inserting s) elements ↔
      (s.arr = none → s.sz = 0) ∧ Along (insertStep key) (Stays key) (inserting s) elements := by
  let I : Option (Inserting α) → Prop := fun st => ∃ o xs, st = some o ∧ Tracked key xs₀ o xs
  have hstep : ∀ st what, I st → I (insertStep key st what) := by
    rintro _ what ⟨o, xs, rfl, htracked⟩
    obtain ⟨o', xs', hnext, htracked', -⟩ := htracked.step what
    exact ⟨o', xs', hnext, htracked'⟩
  have hsound : ∀ {o xs}, Tracked key xs₀ o xs → (Sound key xs₀ (some o) ↔ o.Designated) := by
    intro o xs htracked
    rw [← htracked.sound_iff]
    constructor
    · rintro ⟨o', ho', hs⟩
      exact Option.some.inj ho' ▸ hs
    · exact fun hs => ⟨o, rfl, hs⟩
  have hiff : ∀ st what, I st → (Sound key xs₀ (insertStep key st what) ↔ Stays key st what) := by
    rintro _ what ⟨o, xs, rfl, htracked⟩
    obtain ⟨o', xs', hnext, htracked', hdesignated⟩ := htracked.step what
    rw [hnext, hsound htracked', hdesignated]
    exact ⟨fun hnot o₁ ho₁ => Option.some.inj ho₁ ▸ hnot, fun hstays => hstays o rfl⟩
  by_cases harr : s.arr = none → s.sz = 0
  · have htracked : Tracked key xs₀ ⟨s, [], none⟩ xs₀ :=
      ⟨h.ready harr, fun k => by rw [List.append_nil]⟩
    have hstart : Sound key xs₀ (inserting s) :=
      (hsound htracked).2 fun it what hit => absurd hit (by simp)
    have hruns : Throughout (insertStep key) (Sound key xs₀) (inserting s) elements ↔
        Along (insertStep key) (Stays key) (inserting s) elements :=
      throughout_iff_along hstep hiff ⟨_, _, rfl, htracked⟩ hstart
    exact ⟨fun hrun => ⟨harr, hruns.1 hrun⟩, fun hstays => hruns.2 hstays.2⟩
  · refine iff_of_false (fun hrun => ?_) fun hstays => harr hstays.1
    obtain ⟨o, ho, hs⟩ := hrun.head
    obtain rfl := Option.some.inj ho
    obtain ⟨hnull, hsz⟩ := Classical.not_imp.1 harr
    have hsize : s.sz ≤ s.allocated := hs.size
    rw [allocated, hnull] at hsize
    exact hsz (Nat.le_zero.1 hsize)

end

/-! ## Numbers -/

theorem inserts_sound_three : Throughout (insertStep id) (Sound id [])
    (inserting (ofSize 0 3)) [7, 5, 7, 6] :=
  (inserts_sound_iff (constructed_ofSize (by decide)) [7, 5, 7, 6]).2
    ⟨fun _ => rfl, by decide +kernel⟩

/-- What an array with space for one has when a second element has come. -/
def second : Inserting Nat :=
  ⟨⟨1, 2, some 2, some ⟨1, [some 5, some 7]⟩⟩, [7, 5], some (⟨0, 0⟩, true)⟩

/-- The second element comes to an array with space for one. -/
theorem inserts_unsound : ¬ ∀ (reserve : Nat), 1 ≤ reserve → ∀ elements : List Nat,
    Throughout (insertStep id) (Sound id []) (inserting (ofSize 0 reserve)) elements := by
  intro h
  obtain ⟨o, ho, hsound⟩ := (h 1 (by decide) [7, 5]).last
  have hrun : runFrom (insertStep id) (inserting (ofSize 0 1)) [7, 5] = some second := by
    rfl
  obtain rfl : o = second := Option.some.inj (ho.symm.trans hrun)
  obtain ⟨b, hb, hid, -⟩ := hsound.designated ⟨0, 0⟩ 5 rfl rfl
  obtain rfl := Option.some.inj hb
  exact absurd hid (by decide)

end Fix8.Codec.PresortedSet
