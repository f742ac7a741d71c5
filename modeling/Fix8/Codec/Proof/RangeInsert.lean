import Fix8.Codec.Proof.HashArray

/-!
# Insertion of a range

The loop of a range ends at the first element that is already there, and does not look at those
behind it.

* `Unites`: the set is the union of what it had and of the range;
* `Missed`: an element behind one that is already there is new;
* `Ready.insertRange`: what the loop takes;
* **`range_unites_iff`**: exactly when the range is united with a set.
-/

namespace Fix8.Codec

namespace PresortedSet

section
variable {α κ : Type} [LinearOrder κ]

/-- There is an element with this key. -/
def HasKey (key : α → κ) (xs : List α) (k : κ) : Prop := ∃ x ∈ xs, key x = k

/-- The set has the elements that it had, those of the range whose keys it did not have, and no
others, in strict order. -/
def Unites (key : α → κ) (xs range : List α) (s : PresortedSet α) : Prop :=
  ∃ xs', Formed key s xs' ∧ xs ⊆ xs' ∧ (∀ x ∈ xs', x ∈ xs ∨ x ∈ range) ∧
    ∀ x ∈ range, HasKey key xs' (key x)

/-- Behind an element that is already there, the range has one that is not. -/
def Missed (key : α → κ) (xs range : List α) : Prop :=
  ∃ ys z zs, range = ys ++ z :: zs ∧ HasKey key (xs ++ ys) (key z) ∧
    ∃ x ∈ zs, ¬ HasKey key (xs ++ ys) (key x)

/-- A set that an element can be inserted into: with an array, or without elements and with space
for some. -/
def Insertable (s : PresortedSet α) : Prop :=
  (s.sz ≠ 0 → s.arr ≠ none) ∧ (s.sz = 0 → s.rsz ≠ some 0)

/-- A set as the constructors without a hash array, the insertions and `clear` leave it. -/
structure Shaped (key : α → κ) (s : PresortedSet α) (xs : List α) : Prop extends
    Formed key s xs where
  reserved : s.rsz ≠ none

variable {key : α → κ} {s s' : PresortedSet α} {xs xs' range : List α} {x : α}

theorem shaped_ofSize {sz reserve : Nat} : Shaped key (ofSize sz reserve) [] :=
  ⟨⟨List.Pairwise.nil, fun _ hb => absurd hb (by simp [ofSize]),
    fun _ hb => absurd hb (by simp [ofSize]), fun _ _ hb => absurd hb (by simp [ofSize]),
    fun _ => rfl⟩, by simp [ofSize]⟩

theorem shaped_ofStatic {reserve : Nat} (hsorted : SortedBy key xs) :
    Shaped key (ofStatic xs reserve) xs :=
  ⟨formed_ofStatic hsorted, by simp [ofStatic]⟩

theorem Shaped.clear (h : Shaped key s xs) : Shaped key s.clear [] :=
  ⟨⟨List.Pairwise.nil, fun _ _ => rfl, fun b _ => ⟨b.cells, rfl⟩, h.room, fun _ => rfl⟩, h.reserved⟩

theorem Ready.shaped (h : Ready key s xs) : Shaped key s xs := by
  obtain ⟨r, hr, -⟩ := h.space
  exact ⟨h.toFormed, by simp [hr]⟩

theorem Shaped.ready (h : Shaped key s xs) (hins : Insertable s) : Ready key s xs := by
  obtain ⟨r, hr⟩ := Option.ne_none_iff_exists'.1 h.reserved
  cases harr : s.arr with
  | none =>
    have hsz : s.sz = 0 := by
      by_contra hne
      exact hins.1 hne harr
    have hpos : r ≠ 0 := fun hzero => hins.2 hsz (hzero ▸ hr)
    exact ⟨⟨h.toFormed, r, hr, Nat.pos_of_ne_zero hpos, hsz ▸ Nat.zero_le r⟩,
      by rw [h.empty harr, hsz, List.length_nil]⟩
  | some b =>
    have hsize := h.size b harr
    have hle : s.sz ≤ r := by
      rw [← hsize, ← h.room b r harr hr]
      exact (h.stored b harr).length_le
    have hpos : r ≠ 0 := fun hzero => hins.2 (by omega) (hzero ▸ hr)
    exact ⟨⟨h.toFormed, r, hr, Nat.pos_of_ne_zero hpos, hle⟩, hsize⟩

/-- What a set has is determined. -/
theorem Formed.unique (h : Formed key s xs) (h' : Formed key s xs') : xs = xs' := by
  cases harr : s.arr with
  | none => rw [h.empty harr, h'.empty harr]
  | some b =>
    obtain ⟨rest, hrest⟩ := h.stored b harr
    obtain ⟨rest', hrest'⟩ := h'.stored b harr
    have hlength : (xs.map some).length = (xs'.map some).length := by
      rw [List.length_map, List.length_map, h.size b harr, h'.size b harr]
    have hmap := (List.append_inj (hrest.symm.trans hrest') hlength).1
    exact List.map_injective_iff.2 (fun _ _ heq => Option.some.inj heq) hmap

/-! ## The loop -/

theorem insertRange_cons {it : Pointer} {inserted : Bool}
    (h : s.insert key x = some (s', it, inserted)) :
    s.insertRange key (x :: range) =
      if inserted then s'.insertRange key range else some s' := by
  rw [insertRange, insertRangeWith, h]
  rfl

/-- **The loop** takes the elements before the first that is already there. -/
theorem Ready.insertRange (h : Ready key s xs) (range : List α) : ∃ s' xs' ys zs,
    s.insertRange key range = some s' ∧ Ready key s' xs' ∧ range = ys ++ zs ∧
      xs'.Perm (xs ++ ys) ∧ ∀ z rest, zs = z :: rest → HasKey key xs' (key z) := by
  induction range generalizing s xs with
  | nil =>
    refine ⟨s, xs, [], [], rfl, h, rfl, ?_, fun z rest hnil => ?_⟩
    · rw [List.append_nil]
    · cases hnil
  | cons x range ih =>
    obtain ⟨before, behind, hsplit, hbefore, hbehind⟩ := h.sorted.cut (key x)
    rcases h.insert ⟨hsplit, hbefore, hbehind⟩ with
      ⟨hmem, it, hinsert⟩ | ⟨-, s₁, it, hinsert, hplaced⟩
    · refine ⟨s, xs, [], x :: range, insertRange_cons hinsert, h, rfl, ?_, fun z rest hcons => ?_⟩
      · rw [List.append_nil]
      · obtain ⟨rfl, -⟩ := List.cons.inj hcons
        exact hmem
    · obtain ⟨s', xs', ys, zs, hrun, hready, hrange, hperm, hstop⟩ := ih hplaced.ready
      refine ⟨s', xs', x :: ys, zs, (insertRange_cons hinsert).trans hrun, hready, ?_, ?_, hstop⟩
      · rw [hrange, List.cons_append]
      · have hmiddle : (before ++ x :: behind).Perm (xs ++ [x]) := by
          rw [hsplit]
          exact List.perm_middle.trans (List.perm_append_singleton _ _).symm
        refine hperm.trans ((hmiddle.append_right ys).trans ?_)
        rw [List.append_assoc, List.singleton_append]

omit [LinearOrder κ] in
theorem HasKey.mono {k : κ} (h : HasKey key xs k) (hsub : xs ⊆ xs') : HasKey key xs' k := by
  obtain ⟨x, hx, hk⟩ := h
  exact ⟨x, hsub hx, hk⟩

/-- A range is united with a set that elements can be inserted into, unless the loop misses some. -/
theorem Ready.unites_iff (h : Ready key s xs) :
    (∃ s', s.insertRange key range = some s' ∧ Unites key xs range s') ↔ ¬ Missed key xs range := by
  obtain ⟨s', xs', ys, zs, hrun, hready, hrange, hperm, hstop⟩ := h.insertRange range
  have hsub : xs ++ ys ⊆ xs' := hperm.symm.subset
  constructor
  · rintro ⟨s₁, hrun', xs₁, hformed, -, -, hall⟩ ⟨ys₁, z, zs₁, hrange₁, hrepeat, x, hx, hnew⟩
    obtain rfl := Option.some.inj (hrun.symm.trans hrun')
    obtain rfl := hready.toFormed.unique hformed
    -- the loop has ended at this element, or before it
    obtain ⟨more, rfl⟩ : ∃ more, ys₁ = ys ++ more := by
      rcases List.append_eq_append_iff.1 (hrange.symm.trans hrange₁) with
        ⟨more, hmore, -⟩ | ⟨more, hmore, hzs⟩
      · exact ⟨more, hmore⟩
      · cases more with
        | nil => exact ⟨[], by rw [hmore, List.append_nil, List.append_nil]⟩
        | cons y more =>
          obtain ⟨rfl, -⟩ := List.cons.inj hzs
          have hdistinct : (xs ++ ys).Pairwise fun a b => key a ≠ key b :=
            hperm.pairwise_iff (fun hab => hab.symm) |>.1 (hready.sorted.imp fun hab => hab.ne)
          rw [hmore, ← List.append_assoc] at hdistinct
          obtain ⟨w, hw, hkey⟩ := hrepeat
          exact absurd hkey ((List.pairwise_append.1 hdistinct).2.2 w hw z List.mem_cons_self)
    have hmem : x ∈ range := by
      rw [hrange₁]
      exact List.mem_append_right _ (List.mem_cons_of_mem _ hx)
    refine hnew ((hall x hmem).mono fun w hw => ?_)
    rw [← List.append_assoc]
    exact List.mem_append_left _ (hperm.subset hw)
  · intro hmissed
    refine ⟨s', hrun, xs', hready.toFormed, fun x hx => hsub (List.mem_append_left _ hx),
      fun x hx => ?_, fun x hx => ?_⟩
    · rcases List.mem_append.1 (hperm.subset hx) with hx | hx
      · exact .inl hx
      · exact .inr (hrange ▸ List.mem_append_left _ hx)
    · rw [hrange] at hx
      rcases List.mem_append.1 hx with hx | hx
      · exact ⟨x, hsub (List.mem_append_right _ hx), rfl⟩
      · cases zs with
        | nil => cases hx
        | cons z rest =>
          have hz := hstop z rest rfl
          rcases List.mem_cons.1 hx with rfl | hx
          · exact hz
          · by_contra hnew
            exact hmissed ⟨ys, z, rest, hrange, hz.mono hperm.subset, x, hx,
              fun hold => hnew (hold.mono hsub)⟩

/-- Nothing can be inserted into the other sets. -/
theorem insert_eq_none (hins : ¬ Insertable s) : s.insert key x = none := by
  unfold insert insertWith
  by_cases hsz : s.sz = 0
  · have hr : s.rsz = some 0 := by
      by_contra hne
      exact hins ⟨fun h => absurd hsz h, fun _ => hne⟩
    rw [if_pos hsz, hr]
    rfl
  · have harr : s.arr = none := by
      by_contra hne
      exact hins ⟨fun _ => hne, fun h => absurd h hsz⟩
    rw [if_neg hsz, harr]
    exact Option.bind_eq_none_iff.2 fun _ _ => rfl

/-- **A range is united** with a set exactly when there is none, or the set is one that elements can
be inserted into and the range has no new element behind one that is already there. -/
theorem Shaped.unites_iff (h : Shaped key s xs) :
    (∃ s', s.insertRange key range = some s' ∧ Unites key xs range s') ↔
      (range ≠ [] → Insertable s) ∧ ¬ Missed key xs range := by
  by_cases hins : Insertable s
  · rw [(h.ready hins).unites_iff]
    exact ⟨fun hmissed => ⟨fun _ => hins, hmissed⟩, fun hboth => hboth.2⟩
  · cases range with
    | nil =>
      refine iff_of_true ⟨s, rfl, xs, h.toFormed, List.Subset.refl _, fun x hx => .inl hx, ?_⟩
        ⟨fun hne => absurd rfl hne, ?_⟩
      · exact fun x hx => absurd hx List.not_mem_nil
      · rintro ⟨ys, z, zs, hnil, -⟩
        exact absurd hnil (by simp)
    | cons x range =>
      refine iff_of_false ?_ fun hboth => hins (hboth.1 (List.cons_ne_nil _ _))
      rintro ⟨s', hrun, -⟩
      rw [insertRange, insertRangeWith, insert_eq_none hins] at hrun
      cases hrun

end

end PresortedSet

/-! ## Traits -/

namespace Presence

open PresortedSet

variable {p : Presence} {set : PresortedSet FieldTrait} {xs range : List FieldTrait}
  {what : FieldTrait}

/-- Without a hash array, the set of traits is a set as any other. -/
theorem insert_eq : Presence.insert ⟨set, none⟩ what =
    (set.insert FieldTrait.fnum what).map fun r => (⟨r.1, none⟩, r.2) := rfl

theorem insertRange_eq : Presence.insertRange ⟨set, none⟩ range =
    (set.insertRange FieldTrait.fnum range).map fun set => ⟨set, none⟩ := by
  induction range generalizing set with
  | nil => rfl
  | cons what range ih =>
    unfold insertRange PresortedSet.insertRange at ih ⊢
    rw [insertRangeWith, insertRangeWith, insert_eq]
    cases hinsert : set.insert FieldTrait.fnum what with
    | none => rfl
    | some r =>
      obtain ⟨set', it, inserted⟩ := r
      simp only [Option.map_some, Option.bind_eq_bind, Option.bind_some]
      cases inserted with
      | true => exact ih
      | false => rfl

/-- The set with a hash array, as its constructor and `clear` leave it. -/
inductive Hashed : Presence → List FieldTrait → Prop
  | constructed (table : List FieldTrait) (ftha : FieldTraitHashArray) (hne : table ≠ [])
      (hsorted : SortedBy FieldTrait.fnum table) (htags : ∀ t ∈ table, t.fnum < 65536)
      (hcreate : FieldTraitHashArray.create table = some ftha) : Hashed (ofHashed table ftha) table
  | cleared (p : Presence) (xs : List FieldTrait) (h : Hashed p xs) :
      Hashed { p with set := p.set.clear } []

theorem Hashed.rsz (h : Hashed p xs) : p.set.rsz = none := by
  induction h with
  | constructed => rfl
  | cleared p xs h ih => exact ih

theorem insertRange_cons_none (h : p.insert what = none) :
    p.insertRange (what :: range) = none := by
  rw [insertRange, insertRangeWith, h]
  rfl

theorem insertRange_cons_false {it : Pointer} (h : p.insert what = some (p, it, false)) :
    p.insertRange (what :: range) = some p := by
  rw [insertRange, insertRangeWith, h]
  rfl

/-- A set with a hash array has no room for a trait that it does not have. -/
theorem Hashed.insert_new (h : Hashed p xs) (hnew : ¬ HasKey FieldTrait.fnum xs what.fnum) :
    p.insert what = none := by
  cases h with
  | constructed _ ftha hne hsorted htags hcreate =>
    obtain ⟨_, hcreate', hindexes⟩ := create_indexes hne hsorted htags
    obtain rfl := Option.some.inj (hcreate.symm.trans hcreate')
    have hplace : place xs what.fnum = none := place_eq_none fun t ht heq => hnew ⟨t, ht, heq⟩
    have hfind : (ofHashed xs ftha).findAnswer what = some (none, false) := by
      rw [← hplace]
      refine (congrArg (Option.map _) (hindexes.hashed_eq hne hsorted)).trans ?_
      rw [hplace]
      rfl
    unfold insert
    rw [insertWith_null (fun hsz => hne (List.eq_nil_of_length_eq_zero hsz)) rfl hfind]
    rfl
  | cleared p xs h =>
    unfold insert insertWith PresortedSet.clear
    rw [if_pos rfl, h.rsz]
    rfl

theorem Hashed.insert_present (h : Hashed p xs) (hmem : HasKey FieldTrait.fnum xs what.fnum) :
    ∃ it, p.insert what = some (p, it, false) := by
  cases h with
  | constructed _ ftha hne hsorted htags hcreate =>
    obtain ⟨_, hcreate', hindexes⟩ := create_indexes hne hsorted htags
    obtain rfl := Option.some.inj (hcreate.symm.trans hcreate')
    obtain ⟨t, ht, hkey⟩ := hmem
    obtain ⟨i, hi⟩ := List.getElem?_of_mem ht
    have hplace : place xs what.fnum = some i := hkey ▸ place_eq_some hsorted hi
    have hfind : (ofHashed xs ftha).findAnswer what = some (some i, true) := by
      refine (congrArg (Option.map _) (hindexes.hashed_eq hne hsorted)).trans ?_
      rw [hplace]
      rfl
    have hinsert := insertWith_present (s := (ofHashed xs ftha).set)
      (fun hsz => hne (List.eq_nil_of_length_eq_zero hsz)) rfl hfind
    exact ⟨_, congrArg (Option.map _) hinsert⟩
  | cleared p xs h =>
    obtain ⟨t, ht, -⟩ := hmem
    cases ht

theorem Hashed.formed (h : Hashed p xs) : Formed FieldTrait.fnum p.set xs := by
  induction h with
  | constructed table ftha hne hsorted => exact formed_ofHashed hsorted
  | cleared p xs h ih =>
    exact ⟨List.Pairwise.nil, fun _ _ => rfl, fun b _ => ⟨b.cells, rfl⟩, ih.room, fun _ => rfl⟩

/-- A range is united with a set with a hash array exactly when the set has all of it. -/
theorem Hashed.unites_iff (h : Hashed p xs) :
    (∃ p', p.insertRange range = some p' ∧ Unites FieldTrait.fnum xs range p'.set) ↔
      ∀ what ∈ range, HasKey FieldTrait.fnum xs what.fnum := by
  have hunites : (∀ what ∈ range, HasKey FieldTrait.fnum xs what.fnum) →
      Unites FieldTrait.fnum xs range p.set := fun hall =>
    ⟨xs, h.formed, List.Subset.refl _, fun x hx => .inl hx, hall⟩
  cases range with
  | nil =>
    exact ⟨fun _ what hwhat => absurd hwhat List.not_mem_nil,
      fun hall => ⟨p, rfl, hunites hall⟩⟩
  | cons what range =>
    constructor
    · rintro ⟨p', hrun, xs', hformed, -, -, hall⟩
      by_cases hmem : HasKey FieldTrait.fnum xs what.fnum
      · obtain ⟨it, hinsert⟩ := h.insert_present hmem
        obtain rfl := Option.some.inj ((insertRange_cons_false hinsert).symm.trans hrun)
        rwa [h.formed.unique hformed]
      · rw [insertRange_cons_none (h.insert_new hmem)] at hrun
        cases hrun
    · intro hall
      obtain ⟨it, hinsert⟩ := h.insert_present (hall what List.mem_cons_self)
      exact ⟨p, insertRange_cons_false hinsert, hunites hall⟩

/-- Without a hash array. -/
theorem unites_iff (hnone : p.ftha = none) (h : PresortedSet.Shaped FieldTrait.fnum p.set xs) :
    (∃ p', p.insertRange range = some p' ∧ Unites FieldTrait.fnum xs range p'.set) ↔
      (range ≠ [] → Insertable p.set) ∧ ¬ Missed FieldTrait.fnum xs range := by
  obtain ⟨set, ftha⟩ := p
  obtain rfl := hnone
  rw [← h.unites_iff, insertRange_eq]
  constructor
  · rintro ⟨p', hrun, hunites⟩
    obtain ⟨set', hset, rfl⟩ := Option.map_eq_some_iff.1 hrun
    exact ⟨set', hset, hunites⟩
  · rintro ⟨set', hset, hunites⟩
    exact ⟨⟨set', none⟩, Option.map_eq_some_iff.2 ⟨set', hset, rfl⟩, hunites⟩

end Presence

/-! ## All the sets -/

open PresortedSet

/-- **A range is united with a set** exactly when the set can take it and the range has no new
element behind one that is already there; with a set of traits that has a hash array, exactly when
that has all of it. -/
theorem range_unites_iff {α κ : Type} [LinearOrder κ] (key : α → κ) :
    (∀ (s : PresortedSet α) (xs range : List α), PresortedSet.Shaped key s xs →
        ((∃ s', s.insertRange key range = some s' ∧ Unites key xs range s') ↔
          (range ≠ [] → Insertable s) ∧ ¬ Missed key xs range)) ∧
    (∀ (p : Presence) (xs range : List FieldTrait), p.ftha = none →
      PresortedSet.Shaped FieldTrait.fnum p.set xs →
        ((∃ p', p.insertRange range = some p' ∧ Unites FieldTrait.fnum xs range p'.set) ↔
          (range ≠ [] → Insertable p.set) ∧ ¬ Missed FieldTrait.fnum xs range)) ∧
    ∀ (p : Presence) (xs range : List FieldTrait), Presence.Hashed p xs →
      ((∃ p', p.insertRange range = some p' ∧ Unites FieldTrait.fnum xs range p'.set) ↔
        ∀ what ∈ range, HasKey FieldTrait.fnum xs what.fnum) :=
  ⟨fun _ _ _ h => h.unites_iff, fun _ _ _ hnone h => Presence.unites_iff hnone h,
    fun _ _ _ h => h.unites_iff⟩

/-! ## Numbers -/

/-- Two numbers, unsorted, one of them twice. -/
theorem range_unites_two :
    ∃ s', (ofSize 0 2).insertRange id [7, 5, 7] = some s' ∧ Unites id [] [7, 5, 7] s' := by
  refine ((range_unites_iff id).1 (ofSize 0 2) [] [7, 5, 7] shaped_ofSize).2
    ⟨fun _ => ⟨fun hsz => absurd rfl hsz, fun _ => by decide⟩, ?_⟩
  rintro ⟨ys, z, zs, hrange, hrepeat, x, hx, -⟩
  -- only the last is there already
  rcases ys with _ | ⟨y, _ | ⟨y', _ | ⟨y'', ys⟩⟩⟩
  · obtain ⟨w, hw, -⟩ := hrepeat
    cases hw
  · simp [HasKey] at hrange hrepeat
    omega
  · simp at hrange
    simp [hrange] at hx
  · simp at hrange

/-- The element behind one that is there already is not inserted. -/
theorem range_missed : ¬ ∀ range : List Nat,
    ∃ s', (ofStatic [5] 100).insertRange id range = some s' ∧ Unites id [5] range s' := by
  intro h
  obtain ⟨s', hrun, xs', hformed, -, -, hall⟩ := h [5, 6]
  have hsame : (ofStatic [5] 100).insertRange id [5, 6] = some (ofStatic [5] 100) := by
    rfl
  obtain rfl := Option.some.inj (hsame.symm.trans hrun)
  obtain rfl : [5] = xs' := (formed_ofStatic (List.pairwise_singleton _ _)).unique hformed
  obtain ⟨x, hx, hkey⟩ := hall 6 (by simp)
  rw [List.mem_singleton.1 hx] at hkey
  exact absurd hkey (by decide)

end Fix8.Codec
