import Fix8.Codec.Proof.Presorted
import Mathlib.Data.List.Perm.Subperm

/-!
# The hash array of a trait table

A `FieldTrait_Hash_Array` has at each tag of its table the offset of the trait, and 0 at the others.

* `Filled`: what the loop of the constructor writes;
* `Indexes`: the array of a table;
* `Indexes.hashed_eq`, `find_eq`: both ways to look a tag up find the first trait with it;
* **`hash_array_finds`**: every `find` is the same through the array.
-/

namespace Fix8.Codec

open Lib PresortedSet

variable {table rest : List FieldTrait} {ftha : FieldTraitHashArray} {arr arr' : List Nat}
  {offset field reserve : Nat}

/-! ## The constructor -/

/-- The traits behind an offset have been written at their tags. -/
structure Filled (arr : List Nat) (offset : Nat) (rest : List FieldTrait) (arr' : List Nat) :
    Prop where
  length : arr'.length = arr.length
  written : ∀ i t, rest[i]? = some t → arr'[t.fnum]? = some ((offset + i) % 65536)
  kept : ∀ k, (∀ t ∈ rest, t.fnum ≠ k) → arr'[k]? = arr[k]?

/-- **The loop** writes inside the array, when that reaches to the last tag. -/
theorem fill_filled (rest : List FieldTrait) : ∀ (offset : Nat) (arr : List Nat),
    SortedBy FieldTrait.fnum rest → (∀ t ∈ rest, t.fnum < arr.length) →
      ∃ arr', FieldTraitHashArray.fill arr offset rest = some arr' ∧ Filled arr offset rest arr' := by
  induction rest with
  | nil =>
    intro offset arr _ _
    exact ⟨arr, rfl, rfl, fun i t ht => absurd ht (by simp), fun _ _ => rfl⟩
  | cons t rest ih =>
    intro offset arr hsorted hin
    obtain ⟨hless, hrest⟩ := List.pairwise_cons.1 hsorted
    have hlt : t.fnum < arr.length := hin t List.mem_cons_self
    have hin' : ∀ u ∈ rest, u.fnum < (arr.set t.fnum (offset % 65536)).length := fun u hu => by
      rw [List.length_set]
      exact hin u (List.mem_cons_of_mem _ hu)
    obtain ⟨arr', hfill, hfilled⟩ := ih (offset + 1) _ hrest hin'
    refine ⟨arr', ?_, ?_, fun i u hu => ?_, fun k hk => ?_⟩
    · rw [FieldTraitHashArray.fill, if_pos hlt, hfill]
    · rw [hfilled.length, List.length_set]
    · cases i with
      | zero =>
        obtain rfl := Option.some.inj hu
        -- no later trait has this tag
        rw [hfilled.kept t.fnum fun u hu => (hless u hu).ne', List.getElem?_set_self hlt, Nat.add_zero]
      | succ i =>
        rw [hfilled.written i u hu, Nat.add_assoc, Nat.add_comm 1 i]
    · rw [hfilled.kept k fun u hu => hk u (List.mem_cons_of_mem _ hu),
        List.getElem?_set_ne (hk t List.mem_cons_self)]

/-- The array of a table: as long as its last tag needs, with the offset of each trait at its tag and
0 elsewhere. -/
structure Indexes (ftha : FieldTraitHashArray) (table : List FieldTrait) : Prop where
  sz : ∀ t ∈ table, FieldTrait.fnum t < ftha.sz
  length : ftha.arr.length = ftha.sz
  offsets : ∀ (i : Nat) (t : FieldTrait), table[i]? = some t → ftha.arr[t.fnum]? = some i
  others : ∀ k < ftha.sz, (∀ t ∈ table, t.fnum ≠ k) → ftha.arr[k]? = some 0

theorem fnum_le_getLast {last : FieldTrait} (hsorted : SortedBy FieldTrait.fnum table)
    (hlast : table.getLast? = some last) : ∀ t ∈ table, t.fnum ≤ last.fnum := by
  obtain ⟨front, rfl⟩ := List.getLast?_eq_some_iff.1 hlast
  intro t ht
  rcases List.mem_append.1 ht with ht | ht
  · exact ((List.pairwise_append.1 hsorted).2.2 t ht last (List.mem_singleton_self _)).le
  · rw [List.mem_singleton.1 ht]

/-- Tags of 16 bits leave offsets of 16 bits. -/
theorem length_le_of_tags (hsorted : SortedBy FieldTrait.fnum table)
    (htags : ∀ t ∈ table, t.fnum < 65536) : table.length ≤ 65536 := by
  have hnodup : (table.map FieldTrait.fnum).Nodup :=
    List.pairwise_map.2 (hsorted.imp fun hlt => hlt.ne)
  have hsub : table.map FieldTrait.fnum ⊆ List.range 65536 := by
    intro k hk
    obtain ⟨t, ht, rfl⟩ := List.mem_map.1 hk
    exact List.mem_range.2 (htags t ht)
  simpa using (List.Nodup.subperm hnodup hsub).length_le

/-- **The constructor.** -/
theorem create_indexes (hne : table ≠ []) (hsorted : SortedBy FieldTrait.fnum table)
    (htags : ∀ t ∈ table, t.fnum < 65536) :
    ∃ ftha, FieldTraitHashArray.create table = some ftha ∧ Indexes ftha table := by
  obtain ⟨last, hlast⟩ := Option.isSome_iff_exists.1 (List.getLast?_isSome.2 hne)
  have hle := fnum_le_getLast hsorted hlast
  have hin : ∀ t ∈ table, t.fnum < (List.replicate (last.fnum + 1) 0).length := fun t ht => by
    rw [List.length_replicate]
    exact Nat.lt_succ_of_le (hle t ht)
  obtain ⟨arr, hfill, hfilled⟩ := fill_filled table 0 _ hsorted hin
  refine ⟨⟨table.length, last.fnum + 1, arr⟩, ?_, fun t ht => Nat.lt_succ_of_le (hle t ht), ?_,
    fun i t hi => ?_, fun k hk hothers => ?_⟩
  · rw [FieldTraitHashArray.create, hlast, Option.bind_eq_bind, Option.bind_some]
    dsimp only
    rw [hfill]
    rfl
  · exact hfilled.length.trans List.length_replicate
  · have hlt : i < 65536 :=
      (List.getElem?_eq_some_iff.1 hi).1.trans_le (length_le_of_tags hsorted htags)
    rw [hfilled.written i t hi, Nat.zero_add, Nat.mod_eq_of_lt hlt]
  · rw [hfilled.kept k hothers]
    exact List.getElem?_replicate_of_lt hk

/-! ## Both ways to look up -/

/-- The index of the trait with a tag. -/
def place (table : List FieldTrait) (field : Nat) : Option Nat :=
  table.findIdx? fun t => t.fnum == field

theorem place_eq_some {i : Nat} {t : FieldTrait} (hsorted : SortedBy FieldTrait.fnum table)
    (hi : table[i]? = some t) : place table t.fnum = some i := by
  obtain ⟨hlt, rfl⟩ := List.getElem?_eq_some_iff.1 hi
  refine List.findIdx?_eq_some_iff_getElem.2 ⟨hlt, beq_self_eq_true _, fun j hj heq => ?_⟩
  have hless := List.pairwise_iff_getElem.1 hsorted j i (hj.trans hlt) hlt hj
  exact absurd (eq_of_beq heq) hless.ne

theorem place_eq_none (hothers : ∀ t ∈ table, t.fnum ≠ field) : place table field = none :=
  List.findIdx?_eq_none_iff.2 fun t ht => beq_false_of_ne (hothers t ht)

theorem PresortedSet.Cut.place_eq {before behind : List FieldTrait}
    (hcut : Cut FieldTrait.fnum table field before behind) (hsorted : SortedBy FieldTrait.fnum table) :
    place table field = if ∃ t ∈ table, t.fnum = field then some before.length else none := by
  split
  · rename_i hmem
    have hsplit := hcut.split
    subst hsplit
    obtain ⟨t, rest, rfl, rfl, -⟩ := hsorted.head_of_mem hcut.before hcut.behind hmem
    refine place_eq_some hsorted ?_
    rw [List.getElem?_append_right (Nat.le_refl _), Nat.sub_self]
    rfl
  · rename_i hnew
    exact place_eq_none fun t ht heq => hnew ⟨t, ht, heq⟩

/-- **Through the hash array.** A tag that the table does not have is sent to its first trait, which
has another tag. -/
theorem Indexes.hashed_eq (h : Indexes ftha table) (hne : table ≠ [])
    (hsorted : SortedBy FieldTrait.fnum table) :
    (Presence.ofHashed table ftha).hashed ftha field = some (place table field) := by
  have hread : ∀ i, (Presence.ofHashed table ftha).set.read i = table[i]? := fun i => by
    rw [Presence.ofHashed, PresortedSet.read, Option.bind_some, Block.read, List.getElem?_map]
    cases table[i]? <;> rfl
  unfold Presence.hashed
  by_cases hmem : ∃ t ∈ table, t.fnum = field
  · obtain ⟨t, ht, rfl⟩ := hmem
    obtain ⟨i, hi⟩ := List.getElem?_of_mem ht
    rw [if_pos (h.sz t ht), h.offsets i t hi, Option.bind_eq_bind, Option.bind_some, hread, hi,
      place_eq_some hsorted hi]
    simp
  · have hothers : ∀ t ∈ table, t.fnum ≠ field := fun t ht heq => hmem ⟨t, ht, heq⟩
    rw [place_eq_none hothers]
    split
    · rename_i hlt
      obtain ⟨t, rest, rfl⟩ := List.exists_cons_of_ne_nil hne
      rw [h.others field hlt hothers, Option.bind_eq_bind, Option.bind_some, hread,
        List.getElem?_cons_zero]
      simp [hothers t List.mem_cons_self]
    · rfl

/-- **By `equal_range`.** -/
theorem find_eq {s : PresortedSet FieldTrait} (h : Formed FieldTrait.fnum s table)
    (hsz : table.length = s.sz) : s.find FieldTrait.fnum field = some (place table field) := by
  obtain ⟨before, behind, hsplit, hbefore, hbehind⟩ := h.sorted.cut field
  have hcut : Cut FieldTrait.fnum table field before behind := ⟨hsplit, hbefore, hbehind⟩
  obtain ⟨last, hrange, hiff⟩ := h.equalRange_eq hsz hcut
  rw [PresortedSet.find, hrange, hcut.place_eq h.sorted, Option.bind_eq_bind, Option.bind_some]
  exact congrArg some (if_congr hiff rfl rfl)

theorem findAnswer_eq {s : PresortedSet FieldTrait} (h : Formed FieldTrait.fnum s table)
    (hsz : table.length = s.sz) :
    ∃ i, s.findAnswer FieldTrait.fnum field = some (some i, (place table field).isSome) ∧
      ∀ j, place table field = some j → j = i := by
  obtain ⟨before, behind, hsplit, hbefore, hbehind⟩ := h.sorted.cut field
  have hcut : Cut FieldTrait.fnum table field before behind := ⟨hsplit, hbefore, hbehind⟩
  obtain ⟨answer, hanswer, hiff⟩ := h.findAnswer_eq hsz hcut
  refine ⟨before.length, ?_, fun j hj => ?_⟩
  · rw [hanswer, hcut.place_eq h.sorted]
    by_cases hmem : ∃ t ∈ table, t.fnum = field
    · rw [if_pos hmem, hiff.2 hmem, Option.isSome_some]
    · rw [if_neg hmem, Bool.eq_false_iff.2 (mt hiff.1 hmem), Option.isSome_none]
  · rw [hcut.place_eq h.sorted] at hj
    split at hj
    · exact (Option.some.inj hj).symm
    · cases hj

/-! ## The finds of a set -/

/-- Two results of a `find`, with no read outside of an array: both `end()`, or pointers to the same
element. -/
def SameFound (p q : Presence) (r r' : Option (Option Nat)) : Prop :=
  ∃ found, r = some found ∧ r' = some found ∧ found.bind p.set.read = found.bind q.set.read

/-- Two results of a `find` with an answer, which is the same; an element that has been found is. -/
def SameAnswer (p q : Presence) (r r' : Option (Option Nat × Bool)) : Prop :=
  ∃ answer found found', r = some (found, answer) ∧ r' = some (found', answer) ∧
    (answer = true → found = found' ∧ found.bind p.set.read = found'.bind q.set.read)

/-- Each `find` gives the same for two sets. -/
structure SameFinds (p q : Presence) : Prop where
  answer : ∀ what, SameAnswer p q (p.findAnswer what) (q.findAnswer what)
  answerKey : ∀ key, SameAnswer p q (p.findAnswerKey key) (q.findAnswerKey key)
  keyConst : ∀ key, SameFound p q (p.findKeyConst key) (q.findKeyConst key)
  const : ∀ what, SameFound p q (p.findConst what) (q.findConst what)
  key : ∀ key, SameFound p q (p.findKey key) (q.findKey key)
  value : ∀ what, SameFound p q (p.find what) (q.find what)

theorem formed_ofHashed (hsorted : SortedBy FieldTrait.fnum table) :
    Formed FieldTrait.fnum (Presence.ofHashed table ftha).set table where
  sorted := hsorted
  size := fun _ _ => rfl
  stored := by
    rintro b hb
    obtain rfl := Option.some.inj hb
    exact ⟨[], (List.append_nil _).symm⟩
  room := by
    rintro b r - hr
    cases hr
  empty := fun harr => absurd harr (by simp [Presence.ofHashed])

/-- The element that a set of a table finds is the one that the codec takes. -/
theorem element_eq {s : PresortedSet FieldTrait} (h : Formed FieldTrait.fnum s table) :
    (place table field).bind s.read = FieldTraits.find table field := by
  rw [FieldTraits.find, List.find?_eq_bind_findIdx?_getElem?]
  refine Option.bind_congr fun i hi => ?_
  obtain ⟨hlt, -⟩ := List.findIdx?_eq_some_iff_getElem.1 hi
  exact h.read hlt

/-- **Lookup by hash array and by search** are the same, and read inside the arrays. -/
theorem hash_array_finds (hne : table ≠ []) (hsorted : SortedBy FieldTrait.fnum table)
    (htags : ∀ t ∈ table, t.fnum < 65536) (reserve : Nat) :
    ∃ ftha, FieldTraitHashArray.create table = some ftha ∧
      SameFinds (Presence.ofHashed table ftha) (Presence.ofStatic table reserve) := by
  obtain ⟨ftha, hcreate, hindexes⟩ := create_indexes hne hsorted htags
  have hhashed : Formed FieldTrait.fnum (Presence.ofHashed table ftha).set table :=
    formed_ofHashed hsorted
  have hstatic : Formed FieldTrait.fnum (Presence.ofStatic table reserve).set table :=
    formed_ofStatic hsorted
  have hsame : ∀ field, SameFound (Presence.ofHashed table ftha) (Presence.ofStatic table reserve)
      (some (place table field)) (some (place table field)) := fun field =>
    ⟨_, rfl, rfl, (element_eq hhashed).trans (element_eq hstatic).symm⟩
  have hanswer : ∀ what : FieldTrait, SameAnswer (Presence.ofHashed table ftha)
      (Presence.ofStatic table reserve) ((Presence.ofHashed table ftha).findAnswer what)
      ((Presence.ofStatic table reserve).findAnswer what) := by
    intro what
    obtain ⟨i, hi, hplace⟩ := findAnswer_eq hstatic rfl
    refine ⟨_, _, _, congrArg (Option.map _) (hindexes.hashed_eq hne hsorted), hi, fun hfound => ?_⟩
    obtain ⟨j, hj⟩ := Option.isSome_iff_exists.1 hfound
    rw [hj, hplace j hj]
    have helement : (place table what.fnum).bind (Presence.ofHashed table ftha).set.read =
        (place table what.fnum).bind (Presence.ofStatic table reserve).set.read :=
      (element_eq hhashed).trans (element_eq hstatic).symm
    rw [hj, hplace j hj] at helement
    exact ⟨rfl, helement⟩
  have hlookup : ∀ field, SameFound (Presence.ofHashed table ftha) (Presence.ofStatic table reserve)
      ((Presence.ofHashed table ftha).lookup field)
      ((Presence.ofStatic table reserve).lookup field) := by
    intro field
    have hleft : (Presence.ofHashed table ftha).lookup field = some (place table field) :=
      hindexes.hashed_eq hne hsorted
    have hright : (Presence.ofStatic table reserve).lookup field = some (place table field) :=
      find_eq hstatic rfl
    rw [hleft, hright]
    exact hsame field
  refine ⟨ftha, hcreate, hanswer, fun key => hanswer _, hlookup, fun what => hlookup _, hlookup,
    fun what => ?_⟩
  have hleft : (Presence.ofHashed table ftha).find what = some (place table what.fnum) :=
    find_eq hhashed rfl
  have hright : (Presence.ofStatic table reserve).find what = some (place table what.fnum) :=
    find_eq hstatic rfl
  rw [hleft, hright]
  exact hsame what.fnum

/-! ## Three tags of a header -/

/-- BeginString, BodyLength and MsgType. -/
def headerTraits : List FieldTrait :=
  [{ fnum := 8, pos := 1 }, { fnum := 9, ftype := .length, pos := 2 }, { fnum := 35, pos := 3 }]

theorem hash_array_finds_header : ∃ ftha, FieldTraitHashArray.create headerTraits = some ftha ∧
    SameFinds (Presence.ofHashed headerTraits ftha) (Presence.ofStatic headerTraits 100) :=
  hash_array_finds (by decide) (by unfold SortedBy; decide) (by decide) 100

end Fix8.Codec
