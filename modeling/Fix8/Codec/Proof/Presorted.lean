import Fix8.Codec.Presorted
import Fix8.Lib.Run

/-!
# What a presorted set holds

* `Formed`: the elements of a set, in order, stand at the beginning of its array;
* `Formed.equalRange_eq`: the search finds where a key is, or where it belongs;
* **`Ready.insertWith`**: what an insertion does, by any search that is right.
-/

namespace Fix8.Codec

open Lib

/-! ## Memory -/

namespace Block

variable {α : Type} {b : Block α} {xs : List (Option α)} {i n : Nat}

theorem slice_eq (before : List (Option α)) {middle : List (Option α)}
    (behind : List (Option α)) (h : b.cells = before ++ middle ++ behind) (hi : i = before.length)
    (hn : n = middle.length) : b.slice i n = some middle := by
  subst hi hn
  unfold slice
  rw [h, if_pos (by simp only [List.length_append]; omega), List.append_assoc, List.drop_left,
    List.take_left]

theorem write_eq (before middle : List (Option α)) {behind : List (Option α)}
    (h : b.cells = before ++ middle ++ behind) (hi : i = before.length)
    (hxs : xs.length = middle.length) : b.write i xs = some ⟨b.id, before ++ xs ++ behind⟩ := by
  subst hi
  unfold write
  rw [h, hxs, ← List.length_append, if_pos (by simp only [List.length_append]; omega),
    List.drop_left, List.append_assoc before middle, List.take_left]

/-- The array begins with these elements. -/
def Holds (b : Block α) (xs : List α) : Prop := ∃ rest, b.cells = xs.map some ++ rest

theorem Holds.read {xs : List α} (h : b.Holds xs) {i : Nat} (hi : i < xs.length) :
    b.read i = xs[i]? := by
  obtain ⟨rest, hrest⟩ := h
  have hlt : i < (xs.map some).length := by rwa [List.length_map]
  rw [Block.read, hrest, List.getElem?_append_left hlt, List.getElem?_map,
    List.getElem?_eq_getElem hi]
  rfl

theorem Holds.length_le {xs : List α} (h : b.Holds xs) : xs.length ≤ b.cells.length := by
  obtain ⟨rest, hrest⟩ := h
  rw [hrest, List.length_append, List.length_map]
  exact Nat.le_add_right _ _

end Block

/-! ## Sorted lists -/

section
variable {α κ : Type} [LinearOrder κ] {key : α → κ} {what : κ} {xs : List α}

/-- The list is sorted by its keys, which are all different. -/
def SortedBy (key : α → κ) (xs : List α) : Prop := xs.Pairwise fun a b => key a < key b

/-- A sorted list is cut at a key, behind what is less. -/
theorem SortedBy.cut (h : SortedBy key xs) (what : κ) : ∃ before behind,
    xs = before ++ behind ∧ (∀ x ∈ before, key x < what) ∧ ∀ x ∈ behind, what ≤ key x := by
  refine ⟨xs.takeWhile (key · < what), xs.dropWhile (key · < what),
    List.takeWhile_append_dropWhile.symm, fun x hx => ?_, fun x hx => ?_⟩
  · simpa using List.mem_takeWhile_imp hx
  · have hsorted : SortedBy key (xs.dropWhile (key · < what)) :=
      h.sublist (List.dropWhile_sublist _)
    have hhead := List.head?_dropWhile_not (fun y => decide (key y < what)) xs
    cases hdrop : xs.dropWhile (key · < what) with
    | nil =>
      rw [hdrop] at hx
      cases hx
    | cons y rest =>
      rw [hdrop] at hx hhead hsorted
      have hy : what ≤ key y := not_lt.1 (by simpa using hhead)
      rcases List.mem_cons.1 hx with rfl | hmem
      · exact hy
      · exact hy.trans ((List.pairwise_cons.1 hsorted).1 x hmem).le

variable {before behind : List α}

/-- Where the key is, it is the first of what is not less. -/
theorem SortedBy.head_of_mem (h : SortedBy key (before ++ behind))
    (hbefore : ∀ x ∈ before, key x < what) (hbehind : ∀ x ∈ behind, what ≤ key x)
    (hmem : ∃ x ∈ before ++ behind, key x = what) :
    ∃ y rest, behind = y :: rest ∧ key y = what ∧ ∀ x ∈ rest, what < key x := by
  obtain ⟨x, hx, rfl⟩ := hmem
  rcases List.mem_append.1 hx with hlt | hge
  · exact absurd (hbefore x hlt) (lt_irrefl _)
  · cases behind with
    | nil => cases hge
    | cons y rest =>
      have hsorted : SortedBy key (y :: rest) := (List.pairwise_append.1 h).2.1
      have hless := (List.pairwise_cons.1 hsorted).1
      have hy : key y = key x := by
        rcases List.mem_cons.1 hge with rfl | hrest
        · rfl
        · exact absurd (hbehind y List.mem_cons_self) (not_le.2 (hless x hrest))
      exact ⟨y, rest, rfl, hy, fun z hz => hy ▸ hless z hz⟩

/-- A key that is new goes between. -/
theorem SortedBy.insert {x : α} (h : SortedBy key (before ++ behind))
    (hbefore : ∀ y ∈ before, key y < key x) (hbehind : ∀ y ∈ behind, key x ≤ key y)
    (hnew : ∀ y ∈ before ++ behind, key y ≠ key x) : SortedBy key (before ++ x :: behind) := by
  obtain ⟨hsorted, hsorted', hapart⟩ := List.pairwise_append.1 h
  refine List.pairwise_append.2 ⟨hsorted, List.pairwise_cons.2 ⟨fun y hy => ?_, hsorted'⟩,
    fun a ha b hb => ?_⟩
  · exact lt_of_le_of_ne (hbehind y hy) (hnew y (List.mem_append_right _ hy)).symm
  · rcases List.mem_cons.1 hb with rfl | hb
    · exact hbefore a ha
    · exact hapart a ha b hb

theorem SortedBy.partitioned_lt (h : SortedBy key xs) :
    Partitioned (fun x => decide (key x < what)) xs := by
  refine h.imp fun hab hb => ?_
  rw [decide_eq_true_eq] at hb ⊢
  exact hab.trans hb

theorem SortedBy.partitioned_le (h : SortedBy key xs) :
    Partitioned (fun x => decide (¬ what < key x)) xs := by
  refine h.imp fun hab hb => ?_
  rw [decide_eq_true_eq] at hb ⊢
  exact fun hlt => hb (hlt.trans hab)

end

/-! ## Sets -/

namespace PresortedSet

section
variable {α κ : Type} [LinearOrder κ]

/-- The set has these elements, sorted by their keys, at the beginning of its array. Without an array
it has none, whatever its size is. -/
structure Formed (key : α → κ) (s : PresortedSet α) (xs : List α) : Prop where
  sorted : SortedBy key xs
  size : ∀ b, s.arr = some b → xs.length = s.sz
  stored : ∀ b, s.arr = some b → b.Holds xs
  room : ∀ b r, s.arr = some b → s.rsz = some r → b.cells.length = r
  empty : s.arr = none → xs = []

variable {key : α → κ} {s : PresortedSet α} {xs before behind : List α} {b : Block α} {what x : α}
  {k : κ}

/-- The elements of a sorted list, cut at a key. -/
structure Cut (key : α → κ) (xs : List α) (k : κ) (before behind : List α) : Prop where
  split : xs = before ++ behind
  before : ∀ x ∈ before, key x < k
  behind : ∀ x ∈ behind, k ≤ key x

theorem Cut.takeWhile_lt (h : Cut key xs k before behind) :
    xs.takeWhile (fun x => decide (key x < k)) = before := by
  have hless : ∀ x ∈ before, decide (key x < k) = true := fun x hx => decide_eq_true (h.before x hx)
  rw [h.split, List.takeWhile_append_of_pos hless]
  cases behind with
  | nil => exact List.append_nil _
  | cons y rest =>
    rw [List.takeWhile_cons_of_neg (by simpa using h.behind y List.mem_cons_self),
      List.append_nil]

theorem Cut.length_takeWhile_le (h : Cut key xs k before behind) (hsorted : SortedBy key xs) :
    before.length ≠ (xs.takeWhile fun x => decide (¬ k < key x)).length ↔
      ∃ x ∈ xs, key x = k := by
  have hle : ∀ x ∈ before, decide (¬ k < key x) = true := fun x hx =>
    decide_eq_true (not_lt.2 (h.before x hx).le)
  have hsplit := h.split
  subst hsplit
  rw [List.takeWhile_append_of_pos hle, List.length_append]
  constructor
  · intro hne
    cases behind with
    | nil => exact absurd rfl hne
    | cons y rest =>
      by_cases hy : k < key y
      · rw [List.takeWhile_cons_of_neg (by simpa using hy)] at hne
        exact absurd rfl hne
      · exact ⟨y, List.mem_append_right _ List.mem_cons_self,
          le_antisymm (not_lt.1 hy) (h.behind y List.mem_cons_self)⟩
  · intro hmem
    obtain ⟨y, rest, rfl, hy, -⟩ := hsorted.head_of_mem h.before h.behind hmem
    rw [List.takeWhile_cons_of_pos (by simp [hy]), List.length_cons]
    omega

theorem Formed.read (h : Formed key s xs) {i : Nat} (hi : i < xs.length) :
    s.read i = xs[i]? := by
  cases harr : s.arr with
  | none =>
    rw [h.empty harr] at hi
    exact absurd hi (Nat.not_lt_zero i)
  | some b =>
    rw [PresortedSet.read, harr]
    exact (h.stored b harr).read hi

/-- **The search of a key.** -/
theorem Formed.equalRange_eq (h : Formed key s xs) (hsz : xs.length = s.sz)
    (hcut : Cut key xs k before behind) : ∃ last, s.equalRange key k = some (before.length, last) ∧
      (before.length ≠ last ↔ ∃ x ∈ xs, key x = k) := by
  have hread : ∀ i, i < xs.length → s.read i = xs[i]? := fun i hi => h.read hi
  refine ⟨_, ?_, hcut.length_takeWhile_le h.sorted⟩
  unfold PresortedSet.equalRange
  rw [← hsz, partitionPointM_eq hread, partitionPointM_eq hread,
    partitionPoint_eq h.sorted.partitioned_lt, partitionPoint_eq h.sorted.partitioned_le,
    hcut.takeWhile_lt]
  rfl

theorem Formed.findAnswer_eq (h : Formed key s xs) (hsz : xs.length = s.sz)
    (hcut : Cut key xs k before behind) : ∃ answer,
      s.findAnswer key k = some (some before.length, answer) ∧
        (answer = true ↔ ∃ x ∈ xs, key x = k) := by
  obtain ⟨last, hrange, hiff⟩ := h.equalRange_eq hsz hcut
  refine ⟨decide (before.length ≠ last), ?_, decide_eq_true_iff.trans hiff⟩
  rw [findAnswer, hrange]
  rfl

/-! ### Insertions -/

/-- The set with these elements in this array. -/
def holding (s : PresortedSet α) (id rsz : Nat) (xs : List α) (rest : List (Option α)) :
    PresortedSet α := ⟨s.reserve, xs.length, some rsz, some ⟨id, xs.map some ++ rest⟩⟩

theorem formed_holding {id rsz : Nat} {rest : List (Option α)} (hsorted : SortedBy key xs)
    (hroom : xs.length + rest.length = rsz) : Formed key (s.holding id rsz xs rest) xs where
  sorted := hsorted
  size := fun _ _ => rfl
  stored := by
    rintro b hb
    obtain rfl := Option.some.inj hb
    exact ⟨rest, rfl⟩
  room := by
    rintro b r hb hr
    obtain rfl := Option.some.inj hb
    obtain rfl := Option.some.inj hr
    rw [List.length_append, List.length_map, hroom]
  empty := fun harr => absurd harr (by simp [holding])

variable {find : α → Option (Option Nat × Bool)} {found : Option Nat} {r : Nat}

omit [LinearOrder κ] in
theorem calcReserve_pos {sz : Nat} (res : Nat) (h : sz ≠ 0) : 0 < calcReserve sz res := by
  unfold calcReserve
  rw [if_neg h]
  dsimp only
  split
  · rename_i hval
    exact Nat.pos_of_ne_zero hval
  · exact Nat.one_pos

/-- The first element. -/
theorem insertWith_first (hsz : s.sz = 0) (hr : s.rsz = some r) (hpos : 0 < r) :
    s.insertWith find what = some (s.holding s.nextId r [what] (List.replicate (r - 1) none),
      ⟨s.nextId, 0⟩, true) := by
  have hwrite : (Block.new s.nextId r).write 0 [some what] =
      some ⟨s.nextId, some what :: List.replicate (r - 1) none⟩ := by
    have hcells : (Block.new (α := α) s.nextId r).cells =
        [] ++ [none] ++ List.replicate (r - 1) none := by
      rw [Block.new, List.nil_append, List.singleton_append, ← List.replicate_succ,
        Nat.sub_add_cancel hpos]
    exact Block.write_eq _ _ hcells rfl rfl
  unfold insertWith
  rw [if_pos hsz, hr, Option.bind_eq_bind, Option.bind_some, hwrite]
  simp [holding, hsz]

/-- An element that is already there. -/
theorem insertWith_present (hsz : s.sz ≠ 0) (hb : s.arr = some b)
    (hfind : find what = some (found, true)) :
    s.insertWith find what = some (s, ⟨b.id, s.sz⟩, false) := by
  unfold insertWith
  rw [if_neg hsz, hfind, hb]
  rfl

/-- A search that delivers a null pointer. -/
theorem insertWith_null (hsz : s.sz ≠ 0) (hb : s.arr = some b)
    (hfind : find what = some (none, false)) : s.insertWith find what = none := by
  unfold insertWith
  rw [if_neg hsz, hfind, hb]
  rfl

/-- A new element, where there is room behind the others. -/
theorem insertWith_room {rest : List (Option α)} (hsz : s.sz ≠ 0)
    (hsize : (before ++ behind).length = s.sz) (hb : s.arr = some b)
    (hcells : b.cells = (before ++ behind).map some ++ rest)
    (hr : s.rsz = some r) (hroom : s.sz + rest.length = r) (hlt : s.sz < r)
    (hfind : find what = some (some before.length, false)) :
    s.insertWith find what =
      some (s.holding b.id r (before ++ what :: behind) rest.tail, ⟨b.id, before.length⟩, true) := by
  cases rest with
  | nil => exact absurd hroom (by simpa using Nat.ne_of_lt hlt)
  | cons unset rest =>
    rw [List.length_append] at hsize
    -- the elements behind move by one
    obtain ⟨first, moved, hmoved⟩ : ∃ first moved, behind.map some ++ [unset] = first :: moved :=
      List.exists_cons_of_ne_nil (by simp)
    have hlength : moved.length = behind.length := by
      simpa using (congrArg List.length hmoved).symm
    have hslice : b.slice before.length (s.sz - before.length) = some (behind.map some) := by
      refine Block.slice_eq (before.map some) (unset :: rest) ?_ ?_ ?_
      · rw [hcells, List.map_append]
      · rw [List.length_map]
      · rw [List.length_map]
        omega
    have hshift : b.write (before.length + 1) (behind.map some) =
        some ⟨b.id, before.map some ++ [first] ++ behind.map some ++ rest⟩ := by
      refine Block.write_eq (before.map some ++ [first]) moved ?_ ?_ ?_
      · have hwhole : behind.map some ++ unset :: rest = first :: moved ++ rest := by
          rw [← hmoved, List.append_assoc, List.singleton_append]
        rw [hcells, List.map_append, List.append_assoc, hwhole]
        simp
      · simp
      · rw [List.length_map, hlength]
    have hstore : Block.write ⟨b.id, before.map some ++ [first] ++ behind.map some ++ rest⟩
        before.length [some what] =
        some ⟨b.id, before.map some ++ [some what] ++ (behind.map some ++ rest)⟩ := by
      refine Block.write_eq (before.map some) [first] ?_ (by simp) rfl
      simp
    unfold insertWith
    rw [if_neg hsz, hfind, hb, hr]
    simp only [Option.bind_eq_bind, Option.bind_some, Bool.false_eq_true, if_false, if_pos hlt,
      hslice, hshift, hstore]
    simp [holding, hsize.symm, Nat.add_assoc]

/-- A new element, where the array is full. -/
theorem insertWith_grow {rest : List (Option α)} (hsz : s.sz ≠ 0)
    (hsize : (before ++ behind).length = s.sz) (hb : s.arr = some b)
    (hcells : b.cells = (before ++ behind).map some ++ rest) (hr : s.rsz = some r) (hge : ¬ s.sz < r)
    (hfind : find what = some (some before.length, false)) :
    s.insertWith find what =
      some (s.holding s.nextId (s.sz + calcReserve s.sz s.reserve) (before ++ what :: behind)
        (List.replicate (calcReserve s.sz s.reserve - 1) none), ⟨b.id, before.length⟩, true) := by
  rw [List.length_append] at hsize
  have hpos := calcReserve_pos s.reserve hsz
  have hsplit : b.cells = before.map some ++ behind.map some ++ rest := by
    rw [hcells, List.map_append]
  -- the three copies into the new array
  have hbegin : (if 0 < before.length then
        (b.slice 0 before.length).bind
          ((Block.new s.nextId (s.sz + calcReserve s.sz s.reserve)).write 0)
      else some (Block.new s.nextId (s.sz + calcReserve s.sz s.reserve))) =
      some ⟨s.nextId, before.map some ++ [none] ++
        List.replicate (behind.length + (calcReserve s.sz s.reserve - 1)) none⟩ := by
    have hnew : (Block.new (α := α) s.nextId (s.sz + calcReserve s.sz s.reserve)).cells =
        List.replicate before.length none ++ [none] ++
          List.replicate (behind.length + (calcReserve s.sz s.reserve - 1)) none := by
      have hlength : s.sz + calcReserve s.sz s.reserve =
          before.length + 1 + (behind.length + (calcReserve s.sz s.reserve - 1)) := by
        omega
      rw [Block.new, hlength, ← List.replicate_append_replicate,
        ← List.replicate_append_replicate]
      rfl
    split
    · have hread : b.slice 0 before.length = some (before.map some) :=
        Block.slice_eq [] (behind.map some ++ rest)
          (by rw [hsplit, List.nil_append, List.append_assoc]) rfl (by rw [List.length_map])
      rw [hread, Option.bind_some]
      exact (Block.write_eq [] _ (by rw [hnew, List.append_assoc]; rfl) rfl
        (by simp)).trans (by simp [Block.new])
    · rename_i hnone
      obtain rfl := List.eq_nil_of_length_eq_zero (Nat.eq_zero_of_not_pos hnone)
      exact congrArg (fun cells => some (Block.mk s.nextId cells)) hnew
  have hmiddle : Block.write ⟨s.nextId, before.map some ++ [none] ++
      List.replicate (behind.length + (calcReserve s.sz s.reserve - 1)) none⟩ before.length
      [some what] = some ⟨s.nextId, before.map some ++ [some what] ++
        List.replicate (behind.length + (calcReserve s.sz s.reserve - 1)) none⟩ :=
    Block.write_eq _ _ rfl (by simp) rfl
  have hslice : b.slice before.length (s.sz - before.length) = some (behind.map some) := by
    refine Block.slice_eq _ _ hsplit (by simp) ?_
    rw [List.length_map]
    omega
  have hend : Block.write ⟨s.nextId, before.map some ++ [some what] ++
      List.replicate (behind.length + (calcReserve s.sz s.reserve - 1)) none⟩ (before.length + 1)
      (behind.map some) = some ⟨s.nextId, before.map some ++ [some what] ++ behind.map some ++
        List.replicate (calcReserve s.sz s.reserve - 1) none⟩ := by
    refine Block.write_eq _ (List.replicate behind.length none) ?_ (by simp) (by simp)
    rw [List.append_assoc _ (List.replicate _ _), List.replicate_append_replicate]
  unfold insertWith
  rw [if_neg hsz, hfind, hb, hr]
  simp only [Option.bind_eq_bind, Option.bind_some, Bool.false_eq_true, if_false, if_neg hge,
    hbegin, hmiddle, hslice, hend]
  simp [holding, hsize.symm, Nat.add_assoc]

/-! ### One insertion -/

/-- A set as the constructors leave it, with space for an element at least. -/
structure Constructed (key : α → κ) (s : PresortedSet α) (xs : List α) : Prop extends
    Formed key s xs where
  space : ∃ r, s.rsz = some r ∧ 0 < r ∧ s.sz ≤ r

/-- A set with an array, or without elements. -/
structure Ready (key : α → κ) (s : PresortedSet α) (xs : List α) : Prop extends
    Constructed key s xs where
  counted : xs.length = s.sz

theorem Constructed.ready (h : Constructed key s xs) (harr : s.arr = none → s.sz = 0) :
    Ready key s xs := by
  refine ⟨h, ?_⟩
  cases hb : s.arr with
  | none => rw [h.empty hb, harr hb, List.length_nil]
  | some b => exact h.size b hb

theorem constructed_ofSize {sz reserve : Nat} (h : 1 ≤ reserve) :
    Constructed key (ofSize sz reserve) [] := by
  refine ⟨⟨List.Pairwise.nil, fun b hb => ?_, fun b hb => ?_, fun b r hb => ?_, fun _ => rfl⟩,
    _, rfl, ?_, Nat.le_add_right _ _⟩
  · cases hb
  · cases hb
  · cases hb
  · by_cases hsz : sz = 0
    · rw [hsz, calcReserve, if_pos rfl]
      omega
    · have hpos := calcReserve_pos reserve hsz
      omega

theorem formed_ofStatic {reserve : Nat} (hsorted : SortedBy key xs) :
    Formed key (ofStatic xs reserve) xs where
  sorted := hsorted
  size := fun _ _ => rfl
  stored := by
    rintro b hb
    obtain rfl := Option.some.inj hb
    exact ⟨_, rfl⟩
  room := by
    rintro b r hb hr
    obtain rfl := Option.some.inj hb
    obtain rfl := Option.some.inj hr
    simp
  empty := fun harr => absurd harr (by simp [ofStatic])

theorem constructed_ofStatic {reserve : Nat} (hsorted : SortedBy key xs) (h : 1 ≤ reserve) :
    Constructed key (ofStatic xs reserve) xs :=
  ⟨formed_ofStatic hsorted, (@constructed_ofSize α κ _ key xs.length reserve h).space⟩

theorem ready_holding {id rest} (hsorted : SortedBy key xs) (hroom : xs.length + List.length rest = r)
    (hpos : 0 < r) : Ready key (s.holding id r xs rest) xs :=
  ⟨⟨formed_holding hsorted hroom, r, rfl, hpos, hroom ▸ Nat.le_add_right _ _⟩, rfl⟩

/-- What an insertion of a new element leaves: the set with it between the others, and a pointer to
its place, which is one into the array of the set unless there was no room in that. -/
structure InsertedAt (key : α → κ) (s : PresortedSet α) (what : α) (before behind : List α)
    (s' : PresortedSet α) (it : Pointer) : Prop where
  ready : Ready key s' (before ++ what :: behind)
  index : it.index = before.length
  block : (∃ b, s'.arr = some b ∧ b.id = it.block) ↔ ¬ (s.sz ≠ 0 ∧ s.rsz = some s.sz)

/-- **An insertion**, by a search that is right. -/
theorem Ready.insertWith (h : Ready key s xs) (hcut : Cut key xs (key what) before behind)
    (hfind : s.sz ≠ 0 → ∃ answer, find what = some (some before.length, answer) ∧
      (answer = true ↔ ∃ x ∈ xs, key x = key what)) :
    ((∃ x ∈ xs, key x = key what) ∧ ∃ it, s.insertWith find what = some (s, it, false)) ∨
      (¬ ∃ x ∈ xs, key x = key what) ∧ ∃ s' it, s.insertWith find what = some (s', it, true) ∧
        InsertedAt key s what before behind s' it := by
  by_cases hmem : ∃ x ∈ xs, key x = key what
  · refine .inl ⟨hmem, ?_⟩
    have hsz : s.sz ≠ 0 := by
      obtain ⟨x, hx, -⟩ := hmem
      rw [← h.counted]
      exact List.length_pos_iff.2 (List.ne_nil_of_mem hx) |>.ne'
    obtain ⟨answer, hanswer, hiff⟩ := hfind hsz
    obtain rfl := hiff.2 hmem
    cases hb : s.arr with
    | none => exact absurd ((congrArg List.length (h.empty hb)).symm.trans h.counted).symm hsz
    | some b => exact ⟨_, insertWith_present hsz hb hanswer⟩
  · refine .inr ⟨hmem, ?_⟩
    obtain ⟨r, hr, hpos, hle⟩ := h.space
    have hsplit := hcut.split
    have hsorted : SortedBy key (before ++ what :: behind) :=
      (hsplit ▸ h.sorted).insert hcut.before hcut.behind fun y hy heq => hmem ⟨y, hsplit ▸ hy, heq⟩
    have hlength : (before ++ what :: behind).length = s.sz + 1 := by
      rw [← h.counted, hsplit]
      simp only [List.length_append, List.length_cons]
      omega
    by_cases hsz : s.sz = 0
    · have hnil : before ++ behind = [] := by
        rw [← hsplit]
        exact List.eq_nil_of_length_eq_zero (h.counted.trans hsz)
      obtain ⟨rfl, rfl⟩ := List.append_eq_nil_iff.1 hnil
      refine ⟨_, _, insertWith_first hsz hr hpos, ready_holding hsorted ?_ hpos, rfl, ?_⟩
      · rw [List.length_replicate]
        exact Nat.add_sub_of_le hpos
      · exact ⟨fun _ hfull => hfull.1 hsz, fun _ => ⟨_, rfl, rfl⟩⟩
    · obtain ⟨answer, hanswer, hiff⟩ := hfind hsz
      obtain rfl : answer = false := Bool.eq_false_iff.2 fun htrue => hmem (hiff.1 htrue)
      cases hb : s.arr with
      | none => exact absurd ((congrArg List.length (h.empty hb)).symm.trans h.counted).symm hsz
      | some b =>
        obtain ⟨rest, hcells⟩ := h.stored b hb
        have hroom : s.sz + rest.length = r := by
          rw [← h.room b r hb hr, hcells, List.length_append, List.length_map, h.counted]
        rw [hsplit] at hcells
        have hsize : (before ++ behind).length = s.sz := by
          rw [← hsplit, h.counted]
        by_cases hlt : s.sz < r
        · refine ⟨_, _, insertWith_room hsz hsize hb hcells hr hroom hlt hanswer,
            ready_holding hsorted ?_ hpos, rfl, ?_⟩
          · rw [hlength, List.length_tail]
            omega
          · refine ⟨fun _ hfull => ?_, fun _ => ⟨_, rfl, rfl⟩⟩
            exact Nat.ne_of_lt hlt (Option.some.inj (hfull.2.symm.trans hr))
        · have hreserve := calcReserve_pos s.reserve hsz
          refine ⟨_, _, insertWith_grow hsz hsize hb hcells hr hlt hanswer,
            ready_holding hsorted ?_ (by omega), rfl, ?_⟩
          · rw [hlength, List.length_replicate]
            omega
          · have hfull : s.rsz = some s.sz := by
              rw [hr]
              exact congrArg some (by omega)
            refine ⟨?_, fun hnot => absurd ⟨hsz, hfull⟩ hnot⟩
            rintro ⟨new, hnew, hid⟩
            obtain rfl := Option.some.inj hnew
            have hnext : s.nextId = b.id + 1 := by
              rw [nextId, hb]
              rfl
            exact absurd (hnext.symm.trans hid) (Nat.succ_ne_self _)

/-- **`insert`**. -/
theorem Ready.insert (h : Ready key s xs) (hcut : Cut key xs (key what) before behind) :
    ((∃ x ∈ xs, key x = key what) ∧ ∃ it, s.insert key what = some (s, it, false)) ∨
      (¬ ∃ x ∈ xs, key x = key what) ∧ ∃ s' it, s.insert key what = some (s', it, true) ∧
        InsertedAt key s what before behind s' it :=
  h.insertWith hcut fun _ => h.findAnswer_eq h.counted hcut

end

end PresortedSet

end Fix8.Codec
