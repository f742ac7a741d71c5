import Mathlib.Tactic.Common
import Mathlib.Order.Lattice
import Mathlib.Data.Nat.Basic

/-!
# Ordered maps

A map from the keys of a linear order, kept as its entries in ascending key order, with the
order as a field: what an iteration over the map visits is the list itself. `insert` is the
insertion that leaves an existing key alone, `replace` writes to an existing key only.

* `get?_insert`, `get?_replace`, `get?_erase`: the value under a key after an update;
* `get?_foldl_insert`, `foldl_insert_perm`: a map built from the elements of a list;
* `lastKey_isGreatest`, `next?_isLeast`: the last key and the key an iterator moves to.
-/

namespace Lib

/-- The first value under `k` in a list of entries. -/
def lookupKey {κ α : Type} [DecidableEq κ] (k : κ) : List (κ × α) → Option α
  | [] => none
  | e :: l => if e.1 = k then some e.2 else lookupKey k l

/-- `(k, v)` at its place in an ascending list, unless `k` is there already. -/
def insertKey {κ α : Type} [LinearOrder κ] (k : κ) (v : α) : List (κ × α) → List (κ × α)
  | [] => [(k, v)]
  | e :: l => if k < e.1 then (k, v) :: e :: l else if k = e.1 then e :: l else
      e :: insertKey k v l

section Entries
variable {κ α : Type} [LinearOrder κ] {k k' : κ} {v v' : α} {l : List (κ × α)}

theorem mem_insertKey : (k', v') ∈ insertKey k v l →
    (k' = k ∧ v' = v) ∨ (k', v') ∈ l := by
  induction l with
  | nil => simp [insertKey]
  | cons e l ih =>
    unfold insertKey
    split
    · simp
    · split
      · exact Or.inr
      · simp only [List.mem_cons]
        rintro (rfl | h)
        · exact Or.inr (Or.inl rfl)
        · exact (ih h).imp_right Or.inr

theorem mem_insertKey_iff (h : lookupKey k l = none) {e : κ × α} :
    e ∈ insertKey k v l ↔ e = (k, v) ∨ e ∈ l := by
  induction l with
  | nil => simp [insertKey]
  | cons e' l ih =>
    unfold lookupKey at h
    split at h
    · cases h
    · rename_i hne
      unfold insertKey
      split
      · simp
      · rw [if_neg (Ne.symm hne), List.mem_cons, List.mem_cons, ih h]
        exact or_left_comm

theorem insertKey_sorted (h : l.Pairwise (fun a b => a.1 < b.1)) :
    (insertKey k v l).Pairwise (fun a b => a.1 < b.1) := by
  induction l with
  | nil => simp [insertKey]
  | cons e l ih =>
    obtain ⟨he, hl⟩ := List.pairwise_cons.1 h
    unfold insertKey
    split
    · rename_i hlt
      refine List.pairwise_cons.2 ⟨fun b hb => ?_, h⟩
      rcases List.mem_cons.1 hb with rfl | hb
      · exact hlt
      · exact hlt.trans (he b hb)
    · split
      · exact h
      · rename_i hge hne
        refine List.pairwise_cons.2 ⟨fun b hb => ?_, ih hl⟩
        rcases mem_insertKey hb with ⟨hk, -⟩ | hb
        · exact hk ▸ lt_of_le_of_ne (not_lt.1 hge) (Ne.symm hne)
        · exact he b hb

theorem lookupKey_eq_none : lookupKey k l = none ↔ ∀ e ∈ l, e.1 ≠ k := by
  induction l with
  | nil => simp [lookupKey]
  | cons e l ih =>
    unfold lookupKey
    split
    · rename_i he
      simp [he]
    · rename_i he
      simp [ih, he]

theorem lookupKey_append {l' : List (κ × α)} :
    lookupKey k (l ++ l') = (lookupKey k l).or (lookupKey k l') := by
  induction l with
  | nil => rfl
  | cons e l ih =>
    rw [List.cons_append, lookupKey, lookupKey, ih]
    split <;> rfl

theorem lookupKey_eq_some (h : l.Pairwise (fun a b => a.1 < b.1)) :
    lookupKey k l = some v ↔ (k, v) ∈ l := by
  induction l with
  | nil => simp [lookupKey]
  | cons e l ih =>
    obtain ⟨he, hl⟩ := List.pairwise_cons.1 h
    obtain ⟨ke, ve⟩ := e
    unfold lookupKey
    split
    · rename_i hk
      obtain rfl : ke = k := hk
      constructor
      · intro hv
        simp only [Option.some.injEq] at hv
        simp [hv]
      · intro hm
        rcases List.mem_cons.1 hm with h1 | h1
        · rw [(Prod.mk.injEq ..).mp h1 |>.2]
        · exact absurd (he _ h1) (lt_irrefl _)
    · rename_i hk
      rw [ih hl]
      constructor
      · exact List.mem_cons_of_mem _
      · intro hm
        rcases List.mem_cons.1 hm with h1 | h1
        · exact absurd ((Prod.mk.injEq ..).mp h1).1.symm hk
        · exact h1

theorem lookupKey_insertKey (h : l.Pairwise (fun a b => a.1 < b.1)) :
    lookupKey k' (insertKey k v l) =
      if k' = k then some ((lookupKey k l).getD v) else lookupKey k' l := by
  induction l with
  | nil =>
    by_cases hk : k' = k
    · simp [insertKey, lookupKey, hk]
    · simp [insertKey, lookupKey, hk, Ne.symm hk]
  | cons e l ih =>
    obtain ⟨he, hl⟩ := List.pairwise_cons.1 h
    unfold insertKey
    split
    · rename_i hlt
      have hnone : lookupKey k (e :: l) = none := by
        rw [lookupKey_eq_none]
        intro b hb
        rcases List.mem_cons.1 hb with rfl | hb
        · exact ne_of_gt hlt
        · exact ne_of_gt (hlt.trans (he b hb))
      by_cases hk : k' = k
      · simp only [hk, if_true, hnone, Option.getD_none]
        simp [lookupKey]
      · simp [lookupKey, hk, Ne.symm hk]
    · split
      · rename_i hke
        by_cases hk : k' = k
        · simp [hk, lookupKey, hke]
        · simp [hk]
      · rename_i hne
        by_cases hk : k' = k
        · subst hk
          simp only [lookupKey, Ne.symm hne, if_false, ih hl, if_true]
        · simp only [lookupKey, ih hl, hk, if_false]

/-- A new key adds its entry. -/
theorem insertKey_perm (h : lookupKey k l = none) : (insertKey k v l).Perm ((k, v) :: l) := by
  induction l with
  | nil => exact List.Perm.refl _
  | cons e l ih =>
    unfold lookupKey at h
    split at h
    · cases h
    · rename_i hne
      unfold insertKey
      split
      · exact List.Perm.refl _
      · rw [if_neg (Ne.symm hne)]
        exact ((ih h).cons e).trans (List.Perm.swap _ _ l)

theorem lookupKey_replace :
    lookupKey k' (l.map fun e => if e.1 = k then (e.1, v) else e) =
      if k' = k then (lookupKey k l).map (fun _ => v) else lookupKey k' l := by
  induction l with
  | nil => simp [lookupKey]
  | cons e l ih =>
    rw [List.map_cons, lookupKey, lookupKey, lookupKey, ih]
    by_cases he : e.1 = k
    · by_cases hk : k' = k
      · simp [he, hk]
      · simp [he, hk, Ne.symm hk]
    · by_cases hk : k' = k
      · simp [he, hk]
      · simp [he, hk]

theorem lookupKey_erase :
    lookupKey k' (l.filter fun e => e.1 ≠ k) = if k' = k then none else lookupKey k' l := by
  induction l with
  | nil => simp [lookupKey]
  | cons e l ih =>
    by_cases he : e.1 = k
    · rw [List.filter_cons_of_neg (by simpa using he), ih, lookupKey]
      by_cases hk : k' = k
      · simp [hk]
      · simp [he, hk, Ne.symm hk]
    · rw [List.filter_cons_of_pos (by simpa using he), lookupKey, lookupKey, ih]
      by_cases hk : k' = k
      · simp [he, hk]
      · simp [hk]

end Entries

/-- A map with ascending keys. -/
structure OrdMap (κ α : Type) [LinearOrder κ] where
  entries : List (κ × α)
  sorted : entries.Pairwise (fun a b => a.1 < b.1)
deriving DecidableEq

namespace OrdMap

variable {κ α : Type} [LinearOrder κ]

def empty : OrdMap κ α := ⟨[], List.Pairwise.nil⟩

/-- The value under `k`. -/
def get? (m : OrdMap κ α) (k : κ) : Option α := lookupKey k m.entries

/-- The map with `v` under `k`, unless `k` is in the map. -/
def insert (m : OrdMap κ α) (k : κ) (v : α) : OrdMap κ α :=
  ⟨insertKey k v m.entries, insertKey_sorted m.sorted⟩

/-- The map with `v` under `k` if `k` is in the map. -/
def replace (m : OrdMap κ α) (k : κ) (v : α) : OrdMap κ α :=
  ⟨m.entries.map fun e => if e.1 = k then (e.1, v) else e,
    List.pairwise_map.2 (m.sorted.imp fun h => by split <;> split <;> exact h)⟩

/-- The map without `k`. -/
def erase (m : OrdMap κ α) (k : κ) : OrdMap κ α :=
  ⟨m.entries.filter fun e => e.1 ≠ k, m.sorted.filter _⟩

/-- The map with each value changed. -/
def mapVal {β : Type} (m : OrdMap κ α) (f : κ → α → β) : OrdMap κ β :=
  ⟨m.entries.map fun e => (e.1, f e.1 e.2), List.pairwise_map.2 m.sorted⟩

/-- The last key. -/
def lastKey? (m : OrdMap κ α) : Option κ := m.entries.getLast?.map Prod.fst

/-- The first key after `k`: where an iterator at `k` moves to. -/
def next? (m : OrdMap κ α) (k : κ) : Option κ :=
  (m.entries.find? (fun e => decide (k < e.1))).map Prod.fst

variable {m : OrdMap κ α} {k k' : κ} {v : α}

@[simp] theorem get?_empty : (empty : OrdMap κ α).get? k = none := rfl

theorem get?_insert : (m.insert k v).get? k' =
    if k' = k then some ((m.get? k).getD v) else m.get? k' := lookupKey_insertKey m.sorted

theorem get?_insert_of_ne (h : k' ≠ k) : (m.insert k v).get? k' = m.get? k' := by
  rw [get?_insert, if_neg h]

theorem get?_eq_some : m.get? k = some v ↔ (k, v) ∈ m.entries := lookupKey_eq_some m.sorted

theorem get?_isSome : (m.get? k).isSome ↔ ∃ e ∈ m.entries, e.1 = k := by
  rw [Option.isSome_iff_ne_none, Ne, get?, lookupKey_eq_none]
  push Not
  rfl

theorem get?_replace : (m.replace k v).get? k' =
    if k' = k then (m.get? k).map (fun _ => v) else m.get? k' := lookupKey_replace

theorem get?_erase : (m.erase k).get? k' = if k' = k then none else m.get? k' := lookupKey_erase

theorem get?_mapVal {β : Type} {f : κ → α → β} : (m.mapVal f).get? k = (m.get? k).map (f k) := by
  obtain ⟨l, hl⟩ := m
  show lookupKey k (l.map fun e => (e.1, f e.1 e.2)) = (lookupKey k l).map (f k)
  clear hl
  induction l with
  | nil => rfl
  | cons e l ih =>
    rw [List.map_cons, lookupKey, lookupKey]
    split
    · rename_i hk
      rw [← hk]
      rfl
    · exact ih

/-- `next? k` is the least key above `k`. -/
theorem next?_eq_some (h : m.next? k = some k') :
    k < k' ∧ (m.get? k').isSome ∧ ∀ j, k < j → (m.get? j).isSome → k' ≤ j := by
  obtain ⟨e, he, rfl⟩ := Option.map_eq_some_iff.1 h
  obtain ⟨hp, as, bs, hl, has⟩ := List.find?_eq_some_iff_append.1 he
  refine ⟨of_decide_eq_true hp, get?_isSome.2 ⟨e, hl ▸ by simp, rfl⟩, fun j hj hs => ?_⟩
  obtain ⟨e', he', rfl⟩ := get?_isSome.1 hs
  rw [hl, List.mem_append] at he'
  rcases he' with h1 | h1
  · exact absurd hj (by simpa using has e' h1)
  · rcases List.mem_cons.1 h1 with rfl | h1
    · exact le_refl _
    · have hs := m.sorted
      rw [hl] at hs
      exact le_of_lt ((List.pairwise_cons.1 (List.pairwise_append.1 hs).2.1).1 e' h1)

theorem next?_eq_none : m.next? k = none ↔ ∀ j, k < j → m.get? j = none := by
  constructor
  · intro h j hj
    by_contra hs
    obtain ⟨e, he, rfl⟩ := get?_isSome.1 (Option.isSome_iff_ne_none.2 hs)
    have := List.find?_eq_none.1 (Option.map_eq_none_iff.1 h) e he
    exact this (decide_eq_true hj)
  · intro h
    refine Option.map_eq_none_iff.2 (List.find?_eq_none.2 fun e he hlt => ?_)
    have hs := get?_isSome.2 ⟨e, he, rfl⟩
    rw [h e.1 (of_decide_eq_true hlt)] at hs
    exact absurd hs (by simp)

/-- The key an iterator moves to, pinned down. -/
theorem next?_of_isLeast (hlt : k < k') (hk : (m.get? k').isSome)
    (hleast : ∀ j, k < j → j < k' → m.get? j = none) : m.next? k = some k' := by
  cases h : m.next? k with
  | none => rw [next?_eq_none.1 h k' hlt] at hk; exact absurd hk (by simp)
  | some j =>
    obtain ⟨h1, h2, h3⟩ := next?_eq_some h
    refine congrArg some (le_antisymm (h3 k' hlt hk) ?_)
    by_contra hj
    rw [hleast j h1 (not_le.1 hj)] at h2
    exact absurd h2 (by simp)

/-- `lastKey?` is the greatest key. -/
theorem lastKey?_eq_some (h : m.lastKey? = some k) :
    (m.get? k).isSome ∧ ∀ j, (m.get? j).isSome → j ≤ k := by
  obtain ⟨e, he, rfl⟩ := Option.map_eq_some_iff.1 h
  obtain ⟨as, hl⟩ := List.getLast?_eq_some_iff.1 he
  refine ⟨get?_isSome.2 ⟨e, hl ▸ by simp, rfl⟩, fun j hj => ?_⟩
  obtain ⟨e', he', rfl⟩ := get?_isSome.1 hj
  rw [hl, List.mem_append] at he'
  rcases he' with h1 | h1
  · have hs := m.sorted
    rw [hl] at hs
    exact le_of_lt ((List.pairwise_append.1 hs).2.2 e' h1 e (by simp))
  · exact le_of_eq (by rw [List.mem_singleton.1 h1])

theorem lastKey?_eq_none (h : m.lastKey? = none) : m.get? k = none := by
  have hl := List.getLast?_eq_none_iff.1 (Option.map_eq_none_iff.1 h)
  simp [get?, hl, lookupKey]

theorem le_lastKey {d : κ} (h : (m.get? k).isSome) : k ≤ m.lastKey?.getD d := by
  cases hl : m.lastKey? with
  | none =>
    rw [lastKey?_eq_none hl] at h
    cases h
  | some k' => exact (lastKey?_eq_some hl).2 k h

/-! ## Keys -/

/-- The keys, ascending. -/
def keys (m : OrdMap κ α) : List κ := m.entries.map Prod.fst

theorem mem_keys : k ∈ m.keys ↔ (m.get? k).isSome := by
  rw [get?_isSome, keys, List.mem_map]

theorem keys_sorted : m.keys.Pairwise (· < ·) := List.pairwise_map.2 m.sorted

theorem lastKey?_eq : m.lastKey? = m.keys.getLast? := List.getLast?_map.symm

/-- The keys are determined by where there is a value. -/
theorem keys_congr {β : Type} {m' : OrdMap κ β}
    (h : ∀ k, (m.get? k).isSome = (m'.get? k).isSome) : m.keys = m'.keys := by
  refine List.Perm.eq_of_pairwise (fun a b _ _ hab hba => absurd (hab.trans hba) (lt_irrefl _))
    keys_sorted keys_sorted ?_
  have nodup : ∀ {l : List κ}, l.Pairwise (· < ·) → l.Nodup :=
    fun hl => hl.imp fun hab => ne_of_lt hab
  refine (List.perm_ext_iff_of_nodup (nodup keys_sorted) (nodup keys_sorted)).2 fun k => ?_
  rw [mem_keys, mem_keys, h]

/-! ## Maps built from lists -/

section OfList
variable {key : α → κ} {l : List α}

/-- Of the entries that the elements of a list give a map, the first with a key stays. -/
theorem get?_foldl_entry {β : Type} {key : β → κ} {val : β → α} {l : List β} :
    (l.foldl (fun m b => m.insert (key b) (val b)) m).get? k =
      (m.get? k).or ((l.find? fun b => key b = k).map val) := by
  induction l generalizing m with
  | nil => simp
  | cons b l ih =>
    rw [List.foldl_cons, ih, get?_insert, List.find?_cons]
    by_cases hk : k = key b
    · subst hk
      cases m.get? (key b) <;> simp
    · simp [hk, Ne.symm hk]

theorem get?_foldl_insert : (l.foldl (fun m a => m.insert (key a) a) m).get? k =
    (m.get? k).or (l.find? fun a => key a = k) := by
  rw [get?_foldl_entry, Option.map_id']

/-- Elements with new and different keys are all in the map. -/
theorem foldl_insert_perm (hnew : ∀ a ∈ l, m.get? (key a) = none) (hnodup : (l.map key).Nodup) :
    (l.foldl (fun m a => m.insert (key a) a) m).entries.Perm
      (m.entries ++ l.map fun a => (key a, a)) := by
  induction l generalizing m with
  | nil => simp
  | cons a l ih =>
    obtain ⟨ha, hl⟩ := List.nodup_cons.1 hnodup
    have hone : (m.insert (key a) a).entries.Perm ((key a, a) :: m.entries) :=
      insertKey_perm (hnew a List.mem_cons_self)
    refine (ih (fun b hb => ?_) hl).trans ?_
    · have hne : key b ≠ key a := fun he => ha (he ▸ List.mem_map_of_mem hb)
      rw [get?_insert_of_ne hne]
      exact hnew b (List.mem_cons_of_mem _ hb)
    · exact (hone.append_right _).trans List.perm_middle.symm

end OfList

/-! ## Ranges of keys -/

/-- The entries with a key in `[lo, hi]`, ascending. -/
def range (m : OrdMap κ α) (lo hi : κ) : List (κ × α) :=
  m.entries.filter fun e => decide (lo ≤ e.1) && decide (e.1 ≤ hi)

/-- The entries with a key in `(lo, hi]`, ascending. -/
def above (m : OrdMap κ α) (lo hi : κ) : List (κ × α) :=
  m.entries.filter fun e => decide (lo < e.1) && decide (e.1 ≤ hi)

section Range
variable {lo hi : κ} {e : κ × α}

theorem mem_range : e ∈ m.range lo hi ↔ m.get? e.1 = some e.2 ∧ lo ≤ e.1 ∧ e.1 ≤ hi := by
  simp [range, get?_eq_some]

theorem mem_above : e ∈ m.above lo hi ↔ m.get? e.1 = some e.2 ∧ lo < e.1 ∧ e.1 ≤ hi := by
  simp [above, get?_eq_some]

theorem range_sorted : (m.range lo hi).Pairwise (fun a b => a.1 < b.1) := m.sorted.filter _

theorem above_sorted : (m.above lo hi).Pairwise (fun a b => a.1 < b.1) := m.sorted.filter _

/-- Two ascending lists with the same entries are the same list. -/
theorem eq_of_sorted {l l' : List (κ × α)} (h : l.Pairwise (fun a b => a.1 < b.1))
    (h' : l'.Pairwise (fun a b => a.1 < b.1)) (hm : ∀ e, e ∈ l ↔ e ∈ l') : l = l' := by
  have irrefl : ∀ {l : List (κ × α)}, l.Pairwise (fun a b => a.1 < b.1) → l.Nodup :=
    fun hl => hl.imp fun hab he => absurd (he ▸ hab) (lt_irrefl _)
  have asymm : ∀ a b, a ∈ l → b ∈ l' → a.1 < b.1 → b.1 < a.1 → a = b :=
    fun a b _ _ hab hba => absurd (hab.trans hba) (lt_irrefl _)
  refine List.Perm.eq_of_pairwise asymm h h' ?_
  exact (List.perm_ext_iff_of_nodup (irrefl h) (irrefl h')).2 hm

/-- A map is determined by its values. -/
theorem ext_get? {m m' : OrdMap κ α} (h : ∀ k, m.get? k = m'.get? k) : m = m' := by
  have hentries : m.entries = m'.entries := by
    refine eq_of_sorted m.sorted m'.sorted fun e => ?_
    rw [← get?_eq_some, ← get?_eq_some, h]
  cases m
  cases m'
  cases hentries
  rfl

/-- Two maps with the same entries, in whatever order, are the same. -/
theorem eq_of_perm {m m' : OrdMap κ α} (h : m.entries.Perm m'.entries) : m = m' :=
  ext_get? fun k => Option.ext fun v => by rw [get?_eq_some, get?_eq_some, h.mem_iff]

/-- A range that starts at a key. -/
theorem range_eq_cons (hk : m.get? k = some v) (hle : k ≤ hi) :
    m.range k hi = (k, v) :: m.above k hi := by
  refine eq_of_sorted range_sorted (List.pairwise_cons.2
    ⟨fun b hb => (mem_above.1 hb).2.1, above_sorted⟩) fun e => ?_
  rw [mem_range, List.mem_cons, mem_above]
  constructor
  · rintro ⟨h1, h2, h3⟩
    rcases lt_or_eq_of_le h2 with h | h
    · exact .inr ⟨h1, h, h3⟩
    · subst h
      rw [hk] at h1
      exact .inl (Prod.ext rfl (Option.some.inj h1).symm)
  · rintro (rfl | ⟨h1, h2, h3⟩)
    · exact ⟨hk, le_refl _, hle⟩
    · exact ⟨h1, le_of_lt h2, h3⟩

/-- An iterator that moves from `k` to `k'` leaves the entries from `k'` on. -/
theorem above_eq_range (h : m.next? k = some k') : m.above k hi = m.range k' hi := by
  obtain ⟨hlt, -, hleast⟩ := next?_eq_some h
  refine eq_of_sorted above_sorted range_sorted fun e => ?_
  rw [mem_above, mem_range]
  constructor
  · rintro ⟨h1, h2, h3⟩
    exact ⟨h1, hleast _ h2 (by rw [h1]; rfl), h3⟩
  · rintro ⟨h1, h2, h3⟩
    exact ⟨h1, lt_of_lt_of_le hlt h2, h3⟩

theorem above_eq_nil (h : m.next? k = none) : m.above k hi = [] := by
  refine List.eq_nil_iff_forall_not_mem.2 fun e he => ?_
  obtain ⟨h1, h2, -⟩ := mem_above.1 he
  rw [next?_eq_none.1 h _ h2] at h1
  cases h1

theorem range_eq_nil (h : ∀ j, lo ≤ j → j ≤ hi → m.get? j = none) : m.range lo hi = [] := by
  refine List.eq_nil_iff_forall_not_mem.2 fun e he => ?_
  obtain ⟨h1, h2, h3⟩ := mem_range.1 he
  rw [h _ h2 h3] at h1
  cases h1

/-- Where an iterator moves to is determined by the values above it. -/
theorem next?_congr {m' : OrdMap κ α} (h : ∀ j, k < j → m'.get? j = m.get? j) :
    m'.next? k = m.next? k := by
  cases hn : m.next? k with
  | none =>
    rw [next?_eq_none] at hn ⊢
    exact fun j hj => (h j hj).trans (hn j hj)
  | some j =>
    obtain ⟨h1, h2, h3⟩ := next?_eq_some hn
    refine next?_of_isLeast h1 (by rwa [h j h1]) fun i hi hij => ?_
    rw [h i hi]
    by_contra hs
    exact absurd (h3 i hi (Option.isSome_iff_ne_none.2 hs)) (not_le.2 hij)

end Range

end OrdMap

end Lib
