import Mathlib.Tactic.Common

/-!
# Shifting files through a list of names

A directory with the renames done to it, and the loop that renames the file under each name of a
list to the next one, from the last down. The loop may go over several lists at once, in step; it
has no result where it reads a list behind its end.

* `shift_eq_none`: it does when a list is too short;
* **`shift_spec`**: else every file but the last of each list is kept, under the next name;
* `shift_numbered`: the same for names that are numbered.
-/

namespace Lib

/-- The files of a directory, and the renames that have been called. -/
structure Dir (ν α : Type) where
  files : ν → Option α
  renamed : List (ν × ν)

variable {ν α : Type} [DecidableEq ν]

namespace Dir

/-- `rename`: of a file that does not exist it fails, and a file under the new name is replaced. -/
def rename (d : Dir ν α) (old new : ν) : Dir ν α :=
  { files := match d.files old with
      | none => d.files
      | some c => fun x => if x = new then some c else if x = old then none else d.files x
    renamed := d.renamed ++ [(old, new)] }

variable {d : Dir ν α} {old new x : ν} {c : α}

theorem rename_new (h : d.files old = some c) : (d.rename old new).files new = some c := by
  simp [rename, h]

theorem rename_of_ne (h : x ≠ old) (h' : x ≠ new) : (d.rename old new).files x = d.files x := by
  unfold rename
  cases d.files old <;> simp [h, h']

@[simp] theorem rename_renamed : (d.rename old new).renamed = d.renamed ++ [(old, new)] := rfl

/-- One step of the loop: in each list the file under the name before `ii` goes to that at `ii`. -/
def shiftAt (ii : Nat) : List (List ν) → Dir ν α → Option (Dir ν α)
  | [], d => some d
  | names :: lists, d => do
    let old ← names[ii - 1]?
    let new ← names[ii]?
    shiftAt ii lists (d.rename old new)

/-- `for (ii = n; ii; --ii)`. -/
def shift (lists : List (List ν)) : Nat → Dir ν α → Option (Dir ν α)
  | 0, d => some d
  | ii + 1, d => do
    let d ← shiftAt (ii + 1) lists d
    shift lists ii d

/-! ## Lists that are too short -/

variable {lists : List (List ν)} {names names' : List ν} {n ii : Nat}

theorem shiftAt_eq_none (h : ∃ names ∈ lists, names.length ≤ ii) : shiftAt ii lists d = none := by
  induction lists generalizing d with
  | nil =>
    obtain ⟨names, hmem, -⟩ := h
    cases hmem
  | cons names lists ih =>
    obtain ⟨short, hmem, hlen⟩ := h
    rw [shiftAt]
    rcases List.mem_cons.1 hmem with rfl | hmem
    · rw [List.getElem?_eq_none hlen]
      cases short[ii - 1]? <;> rfl
    · cases names[ii - 1]? with
      | none => rfl
      | some old =>
        cases names[ii]? with
        | none => rfl
        | some new => exact ih ⟨short, hmem, hlen⟩

theorem shift_eq_none (hn : 0 < n) (h : ∃ names ∈ lists, names.length ≤ n) :
    shift lists n d = none := by
  obtain ⟨m, rfl⟩ := Nat.exists_eq_succ_of_ne_zero (Nat.ne_of_gt hn)
  rw [shift, shiftAt_eq_none h]
  rfl

/-! ## One step -/

omit [DecidableEq ν] in
/-- A name stands at one place. -/
theorem index_unique (h : lists.flatten.Nodup) (hm : names ∈ lists) (hm' : names' ∈ lists)
    {i j : Nat} (hi : names[i]? = some x) (hj : names'[j]? = some x) : i = j := by
  induction lists with
  | nil => cases hm
  | cons first lists ih =>
    rw [List.flatten_cons, List.nodup_append] at h
    obtain ⟨hfirst, hrest, hdisjoint⟩ := h
    have hx := List.mem_of_getElem? hi
    have hx' := List.mem_of_getElem? hj
    rcases List.mem_cons.1 hm with rfl | hin <;> rcases List.mem_cons.1 hm' with rfl | hin'
    · have hlt := (List.getElem?_eq_some_iff.1 hi).1
      exact (List.getElem?_inj hlt hfirst).1 (hi.trans hj.symm)
    · exact absurd rfl (hdisjoint x hx x (List.mem_flatten_of_mem hin' hx'))
    · exact absurd rfl (hdisjoint x hx' x (List.mem_flatten_of_mem hin hx))
    · exact ih hrest hin hin'

/-- The rename that a step does in a list. -/
def moveAt (ii : Nat) (names : List ν) : Option (ν × ν) := do
  let old ← names[ii - 1]?
  let new ← names[ii]?
  return (old, new)

/-- What one step does: in each list the file before `ii` is kept at `ii`, and other names are left
alone. -/
theorem shiftAt_spec (hnodup : lists.flatten.Nodup) (hlen : ∀ names ∈ lists, ii < names.length) :
    ∃ d', shiftAt ii lists d = some d' ∧
      (∀ names ∈ lists, ∀ x y c, names[ii - 1]? = some x → names[ii]? = some y →
        d.files x = some c → d'.files y = some c) ∧
      (∀ x, (∀ names ∈ lists, names[ii - 1]? ≠ some x ∧ names[ii]? ≠ some x) →
        d'.files x = d.files x) ∧
      d'.renamed = d.renamed ++ lists.filterMap (moveAt ii) := by
  induction lists generalizing d with
  | nil => exact ⟨d, rfl, fun _ h => absurd h List.not_mem_nil, fun _ _ => rfl, by simp⟩
  | cons names lists ih =>
    have hii := hlen names List.mem_cons_self
    obtain ⟨old, hold⟩ : ∃ old, names[ii - 1]? = some old :=
      ⟨_, List.getElem?_eq_getElem (by omega)⟩
    obtain ⟨new, hnew⟩ : ∃ new, names[ii]? = some new := ⟨_, List.getElem?_eq_getElem hii⟩
    rw [List.flatten_cons, List.nodup_append] at hnodup
    obtain ⟨-, hrest, hdisjoint⟩ := hnodup
    have hother : ∀ x ∈ names, ∀ names' ∈ lists, ∀ i : Nat, names'[i]? ≠ some x :=
      fun x hx names' hm i hi =>
        hdisjoint x hx x (List.mem_flatten_of_mem hm (List.mem_of_getElem? hi)) rfl
    obtain ⟨d', hd', hkept, hleft, hrenamed⟩ :=
      ih (d := d.rename old new) hrest fun names' hm => hlen names' (List.mem_cons_of_mem _ hm)
    refine ⟨d', ?_, ?_, ?_, ?_⟩
    · rw [shiftAt, hold, hnew]
      exact hd'
    · intro names' hm x y c hx hy hc
      rcases List.mem_cons.1 hm with rfl | hm
      · obtain rfl := Option.some.inj (hold.symm.trans hx)
        obtain rfl := Option.some.inj (hnew.symm.trans hy)
        have hin := List.mem_of_getElem? hnew
        rw [hleft new fun names' hm => ⟨hother new hin names' hm _, hother new hin names' hm _⟩]
        exact rename_new hc
      · have hxold : x ≠ old := by
          rintro rfl
          exact hother x (List.mem_of_getElem? hold) names' hm _ hx
        have hxnew : x ≠ new := by
          rintro rfl
          exact hother x (List.mem_of_getElem? hnew) names' hm _ hx
        exact hkept names' hm x y c hx hy (by rwa [rename_of_ne hxold hxnew])
    · intro x hx
      obtain ⟨h1, h2⟩ := hx names List.mem_cons_self
      rw [hleft x fun names' hm => hx names' (List.mem_cons_of_mem _ hm)]
      exact rename_of_ne (fun he => h1 (he ▸ hold)) (fun he => h2 (he ▸ hnew))
    · have hmove : moveAt ii names = some (old, new) := by
        rw [moveAt, hold, hnew]
        rfl
      rw [hrenamed, rename_renamed, List.filterMap_cons_some hmove, List.append_assoc]
      rfl

/-! ## The loop -/

/-- The renames of the loop, from the last down. -/
def moves (lists : List (List ν)) : Nat → List (ν × ν)
  | 0 => []
  | n + 1 => lists.filterMap (moveAt (n + 1)) ++ moves lists n

/-- **The loop** renames the file under each name to the next, from the last down: every file but
that under the last name is kept, and files under other names are left alone. -/
theorem shift_spec (hnodup : lists.flatten.Nodup) (hlen : ∀ names ∈ lists, n < names.length) :
    ∃ d', shift lists n d = some d' ∧
      (∀ names ∈ lists, ∀ k < n, ∀ x y c, names[k]? = some x → names[k + 1]? = some y →
        d.files x = some c → d'.files y = some c) ∧
      (∀ x, (∀ names ∈ lists, ∀ k ≤ n, names[k]? ≠ some x) → d'.files x = d.files x) ∧
      d'.renamed = d.renamed ++ moves lists n := by
  induction n generalizing d with
  | zero =>
    exact ⟨d, rfl, fun _ _ k hk => absurd hk (Nat.not_lt_zero k), fun _ _ => rfl, by simp [moves]⟩
  | succ n ih =>
    obtain ⟨d₁, hd₁, hkept₁, hleft₁, hrenamed₁⟩ := shiftAt_spec (d := d) hnodup hlen
    obtain ⟨d', hd', hkept, hleft, hrenamed⟩ :=
      ih (d := d₁) fun names hm => Nat.lt_of_succ_lt (hlen names hm)
    refine ⟨d', ?_, ?_, ?_, ?_⟩
    · rw [shift, hd₁]
      exact hd'
    · intro names hm k hk x y c hx hy hc
      rcases Nat.lt_succ_iff_lt_or_eq.1 hk with hlt | rfl
      · -- the step before has not touched the file
        refine hkept names hm k hlt x y c hx hy ?_
        rw [hleft₁ x fun names' hm' => ⟨fun h => ?_, fun h => ?_⟩]
        · exact hc
        · have := index_unique hnodup hm hm' hx h
          omega
        · have := index_unique hnodup hm hm' hx h
          omega
      · -- nor do the later steps touch what it has put there
        rw [hleft y fun names' hm' j hj h => ?_]
        · exact hkept₁ names hm x y c hx hy hc
        · have := index_unique hnodup hm hm' hy h
          omega
    · intro x hx
      rw [hleft x fun names hm k hk => hx names hm k (Nat.le_succ_of_le hk)]
      exact hleft₁ x fun names hm =>
        ⟨hx names hm _ (Nat.sub_le _ _), hx names hm _ (Nat.le_refl _)⟩
    · rw [hrenamed, hrenamed₁, List.append_assoc, moves]

/-! ## Numbered names -/

/-- The first `m` of each of the numbered names. -/
def numbered (fs : List (Nat → ν)) (m : Nat) : List (List ν) := fs.map fun f => (List.range m).map f

section Numbered
variable {fs : List (Nat → ν)} {m : Nat}

omit [DecidableEq ν] in
theorem moves_numbered (h : n < m) : moves (numbered fs m) n =
    (List.range n).reverse.flatMap fun k => fs.map fun f => (f k, f (k + 1)) := by
  induction n with
  | zero => rfl
  | succ n ih =>
    have hstep : (numbered fs m).filterMap (moveAt (n + 1)) = fs.map fun f => (f n, f (n + 1)) := by
      have hmove : moveAt (n + 1) ∘ (fun f : Nat → ν => (List.range m).map f) =
          some ∘ fun f => (f n, f (n + 1)) := by
        funext f
        have hn : n < m := Nat.lt_of_succ_lt h
        simp [moveAt, h, hn]
      rw [numbered, List.filterMap_map, hmove, List.filterMap_eq_map]
    rw [moves, hstep, ih (Nat.lt_of_succ_lt h), List.range_succ, List.reverse_append,
      List.reverse_singleton, List.singleton_append, List.flatMap_cons]

theorem shift_numbered (hnodup : (numbered fs m).flatten.Nodup) (h : n < m) :
    ∃ d', shift (numbered fs m) n d = some d' ∧
      (∀ f ∈ fs, ∀ k < n, ∀ c, d.files (f k) = some c → d'.files (f (k + 1)) = some c) ∧
      (∀ x, (∀ f ∈ fs, ∀ k ≤ n, x ≠ f k) → d'.files x = d.files x) ∧
      d'.renamed = d.renamed ++
        (List.range n).reverse.flatMap fun k => fs.map fun f => (f k, f (k + 1)) := by
  have hlen : ∀ names ∈ numbered fs m, n < names.length := by
    intro names hm
    obtain ⟨f, -, rfl⟩ := List.mem_map.1 hm
    rwa [List.length_map, List.length_range]
  have hget : ∀ f : Nat → ν, ∀ k ≤ n, ((List.range m).map f)[k]? = some (f k) := by
    intro f k hk
    have hkm : k < m := by omega
    simp [hkm]
  obtain ⟨d', hd', hkept, hleft, hrenamed⟩ := shift_spec (d := d) hnodup hlen
  refine ⟨d', hd', fun f hf k hk c hc => ?_, fun x hx => hleft x ?_, ?_⟩
  · exact hkept _ (List.mem_map_of_mem hf) k hk _ _ c (hget f k (Nat.le_of_lt hk))
      (hget f (k + 1) hk) hc
  · intro names hm k hk hget'
    obtain ⟨f, hf, rfl⟩ := List.mem_map.1 hm
    rw [hget f k hk] at hget'
    exact hx f hf k hk (Option.some.inj hget').symm
  · rw [hrenamed, moves_numbered h]

end Numbered

end Dir

end Lib
