import Mathlib.Data.List.TakeWhile

/-!
# Patterns of characters and runs

A regular expression that is a sequence of single characters and of repeated classes, each class
with a least number of repetitions. `Matches ps parts`: the texts of the parts that `ps` stands for.
Where every repeated class ends before what may follow it, a match at a place is unique but for the
end of a last repetition, and the first way to read it, each repetition as far as it goes, is the
longest. `search` is so the leftmost longest match.

* `matchAt_sound`, **`matchAt_longest`**: a match at a place;
* `search_sound`, `search_eq_none`, `search_eq_none_iff`: the leftmost match;
* `search_of_firstAt`, `search_append`: how to find it.
-/

namespace Lib

/-- A character, or at least `least` characters of a class. -/
inductive Piece (α : Type) where
  | char (c : α)
  | run (p : α → Bool) (least : Nat)

abbrev Pattern (α : Type) := List (Piece α)

variable {α : Type}

namespace Pattern

/-! ## Matches -/

/-- The texts `parts` are one for each piece. -/
inductive Matches : Pattern α → List (List α) → Prop where
  | nil : Matches [] []
  | char {c : α} {ps : Pattern α} {parts : List (List α)} (h : Matches ps parts) :
    Matches (.char c :: ps) ([c] :: parts)
  | run {p : α → Bool} {least : Nat} {r : List α} {ps : Pattern α} {parts : List (List α)}
    (hr : ∀ x ∈ r, p x = true) (hlen : least ≤ r.length) (h : Matches ps parts) :
    Matches (.run p least :: ps) (r :: parts)

theorem matches_nil {parts : List (List α)} : Matches [] parts ↔ parts = [] := by
  constructor
  · rintro ⟨⟩
    rfl
  · rintro rfl
    exact .nil

theorem matches_char {c : α} {ps : Pattern α} {parts : List (List α)} :
    Matches (.char c :: ps) parts ↔ ∃ rest, parts = [c] :: rest ∧ Matches ps rest := by
  constructor
  · intro h
    cases h with
    | char h => exact ⟨_, rfl, h⟩
  · rintro ⟨rest, rfl, h⟩
    exact .char h

theorem matches_run {p : α → Bool} {least : Nat} {ps : Pattern α} {parts : List (List α)} :
    Matches (.run p least :: ps) parts ↔ ∃ r rest, parts = r :: rest ∧
      (∀ x ∈ r, p x = true) ∧ least ≤ r.length ∧ Matches ps rest := by
  constructor
  · intro h
    cases h with
    | run hr hlen h => exact ⟨_, _, rfl, hr, hlen, h⟩
  · rintro ⟨r, rest, rfl, hr, hlen, h⟩
    exact .run hr hlen h

/-- A text may begin a match with `x`. -/
def starts [DecidableEq α] : Pattern α → α → Bool
  | [], _ => false
  | .char c :: _, x => x = c
  | .run p least :: ps, x => p x || (least = 0 && starts ps x)

/-- A match may be empty. -/
def nullable : Pattern α → Bool
  | [] => true
  | .char _ :: _ => false
  | .run _ least :: ps => least = 0 && nullable ps

/-- Each repeated class is the last piece, or what follows begins with a character outside it. -/
def Separated [DecidableEq α] : Pattern α → Prop
  | [] => True
  | .char _ :: ps => Separated ps
  | .run p _ :: ps =>
    (ps = [] ∨ nullable ps = false ∧ ∀ x, p x = true → starts ps x = false) ∧ Separated ps

/-- A class ends before a character outside it. -/
theorem ends_before [DecidableEq α] {p : α → Bool} {c : α} {ps : Pattern α} (hc : p c = false) :
    nullable (.char c :: ps) = false ∧ ∀ x, p x = true → starts (.char c :: ps) x = false := by
  refine ⟨rfl, fun x hx => decide_eq_false ?_⟩
  rintro rfl
  exact Bool.false_ne_true (hc.symm.trans hx)

/-- The match at the beginning of a text in which every repetition goes as far as it can. -/
def matchAt [DecidableEq α] : Pattern α → List α → Option (List (List α))
  | [], _ => some []
  | .char _ :: _, [] => none
  | .char c :: ps, x :: xs => if x = c then (matchAt ps xs).map ([x] :: ·) else none
  | .run p least :: ps, xs =>
    if least ≤ (xs.takeWhile p).length then
      (matchAt ps (xs.dropWhile p)).map (xs.takeWhile p :: ·)
    else none

section
variable [DecidableEq α] {ps : Pattern α} {parts parts' : List (List α)} {xs rest rest' : List α}

theorem matchAt_sound (h : matchAt ps xs = some parts) :
    Matches ps parts ∧ ∃ rest, xs = parts.flatten ++ rest := by
  induction ps generalizing xs parts with
  | nil =>
    cases h
    exact ⟨.nil, xs, rfl⟩
  | cons piece ps ih =>
    cases piece with
    | char c =>
      cases xs with
      | nil => cases h
      | cons x xs =>
        rw [matchAt] at h
        split at h
        · next hx =>
          obtain ⟨parts, hparts, rfl⟩ := Option.map_eq_some_iff.1 h
          obtain ⟨hmatch, rest, rfl⟩ := ih hparts
          subst hx
          exact ⟨.char hmatch, rest, rfl⟩
        · cases h
    | run p least =>
      rw [matchAt] at h
      split at h
      · next hlen =>
        obtain ⟨parts, hparts, rfl⟩ := Option.map_eq_some_iff.1 h
        obtain ⟨hmatch, rest, hrest⟩ := ih hparts
        refine ⟨.run (fun x hx => List.mem_takeWhile_imp hx) hlen hmatch, rest, ?_⟩
        rw [List.flatten_cons, List.append_assoc, ← hrest, List.takeWhile_append_dropWhile]
      · cases h

/-- What is not empty begins as it may. -/
theorem Matches.starts {x : α} {tail : List α} (h : Matches ps parts)
    (hflat : parts.flatten = x :: tail) : ps.starts x = true := by
  induction h generalizing x tail with
  | nil => cases hflat
  | char h ih =>
    cases hflat
    exact decide_eq_true rfl
  | @run p least r ps parts hr hlen h ih =>
    rw [Pattern.starts, Bool.or_eq_true]
    cases r with
    | nil =>
      obtain rfl : least = 0 := Nat.le_zero.1 hlen
      exact .inr (by simpa using ih hflat)
    | cons y r =>
      obtain ⟨rfl, -⟩ := List.cons.inj hflat
      exact .inl (hr y List.mem_cons_self)

omit [DecidableEq α] in
theorem Matches.ne_nil (h : Matches ps parts) (hps : ps.nullable = false) : parts.flatten ≠ [] := by
  induction h with
  | nil => cases hps
  | char h ih => exact List.cons_ne_nil _ _
  | @run p least r ps parts hr hlen h ih =>
    intro hflat
    obtain ⟨rfl, htail⟩ := List.append_eq_nil_iff.1 hflat
    obtain rfl : least = 0 := Nat.le_zero.1 hlen
    exact ih (by simpa [nullable] using hps) htail

omit [DecidableEq α] in
/-- A repetition that ends in front of a character outside its class is the longest. -/
theorem takeWhile_run {p : α → Bool} {r tail : List α} (hr : ∀ x ∈ r, p x = true)
    (htail : ∀ x ∈ tail.head?, p x = false) :
    (r ++ tail).takeWhile p = r ∧ (r ++ tail).dropWhile p = tail := by
  have hnone : tail.takeWhile p = [] ∧ tail.dropWhile p = tail := by
    cases tail with
    | nil => exact ⟨rfl, rfl⟩
    | cons x tail => simp [htail x rfl]
  rw [List.takeWhile_append_of_pos hr, List.dropWhile_append_of_pos hr, hnone.1, hnone.2,
    List.append_nil]
  exact ⟨rfl, rfl⟩

/-- **The match that is found** is the longest there is at the place, and the only one of its
length. -/
theorem matchAt_longest (hsep : ps.Separated) (h : Matches ps parts) (rest : List α) :
    ∃ parts', matchAt ps (parts.flatten ++ rest) = some parts' ∧
      parts.flatten.length ≤ parts'.flatten.length ∧
      (parts.flatten.length = parts'.flatten.length → parts = parts') := by
  induction h with
  | nil => exact ⟨[], rfl, Nat.le_refl _, fun _ => rfl⟩
  | @char c ps parts h ih =>
    obtain ⟨parts', hparts', hle, heq⟩ := ih hsep
    refine ⟨[c] :: parts', ?_, ?_, ?_⟩
    · rw [List.flatten_cons, List.singleton_append, List.cons_append, matchAt, if_pos rfl, hparts']
      rfl
    · simpa using hle
    · intro hlen
      rw [heq (by simpa using hlen)]
  | @run p least r ps parts hr hlen h ih =>
    obtain ⟨hnext, hsep⟩ := hsep
    rcases hnext with rfl | ⟨hnull, hstarts⟩
    · -- the last piece takes all that it can
      cases h
      refine ⟨[(r ++ rest).takeWhile p], ?_, ?_, ?_⟩
      · have hlong : least ≤ ((r ++ rest).takeWhile p).length := by
          rw [List.takeWhile_append_of_pos hr, List.length_append]
          omega
        rw [List.flatten_singleton, matchAt, if_pos hlong]
        rfl
      · rw [List.flatten_singleton, List.flatten_singleton, List.takeWhile_append_of_pos hr,
          List.length_append]
        omega
      · intro hsame
        rw [List.flatten_singleton, List.flatten_singleton, List.takeWhile_append_of_pos hr,
          List.length_append] at hsame
        have hnil : rest.takeWhile p = [] := List.length_eq_zero_iff.1 (by omega)
        rw [List.takeWhile_append_of_pos hr, hnil, List.append_nil]
    · -- what follows begins outside the class
      obtain ⟨parts', hparts', hle, heq⟩ := ih hsep
      have htail : ∀ x ∈ (parts.flatten ++ rest).head?, p x = false := by
        obtain ⟨y, tail, hflat⟩ := List.exists_cons_of_ne_nil (h.ne_nil hnull)
        intro x hx
        rw [hflat] at hx
        obtain rfl : y = x := Option.some.inj hx
        have hy := h.starts hflat
        exact Bool.eq_false_iff.2 fun hp => absurd hy (by simp [hstarts y hp])
      obtain ⟨htake, hdrop⟩ := takeWhile_run hr htail
      refine ⟨r :: parts', ?_, ?_, ?_⟩
      · rw [List.flatten_cons, List.append_assoc, matchAt, htake, hdrop, if_pos hlen, hparts']
        rfl
      · simpa using hle
      · intro hsame
        rw [heq (by simpa using hsame)]

end

end Pattern

/-! ## Searching -/

/-- A match, and what is before and after it. -/
structure Found (α : Type) where
  before : List α
  parts : List (List α)
  after : List α

namespace Pattern

variable [DecidableEq α]

/-- The match of the first alternative that has one at the beginning. -/
def firstAt (alts : List (Pattern α)) (xs : List α) : Option (List (List α)) :=
  alts.findSome? fun ps => matchAt ps xs

/-- The leftmost match. -/
def search (alts : List (Pattern α)) : List α → Option (Found α)
  | [] => (firstAt alts []).map fun parts => ⟨[], parts, []⟩
  | x :: xs =>
    match firstAt alts (x :: xs) with
    | some parts => some ⟨[], parts, (x :: xs).drop parts.flatten.length⟩
    | none => (search alts xs).map fun found => { found with before := x :: found.before }

variable {alts : List (Pattern α)} {xs pre : List α} {parts : List (List α)} {found : Found α}

theorem firstAt_sound (h : firstAt alts xs = some parts) :
    (∃ ps ∈ alts, Matches ps parts) ∧ xs = parts.flatten ++ xs.drop parts.flatten.length := by
  obtain ⟨ps, hps, hmatch⟩ := List.exists_of_findSome?_eq_some h
  obtain ⟨hparts, rest, rfl⟩ := matchAt_sound hmatch
  exact ⟨⟨ps, hps, hparts⟩, by rw [List.drop_left]⟩

theorem search_of_firstAt (h : firstAt alts xs = some parts) :
    search alts xs = some ⟨[], parts, xs.drop parts.flatten.length⟩ := by
  cases xs with
  | nil => simp [search, h]
  | cons x xs => simp [search, h]

/-- What precedes the first place with a match. -/
theorem search_append (h : ∀ suf, suf ≠ [] → suf <:+ pre → firstAt alts (suf ++ xs) = none) :
    search alts (pre ++ xs) =
      (search alts xs).map fun found => { found with before := pre ++ found.before } := by
  induction pre with
  | nil =>
    show search alts xs = (search alts xs).map id
    rw [Option.map_id_apply]
  | cons x pre ih =>
    have hhere : firstAt alts (x :: (pre ++ xs)) = none :=
      h (x :: pre) (List.cons_ne_nil _ _) (List.suffix_refl _)
    rw [List.cons_append, search, hhere,
      ih fun suf hne hsuf => h suf hne (hsuf.trans (List.suffix_cons x pre)), Option.map_map]
    rfl

theorem search_sound (h : search alts xs = some found) :
    xs = found.before ++ (found.parts.flatten ++ found.after) ∧
      (∃ ps ∈ alts, Matches ps found.parts) ∧
      ∀ suf, suf ≠ [] → suf <:+ found.before →
        firstAt alts (suf ++ (found.parts.flatten ++ found.after)) = none := by
  induction xs generalizing found with
  | nil =>
    obtain ⟨parts, hparts, rfl⟩ := Option.map_eq_some_iff.1 h
    obtain ⟨hmatch, heq⟩ := firstAt_sound hparts
    refine ⟨by simpa using heq, hmatch, fun suf hne hsuf => ?_⟩
    exact absurd (List.suffix_nil.1 hsuf) hne
  | cons x xs ih =>
    rw [search] at h
    split at h
    · next parts hparts =>
      cases h
      obtain ⟨hmatch, heq⟩ := firstAt_sound hparts
      exact ⟨heq, hmatch, fun suf hne hsuf => absurd (List.suffix_nil.1 hsuf) hne⟩
    · next hnone =>
      obtain ⟨found, hfound, rfl⟩ := Option.map_eq_some_iff.1 h
      obtain ⟨heq, hmatch, hbefore⟩ := ih hfound
      refine ⟨congrArg (x :: ·) heq, hmatch, fun suf hne hsuf => ?_⟩
      rcases List.suffix_cons_iff.1 hsuf with rfl | hsuf
      · rw [List.cons_append, ← heq]
        exact hnone
      · exact hbefore suf hne hsuf

theorem search_eq_none : search alts xs = none ↔ ∀ suf, suf <:+ xs → firstAt alts suf = none := by
  induction xs with
  | nil =>
    rw [search, Option.map_eq_none_iff]
    constructor
    · intro h suf hsuf
      rwa [List.suffix_nil.1 hsuf]
    · exact fun h => h [] (List.suffix_refl _)
  | cons x xs ih =>
    rw [search]
    constructor
    · intro h suf hsuf
      split at h
      · cases h
      · next hnone =>
        rcases List.suffix_cons_iff.1 hsuf with rfl | hsuf
        · exact hnone
        · exact ih.1 (Option.map_eq_none_iff.1 h) suf hsuf
    · intro h
      rw [h (x :: xs) (List.suffix_refl _)]
      exact Option.map_eq_none_iff.2 (ih.2 fun suf hsuf => h suf (hsuf.trans (List.suffix_cons x xs)))

/-- The text has a match in it. -/
def Occurs (alts : List (Pattern α)) (xs : List α) : Prop :=
  ∃ ps ∈ alts, ∃ pre parts post, Matches ps parts ∧ xs = pre ++ (parts.flatten ++ post)

omit [DecidableEq α] in
theorem Occurs.append {ys : List α} (h : Occurs alts xs) : Occurs alts (xs ++ ys) := by
  obtain ⟨ps, hps, pre, parts, post, hmatch, rfl⟩ := h
  exact ⟨ps, hps, pre, parts, post ++ ys, hmatch, by simp⟩

omit [DecidableEq α] in
theorem Occurs.mono {ys : List α} (h : Occurs alts xs) (hxs : xs <+: ys) : Occurs alts ys := by
  obtain ⟨zs, rfl⟩ := hxs
  exact h.append

/-- A search finds a match where there is one. -/
theorem search_eq_none_iff (hsep : ∀ ps ∈ alts, ps.Separated) :
    search alts xs = none ↔ ¬Occurs alts xs := by
  constructor
  · rintro hnone ⟨ps, hps, pre, parts, post, hmatch, rfl⟩
    obtain ⟨parts', hparts', -⟩ := matchAt_longest (hsep ps hps) hmatch post
    have hplace := search_eq_none.1 hnone _ (List.suffix_append pre _)
    rw [firstAt, List.findSome?_eq_none_iff] at hplace
    exact absurd (hplace ps hps) (by rw [hparts']; exact Option.some_ne_none _)
  · intro hnot
    cases hsearch : search alts xs with
    | none => rfl
    | some found =>
      obtain ⟨heq, ⟨ps, hps, hmatch⟩, -⟩ := search_sound hsearch
      exact absurd ⟨ps, hps, found.before, found.parts, found.after, hmatch, heq⟩ hnot

end Pattern

end Lib
