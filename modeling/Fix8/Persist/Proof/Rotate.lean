import Fix8.Persist.Rotate
import Fix8.Codec.Proof.Numeral
import Mathlib.Data.List.Nodup

/-!
# What a rotation keeps

The names of a log's generations, and those of a database and its index, are all different, so that
the loop shifts the files as it should as long as it stays in the lists. These are cut off behind
1024 generations, the loop is not.

* `fileName_inj`, `dbName_inj`, `idxName_inj`, `dbName_ne_idxName`: the names differ;
* **`rotation_iff`**: when the files are shifted.
-/

namespace Fix8.Persist

open Lib Codec

variable {haveCompression force purge : Bool} {d : Files}

/-! ## Names -/

theorem itoa_inj {m n : Nat} (h : itoa m = itoa n) : m = n := by
  have hm : decimal (itoa m) = m := decimal_itoa
  rw [← hm, h, decimal_itoa]

theorem generation_inj {i j : Nat} (h : generation i = generation j) : i = j := by
  have := itoa_inj (List.append_cancel_left h)
  omega

/-- The names of the generations of a file. -/
def genName (base pathname suffix : F8String) : Nat → F8String
  | 0 => base
  | k + 1 => pathname ++ generation k ++ suffix

theorem genName_inj {base pathname suffix : F8String}
    (h : base.length ≤ (pathname ++ suffix).length) :
    Function.Injective (genName base pathname suffix) := by
  have hne : ∀ k, base ≠ pathname ++ generation k ++ suffix := by
    intro k hk
    have hlength := congrArg List.length hk
    have hdot : (ascii ".").length = 1 := rfl
    simp only [generation, List.length_append] at h hlength
    omega
  intro i j hij
  cases i with
  | zero =>
    cases j with
    | zero => rfl
    | succ j => exact absurd hij (hne j)
  | succ i =>
    cases j with
    | zero => exact absurd hij.symm (hne i)
    | succ j =>
      exact congrArg (· + 1)
        (generation_inj (List.append_cancel_left (List.append_cancel_right hij)))

/-- The names as the loops put them into a list. -/
theorem map_genName {base pathname suffix : F8String} {n : Nat} :
    (base :: (List.range n).map fun ii => pathname ++ generation ii ++ suffix) =
      (List.range (n + 1)).map (genName base pathname suffix) := by
  rw [List.range_succ_eq_map, List.map_cons, List.map_map]
  rfl

def FileLogger.fileName (haveCompression : Bool) (l : FileLogger) : Nat → F8String :=
  genName (l.thislFile haveCompression) l.pathname l.gz

def DbFiles.dbName (p : DbFiles) : Nat → F8String := genName p.fname p.fname []

def DbFiles.idxName (p : DbFiles) : Nat → F8String := genName p.iname p.fname (ascii ".idx")

theorem fileName_inj (l : FileLogger) : Function.Injective (l.fileName haveCompression) := by
  refine genName_inj ?_
  unfold FileLogger.thislFile
  split <;> simp only [List.length_append] <;> omega

theorem dbName_inj (p : DbFiles) : Function.Injective p.dbName := genName_inj (by simp)

theorem idxName_inj (p : DbFiles) : Function.Injective p.idxName :=
  genName_inj (Nat.le_of_eq rfl)

/-- No digit of a number is the last letter of `.idx`. -/
theorem generation_ne_idx {i : Nat} (w : F8String) : generation i ≠ w ++ ascii ".idx" := by
  intro h
  have hx : (120 : UInt8) ∈ generation i := by
    rw [h]
    exact List.mem_append_right w (by decide)
  rcases List.mem_append.1 hx with hdot | hdigit
  · exact absurd hdot (by decide)
  · exact absurd (isdigit_itoa _ hdigit) (by decide)

theorem dbName_ne_idxName (p : DbFiles) (i j : Nat) : p.dbName i ≠ p.idxName j := by
  cases i with
  | zero =>
    intro h
    cases j with
    | zero => exact absurd (List.self_eq_append_right.1 h) (by decide)
    | succ j =>
      simp only [DbFiles.dbName, DbFiles.idxName, genName, List.append_assoc] at h
      exact absurd (List.self_eq_append_right.1 h) (by simp [generation, ascii])
  | succ i =>
    intro h
    cases j with
    | zero =>
      simp only [DbFiles.dbName, DbFiles.idxName, genName, List.append_nil] at h
      exact generation_ne_idx [] (List.append_cancel_left h)
    | succ j =>
      simp only [DbFiles.dbName, DbFiles.idxName, genName, List.append_nil, List.append_assoc] at h
      exact generation_ne_idx _ (List.append_cancel_left h)

/-! ## Lists -/

theorem rlst_eq (l : FileLogger) : [l.rlst haveCompression] =
    Dir.numbered [l.fileName haveCompression] (min l.rotnum maxRotation + 1) :=
  congrArg (fun names => [names]) map_genName

theorem dbNames_eq (p : DbFiles) : [p.dblst, p.idxlst] =
    Dir.numbered [p.dbName, p.idxName] (min p.rotnum maxRotation + 1) := by
  have hdb : p.dblst = (List.range (min p.rotnum maxRotation + 1)).map p.dbName := by
    rw [DbFiles.dbName, ← map_genName]
    simp only [List.append_nil]
    rfl
  have hidx : p.idxlst = (List.range (min p.rotnum maxRotation + 1)).map p.idxName := map_genName
  rw [hdb, hidx]
  rfl

theorem nodup_rlst (l : FileLogger) {m : Nat} :
    (Dir.numbered [l.fileName haveCompression] m).flatten.Nodup := by
  have h : Dir.numbered [l.fileName haveCompression] m =
      [(List.range m).map (l.fileName haveCompression)] := rfl
  rw [h, List.flatten_singleton]
  exact List.nodup_range.map (fileName_inj l)

theorem nodup_dbNames (p : DbFiles) {m : Nat} :
    (Dir.numbered [p.dbName, p.idxName] m).flatten.Nodup := by
  have h : Dir.numbered [p.dbName, p.idxName] m =
      [(List.range m).map p.dbName, (List.range m).map p.idxName] := rfl
  rw [h, List.flatten_cons, List.flatten_singleton, List.nodup_append]
  refine ⟨List.nodup_range.map (dbName_inj p), List.nodup_range.map (idxName_inj p), ?_⟩
  intro x hx y hy
  obtain ⟨i, -, rfl⟩ := List.mem_map.1 hx
  obtain ⟨j, -, rfl⟩ := List.mem_map.1 hy
  exact dbName_ne_idxName p i j

/-! ## Files -/

theorem openFile_of_ne {name x : F8String} {trunc : Bool} (h : x ≠ name) :
    (openFile d name trunc).files x = d.files x := if_neg h

/-- The files under the names `fs` have been shifted by a rotation through `n` generations: each but
the oldest to the next number, from the last down. -/
structure Shifted (fs : List (Nat → F8String)) (n : Nat) (d d' : Files) : Prop where
  kept : ∀ f ∈ fs, ∀ k < n, ∀ c, d.files (f k) = some c → d'.files (f (k + 1)) = some c
  renamed : d'.renamed = d.renamed ++
    (List.range n).reverse.flatMap fun k => fs.map fun f => (f k, f (k + 1))

/-- Lists that are cut off behind the greatest number of generations are too short for more. -/
theorem shift_above {f : Nat → F8String} {fs : List (Nat → F8String)} {n : Nat}
    (h : maxRotation < n) :
    d.shift (Dir.numbered (f :: fs) (min n maxRotation + 1)) n = none := by
  refine Dir.shift_eq_none (Nat.lt_of_le_of_lt (Nat.zero_le _) h) ⟨_, List.mem_cons_self, ?_⟩
  rw [List.length_map, List.length_range]
  omega

/-- Up to it the files are shifted, and others left alone. -/
theorem shift_within {fs : List (Nat → F8String)} {n : Nat}
    (hnodup : (Dir.numbered fs (min n maxRotation + 1)).flatten.Nodup) (h : n ≤ maxRotation) :
    ∃ d', d.shift (Dir.numbered fs (min n maxRotation + 1)) n = some d' ∧ Shifted fs n d d' ∧
      ∀ x, (∀ f ∈ fs, ∀ k ≤ n, x ≠ f k) → d'.files x = d.files x := by
  obtain ⟨d', hd', hkept, hleft, hrenamed⟩ := Dir.shift_numbered (d := d) (n := n) hnodup
    (by omega)
  exact ⟨d', hd', ⟨hkept, hrenamed⟩, hleft⟩

/-- `rotate` stays in its list, shifts the files if it is to rotate them, and leaves other files
alone. -/
def FileLogger.Meets (haveCompression : Bool) (l : FileLogger) (force : Bool) (d : Files) : Prop :=
  ∃ d', l.rotate haveCompression force d = some d' ∧
    (l.rotates force = true → Shifted [l.fileName haveCompression] l.rotnum d d') ∧
    ∀ x, (∀ k ≤ l.rotnum, x ≠ l.fileName haveCompression k) → d'.files x = d.files x

/-- `initialise` stays in its lists, shifts the files if it is to purge them, and leaves other files
alone. -/
def DbFiles.Meets (p : DbFiles) (purge : Bool) (d : Files) : Prop :=
  ∃ d', p.initialise purge d = some d' ∧
    (purge = true → Shifted [p.dbName, p.idxName] p.rotnum d d') ∧
    ∀ x, (∀ k ≤ p.rotnum, x ≠ p.dbName k ∧ x ≠ p.idxName k) → d'.files x = d.files x

/-- Opening a file that has the first of the names does not touch what has been shifted. -/
theorem Shifted.openFile {fs : List (Nat → F8String)} {n : Nat} {d₀ : Files} {name : F8String}
    {trunc : Bool} (h : Shifted fs n d₀ d) (hname : ∀ f ∈ fs, ∀ k, f (k + 1) ≠ name) :
    Shifted fs n d₀ (openFile d name trunc) where
  kept f hf k hk c hc := by
    rw [openFile_of_ne (hname f hf k)]
    exact h.kept f hf k hk c hc
  renamed := h.renamed

theorem fileName_succ_ne (l : FileLogger) (k : Nat) :
    l.fileName haveCompression (k + 1) ≠ l.thislFile haveCompression :=
  fun h => Nat.succ_ne_zero k (@fileName_inj _ l (k + 1) 0 h)

theorem dbNames_succ_ne (p : DbFiles) :
    ∀ f ∈ [p.dbName, p.idxName], ∀ k, f (k + 1) ≠ p.fname ∧ f (k + 1) ≠ p.iname := by
  intro f hf k
  rcases List.mem_pair.1 hf with rfl | rfl
  · exact ⟨fun h => Nat.succ_ne_zero k (@dbName_inj p (k + 1) 0 h),
      dbName_ne_idxName p (k + 1) 0⟩
  · exact ⟨fun h => dbName_ne_idxName p 0 (k + 1) h.symm,
      fun h => Nat.succ_ne_zero k (@idxName_inj p (k + 1) 0 h)⟩

theorem FileLogger.meets_iff (l : FileLogger) (force : Bool) (d : Files) :
    l.Meets haveCompression force d ↔
      (l.rotates force = true → l.rotnum ≤ maxRotation) := by
  unfold Meets rotate
  by_cases hrot : l.rotates force = true
  · rw [if_pos hrot, rlst_eq]
    constructor
    · rintro ⟨d', hd', -⟩ -
      refine Nat.not_lt.1 fun hlt => ?_
      rw [shift_above hlt] at hd'
      cases hd'
    · intro hle
      obtain ⟨d₁, hd₁, hshifted, hleft⟩ := shift_within (d := d) (nodup_rlst l) (hle hrot)
      refine ⟨_, by rw [hd₁]; rfl, fun _ => ?_, fun x hx => ?_⟩
      · refine hshifted.openFile fun f hf k => ?_
        obtain rfl := List.mem_singleton.1 hf
        exact fileName_succ_ne l k
      · have hthis : x ≠ l.thislFile haveCompression := hx 0 (Nat.zero_le _)
        rw [openFile_of_ne hthis]
        refine hleft x fun f hf k hk => ?_
        obtain rfl := List.mem_singleton.1 hf
        exact hx k hk
  · rw [if_neg hrot]
    refine iff_of_true ⟨_, rfl, fun h => absurd h hrot, fun x hx => ?_⟩ fun h => absurd h hrot
    exact openFile_of_ne (hx 0 (Nat.zero_le _))

/-- Both files are opened in the end. -/
theorem openBoth_of_ne (p : DbFiles) {x : F8String} (hname : x ≠ p.fname) (hidx : x ≠ p.iname) :
    (openFile (openFile d p.fname true) p.iname true).files x = d.files x := by
  rw [openFile_of_ne hidx, openFile_of_ne hname]

theorem DbFiles.meets_iff (p : DbFiles) (purge : Bool) (d : Files) :
    p.Meets purge d ↔ (purge = true → p.rotnum ≤ maxRotation) := by
  unfold Meets initialise
  cases purge with
  | false =>
    refine iff_of_true ?_ fun h => absurd h Bool.false_ne_true
    by_cases hnof : (d.files p.fname).isNone = true
    · refine ⟨_, if_pos (by simp [hnof]), fun h => absurd h Bool.false_ne_true, fun x hx => ?_⟩
      exact openBoth_of_ne p (hx 0 (Nat.zero_le _)).1 (hx 0 (Nat.zero_le _)).2
    · exact ⟨d, if_neg (by simpa using hnof), fun h => absurd h Bool.false_ne_true, fun _ _ => rfl⟩
  | true =>
    rw [Bool.or_true, if_pos rfl, Bool.true_and]
    by_cases hpos : 0 < p.rotnum
    · rw [if_pos (decide_eq_true hpos), dbNames_eq]
      constructor
      · rintro ⟨d', hd', -⟩ -
        refine Nat.not_lt.1 fun hlt => ?_
        rw [shift_above hlt] at hd'
        cases hd'
      · intro hle
        obtain ⟨d₁, hd₁, hshifted, hleft⟩ := shift_within (d := d) (nodup_dbNames p) (hle rfl)
        refine ⟨_, by rw [hd₁]; rfl, fun _ => ?_, fun x hx => ?_⟩
        · exact (hshifted.openFile fun f hf k => (dbNames_succ_ne p f hf k).1).openFile
            fun f hf k => (dbNames_succ_ne p f hf k).2
        · rw [openBoth_of_ne p (hx 0 (Nat.zero_le _)).1 (hx 0 (Nat.zero_le _)).2]
          refine hleft x fun f hf k hk => ?_
          rcases List.mem_pair.1 hf with rfl | rfl
          · exact (hx k hk).1
          · exact (hx k hk).2
    · obtain hzero : p.rotnum = 0 := by omega
      rw [if_neg (by simpa using hpos), hzero]
      refine iff_of_true ⟨_, rfl, fun _ => ⟨fun _ _ k hk => absurd hk (Nat.not_lt_zero k), ?_⟩,
        fun x hx => ?_⟩ fun _ => Nat.zero_le _
      · exact (List.append_nil _).symm
      · exact openBoth_of_ne p (hx 0 (Nat.le_refl _)).1 (hx 0 (Nat.le_refl _)).2

/-- **The rotations** of a log and of a database stay in range and shift the files exactly when they
do not go over the greatest number of generations. -/
theorem rotation_iff (haveCompression : Bool) (l : FileLogger) (force : Bool) (p : DbFiles)
    (purge : Bool) (d : Files) :
    (l.Meets haveCompression force d ↔ (l.rotates force = true → l.rotnum ≤ maxRotation)) ∧
      (p.Meets purge d ↔ (purge = true → p.rotnum ≤ maxRotation)) :=
  ⟨l.meets_iff force d, p.meets_iff purge d⟩

/-- A log and a database with one generation too many. -/
theorem rotation_above : ¬∀ (haveCompression : Bool) (l : FileLogger) (force : Bool) (p : DbFiles)
    (purge : Bool) (d : Files), l.Meets haveCompression force d ∧ p.Meets purge d := by
  intro h
  let l : FileLogger := ⟨ascii "run.log", 1025, false, false⟩
  let p : DbFiles := ⟨[], ascii "persist_db", 1025⟩
  obtain ⟨hlog, -⟩ := h false l false p true ⟨fun _ => none, []⟩
  exact absurd ((l.meets_iff _ _).1 hlog (by decide)) (by decide)

end Fix8.Persist
