import Fix8.Queue.Ring
import Mathlib.Data.List.ReduceOption

/-!
# What a bounded buffer holds

The items stand one behind the other from the place that is read next, and the place that is
written next is behind the last one. The other places are null, so that neither thread needs the
index of the other one.

* `index`: the places behind the one that is read next;
* `Holds`: the buffer holds the items of a queue;
* `holds_write`, `holds_read`: a turn of each thread;
* **`ring_fifo`**: every run of turns.
-/

namespace Fix8.Queue.Ring

open Lib

variable {α : Type} {s : Ring α} {q : List α}

/-! ## Places -/

/-- The `i`-th place from `r` on. -/
def index (size r i : Nat) : Nat := if r + i < size then r + i else r + i - size

theorem index_eq_iff {size r i j : Nat} (hi : i < size) (hj : j < size) :
    index size r i = index size r j ↔ i = j := by
  unfold index
  split <;> split <;> omega

theorem index_zero {size r : Nat} (hr : r < size) : index size r 0 = r := by simp [index, hr]

theorem next_lt {size i : Nat} (hi : i < size) : next size i < size := by
  unfold next
  split <;> omega

/-- The next place behind the `n`-th one. -/
theorem next_index {size r n : Nat} (hr : r < size) (hn : n < size) :
    next size (index size r n) = index size r (n + 1) := by
  unfold next index
  split <;> split <;> split <;> omega

/-- Seen from the next place, each place is one nearer. -/
theorem index_next {size r i : Nat} (hr : r < size) (hi : i < size) :
    index size (next size r) i = index size r (i + 1) := by
  unfold next index
  split <;> split <;> split <;> omega

/-- All around. -/
theorem index_size {size r : Nat} : index size r size = r := by
  unfold index
  split <;> omega

/-! ## The items -/

/-- Where the writer stores the next item. -/
def writeAt (s : Ring α) : Nat :=
  match s.push with
  | .advance => next s.size s.pwrite
  | _ => s.pwrite

/-- Where the first item is. -/
def readAt (s : Ring α) : Nat :=
  match s.pop with
  | .advance _ => next s.size s.pread
  | _ => s.pread

/-- The item that `pop` has cleared and not yet returned. -/
def pending : RingPop α → List α
  | .advance data => [data]
  | _ => []

/-- How many items are stored by a call that has not returned. -/
def unreturned : RingPush α → Nat
  | .advance => 1
  | _ => 0

/-- What the threads know of a queue between two turns. -/
structure Aware (s : Ring α) (q : List α) : Prop where
  store : ∀ data, s.push = .store data → q.length < s.size
  load : s.pop = .load → q ≠ []
  clear : ∀ data, s.pop = .clear data → q.head? = some data

/-- The buffer holds the items of `q`. -/
structure Holds (s : Ring α) (q : List α) : Prop where
  length : s.buf.length = s.size
  pread : s.pread < s.size
  pwrite : s.pwrite < s.size
  fits : q.length ≤ s.size
  cells : ∀ i, i < s.size → s.cell (index s.size s.readAt i) = q[i]?
  behind : s.writeAt = index s.size s.readAt q.length
  aware : Aware s q
  run : FifoRun [] s.acts q
  stored : (puts s.acts).length = s.pushed.count true + unreturned s.push
  answers : takes s.acts = s.popped.reduceOption ++ pending s.pop

theorem cell_set {i j : Nat} {x : Option α} (hi : i < s.buf.length) :
    cell { s with buf := s.buf.set i x } j = if i = j then x else s.cell j := by
  unfold cell
  by_cases h : i = j
  · subst h
    simp [hi]
  · simp [h, List.getElem?_set_ne h]

theorem Holds.readAt_lt (h : Holds s q) : s.readAt < s.size := by
  have hpread := h.pread
  unfold readAt
  split
  · exact next_lt hpread
  · exact hpread

theorem Holds.size_pos (h : Holds s q) : 0 < s.size := Nat.zero_lt_of_lt h.pread

/-- The place that is written next is free when there is room. -/
theorem Holds.cell_writeAt (h : Holds s q) :
    (s.cell s.writeAt).isNone ↔ q.length < s.size := by
  rcases Nat.lt_or_ge q.length s.size with hlt | hge
  · rw [h.behind, h.cells _ hlt]
    simp [hlt]
  · have hlen : q.length = s.size := Nat.le_antisymm h.fits hge
    have hfirst : s.writeAt = index s.size s.readAt 0 := by
      rw [h.behind, hlen, index_size, index_zero h.readAt_lt]
    rw [hfirst, h.cells 0 h.size_pos]
    have hpos := h.size_pos
    simp only [List.getElem?_eq_none_iff, Option.isNone_iff_eq_none]
    omega

/-- The place that is read next is free when there is no item. -/
theorem Holds.cell_readAt (h : Holds s q) : s.cell s.readAt = q.head? := by
  have hfirst := h.cells 0 h.size_pos
  rw [index_zero h.readAt_lt] at hfirst
  rw [hfirst, List.head?_eq_getElem?]

theorem holds_init {size : Nat} (h : 0 < size) : Holds (init size : Ring α) [] where
  length := by simp [init]
  pread := h
  pwrite := h
  fits := by simp
  cells i _ := by
    simp only [init, cell, List.getD_eq_getElem?_getD, List.getElem?_replicate]
    split <;> simp
  behind := by simp [writeAt, readAt, init, index_zero h]
  aware := ⟨by simp [init], by simp [init], by simp [init]⟩
  run := .start
  stored := by simp [init, unreturned]
  answers := by simp [init, pending]

/-! ## The writer -/

/-- An item is stored behind the others. -/
theorem holds_store {data : α} (h : Holds s q) (hpc : s.push = .store data) :
    Holds (s.write data) (q ++ [data]) := by
  have hroom := h.aware.store data hpc
  have hwrite : s.writeAt = s.pwrite := by simp [writeAt, hpc]
  have hat : s.pwrite = index s.size s.readAt q.length := hwrite.symm.trans h.behind
  have hstep : s.write data = { s with
      buf := s.buf.set s.pwrite (some data), push := .advance, acts := s.acts ++ [.put data] } := by
    simp [write, hpc]
  rw [hstep]
  have hlt : s.pwrite < s.buf.length := h.length.symm ▸ h.pwrite
  refine ⟨by simp [h.length], h.pread, h.pwrite, by simpa using Nat.succ_le_of_lt hroom, fun i hi => ?_, ?_, ?_,
    h.run.put data, ?_, ?_⟩
  · have hcell := @cell_set α s s.pwrite (index s.size s.readAt i) (some data) hlt
    refine hcell.trans ?_
    by_cases hin : q.length = i
    · subst hin
      simp [hat]
    · have hne : s.pwrite ≠ index s.size s.readAt i := by
        rw [hat]
        exact fun he => hin ((index_eq_iff hroom hi).1 he)
      rw [if_neg hne, h.cells i hi]
      rcases Nat.lt_or_ge i q.length with hlow | hhigh
      · rw [List.getElem?_append_left hlow]
      · have hlong : (q ++ [data]).length ≤ i := by
          simp only [List.length_append, List.length_singleton]
          omega
        rw [List.getElem?_eq_none hhigh, List.getElem?_eq_none hlong]
  · show next s.size s.pwrite = index s.size s.readAt (q ++ [data]).length
    rw [hat, next_index h.readAt_lt hroom]
    simp
  · refine ⟨by simp, by simp, fun d hd => ?_⟩
    have hhead := h.aware.clear d hd
    simp [List.head?_append, hhead]
  · have hstored := h.stored
    simp only [unreturned, hpc, Nat.add_zero] at hstored
    simp [unreturned, hstored]
  · simpa using h.answers

theorem holds_write (h : Holds s q) (data : α) : ∃ q', Holds (s.write data) q' := by
  have hstored := h.stored
  cases hpc : s.push with
  | idle =>
    simp only [unreturned, hpc, Nat.add_zero] at hstored
    have hwrite : s.writeAt = s.pwrite := by simp [writeAt, hpc]
    cases hroom : s.available with
    | true =>
      have hlt : q.length < s.size := by
        rw [← h.cell_writeAt, hwrite]
        exact hroom
      have hstep : s.write data = { s with push := .store data } := by
        simp [write, hpc, hroom]
      rw [hstep]
      exact ⟨q, h.length, h.pread, h.pwrite, h.fits, h.cells, hwrite ▸ h.behind,
        ⟨fun _ _ => hlt, h.aware.load, h.aware.clear⟩, h.run, hstored, h.answers⟩
    | false =>
      have hstep : s.write data = { s with pushed := s.pushed ++ [false] } := by
        simp [write, hpc, hroom]
      rw [hstep]
      exact ⟨q, h.length, h.pread, h.pwrite, h.fits, h.cells, h.behind, ⟨h.aware.store, h.aware.load, h.aware.clear⟩,
        h.run, by simpa [unreturned, hpc] using hstored, h.answers⟩
  | store stored =>
    have hsame : s.write data = s.write stored := by simp [write, hpc]
    rw [hsame]
    exact ⟨_, holds_store h hpc⟩
  | advance =>
    simp only [unreturned, hpc] at hstored
    have hbehind : next s.size s.pwrite = index s.size s.readAt q.length := by
      have := h.behind
      simpa [writeAt, hpc] using this
    have hstep : s.write data = { s with
        pwrite := next s.size s.pwrite, push := .idle, pushed := s.pushed ++ [true] } := by
      simp [write, hpc]
    rw [hstep]
    exact ⟨q, h.length, h.pread, next_lt h.pwrite, h.fits, h.cells, hbehind,
      ⟨by simp, h.aware.load, h.aware.clear⟩, h.run, by simpa [unreturned] using hstored, h.answers⟩

/-! ## The reader -/

/-- The first item is cleared. -/
theorem holds_clear {data : α} (h : Holds s q) (hpc : s.pop = .clear data) :
    ∃ q', Holds s.read q' := by
  have hhead := h.aware.clear data hpc
  obtain ⟨q', rfl⟩ : ∃ q', q = data :: q' := by
    cases q with
    | nil => simp at hhead
    | cons a q' =>
      refine ⟨q', ?_⟩
      simp only [List.head?_cons, Option.some.injEq] at hhead
      rw [hhead]
  have hread : s.readAt = s.pread := by simp [readAt, hpc]
  have hstep : s.read = { s with
      buf := s.buf.set s.pread none, pop := .advance data, acts := s.acts ++ [.take data] } := by
    simp [read, hpc]
  rw [hstep]
  have hfits : q'.length + 1 ≤ s.size := by simpa using h.fits
  have hlt : s.pread < s.buf.length := h.length.symm ▸ h.pread
  refine ⟨q', by simp [h.length], h.pread, h.pwrite, Nat.le_of_succ_le hfits, fun i hi => ?_, ?_, ?_,
    h.run.take, by simpa using h.stored, ?_⟩
  · show cell { s with buf := s.buf.set s.pread none } (index s.size (next s.size s.pread) i) = q'[i]?
    have hi : i < s.size := hi
    rw [cell_set hlt, index_next h.pread hi]
    rcases Nat.lt_or_ge (i + 1) s.size with hin | hlast
    · have hne : s.pread ≠ index s.size s.pread (i + 1) := by
        have hzero := index_zero h.pread
        intro he
        have := (index_eq_iff h.size_pos hin).1 (hzero.trans he)
        omega
      have hcell := h.cells (i + 1) hin
      rw [hread] at hcell
      rw [if_neg hne, hcell]
      simp
    · have hround : i + 1 = s.size := by omega
      rw [hround, index_size, if_pos rfl, List.getElem?_eq_none]
      omega
  · show writeAt s = index s.size (next s.size s.pread) q'.length
    rw [index_next h.pread (by omega), h.behind, hread]
    simp
  · refine ⟨fun d hd => ?_, by simp, by simp⟩
    have := h.aware.store d hd
    simp only [List.length_cons] at this
    show q'.length < s.size
    omega
  · have hans := h.answers
    simp only [pending, hpc, List.append_nil] at hans
    simp [pending, hans]

theorem holds_read (h : Holds s q) : ∃ q', Holds s.read q' := by
  cases hpc : s.pop with
  | idle =>
    have hread : s.readAt = s.pread := by simp [readAt, hpc]
    have hfirst := h.cell_readAt
    rw [hread] at hfirst
    cases hempty : s.empty with
    | true =>
      have hstep : s.read = { s with popped := s.popped ++ [none] } := by
        simp [read, hpc, hempty]
      have hans := h.answers
      rw [hstep]
      refine ⟨q, h.length, h.pread, h.pwrite, h.fits, h.cells, h.behind, ⟨h.aware.store, h.aware.load, h.aware.clear⟩, h.run, h.stored, ?_⟩
      simpa [List.reduceOption_append, pending, hpc] using hans
    | false =>
      have hne : q ≠ [] := by
        intro hq
        rw [hq] at hfirst
        simp [empty, hfirst] at hempty
      have hstep : s.read = { s with pop := .load } := by simp [read, hpc, hempty]
      have hans := h.answers
      simp only [pending, hpc] at hans
      rw [hstep]
      exact ⟨q, h.length, h.pread, h.pwrite, h.fits, hread ▸ h.cells, hread ▸ h.behind,
        ⟨h.aware.store, fun _ => hne, by simp⟩, h.run, h.stored, hans⟩
  | load =>
    have hread : s.readAt = s.pread := by simp [readAt, hpc]
    have hne := h.aware.load hpc
    have hfirst := h.cell_readAt
    rw [hread] at hfirst
    obtain ⟨data, hdata⟩ : ∃ data, q.head? = some data := by
      cases q with
      | nil => exact absurd rfl hne
      | cons a q => exact ⟨a, rfl⟩
    have hstep : s.read = { s with pop := .clear data } := by simp [read, hpc, hfirst, hdata]
    have hans := h.answers
    simp only [pending, hpc] at hans
    rw [hstep]
    refine ⟨q, h.length, h.pread, h.pwrite, h.fits, hread ▸ h.cells, hread ▸ h.behind,
      ⟨h.aware.store, by simp, fun d hd => ?_⟩, h.run, h.stored, hans⟩
    simp only [RingPop.clear.injEq] at hd
    rw [← hd, hdata]
  | clear data => exact holds_clear h hpc
  | advance data =>
    have hread : s.readAt = next s.size s.pread := by simp [readAt, hpc]
    have hstep : s.read = { s with
        pread := next s.size s.pread, pop := .idle, popped := s.popped ++ [some data] } := by
      simp [read, hpc]
    have hans := h.answers
    rw [hstep]
    refine ⟨q, h.length, next_lt h.pread, h.pwrite, h.fits, hread ▸ h.cells, hread ▸ h.behind,
      ⟨h.aware.store, by simp, by simp⟩, h.run, h.stored, ?_⟩
    simpa [List.reduceOption_append, pending, hpc] using hans

/-! ## Runs -/

theorem holds_run (h : Holds s q) (turns : List (Turn α)) : ∃ q', Holds (runFrom step s turns) q' := by
  refine runFrom_of_step (P := fun s => ∃ q, Holds s q) (fun s t hs => ?_) ⟨q, h⟩ turns
  obtain ⟨q, hs⟩ := hs
  cases t with
  | writer data => exact holds_write hs data
  | reader => exact holds_read hs

/-- **A bounded buffer is a queue of its size**, whatever turns the two threads take: what is
stored comes out once and in order, a `push` fails only on a full buffer and a `pop` only on an
empty one, and both stay in the buffer. -/
theorem ring_fifo {size : Nat} (h : 0 < size) (turns : List (Turn α)) :
    let s := runFrom step (init size) turns
    ∃ q, FifoRun [] s.acts q ∧ q.length ≤ s.size ∧
      (puts s.acts).length = s.pushed.count true + unreturned s.push ∧
      takes s.acts = s.popped.reduceOption ++ pending s.pop ∧
      (s.push = .idle → (s.available ↔ q.length < s.size)) ∧
      (s.pop = .idle → (s.empty ↔ q = [])) ∧
      s.pread < s.buf.length ∧ s.pwrite < s.buf.length := by
  intro s
  obtain ⟨q, hq⟩ : ∃ q, Holds s q := holds_run (holds_init h) turns
  refine ⟨q, hq.run, hq.fits, hq.stored, hq.answers, fun hpc => ?_, fun hpc => ?_,
    hq.length.symm ▸ hq.pread, hq.length.symm ▸ hq.pwrite⟩
  · have hwrite : s.writeAt = s.pwrite := by simp [writeAt, hpc]
    rw [← hq.cell_writeAt, hwrite]
    rfl
  · have hread : s.readAt = s.pread := by simp [readAt, hpc]
    have hfirst := hq.cell_readAt
    rw [hread] at hfirst
    simp [empty, hfirst]

theorem ring_fifo_demo :
    let s := runFrom step (init 2 : Ring Nat)
      [.writer 7, .reader, .writer 7, .reader, .writer 7, .writer 8, .reader]
    ∃ q, FifoRun [] s.acts q ∧ q.length ≤ s.size ∧
      (puts s.acts).length = s.pushed.count true + unreturned s.push ∧
      takes s.acts = s.popped.reduceOption ++ pending s.pop ∧
      (s.push = .idle → (s.available ↔ q.length < s.size)) ∧
      (s.pop = .idle → (s.empty ↔ q = [])) ∧
      s.pread < s.buf.length ∧ s.pwrite < s.buf.length :=
  ring_fifo (by decide) _

end Fix8.Queue.Ring
