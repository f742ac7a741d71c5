import Fix8.Persist.Persister
import Fix8.Lib.Run

/-!
# The memory and the file persister

The two persisters hold the same messages after the same calls (`Agree`), whatever has become of
their control records: the second put of a control record fails in memory, and its get reads the
string object instead of its bytes. So they answer alike exactly as long as no call meets a
control record that the memory persister has lost (`Interchangeable`).

* `agree_call`: a call keeps `Agree`;
* `reply_eq_iff`: when the two replies to a call are the same;
* **`persisters_interchange_iff`**.
-/

namespace Fix8.Persist

open Lib Codec

/-- The two persisters after a call of both. -/
def callBoth (p : MemoryPersister × FilePersister) (c : Call) : MemoryPersister × FilePersister :=
  ((p.1.call c).2, (p.2.call c).2)

/-- The two persisters reply to the call in the same way. -/
def RepliesAgree (p : MemoryPersister × FilePersister) (c : Call) : Prop :=
  (p.1.call c).1 = (p.2.call c).1

/-- Newly opened persisters. -/
def openedMemory (words : Nat × Nat) : MemoryPersister := ⟨OrdMap.empty, words⟩
def openedFile : FilePersister := ⟨OrdMap.empty, [], []⟩

/-- The calls to which the replies are the same, read at the state before the call: the control
record is put once, the words read for it are its numbers, and no message that is fetched is
larger than the file persister's buffer. -/
def Interchangeable (p : MemoryPersister × FilePersister) : Call → Prop
  | .putControl _ _ => p.2.index.get? 0 = none
  | .getControl => ∀ prec, p.2.index.get? 0 = some prec → p.1.words = (prec.offset, prec.size)
  | .getMessage seqnum =>
    seqnum ≠ 0 → ∀ prec, p.2.index.get? seqnum = some prec → prec.size ≤ maxMsgLength
  | _ => True

/-- The two persisters hold the same messages. -/
structure Agree (p : MemoryPersister × FilePersister) : Prop where
  stored : ∀ k, (p.1.store.get? k).isSome = (p.2.index.get? k).isSome
  message : ∀ k prec, k ≠ 0 → p.2.index.get? k = some prec →
    prec.offset + prec.size ≤ p.2.fod.length ∧ p.1.store.get? k = p.2.read prec

variable {p : MemoryPersister × FilePersister} {c : Call}

theorem agree_opened (words : Nat × Nat) : Agree (openedMemory words, openedFile) where
  stored _ := rfl
  message _ _ _ h := by cases h

/-! ## Reading -/

/-- What is appended to the data file leaves the messages in it. -/
theorem read_append {f : FilePersister} {prec : Prec} {what : F8String}
    {index : OrdMap Nat Prec} {iod : List IPrec}
    (h : prec.offset + prec.size ≤ f.fod.length) :
    (⟨index, iod, f.fod ++ what⟩ : FilePersister).read prec = f.read prec := by
  have hdrop : ((f.fod ++ what).drop prec.offset).take prec.size =
      (f.fod.drop prec.offset).take prec.size := by
    rw [List.drop_append_of_le_length (by omega), List.take_append_of_le_length]
    rw [List.length_drop]
    omega
  simp only [FilePersister.read, hdrop]

/-- The message just written. -/
theorem read_written {fod what : F8String} {index : OrdMap Nat Prec} {iod : List IPrec} :
    (⟨index, iod, fod ++ what⟩ : FilePersister).read ⟨fod.length, what.length⟩ = some what := by
  simp [FilePersister.read]

/-! ## One call -/

/-- Where the index has nothing, neither has the memory store; and the other way round. -/
theorem Agree.absent (h : Agree p) {k : Nat} (hk : p.2.index.get? k = none) :
    p.1.store.get? k = none := by
  have hs := h.stored k
  rw [hk] at hs
  exact Option.isNone_iff_eq_none.1 (by simpa using hs)

theorem Agree.present (h : Agree p) {k : Nat} {prec : Prec} (hk : p.2.index.get? k = some prec) :
    ∃ what, p.1.store.get? k = some what := by
  have hs := h.stored k
  rw [hk] at hs
  exact Option.isSome_iff_exists.1 hs

theorem isSome_insert {α : Type} {m : OrdMap Nat α} {k j : Nat} {a : α} :
    ((m.insert k a).get? j).isSome = (decide (j = k) || (m.get? j).isSome) := by
  rw [OrdMap.get?_insert]
  split
  · simp [*]
  · simp [*]

/-- An insertion under a key that is there changes nothing. -/
theorem get?_insert_present {α : Type} {m : OrdMap Nat α} {k : Nat} {a b : α}
    (h : m.get? k = some b) (j : Nat) : (m.insert k a).get? j = m.get? j := by
  rw [OrdMap.get?_insert]
  split
  · rename_i hj
    rw [hj, h]
    rfl
  · rfl

theorem agree_putMessage (h : Agree p) (seqnum : Nat) (what : F8String) :
    Agree ((p.1.putMessage seqnum what).2, (p.2.putMessage seqnum what).2) := by
  unfold MemoryPersister.putMessage FilePersister.putMessage
  by_cases h0 : seqnum = 0
  · rw [if_pos h0, if_pos (.inl h0)]
    exact h
  cases hk : p.2.index.get? seqnum with
  | some prec =>
    obtain ⟨t, ht⟩ := h.present hk
    have hsame := get?_insert_present (a := what) ht
    rw [if_neg h0, if_pos (.inr rfl)]
    exact ⟨fun k => (congrArg Option.isSome (hsame k)).trans (h.stored k),
      fun k prec hk0 hp => ⟨(h.message k prec hk0 hp).1,
        (hsame k).trans (h.message k prec hk0 hp).2⟩⟩
  | none =>
    have hnone := h.absent hk
    rw [if_neg h0, if_neg (by simp [h0])]
    refine ⟨fun k => ?_, fun k prec hk0 hp => ?_⟩
    · show ((p.1.store.insert seqnum what).get? k).isSome =
        ((p.2.index.insert seqnum ⟨p.2.fod.length, what.length⟩).get? k).isSome
      rw [isSome_insert, isSome_insert, h.stored k]
    · have hp' : (p.2.index.insert seqnum ⟨p.2.fod.length, what.length⟩).get? k = some prec := hp
      rw [OrdMap.get?_insert] at hp'
      show _ ∧ (p.1.store.insert seqnum what).get? k = _
      rw [OrdMap.get?_insert]
      by_cases hkk : k = seqnum
      · rw [if_pos hkk, hk] at hp'
        obtain rfl := Option.some.inj hp'
        rw [if_pos hkk, hnone]
        exact ⟨by simp, read_written.symm⟩
      · rw [if_neg hkk] at hp' ⊢
        obtain ⟨hle, hm⟩ := h.message k prec hk0 hp'
        rw [read_append hle]
        exact ⟨by simp only [List.length_append]; omega, hm⟩

theorem indexControl_of_ne {index : OrdMap Nat Prec} {prec : Prec} {k : Nat} (hk : k ≠ 0) :
    (FilePersister.indexControl index prec).get? k = index.get? k := by
  unfold FilePersister.indexControl
  split
  · exact OrdMap.get?_insert_of_ne hk
  · rw [OrdMap.get?_replace, if_neg hk]

theorem indexControl_self {index : OrdMap Nat Prec} {prec : Prec} :
    (FilePersister.indexControl index prec).get? 0 = some prec := by
  unfold FilePersister.indexControl
  split
  · rename_i h
    rw [OrdMap.get?_insert, if_pos rfl, Option.isNone_iff_eq_none.1 h]
    rfl
  · rename_i h
    obtain ⟨prec', hprec'⟩ := Option.isSome_iff_exists.1 (by simpa [Option.isSome_iff_ne_none] using h)
    rw [OrdMap.get?_replace, if_pos rfl, hprec']
    rfl

theorem indexControl_zero {index : OrdMap Nat Prec} {prec : Prec} :
    ((FilePersister.indexControl index prec).get? 0).isSome := by
  rw [indexControl_self]
  rfl

theorem agree_putControl (h : Agree p) (a b : Nat) :
    Agree ((p.1.putControl a b).2, (p.2.putControl a b).2) where
  stored k := by
    show ((p.1.store.insert 0 (wordBytes a ++ wordBytes b)).get? k).isSome =
      ((FilePersister.indexControl p.2.index ⟨a, b⟩).get? k).isSome
    by_cases hk : k = 0
    · subst hk
      rw [isSome_insert, indexControl_zero]
      rfl
    · rw [OrdMap.get?_insert_of_ne hk, indexControl_of_ne hk, h.stored k]
  message k prec hk hp := by
    have hp' : p.2.index.get? k = some prec := (indexControl_of_ne hk).symm.trans hp
    obtain ⟨hle, hm⟩ := h.message k prec hk hp'
    exact ⟨hle, (OrdMap.get?_insert_of_ne hk).trans hm⟩

/-- A call keeps the messages of the two persisters the same. -/
theorem agree_call (h : Agree p) (c : Call) : Agree (callBoth p c) := by
  cases c with
  | putMessage seqnum what => exact agree_putMessage h seqnum what
  | putControl a b => exact agree_putControl h a b
  | getMessage seqnum => exact h
  | getControl => exact h
  | getLastSeqnum => exact h
  | findNearestHighestSeqnum requested last => exact h

/-! ## One reply -/

theorem reply_putMessage (h : Agree p) (seqnum : Nat) (what : F8String) :
    (p.1.putMessage seqnum what).1 = (p.2.putMessage seqnum what).1 := by
  unfold MemoryPersister.putMessage FilePersister.putMessage MemoryPersister.insert
  by_cases h0 : seqnum = 0
  · simp [h0]
  cases hk : p.2.index.get? seqnum with
  | none => simp [h0, h.absent hk]
  | some prec =>
    obtain ⟨t, ht⟩ := h.present hk
    simp [h0, ht]

theorem reply_putControl (h : Agree p) (a b : Nat) :
    (p.1.putControl a b).1 = (p.2.putControl a b).1 ↔ p.2.index.get? 0 = none := by
  unfold MemoryPersister.putControl FilePersister.putControl MemoryPersister.insert
  cases hk : p.2.index.get? 0 with
  | none => simp [h.absent hk]
  | some prec =>
    obtain ⟨t, ht⟩ := h.present hk
    simp [ht]

theorem reply_getMessage (h : Agree p) (seqnum : Nat) :
    Reply.message (p.1.getMessage seqnum) = p.2.getMessage seqnum ↔
      Interchangeable p (.getMessage seqnum) := by
  unfold MemoryPersister.getMessage FilePersister.getMessage Interchangeable
  by_cases h0 : seqnum = 0
  · simp [h0]
  cases hk : p.2.index.get? seqnum with
  | none => simp [h0, hk, h.absent hk]
  | some prec =>
    obtain ⟨-, hm⟩ := h.message seqnum prec h0 hk
    by_cases hsz : prec.size > maxMsgLength
    · simp [h0, hk, hsz]
    · simp [h0, hk, hsz, hm, not_lt.1 hsz]

theorem reply_getControl (h : Agree p) :
    p.1.getControl = p.2.getControl ↔ Interchangeable p .getControl := by
  unfold MemoryPersister.getControl FilePersister.getControl Interchangeable
  cases hk : p.2.index.get? 0 with
  | none => simp [h.absent hk]
  | some prec =>
    obtain ⟨t, ht⟩ := h.present hk
    simp [ht]

/-- When the two replies to a call are the same. -/
theorem reply_eq_iff (h : Agree p) (c : Call) : RepliesAgree p c ↔ Interchangeable p c := by
  cases c with
  | putMessage seqnum what =>
    exact iff_of_true (congrArg Reply.flag (reply_putMessage h seqnum what)) trivial
  | putControl a b => exact (Reply.flag.injEq ..).to_iff.trans (reply_putControl h a b)
  | getMessage seqnum => exact reply_getMessage h seqnum
  | getControl => exact (Reply.control.injEq ..).to_iff.trans (reply_getControl h)
  | getLastSeqnum =>
    refine iff_of_true (congrArg (fun n => Reply.number (some n)) ?_) trivial
    unfold getLastSeqnum
    rw [OrdMap.lastKey?_eq, OrdMap.lastKey?_eq, OrdMap.keys_congr h.stored]
  | findNearestHighestSeqnum requested last =>
    refine iff_of_true (congrArg Reply.number ?_) trivial
    unfold findNearestHighestSeqnum
    simp only [h.stored]

/-! ## Runs -/

/-- **Memory and file persister**: on newly opened stores the replies to a sequence of calls are
the same, call by call, iff every call is `Interchangeable`. -/
theorem persisters_interchange_iff (words : Nat × Nat) (calls : List Call) :
    Along callBoth RepliesAgree (openedMemory words, openedFile) calls ↔
      Along callBoth Interchangeable (openedMemory words, openedFile) calls :=
  along_congr (P := Agree) (fun _ c h => reply_eq_iff h c) (fun _ c h => agree_call h c)
    (agree_opened words)

/-- The second put of a control record fails in memory. -/
theorem second_control_differs : ¬ Along callBoth RepliesAgree (openedMemory (0, 0), openedFile)
    [.putControl 2 1, .putControl 3 1] := by
  intro h
  have hfirst : RepliesAgree (callBoth (openedMemory (0, 0), openedFile) (.putControl 2 1))
      (.putControl 3 1) := h.2.1
  revert hfirst
  unfold RepliesAgree
  decide

end Fix8.Persist
