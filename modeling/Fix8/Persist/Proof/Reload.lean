import Fix8.Persist.Proof.Interchange

/-!
# Reopening a file persister

The index file is an image of the index as long as its first record is that of the control record,
or there is none: a control record is always written at the start of the file, and overwrites what
stands there. So a message that is stored before the first control record is lost to a reload.

* `reloadIndex_get?`: the index that a reload makes;
* `Imaged`, `Lost`: the index file is an image of the index; the first message is lost;
* **`reload_iff`**: when a reload answers as the persister before it.
-/

namespace Fix8.Persist

open Lib Codec FilePersister

/-- A call that asks and does not put. -/
def Call.isGet : Call → Bool
  | .putMessage _ _ => false
  | .putControl _ _ => false
  | _ => true

/-- The two persisters answer alike to every get. -/
structure SameAnswers (p q : FilePersister) : Prop where
  call : ∀ c : Call, c.isGet = true → (p.call c).1 = (q.call c).1
  range : ∀ {σ : Type} (callback : Callback σ) (first last : Nat) (s : σ),
    (getRange callback first last (s, p)).map (fun r => (r.1, r.2.1)) =
      (getRange callback first last (s, q)).map fun r => (r.1, r.2.1)

/-- The persister after a call. -/
def callFile (p : FilePersister) (c : Call) : FilePersister := (p.call c).2

/-- A put that succeeds on newly opened files. -/
def Call.stores : Call → Bool
  | .putMessage seqnum _ => seqnum != 0
  | .putControl _ _ => true
  | _ => false

/-- If a control record is put at all, the first thing that is stored is one. -/
def ControlFirst (calls : List Call) : Prop :=
  ∀ a b, .putControl a b ∈ calls → ∃ a' b', calls.find? Call.stores = some (.putControl a' b')

variable {p : FilePersister} {c : Call} {calls : List Call}

/-! ## The reloaded index -/

/-- The first record under a key. -/
theorem reloadIndex_get? {iod : List IPrec} {k : Nat} :
    (reloadIndex iod).get? k = (iod.find? fun r => r.seq == k).map IPrec.prec := by
  rw [reloadIndex, OrdMap.get?_foldl_entry, OrdMap.get?_empty, Option.none_or]
  simp only [beq_eq_decide]

theorem reloadIndex_append {iod : List IPrec} {r : IPrec} :
    reloadIndex (iod ++ [r]) = (reloadIndex iod).insert r.seq r.prec := by
  simp [reloadIndex, List.foldl_append]

/-! ## The image -/

/-- The index file is an image of the index. -/
def Imaged (p : FilePersister) : Prop := reloadIndex p.iod = p.index

/-- A control record stands at the start of the image. -/
def Controlled (p : FilePersister) : Prop :=
  Imaged p ∧ ∃ prec iod, p.iod = ⟨0, prec⟩ :: iod

/-- The image has only messages. -/
structure Messages (p : FilePersister) : Prop where
  imaged : Imaged p
  first : ∃ r iod, p.iod = r :: iod ∧ r.seq ≠ 0 ∧ (∀ r' ∈ iod, r'.seq ≠ r.seq) ∧
    p.index.get? r.seq = some r.prec

/-- A control record has been written over the record of a message. -/
def Lost (p : FilePersister) : Prop :=
  ∃ seqnum prec prec₀ iod, seqnum ≠ 0 ∧ p.index.get? seqnum = some prec ∧
    p.iod = ⟨0, prec₀⟩ :: iod ∧ ∀ r ∈ iod, r.seq ≠ seqnum

theorem imaged_putMessage (h : Imaged p) (seqnum : Nat) (what : F8String) :
    Imaged (p.putMessage seqnum what).2 := by
  unfold FilePersister.putMessage
  split
  · exact h
  · unfold Imaged
    rw [reloadIndex_append, h]

theorem controlled_call (h : Controlled p) (c : Call) : Controlled (callFile p c) := by
  obtain ⟨himage, prec, iod, hiod⟩ := h
  cases c with
  | putMessage seqnum what =>
    refine ⟨imaged_putMessage himage seqnum what, ?_⟩
    show ∃ prec iod, (p.putMessage seqnum what).2.iod = ⟨0, prec⟩ :: iod
    unfold FilePersister.putMessage
    split
    · exact ⟨prec, iod, hiod⟩
    · exact ⟨prec, iod ++ [_], by rw [hiod]; rfl⟩
  | putControl a b =>
    have hiod' : (p.putControl a b).2.iod = ⟨0, ⟨a, b⟩⟩ :: iod := by
      unfold FilePersister.putControl
      rw [hiod]
      rfl
    refine ⟨OrdMap.ext_get? fun k => ?_, ⟨a, b⟩, iod, hiod'⟩
    show (reloadIndex (p.putControl a b).2.iod).get? k = (indexControl p.index ⟨a, b⟩).get? k
    rw [hiod', reloadIndex_get?, List.find?_cons]
    by_cases hk : k = 0
    · subst hk
      have hzero : p.index.get? 0 = some prec := by
        rw [← himage, reloadIndex_get?, hiod]
        rfl
      unfold indexControl
      rw [hzero, if_neg (by simp), OrdMap.get?_replace, if_pos rfl, hzero]
      rfl
    · rw [beq_false_of_ne (Ne.symm hk), indexControl_of_ne hk, ← himage, reloadIndex_get?, hiod,
        List.find?_cons, beq_false_of_ne (Ne.symm hk)]
  | getMessage seqnum => exact ⟨himage, prec, iod, hiod⟩
  | getControl => exact ⟨himage, prec, iod, hiod⟩
  | getLastSeqnum => exact ⟨himage, prec, iod, hiod⟩
  | findNearestHighestSeqnum requested last => exact ⟨himage, prec, iod, hiod⟩

theorem putMessage_iod {seqnum : Nat} {what : F8String} {r : IPrec} {iod : List IPrec} {k : Nat}
    {prec : Prec} (hiod : p.iod = r :: iod) (hother : ∀ r' ∈ iod, r'.seq ≠ k)
    (hk : p.index.get? k = some prec) :
    ∃ iod', (p.putMessage seqnum what).2.iod = r :: iod' ∧ (∀ r' ∈ iod', r'.seq ≠ k) ∧
      (p.putMessage seqnum what).2.index.get? k = some prec := by
  unfold FilePersister.putMessage
  split
  · exact ⟨iod, hiod, hother, hk⟩
  · rename_i hnew
    have hne : seqnum ≠ k := by
      rintro rfl
      exact hnew (.inr (by rw [hk]; rfl))
    refine ⟨iod ++ [⟨seqnum, ⟨p.fod.length, what.length⟩⟩], by rw [hiod]; rfl, ?_, ?_⟩
    · intro r' hr'
      rcases List.mem_append.1 hr' with hr' | hr'
      · exact hother r' hr'
      · obtain rfl := List.mem_singleton.1 hr'
        exact hne
    · exact (OrdMap.get?_insert_of_ne hne.symm).trans hk

theorem lost_call (h : Lost p) (c : Call) : Lost (callFile p c) := by
  obtain ⟨seqnum, prec, prec₀, iod, h0, hindex, hiod, hother⟩ := h
  cases c with
  | putMessage n what =>
    obtain ⟨iod', hiod', hother', hindex'⟩ := putMessage_iod hiod hother hindex
    exact ⟨seqnum, prec, prec₀, iod', h0, hindex', hiod', hother'⟩
  | putControl a b =>
    refine ⟨seqnum, prec, ⟨a, b⟩, iod, h0, (indexControl_of_ne h0).trans hindex, ?_, hother⟩
    show writeFirst ⟨0, ⟨a, b⟩⟩ p.iod = _
    rw [hiod]
    rfl
  | getMessage n => exact ⟨seqnum, prec, prec₀, iod, h0, hindex, hiod, hother⟩
  | getControl => exact ⟨seqnum, prec, prec₀, iod, h0, hindex, hiod, hother⟩
  | getLastSeqnum => exact ⟨seqnum, prec, prec₀, iod, h0, hindex, hiod, hother⟩
  | findNearestHighestSeqnum requested last =>
    exact ⟨seqnum, prec, prec₀, iod, h0, hindex, hiod, hother⟩

theorem messages_call (h : Messages p) (hc : ∀ a b, c ≠ .putControl a b) :
    Messages (callFile p c) := by
  obtain ⟨himage, r, iod, hiod, h0, hother, hindex⟩ := h
  cases c with
  | putMessage n what =>
    obtain ⟨iod', hiod', hother', hindex'⟩ := putMessage_iod hiod hother hindex
    exact ⟨imaged_putMessage himage n what, r, iod', hiod', h0, hother', hindex'⟩
  | putControl a b => exact absurd rfl (hc a b)
  | getMessage n => exact ⟨himage, r, iod, hiod, h0, hother, hindex⟩
  | getControl => exact ⟨himage, r, iod, hiod, h0, hother, hindex⟩
  | getLastSeqnum => exact ⟨himage, r, iod, hiod, h0, hother, hindex⟩
  | findNearestHighestSeqnum requested last => exact ⟨himage, r, iod, hiod, h0, hother, hindex⟩

/-- A control record overwrites the first message. -/
theorem messages_putControl (h : Messages p) (a b : Nat) : Lost (callFile p (.putControl a b)) := by
  obtain ⟨-, r, iod, hiod, h0, hother, hindex⟩ := h
  refine ⟨r.seq, r.prec, ⟨a, b⟩, iod, h0, (indexControl_of_ne h0).trans hindex, ?_, hother⟩
  show writeFirst ⟨0, ⟨a, b⟩⟩ p.iod = _
  rw [hiod]
  rfl

/-! ## The answers -/

/-- Where the file is an image, the reload is the persister again. -/
theorem Imaged.reload (h : Imaged p) : p.reload = p := by
  unfold FilePersister.reload
  rw [h]

theorem Imaged.sameAnswers (h : Imaged p) : SameAnswers p.reload p := by
  rw [h.reload]
  exact ⟨fun _ _ => rfl, fun _ _ _ _ => rfl⟩

/-- The messages of the index are in the data file. -/
def InFile (p : FilePersister) : Prop :=
  ∀ k prec, k ≠ 0 → p.index.get? k = some prec → prec.offset + prec.size ≤ p.fod.length

theorem inFile_call (h : InFile p) (c : Call) : InFile (callFile p c) := by
  cases c with
  | putMessage seqnum what =>
    show InFile (p.putMessage seqnum what).2
    unfold FilePersister.putMessage
    split
    · exact h
    · rename_i hnew
      intro k prec hk hindex
      have hindex : (p.index.insert seqnum ⟨p.fod.length, what.length⟩).get? k = some prec := hindex
      have hgrow : (p.fod ++ what).length = p.fod.length + what.length := List.length_append
      show prec.offset + prec.size ≤ (p.fod ++ what).length
      rw [OrdMap.get?_insert] at hindex
      split at hindex
      · have hnone : p.index.get? seqnum = none := by
          simpa using (not_or.1 hnew).2
        rw [hnone] at hindex
        obtain rfl := Option.some.inj hindex
        rw [hgrow]
        exact le_refl _
      · have hle := h k prec hk hindex
        omega
  | putControl a b =>
    intro k prec hk hindex
    exact h k prec hk ((indexControl_of_ne hk).symm.trans hindex)
  | getMessage seqnum => exact h
  | getControl => exact h
  | getLastSeqnum => exact h
  | findNearestHighestSeqnum requested last => exact h

/-- The message that is lost is not found any more. -/
theorem Lost.answers_differ (h : Lost p) (hfile : InFile p) : ¬ SameAnswers p.reload p := by
  obtain ⟨seqnum, prec, prec₀, iod, h0, hindex, hiod, hother⟩ := h
  intro hsame
  have hreply : p.reload.getMessage seqnum = p.getMessage seqnum :=
    hsame.call (.getMessage seqnum) rfl
  have hnone : p.reload.index.get? seqnum = none := by
    show (reloadIndex p.iod).get? seqnum = none
    rw [reloadIndex_get?, hiod, List.find?_cons, beq_false_of_ne (Ne.symm h0)]
    refine Option.map_eq_none_iff.2 (List.find?_eq_none.2 fun r hr => ?_)
    simpa using hother r hr
  have hread : p.read prec = some ((p.fod.drop prec.offset).take prec.size) := by
    have hle := hfile seqnum prec h0 hindex
    unfold FilePersister.read
    rw [if_pos]
    rw [List.length_take, List.length_drop]
    omega
  unfold FilePersister.getMessage at hreply
  rw [if_neg h0, if_neg h0, hnone, hindex] at hreply
  dsimp only at hreply
  split at hreply
  · cases hreply
  · rw [hread] at hreply
    cases hreply

/-! ## Runs -/

/-- From messages on, the answers stay the same iff no control record is put. -/
theorem messages_run (h : Messages p) (hfile : InFile p) :
    SameAnswers (runFrom callFile p calls).reload (runFrom callFile p calls) ↔
      ∀ a b, Call.putControl a b ∉ calls := by
  induction calls generalizing p with
  | nil => exact iff_of_true h.imaged.sameAnswers fun a b => List.not_mem_nil
  | cons c calls ih =>
    rw [runFrom_cons]
    by_cases hc : ∃ a b, c = .putControl a b
    · obtain ⟨a, b, rfl⟩ := hc
      refine iff_of_false ?_ fun hno => hno a b (List.mem_cons_self ..)
      have hlost : Lost (runFrom callFile (callFile p (.putControl a b)) calls) :=
        runFrom_of_step (P := Lost) (fun _ c h => lost_call h c) (messages_putControl h a b) calls
      have hinFile : InFile (runFrom callFile (callFile p (.putControl a b)) calls) :=
        runFrom_of_step (P := InFile) (fun _ c h => inFile_call h c) (inFile_call hfile _) calls
      exact hlost.answers_differ hinFile
    · have hne : ∀ a b, c ≠ .putControl a b := fun a b heq => hc ⟨a, b, heq⟩
      rw [ih (messages_call h hne) (inFile_call hfile c)]
      refine forall₂_congr fun a b => ?_
      rw [List.mem_cons, not_or]
      exact (and_iff_right (hne a b).symm).symm

/-- A call that stores nothing in new files leaves them new. -/
theorem opened_call (hc : c.stores = false) : callFile openedFile c = openedFile := by
  cases c with
  | putMessage seqnum what =>
    obtain rfl : seqnum = 0 := by simpa [Call.stores] using hc
    rfl
  | putControl a b => cases hc
  | getMessage seqnum => rfl
  | getControl => rfl
  | getLastSeqnum => rfl
  | findNearestHighestSeqnum requested last => rfl

theorem opened_putControl {a b : Nat} : Controlled (callFile openedFile (.putControl a b)) :=
  ⟨rfl, ⟨a, b⟩, [], rfl⟩

theorem opened_putMessage {seqnum : Nat} {what : F8String} (h0 : seqnum ≠ 0) :
    Messages (callFile openedFile (.putMessage seqnum what)) := by
  have hput : callFile openedFile (.putMessage seqnum what) =
      ⟨OrdMap.empty.insert seqnum ⟨0, what.length⟩, [⟨seqnum, ⟨0, what.length⟩⟩], what⟩ := by
    unfold callFile FilePersister.call FilePersister.putMessage openedFile
    simp [h0]
  rw [hput]
  refine ⟨rfl, _, [], rfl, h0, fun r hr => absurd hr List.not_mem_nil, ?_⟩
  rw [OrdMap.get?_insert, if_pos rfl]
  rfl

theorem inFile_opened : InFile openedFile := fun _ _ _ h => by cases h

/-- **A reload answers as the persister before it** iff no message is stored before the first
control record. -/
theorem reload_iff (calls : List Call) :
    SameAnswers (runFrom callFile openedFile calls).reload (runFrom callFile openedFile calls) ↔
      ControlFirst calls := by
  unfold ControlFirst
  induction calls with
  | nil => exact iff_of_true (Imaged.sameAnswers rfl) fun a b h => absurd h List.not_mem_nil
  | cons c calls ih =>
    rw [runFrom_cons]
    cases hstores : c.stores with
    | false =>
      rw [opened_call hstores, ih, List.find?_cons_of_neg (by simp [hstores])]
      refine forall₂_congr fun a b => ?_
      have hne : Call.putControl a b ≠ c := by
        rintro rfl
        cases hstores
      rw [List.mem_cons, or_iff_right hne]
    | true =>
      rw [List.find?_cons_of_pos hstores]
      cases c with
      | putControl a b =>
        refine iff_of_true ?_ fun _ _ _ => ⟨a, b, rfl⟩
        have hcontrolled :
            Controlled (runFrom callFile (callFile openedFile (.putControl a b)) calls) :=
          runFrom_of_step (P := Controlled) (fun _ c h => controlled_call h c) opened_putControl
            calls
        exact hcontrolled.1.sameAnswers
      | putMessage seqnum what =>
        rw [messages_run (opened_putMessage (by simpa [Call.stores] using hstores))
          (inFile_call inFile_opened _)]
        refine forall₂_congr fun a b => ?_
        rw [List.mem_cons, or_iff_right (by simp)]
        exact ⟨fun hno hmem => absurd hmem hno, fun h hmem => by obtain ⟨_, _, h⟩ := h hmem; cases h⟩
      | getMessage seqnum => cases hstores
      | getControl => cases hstores
      | getLastSeqnum => cases hstores
      | findNearestHighestSeqnum requested last => cases hstores

/-- A message, and then a control record. -/
theorem message_lost : ¬ SameAnswers
    (runFrom callFile openedFile [.putMessage 1 (ascii "one"), .putControl 2 1]).reload
    (runFrom callFile openedFile [.putMessage 1 (ascii "one"), .putControl 2 1]) := by
  intro h
  have hreply := h.call (.getMessage 1) rfl
  exact absurd hreply (by decide +kernel)

end Fix8.Persist
