import Fix8.Session.Proof.Counter

/-!
# What a call of `send_process` leaves behind

A call that returns true has put the text of its message on the wire, at once or with its batch,
and has stored a text of its own (`ptrText`) under the counter (`sendProcess_persist`).

* `storedAsSent_iff`: when the store then has the message under the number it went out with;
* **`sends_stored`**: it does after every call of a run whose messages can be stored.
-/

namespace Fix8.Session

open Lib

/-! ## One call -/

/-- The text of a message as a call puts it on the wire, at once or with its batch. -/
def wireText (v : Env) (s : Session) (m : Msg) : Text :=
  if m.endOfBatch ∧ s.batchmsgsBuffer = [] then [stamp v s m] else [(stamp v s m).cstr]

/-- The text `ptr` points to when a call stores its message. -/
def ptrText (v : Env) (s : Session) (m : Msg) : Text :=
  if m.endOfBatch ∧ s.batchmsgsBuffer ≠ [] then [] else [(stamp v s m).cstr]

/-- The message moves the send counter on, unless it is a duplicate. -/
def Counts (m : Msg) : Prop :=
  m.customSeqnum = 0 ∧ m.noIncrement = false ∧ m.msgType ≠ .sequenceReset

instance (m : Msg) : Decidable (Counts m) := inferInstanceAs (Decidable (_ ∧ _))

section
variable {v : Env} {s : Session} {m : Msg}

@[simp] theorem stamp_endOfBatch : (stamp v s m).endOfBatch = m.endOfBatch := rfl
@[simp] theorem stamp_isAdmin : (stamp v s m).isAdmin = m.isAdmin := rfl
@[simp] theorem stamp_encodeErr : (stamp v s m).encodeErr = m.encodeErr := rfl

theorem recordSent_persist {dup : Bool} {ptr : Text} : (recordSent v m dup ptr s).persist =
    if dup then s.persist else s.persist.map (persistSent v m ptr s) := by
  unfold recordSent
  split <;> rfl

theorem recordSent_nextSendSeq {dup : Bool} {ptr : Text} : (recordSent v m dup ptr s).nextSendSeq =
    if dup = false ∧ Counts m then nextUnsigned s.nextSendSeq else s.nextSendSeq := by
  unfold recordSent Counts
  cases dup <;> simp

theorem recordSent_wire {dup : Bool} {ptr : Text} :
    (recordSent v m dup ptr s).wire = s.wire := by
  unfold recordSent
  split <;> rfl

theorem recordSent_buffer {dup : Bool} {ptr : Text} :
    (recordSent v m dup ptr s).batchmsgsBuffer = s.batchmsgsBuffer := by
  unfold recordSent
  split <;> rfl

/-- The message is encoded and, unless it is held back in a batch, the socket takes it. -/
def GoesOut (v : Env) (s : Session) (m : Msg) : Prop :=
  m.encodeErr = none ∧ (m.endOfBatch = true → v.link s.writes = .sent)

/-- What a call that returns false has done. -/
structure Failed (v : Env) (s : Session) (m : Msg) : Prop where
  stays : ¬ GoesOut v s m
  result : (sendProcess v m s).1 = false
  persist : (sendProcess v m s).2.persist = s.persist
  nextSendSeq : (sendProcess v m s).2.nextSendSeq = s.nextSendSeq
  wire : (sendProcess v m s).2.wire = s.wire
  buffer : (sendProcess v m s).2.batchmsgsBuffer = s.batchmsgsBuffer ∨
    (sendProcess v m s).2.batchmsgsBuffer = [] ∨
    ((sendProcess v m s).2.batchmsgsBuffer = s.batchmsgsBuffer ++ [(stamp v s m).cstr] ∧
      m.endOfBatch = true ∧ s.batchmsgsBuffer ≠ [] ∧ v.link s.writes = .threw)

/-- What a call that returns true has done. -/
structure Succeeded (v : Env) (s : Session) (m : Msg) : Prop where
  goesOut : GoesOut v s m
  result : (sendProcess v m s).1 = true
  persist : (sendProcess v m s).2.persist =
    if isDup v s m then s.persist else s.persist.map (persistSent v m (ptrText v s m) s)
  nextSendSeq : (sendProcess v m s).2.nextSendSeq =
    if isDup v s m = false ∧ Counts m then nextUnsigned s.nextSendSeq else s.nextSendSeq
  wire : (sendProcess v m s).2.wire =
    if m.endOfBatch then s.wire ++ s.batchmsgsBuffer ++ wireText v s m else s.wire
  buffer : (sendProcess v m s).2.batchmsgsBuffer =
    if m.endOfBatch then [] else s.batchmsgsBuffer ++ wireText v s m

theorem failed_of_encodeErr (h : m.encodeErr.isSome) : Failed v s m := by
  have heq : sendProcess v m s = (false, s) := if_pos h
  refine ⟨fun hgo => ?_, ?_, ?_, ?_, ?_, .inl ?_⟩
  · rw [hgo.1] at h
    exact absurd h (by simp)
  all_goals rw [heq]

/-- A message inside a batch is buffered and stored at once. -/
theorem succeeded_of_buffered (h : m.encodeErr = none) (hb : m.endOfBatch = false) :
    Succeeded v s m := by
  have heq : sendProcess v m s = (true, recordSent v (stamp v s m) (isDup v s m)
      [(stamp v s m).cstr] { s with
        sends := s.sends ++ [stamp v s m]
        batchmsgsBuffer := s.batchmsgsBuffer ++ [(stamp v s m).cstr] }) := by
    simp [sendProcess, h, hb]
  have hptr : ptrText v s m = [(stamp v s m).cstr] := if_neg (by simp [hb])
  have hwire : wireText v s m = [(stamp v s m).cstr] := if_neg (by simp [hb])
  constructor
  · exact ⟨h, fun hb' => absurd hb' (by simp [hb])⟩
  · rw [heq]
  · rw [heq, recordSent_persist, hptr]
    rfl
  · rw [heq, recordSent_nextSendSeq]
    rfl
  · rw [heq, recordSent_wire, if_neg (by simp [hb])]
  · rw [heq, recordSent_buffer, hwire, if_neg (by simp [hb])]

/-- A message at the end of a batch goes out, with the batch, when the socket takes it. -/
theorem transmit_cases (h : m.encodeErr = none) (hb : m.endOfBatch = true) :
    Failed v s m ∨ Succeeded v s m := by
  have heq : sendProcess v m s = transmit v (stamp v s m) (isDup v s m)
      { s with sends := s.sends ++ [stamp v s m] } := by
    simp [sendProcess, h, hb]
  unfold transmit at heq
  cases hl : v.link s.writes with
  | sent =>
    right
    simp only [hl] at heq
    have hptr : ptrText v s m =
        if s.batchmsgsBuffer.isEmpty then [(stamp v s m).cstr] else [] := by
      unfold ptrText
      cases s.batchmsgsBuffer <;> simp [hb]
    have hwire : s.wire ++ s.batchmsgsBuffer ++ wireText v s m = s.wire ++
        if s.batchmsgsBuffer.isEmpty then [stamp v s m]
        else s.batchmsgsBuffer ++ [(stamp v s m).cstr] := by
      unfold wireText
      cases s.batchmsgsBuffer <;> simp [hb]
    constructor
    · exact ⟨h, fun _ => hl⟩
    · rw [heq]
    · rw [heq, recordSent_persist, hptr]
      rfl
    · rw [heq, recordSent_nextSendSeq]
      rfl
    · rw [heq, recordSent_wire, if_pos hb, hwire]
    · rw [heq, recordSent_buffer, if_pos hb]
  | failed =>
    left
    simp only [hl] at heq
    refine ⟨fun hgo => absurd ((hgo.2 hb).symm.trans hl) (by simp), ?_, ?_, ?_, ?_, .inr (.inl ?_)⟩
    all_goals rw [heq]
  | threw =>
    left
    simp only [hl] at heq
    refine ⟨fun hgo => absurd ((hgo.2 hb).symm.trans hl) (by simp), ?_, ?_, ?_, ?_, ?_⟩
    iterate 4 rw [heq]
    rw [heq]
    cases hempty : s.batchmsgsBuffer with
    | nil => exact .inl rfl
    | cons m' ms => exact .inr (.inr ⟨rfl, hb, by simp, hl⟩)

/-- **What a call can do.** -/
theorem sendProcess_cases (v : Env) (s : Session) (m : Msg) : Failed v s m ∨ Succeeded v s m := by
  cases he : m.encodeErr with
  | some w => exact .inl (failed_of_encodeErr (by rw [he]; rfl))
  | none =>
    cases hb : m.endOfBatch with
    | false => exact .inr (succeeded_of_buffered he hb)
    | true => exact transmit_cases he hb

/-- The messages of the store after a call. -/
theorem get?_persistSent {ptr : Text} {st : Store} {k : Nat} (hk : k ≠ 0) :
    (persistSent v m ptr s st).get? k =
      if m.isAdmin = false ∧ k = s.nextSendSeq then some ((st.get? k).getD (.message ptr))
      else st.get? k := by
  unfold persistSent
  dsimp only
  rw [Store.get?_putControl_of_ne hk]
  cases m.isAdmin with
  | true => rfl
  | false =>
    simp only [Bool.false_eq_true, if_false, true_and, Store.get?_putMessage]
    by_cases hn : k = s.nextSendSeq
    · subst hn
      rw [if_pos ⟨rfl, hk⟩, if_pos rfl]
    · rw [if_neg fun h => hn h.1, if_neg hn]

/-! ## The record of a message -/

/-- A header goes out with PossDupFlag=Y. -/
def goesPossDup (v : Env) (h : Header) : Bool :=
  if h.msgSeqNum.isSome then !v.alwaysSeqnumAssign && h.possDupFlag.getD true
  else h.possDupFlag.getD false

/-- An application message that goes out without PossDupFlag=Y. -/
def Original (v : Env) (m : Msg) : Prop := m.isAdmin = false ∧ goesPossDup v m.header = false

/-- After the call, `get` of the number the message went out with returns its bytes on the wire. -/
def StoredAsSent (v : Env) (s : Session) (m : Msg) : Prop :=
  (sendProcess v m s).1 = true → Original v m →
    ∃ n st, (stamp v s m).header.msgSeqNum = some n ∧ (sendProcess v m s).2.persist = some st ∧
      st.getMessage n = some (wireText v s m)

/-- The message goes out under the counter, nothing is stored there yet, and it neither ends a
batch nor has a NUL. -/
structure Storable (s : Session) (m : Msg) : Prop where
  flag : m.header.possDupFlag = none
  number : m.customSeqnum = 0 ∨ m.customSeqnum = s.nextSendSeq
  counter : s.nextSendSeq ≠ 0
  free : ∀ st, s.persist = some st → st.get? s.nextSendSeq = none
  alone : m.endOfBatch = true → s.batchmsgsBuffer = [] ∧ m.nulErr = none

theorem stamp_goesPossDup : (stamp v s m).header.possDupFlag = some true ↔
    goesPossDup v m.header = true := by
  unfold stamp stampHeader goesPossDup stampResend
  generalize m.header = h
  obtain ⟨n, _, _, flag, _, _⟩ := h
  cases n <;> cases v.alwaysSeqnumAssign <;> rcases flag with _ | _ | _ <;> simp

/-- A message that goes out without the flag is a duplicate exactly when it came with one. -/
theorem isDup_of_not_possDup (h : goesPossDup v m.header = false) :
    isDup v s m = m.header.possDupFlag.isSome := by
  unfold isDup stampHeader stampResend
  unfold goesPossDup at h
  revert h
  generalize m.header = h
  obtain ⟨n, _, _, flag, _, _⟩ := h
  cases n <;> cases v.alwaysSeqnumAssign <;> rcases flag with _ | _ | _ <;> simp

/-- The number such a message goes out with. -/
theorem stamp_msgSeqNum (h : goesPossDup v m.header = false) (hf : m.header.possDupFlag = none) :
    (stamp v s m).header.msgSeqNum = some (assignedSeqnum s m) := by
  unfold stamp stampHeader stampResend
  unfold goesPossDup at h
  revert h hf
  generalize m.header = h
  obtain ⟨n, _, _, flag, _, _⟩ := h
  cases n <;> cases v.alwaysSeqnumAssign <;> rcases flag with _ | _ | _ <;> simp

theorem stamp_cstr_eq : (stamp v s m).cstr = stamp v s m ↔ m.nulErr = none := by
  unfold Msg.cstr
  have hn : (stamp v s m).nulErr = m.nulErr := rfl
  cases h : m.nulErr with
  | none => simp [hn, h]
  | some w =>
    simp only [hn, h, reduceCtorEq, iff_false]
    intro heq
    exact absurd (congrArg Msg.nulErr heq) (by simp [hn, h])

/-- The stored text is the one on the wire, unless the message ends a batch or is cut. -/
theorem ptrText_eq_wireText : ptrText v s m = wireText v s m ↔
    (m.endOfBatch = true → s.batchmsgsBuffer = [] ∧ m.nulErr = none) := by
  unfold ptrText wireText
  cases m.endOfBatch with
  | false => simp
  | true =>
    by_cases hb : s.batchmsgsBuffer = []
    · simp [hb, stamp_cstr_eq]
    · simp [hb]

theorem assignedSeqnum_eq : assignedSeqnum s m = s.nextSendSeq ↔
    m.customSeqnum = 0 ∨ m.customSeqnum = s.nextSendSeq := by
  unfold assignedSeqnum
  by_cases h : m.customSeqnum = 0 <;> simp [h]

/-- What is stored under the number a message went out with. -/
theorem getMessage_sent {st st' : Store} (hsucc : Succeeded v s m) (horig : Original v m)
    (hflag : m.header.possDupFlag = none) (hst : s.persist = some st)
    (hst' : (sendProcess v m s).2.persist = some st') (hn : assignedSeqnum s m ≠ 0) :
    st'.getMessage (assignedSeqnum s m) =
      if assignedSeqnum s m = s.nextSendSeq then
        some ((st.get? s.nextSendSeq).getD (.message (ptrText v s m))).text
      else st.getMessage (assignedSeqnum s m) := by
  have hdup : isDup v s m = false := by
    rw [isDup_of_not_possDup horig.2, hflag]
    rfl
  have hp := hsucc.persist
  rw [hdup, hst, hst'] at hp
  obtain rfl := Option.some.inj hp
  rw [Store.getMessage, if_neg hn, get?_persistSent hn, Store.getMessage, if_neg hn]
  by_cases heq : assignedSeqnum s m = s.nextSendSeq
  · rw [if_pos ⟨horig.1, heq⟩, if_pos heq, heq]
    rfl
  · rw [if_neg fun h => heq h.2, if_neg heq]

theorem persist_isSome (v : Env) (s : Session) (m : Msg) :
    (sendProcess v m s).2.persist.isSome = s.persist.isSome := by
  rcases sendProcess_cases v s m with h | h
  · rw [h.persist]
  · rw [h.persist]
    split <;> simp

/-- The message's bytes are under its number already. -/
def AlreadyStored (v : Env) (s : Session) (st : Store) (m : Msg) : Prop :=
  ∃ n, (stamp v s m).header.msgSeqNum = some n ∧ st.getMessage n = some (wireText v s m)

/-- A message that came with a flag is not stored. -/
theorem storedAsSent_of_flag {st : Store} (hsucc : Succeeded v s m) (horig : Original v m)
    (hst : s.persist = some st) (hflag : m.header.possDupFlag ≠ none) :
    StoredAsSent v s m ↔ AlreadyStored v s st m := by
  have hdup : isDup v s m = true := by
    rw [isDup_of_not_possDup horig.2]
    exact Option.isSome_iff_ne_none.2 hflag
  have hp := hsucc.persist
  rw [hdup, if_pos rfl, hst] at hp
  constructor
  · intro h
    obtain ⟨n, st', hn, hst', hget⟩ := h hsucc.result horig
    obtain rfl := Option.some.inj (hp.symm.trans hst')
    exact ⟨n, hn, hget⟩
  · intro ⟨n, hn, hget⟩ _ _
    exact ⟨n, st, hn, hp, hget⟩

/-- **When a call stores its message**: it can be stored, or its bytes are there already. -/
theorem storedAsSent_iff {st : Store} (hsucc : Succeeded v s m) (horig : Original v m)
    (hst : s.persist = some st) :
    StoredAsSent v s m ↔ Storable s m ∨ AlreadyStored v s st m := by
  by_cases hflag : m.header.possDupFlag = none
  swap
  · rw [storedAsSent_of_flag hsucc horig hst hflag]
    exact ⟨.inr, fun h => h.resolve_left fun hs => hflag hs.flag⟩
  have hnum := stamp_msgSeqNum (s := s) horig.2 hflag
  obtain ⟨st', hst'⟩ : ∃ st', (sendProcess v m s).2.persist = some st' := by
    apply Option.isSome_iff_exists.1
    rw [persist_isSome, hst]
    rfl
  have hleft : StoredAsSent v s m ↔
      st'.getMessage (assignedSeqnum s m) = some (wireText v s m) := by
    constructor
    · intro h
      obtain ⟨n, st₁, hn, hst₁, hget⟩ := h hsucc.result horig
      obtain rfl := Option.some.inj (hnum.symm.trans hn)
      obtain rfl := Option.some.inj (hst'.symm.trans hst₁)
      exact hget
    · intro h _ _
      exact ⟨_, st', hnum, hst', h⟩
  have hright : AlreadyStored v s st m ↔
      st.getMessage (assignedSeqnum s m) = some (wireText v s m) := by
    unfold AlreadyStored
    rw [hnum]
    simp
  rw [hleft, hright]
  by_cases hzero : assignedSeqnum s m = 0
  · have hnot : ¬ Storable s m := fun h => h.counter (assignedSeqnum_eq.2 h.number ▸ hzero)
    simp [hzero, Store.getMessage, hnot]
  rw [getMessage_sent hsucc horig hflag hst hst' hzero]
  by_cases heq : assignedSeqnum s m = s.nextSendSeq
  swap
  · have hnot : ¬ Storable s m := fun h => heq (assignedSeqnum_eq.2 h.number)
    rw [if_neg heq]
    exact ⟨.inr, fun h => h.resolve_left hnot⟩
  rw [heq] at hzero
  rw [if_pos heq, heq, Store.getMessage, if_neg hzero]
  cases hget : st.get? s.nextSendSeq with
  | some r =>
    have hnot : ¬ Storable s m := fun h => by
      have hfree := h.free st hst
      rw [hget] at hfree
      exact absurd hfree (by simp)
    exact ⟨.inr, fun h => h.resolve_left hnot⟩
  | none =>
    have hiff : Storable s m ↔ (m.endOfBatch = true → s.batchmsgsBuffer = [] ∧ m.nulErr = none) := by
      constructor
      · exact fun h => h.alone
      · intro h
        refine ⟨hflag, assignedSeqnum_eq.1 heq, hzero, ?_, h⟩
        intro st₁ hst₁
        obtain rfl := Option.some.inj (hst.symm.trans hst₁)
        exact hget
    rw [hiff, ← ptrText_eq_wireText (v := v)]
    simp [Rec.text]

end

/-! ## Runs -/

/-- A call at a time. -/
def sendAt (v : Env) (s : Session) (call : Nat × Msg) : Session :=
  (sendProcess v call.2 { s with clock := call.1 }).2

/-- A call that stores its message when it has one to store. -/
def KeepsRecord (v : Env) (s : Session) (call : Nat × Msg) : Prop :=
  Original v call.2 → Storable s call.2

/-- **Persisted bytes are the wire bytes** after every call of a run on an open persister whose
application messages can be stored. -/
theorem sends_stored (v : Env) (s : Session) (calls : List (Nat × Msg))
    (hopen : s.persist.isSome) (h : Along (sendAt v) (KeepsRecord v) s calls) :
    Along (sendAt v) (fun s call => StoredAsSent v { s with clock := call.1 } call.2) s calls := by
  induction calls generalizing s with
  | nil => trivial
  | cons call calls ih =>
    obtain ⟨hcall, hrest⟩ := h
    have hopen' : (sendAt v s call).persist.isSome := by
      rw [sendAt, persist_isSome]
      exact hopen
    refine ⟨?_, ih _ hopen' hrest⟩
    intro hresult horig
    obtain ⟨st, hst⟩ := Option.isSome_iff_exists.1 hopen
    rcases sendProcess_cases v { s with clock := call.1 } call.2 with hfail | hsucc
    · rw [hfail.result] at hresult
      exact absurd hresult (by simp)
    · have hable := hcall horig
      have hable' : Storable { s with clock := call.1 } call.2 :=
        ⟨hable.flag, hable.number, hable.counter, hable.free, hable.alone⟩
      exact (storedAsSent_iff hsucc horig hst).2 (.inl hable') hresult horig

/-- An order the application hands over. -/
def demoNewOrder : Msg := { msgType := .application "D", isAdmin := false }

/-- A session with an open persister, nothing stored. -/
def demoOpen : Session := { demoSession with persist := some OrdMap.empty }

/-- Two orders, the second with the custom number that is next anyway. -/
theorem sends_stored_demo :
    Along (sendAt demoEnv) (fun s call => StoredAsSent demoEnv { s with clock := call.1 } call.2)
      demoOpen [(3, demoNewOrder), (5, { demoNewOrder with customSeqnum := 2 })] := by
  refine sends_stored demoEnv demoOpen _ rfl ⟨fun _ => ?_, fun _ => ?_, trivial⟩
  · refine ⟨rfl, .inl rfl, by decide, ?_, fun _ => ⟨rfl, rfl⟩⟩
    intro st hst
    obtain rfl := Option.some.inj hst
    rfl
  · refine ⟨rfl, .inr rfl, by decide, ?_, fun _ => ⟨rfl, rfl⟩⟩
    intro st hst
    obtain rfl := Option.some.inj hst
    rfl

/-- A batch of two orders: of the second an empty text is stored. -/
theorem end_of_batch_not_stored : ¬ ∀ (v : Env) (s : Session) (calls : List (Nat × Msg)),
    s.persist.isSome → Along (sendAt v)
      (fun s call => StoredAsSent v { s with clock := call.1 } call.2) s calls := by
  intro h
  have hrun := h demoEnv demoOpen [(0, { demoNewOrder with endOfBatch := false }),
    (0, demoNewOrder)] rfl
  obtain ⟨n, st, hn, hst, hget⟩ := hrun.2.1 rfl ⟨rfl, rfl⟩
  obtain rfl := Option.some.inj hn
  obtain rfl := Option.some.inj hst
  exact absurd hget (by decide)

end Fix8.Session
