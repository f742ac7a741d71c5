import Fix8.Session.Proof.Stored

/-!
# A batch and its messages one by one

`send_batch` holds its messages back in the batch buffer and sends them with the last one. Beside a
session that sends each message by itself the two stay abreast (`Abreast`): they stamp the same
messages and count alike. What differs is what a NUL cuts, what is stored for a message that ends a
batch, and what is left in the buffer when the last message does not encode.

* **`batch_equals_each_iff`**: when the two leave the same bytes, the same store and the same
  behaviour of later sends.
-/

namespace Fix8

/-- The bytes of a text: its messages without the members of `Message` that are not on the wire. -/
def Text.bytes (t : Text) : List Msg := t.map Msg.onWire

/-- The bytes of a record. -/
def Rec.bytes : Rec → Rec
  | .control a b => .control a b
  | .message what => .message what.bytes

@[simp] theorem Text.bytes_append (t t' : Text) :
    Text.bytes (t ++ t') = Text.bytes t ++ Text.bytes t' := List.map_append

@[simp] theorem Text.bytes_nil : Text.bytes [] = [] := rfl

@[simp] theorem Text.bytes_length (t : Text) : (Text.bytes t).length = t.length :=
  List.length_map _

theorem Text.bytes_eq_nil {t : Text} : Text.bytes t = [] ↔ t = [] := List.map_eq_nil_iff

/-- Texts of as many messages each are compared piece by piece. -/
theorem Text.bytes_append_eq {a a' b b' : Text} (h : a.length = a'.length) :
    Text.bytes (a ++ b) = Text.bytes (a' ++ b') ↔
      Text.bytes a = Text.bytes a' ∧ Text.bytes b = Text.bytes b' := by
  rw [Text.bytes_append, Text.bytes_append]
  constructor
  · intro heq
    exact List.append_inj heq (by simp [h])
  · intro ⟨ha, hb⟩
    rw [ha, hb]

theorem Text.bytes_append_cancel {a b b' : Text} :
    Text.bytes (a ++ b) = Text.bytes (a ++ b') ↔ Text.bytes b = Text.bytes b' := by
  rw [Text.bytes_append, Text.bytes_append, List.append_cancel_left_eq]

theorem Msg.onWire_cstr (m : Msg) : m.cstr.onWire = m.onWire.cstr := by
  have h : m.onWire.nulErr = m.nulErr := rfl
  unfold Msg.cstr
  rw [h]
  cases m.nulErr <;> rfl

theorem Msg.cstr_onWire_eq (m : Msg) : m.cstr.onWire = m.onWire ↔ m.nulErr = none := by
  have hn : m.onWire.nulErr = m.nulErr := rfl
  rw [Msg.onWire_cstr, Msg.cstr]
  cases h : m.onWire.nulErr with
  | none => simp [← hn, h]
  | some w =>
    rw [← hn, h]
    simp only [reduceCtorEq, iff_false]
    intro heq
    exact absurd (congrArg Msg.nulErr heq) (by simp [h])

namespace Session

open Lib

/-- A message as `write_batch` flags it. -/
def flagged (m : Msg) (endOfBatch : Bool) : Msg := { m with endOfBatch := endOfBatch }

@[simp] theorem flagged_isAdmin {m : Msg} {e : Bool} : (flagged m e).isAdmin = m.isAdmin := rfl
@[simp] theorem flagged_encodeErr {m : Msg} {e : Bool} :
    (flagged m e).encodeErr = m.encodeErr := rfl
@[simp] theorem flagged_endOfBatch {m : Msg} {e : Bool} : (flagged m e).endOfBatch = e := rfl

/-! ## What the outside sees -/

/-- The same bytes on the wire, the same messages and the same control record in the persister,
the same counter. -/
structure SameEffect (s s' : Session) : Prop where
  wire : Text.bytes s.wire = Text.bytes s'.wire
  isOpen : s.persist.isSome = s'.persist.isSome
  contents : ∀ k, (recordAt s k).map Rec.bytes = (recordAt s' k).map Rec.bytes
  nextSendSeq : s.nextSendSeq = s'.nextSendSeq

/-- What a call looks at beside its message, the buffer and the store. -/
structure Abreast (s s' : Session) : Prop where
  nextSendSeq : s.nextSendSeq = s'.nextSendSeq
  nextReceiveSeq : s.nextReceiveSeq = s'.nextReceiveSeq
  senderCompID : s.senderCompID = s'.senderCompID
  targetCompID : s.targetCompID = s'.targetCompID
  clock : s.clock = s'.clock
  isOpen : s.persist.isSome = s'.persist.isSome
  control : (recordAt s 0).map Rec.bytes = (recordAt s' 0).map Rec.bytes

section
variable {v : Env} {s s' : Session} {m : Msg} {e b : Bool}

theorem Abreast.refl (s : Session) : Abreast s s := ⟨rfl, rfl, rfl, rfl, rfl, rfl, rfl⟩

/-! ## One message, in both -/

theorem Abreast.assignedSeqnum (h : Abreast s s') :
    assignedSeqnum s (flagged m e) = assignedSeqnum s' (flagged m b) := by
  unfold Session.assignedSeqnum
  rw [h.nextSendSeq]
  rfl

theorem Abreast.stampHeader (h : Abreast s s') :
    stampHeader v s (flagged m e) = stampHeader v s' (flagged m b) := by
  have hnum := h.assignedSeqnum (m := m) (e := e) (b := b)
  unfold Session.stampHeader stampResend
  rw [hnum, h.senderCompID, h.targetCompID, h.clock]
  rfl

theorem Abreast.stamp (h : Abreast s s') :
    (stamp v s (flagged m e)).onWire = (stamp v s' (flagged m b)).onWire := by
  unfold Session.stamp Msg.onWire
  rw [h.stampHeader (m := m) (e := e) (b := b)]
  rfl

theorem Abreast.isDup (h : Abreast s s') :
    isDup v s (flagged m e) = isDup v s' (flagged m b) :=
  congrArg Prod.snd h.stampHeader

theorem Abreast.cstr (h : Abreast s s') :
    (Session.stamp v s (flagged m e)).cstr.onWire = (Session.stamp v s' (flagged m b)).cstr.onWire := by
  rw [Msg.onWire_cstr, Msg.onWire_cstr, h.stamp]

/-- What a call leaves in the control record depends on what was there and on the counters. -/
theorem get?_persistSent_zero {ptr : Text} {st : Store} :
    (persistSent v m ptr s st).get? 0 = some (match v.persister with
      | .memory => (st.get? 0).getD (.control (nextUnsigned s.nextSendSeq) s.nextReceiveSeq)
      | .file => .control (nextUnsigned s.nextSendSeq) s.nextReceiveSeq) := by
  have hput : (if m.isAdmin then st else st.putMessage s.nextSendSeq ptr).get? 0 = st.get? 0 := by
    cases m.isAdmin with
    | true => rfl
    | false =>
      simp only [Bool.false_eq_true, if_false, Store.get?_putMessage]
      exact if_neg fun h => h.2 h.1.symm
  unfold persistSent Store.putControl
  dsimp only
  cases v.persister with
  | memory =>
    simp only [OrdMap.get?_insert, if_true]
    rw [hput]
  | file =>
    simp only [OrdMap.get?_replace, OrdMap.get?_insert, if_true]
    rfl

/-- The record under `k` after a call that succeeds. -/
theorem recordAt_sent (h : Succeeded v s m) {k : Nat} (hk : k ≠ 0) :
    recordAt (sendProcess v m s).2 k =
      if isDup v s m = false ∧ m.isAdmin = false ∧ s.persist.isSome ∧ k = s.nextSendSeq then
        some ((recordAt s k).getD (.message (ptrText v s m)))
      else recordAt s k := by
  unfold recordAt
  rw [h.persist]
  cases hdup : isDup v s m with
  | true => simp
  | false =>
    cases hst : s.persist with
    | none => simp
    | some st =>
      simp only [Bool.false_eq_true, if_false, Option.map_some, Option.bind_some,
        get?_persistSent hk, Option.isSome_some, true_and]

theorem recordAt_sent_zero (h : Succeeded v s m) :
    recordAt (sendProcess v m s).2 0 =
      if isDup v s m = false ∧ s.persist.isSome then some (match v.persister with
        | .memory => (recordAt s 0).getD (.control (nextUnsigned s.nextSendSeq) s.nextReceiveSeq)
        | .file => .control (nextUnsigned s.nextSendSeq) s.nextReceiveSeq)
      else recordAt s 0 := by
  unfold recordAt
  rw [h.persist]
  cases hdup : isDup v s m with
  | true => simp
  | false =>
    cases hst : s.persist with
    | none => simp
    | some st =>
      simp only [Bool.false_eq_true, if_false, Option.map_some, Option.bind_some,
        get?_persistSent_zero, Option.isSome_some, and_self, if_true]

theorem succeeded_of_link (hl : ∀ n, v.link n = .sent) (he : m.encodeErr = none) :
    Succeeded v s m := by
  rcases sendProcess_cases v s m with h | h
  · exact absurd ⟨he, fun _ => hl _⟩ h.stays
  · exact h

/-- Sessions abreast stay abreast over a message, however it is flagged in each. -/
theorem Abreast.step (h : Abreast s s') (hl : ∀ n, v.link n = .sent) (he : m.encodeErr = none) :
    Abreast (sendProcess v (flagged m e) s).2 (sendProcess v (flagged m b) s').2 := by
  have hs : Succeeded v s (flagged m e) := succeeded_of_link hl he
  have hs' : Succeeded v s' (flagged m b) := succeeded_of_link hl he
  have hdup := h.isDup (v := v) (m := m) (e := e) (b := b)
  have hcounts : Counts (flagged m e) ↔ Counts (flagged m b) := Iff.rfl
  have hframe {β : Type} {f : Session → β} (hf : SendFrame f) (heq : f s = f s') :
      f (sendProcess v (flagged m e) s).2 = f (sendProcess v (flagged m b) s').2 := by
    rw [sendProcess_frame hf, sendProcess_frame hf, heq]
  constructor
  · rw [hs.nextSendSeq, hs'.nextSendSeq, hdup, h.nextSendSeq]
    rfl
  · exact hframe (fun _ _ _ _ _ _ _ _ => rfl) h.nextReceiveSeq
  · exact hframe (fun _ _ _ _ _ _ _ _ => rfl) h.senderCompID
  · exact hframe (fun _ _ _ _ _ _ _ _ => rfl) h.targetCompID
  · exact hframe (fun _ _ _ _ _ _ _ _ => rfl) h.clock
  · rw [persist_isSome, persist_isSome, h.isOpen]
  · rw [recordAt_sent_zero hs, recordAt_sent_zero hs', hdup, h.isOpen]
    split
    · have hget (c : Rec) (hc : c.bytes = c) : ((recordAt s 0).getD c).bytes =
          ((recordAt s' 0).getD c).bytes := by
        have hcontrol := h.control
        cases h1 : recordAt s 0 <;> cases h2 : recordAt s' 0 <;> simp_all
      rw [h.nextSendSeq, h.nextReceiveSeq]
      cases v.persister with
      | memory => exact congrArg some (hget _ rfl)
      | file => rfl
    · exact h.control

/-! ## What is stored for it -/

/-- The call stores its message. -/
def Records (v : Env) (s : Session) (m : Msg) : Prop :=
  isDup v s m = false ∧ m.isAdmin = false ∧ s.persist.isSome ∧ s.nextSendSeq ≠ 0 ∧
    recordAt s s.nextSendSeq = none

/-- Nothing stored is overwritten. -/
theorem recordAt_kept {k : Nat} {r : Rec} (hk : k ≠ 0) (h : recordAt s k = some r) :
    recordAt (sendProcess v m s).2 k = some r := by
  rcases sendProcess_cases v s m with hs | hs
  · rw [recordAt, hs.persist]
    exact h
  · rw [recordAt_sent hs hk, h]
    split <;> rfl

/-- The stores differ in a message. -/
def Apart (s s' : Session) : Prop :=
  ∃ k r r', k ≠ 0 ∧ recordAt s k = some r ∧ recordAt s' k = some r' ∧ r.bytes ≠ r'.bytes

theorem Apart.step {m m' : Msg} (h : Apart s s') :
    Apart (sendProcess v m s).2 (sendProcess v m' s').2 := by
  obtain ⟨k, r, r', hk, hr, hr', hne⟩ := h
  exact ⟨k, r, r', hk, recordAt_kept hk hr, recordAt_kept hk hr', hne⟩

theorem not_sameEffect_of_apart (h : Apart s s') : ¬ SameEffect s s' := by
  intro hsame
  obtain ⟨k, r, r', hk, hr, hr', hne⟩ := h
  have hcont := hsame.contents k
  rw [hr, hr'] at hcont
  exact hne (Option.some.inj hcont)

/-- The stores hold the same. -/
def SameStore (s s' : Session) : Prop :=
  ∀ k, (recordAt s k).map Rec.bytes = (recordAt s' k).map Rec.bytes

theorem SameStore.step (h : SameStore s s') (ha : Abreast s s') (hl : ∀ n, v.link n = .sent)
    (he : m.encodeErr = none)
    (hptr : Text.bytes (ptrText v s (flagged m e)) = Text.bytes (ptrText v s' (flagged m b)) ∨
      ¬ Records v s (flagged m e)) :
    SameStore (sendProcess v (flagged m e) s).2 (sendProcess v (flagged m b) s').2 := by
  have hs : Succeeded v s (flagged m e) := succeeded_of_link hl he
  have hs' : Succeeded v s' (flagged m b) := succeeded_of_link hl he
  have hdup := ha.isDup (v := v) (m := m) (e := e) (b := b)
  intro k
  by_cases hk : k = 0
  · subst hk
    exact (ha.step hl he).control
  rw [recordAt_sent hs hk, recordAt_sent hs' hk, hdup, ha.isOpen, ha.nextSendSeq, flagged_isAdmin,
    flagged_isAdmin]
  have hkey := h k
  split
  · next hin =>
    cases h1 : recordAt s k with
    | some r =>
      cases h2 : recordAt s' k with
      | some r' => simpa [h1, h2] using hkey
      | none => simp [h1, h2] at hkey
    | none =>
      cases h2 : recordAt s' k with
      | some r' => simp [h1, h2] at hkey
      | none =>
        rcases hptr with hptr | hnot
        · simp [Rec.bytes, hptr]
        · refine absurd ⟨hdup ▸ hin.1, hin.2.1, ha.isOpen ▸ hin.2.2.1, ?_, ?_⟩ hnot
          · rw [ha.nextSendSeq, ← hin.2.2.2]
            exact hk
          · rw [ha.nextSendSeq, ← hin.2.2.2]
            exact h1
  · exact hkey

/-- Where the stores hold the same, a message is stored in both or in neither. -/
theorem Abreast.records (ha : Abreast s s') (h : SameStore s s') :
    Records v s (flagged m e) ↔ Records v s' (flagged m b) := by
  have hkey := h s'.nextSendSeq
  have hnone : recordAt s s'.nextSendSeq = none ↔ recordAt s' s'.nextSendSeq = none := by
    rw [← Option.map_eq_none_iff (f := Rec.bytes), hkey, Option.map_eq_none_iff]
  unfold Records
  rw [ha.isDup (b := b), ha.isOpen, ha.nextSendSeq, hnone]
  rfl

/-- Different texts that are stored stay apart. -/
theorem apart_of_ptrText (h : SameStore s s') (ha : Abreast s s') (hl : ∀ n, v.link n = .sent)
    (he : m.encodeErr = none) (hrec : Records v s (flagged m e))
    (hptr : Text.bytes (ptrText v s (flagged m e)) ≠ Text.bytes (ptrText v s' (flagged m b))) :
    Apart (sendProcess v (flagged m e) s).2 (sendProcess v (flagged m b) s').2 := by
  have hs : Succeeded v s (flagged m e) := succeeded_of_link hl he
  have hs' : Succeeded v s' (flagged m b) := succeeded_of_link hl he
  obtain ⟨hdup, hadmin, hopen, hzero, hnone⟩ := hrec
  have hnone' : recordAt s' s.nextSendSeq = none := by
    have hkey := h s.nextSendSeq
    rw [hnone] at hkey
    exact Option.map_eq_none_iff.1 hkey.symm
  refine ⟨s.nextSendSeq, .message (ptrText v s (flagged m e)),
    .message (ptrText v s' (flagged m b)), hzero, ?_, ?_, ?_⟩
  · rw [recordAt_sent hs hzero, if_pos ⟨hdup, hadmin, hopen, rfl⟩, hnone]
    rfl
  · rw [recordAt_sent hs' hzero,
      if_pos ⟨(ha.isDup).symm.trans hdup, hadmin, ha.isOpen ▸ hopen, ha.nextSendSeq⟩, hnone']
    rfl
  · intro heq
    exact hptr (Rec.message.inj heq)

/-! ## Held back against one by one -/

/-- `send_process` on each message, all flagged alike. -/
def sendAll (v : Env) (e : Bool) (ms : List Msg) (s : Session) : Session :=
  ms.foldl (fun s m => (sendProcess v (flagged m e) s).2) s

@[simp] theorem sendAll_nil : sendAll v e [] s = s := rfl
@[simp] theorem sendAll_cons {ms : List Msg} :
    sendAll v e (m :: ms) s = sendAll v e ms (sendProcess v (flagged m e) s).2 := rfl

theorem sendProcess_unencoded (h : m.encodeErr.isSome) : (sendProcess v m s).2 = s :=
  congrArg Prod.snd (if_pos h)

/-- What does not encode leaves the session alone. -/
theorem sendAll_filter {ms : List Msg} :
    sendAll v e ms s = sendAll v e (ms.filter fun m => m.encodeErr.isNone) s := by
  induction ms generalizing s with
  | nil => rfl
  | cons m ms ih =>
    cases he : m.encodeErr with
    | none =>
      rw [List.filter_cons_of_pos (by simp [he]), sendAll_cons, sendAll_cons, ih]
    | some w =>
      rw [List.filter_cons_of_neg (by simp [he]), sendAll_cons,
        sendProcess_unencoded (by simp [he]), ih]

theorem wireText_held : wireText v s (flagged m false) = [(stamp v s (flagged m false)).cstr] :=
  if_neg fun h => absurd h.1 (by simp)

theorem wireText_alone (h : s.batchmsgsBuffer = []) :
    wireText v s (flagged m true) = [stamp v s (flagged m true)] := if_pos ⟨rfl, h⟩

theorem wireText_last (h : s.batchmsgsBuffer ≠ []) :
    wireText v s (flagged m true) = [(stamp v s (flagged m true)).cstr] :=
  if_neg fun hc => h hc.2

/-- A message in a batch has the bytes it has by itself unless a NUL cuts it. -/
theorem Abreast.bytes_cstr (h : Abreast s s') :
    Text.bytes [(Session.stamp v s (flagged m e)).cstr] =
      Text.bytes [Session.stamp v s' (flagged m b)] ↔ m.nulErr = none := by
  have hn : (Session.stamp v s' (flagged m b)).nulErr = m.nulErr := rfl
  rw [← hn, ← Msg.cstr_onWire_eq, ← h.cstr (m := m) (e := e) (b := b)]
  exact ⟨fun heq => (List.cons.inj heq).1, fun heq => congrArg (fun m => [m]) heq⟩

/-- What the messages `ms` do to a session that holds them back and to one abreast of it, with an
empty buffer, that sends each. -/
structure Tail (v : Env) (ms : List Msg) (s s' : Session) : Prop where
  abreast : Abreast (sendAll v false ms s) (sendAll v true ms s')
  wire : (sendAll v false ms s).wire = s.wire
  buffer : (sendAll v true ms s').batchmsgsBuffer = []
  texts : ∃ t t' : Text, t.length = t'.length ∧
    (sendAll v false ms s).batchmsgsBuffer = s.batchmsgsBuffer ++ t ∧
    (sendAll v true ms s').wire = s'.wire ++ t' ∧
    (Text.bytes t = Text.bytes t' ↔ ∀ m ∈ ms, m.nulErr = none)
  sameStore : SameStore s s' → SameStore (sendAll v false ms s) (sendAll v true ms s')
  apart : Apart s s' → Apart (sendAll v false ms s) (sendAll v true ms s')

theorem ptrText_held : ptrText v s (flagged m false) = [(stamp v s (flagged m false)).cstr] :=
  if_neg fun h => absurd h.1 (by simp)

theorem ptrText_alone (h : s.batchmsgsBuffer = []) :
    ptrText v s (flagged m true) = [(stamp v s (flagged m true)).cstr] := if_neg fun hc => hc.2 h

theorem ptrText_last (h : s.batchmsgsBuffer ≠ []) : ptrText v s (flagged m true) = [] :=
  if_pos ⟨rfl, h⟩

theorem tail_of_abreast (hl : ∀ n, v.link n = .sent) {ms : List Msg}
    (he : ∀ m ∈ ms, m.encodeErr = none) (h : Abreast s s') (hb : s'.batchmsgsBuffer = []) :
    Tail v ms s s' := by
  induction ms generalizing s s' with
  | nil => exact ⟨h, rfl, hb, ⟨[], [], rfl, by simp, by simp, by simp⟩, id, id⟩
  | cons m ms ih =>
    have hm : m.encodeErr = none := he m (List.mem_cons_self ..)
    have hs : Succeeded v s (flagged m false) := succeeded_of_link hl hm
    have hs' : Succeeded v s' (flagged m true) := succeeded_of_link hl hm
    have hbuffer' : (sendProcess v (flagged m true) s').2.batchmsgsBuffer = [] := hs'.buffer
    have hwire' : (sendProcess v (flagged m true) s').2.wire =
        s'.wire ++ [stamp v s' (flagged m true)] := by
      rw [hs'.wire, wireText_alone hb, hb, List.append_nil]
      rfl
    have hbuffer : (sendProcess v (flagged m false) s).2.batchmsgsBuffer =
        s.batchmsgsBuffer ++ [(stamp v s (flagged m false)).cstr] := by
      rw [hs.buffer, wireText_held]
      rfl
    have hwire : (sendProcess v (flagged m false) s).2.wire = s.wire := hs.wire
    obtain ⟨habreast, hwireT, hbufferT, ⟨t, t', hlen, hheld, hsent, hnul⟩, hstore, hapart⟩ :=
      ih (fun m' hm' => he m' (List.mem_cons_of_mem _ hm')) (h.step hl hm) hbuffer'
    refine ⟨habreast, hwireT.trans hwire, hbufferT, ?_, ?_, ?_⟩
    · refine ⟨(stamp v s (flagged m false)).cstr :: t, stamp v s' (flagged m true) :: t',
        by simp [hlen], ?_, ?_, ?_⟩
      · rw [sendAll_cons, hheld, hbuffer, List.append_assoc]
        rfl
      · rw [sendAll_cons, hsent, hwire', List.append_assoc]
        rfl
      · have hhead := h.bytes_cstr (v := v) (m := m) (e := false) (b := true)
        rw [List.forall_mem_cons, ← hnul, ← hhead]
        simp [Text.bytes]
    · intro hsame
      refine hstore (hsame.step h hl hm (.inl ?_))
      rw [ptrText_held, ptrText_alone hb]
      exact congrArg (fun m => [m]) h.cstr
    · intro hap
      exact hapart hap.step

/-! ## Later sends -/

/-- Nothing that a later call looks at tells the two sessions apart. -/
structure SameState (s s' : Session) : Prop where
  effect : SameEffect s s'
  buffer : Text.bytes s.batchmsgsBuffer = Text.bytes s'.batchmsgsBuffer
  nextReceiveSeq : s.nextReceiveSeq = s'.nextReceiveSeq
  senderCompID : s.senderCompID = s'.senderCompID
  targetCompID : s.targetCompID = s'.targetCompID

/-- The same effect now and after all later sends. -/
def SameLater (v : Env) (s s' : Session) : Prop :=
  ∀ later : List (Nat × Msg),
    SameEffect (runFrom (sendAt v) s later) (runFrom (sendAt v) s' later)

theorem SameState.buffer_nil (h : SameState s s') : s.batchmsgsBuffer = [] ↔ s'.batchmsgsBuffer = [] := by
  rw [← Text.bytes_eq_nil, h.buffer, Text.bytes_eq_nil]

theorem SameState.abreast (h : SameState s s') (now : Nat) :
    Abreast { s with clock := now } { s' with clock := now } :=
  ⟨h.effect.nextSendSeq, h.nextReceiveSeq, h.senderCompID, h.targetCompID, rfl, h.effect.isOpen,
    h.effect.contents 0⟩

theorem SameState.wireText (h : SameState s s') (now : Nat) :
    Text.bytes (wireText v { s with clock := now } m) =
      Text.bytes (wireText v { s' with clock := now } m) := by
  have hab := h.abreast now
  unfold Session.wireText
  simp only [h.buffer_nil]
  split
  · exact congrArg (fun m => [m]) (hab.stamp (m := m) (e := m.endOfBatch) (b := m.endOfBatch))
  · exact congrArg (fun m => [m]) (hab.cstr (m := m) (e := m.endOfBatch) (b := m.endOfBatch))

theorem SameState.ptrText (h : SameState s s') (now : Nat) :
    Text.bytes (ptrText v { s with clock := now } m) =
      Text.bytes (ptrText v { s' with clock := now } m) := by
  have hab := h.abreast now
  unfold Session.ptrText
  simp only [ne_eq, h.buffer_nil]
  split
  · rfl
  · exact congrArg (fun m => [m]) (hab.cstr (m := m) (e := m.endOfBatch) (b := m.endOfBatch))

theorem SameState.step (h : SameState s s') (hl : ∀ n, v.link n = .sent) (call : Nat × Msg) :
    SameState (sendAt v s call) (sendAt v s' call) := by
  obtain ⟨now, m⟩ := call
  have hab := h.abreast now
  unfold sendAt
  dsimp only
  cases he : m.encodeErr with
  | some w =>
    rw [sendProcess_unencoded (by simp [he]), sendProcess_unencoded (by simp [he])]
    exact ⟨⟨h.effect.wire, h.effect.isOpen, h.effect.contents, h.effect.nextSendSeq⟩, h.buffer,
      h.nextReceiveSeq, h.senderCompID, h.targetCompID⟩
  | none =>
    have hs : Succeeded v { s with clock := now } m := succeeded_of_link hl he
    have hs' : Succeeded v { s' with clock := now } m := succeeded_of_link hl he
    have hstep : Abreast (sendProcess v m { s with clock := now }).2
        (sendProcess v m { s' with clock := now }).2 :=
      hab.step (e := m.endOfBatch) (b := m.endOfBatch) hl he
    have hcontents : SameStore { s with clock := now } { s' with clock := now } :=
      h.effect.contents
    have hstore : SameStore (sendProcess v m { s with clock := now }).2
        (sendProcess v m { s' with clock := now }).2 :=
      hcontents.step (e := m.endOfBatch) (b := m.endOfBatch) hab hl he (.inl (h.ptrText now))
    have htext := h.wireText (v := v) (m := m) now
    refine ⟨⟨?_, hstep.isOpen, hstore, hstep.nextSendSeq⟩, ?_, hstep.nextReceiveSeq,
      hstep.senderCompID, hstep.targetCompID⟩
    · rw [hs.wire, hs'.wire]
      split
      · simp only [Text.bytes_append, htext, h.effect.wire, h.buffer]
      · exact h.effect.wire
    · rw [hs.buffer, hs'.buffer]
      split
      · rfl
      · simp only [Text.bytes_append, htext, h.buffer]

/-- A message that brings what is in the buffer to light. -/
def probe : Msg := { msgType := .heartbeat, isAdmin := true }

/-- **Later sends behave the same** exactly when the buffers hold the same too. -/
theorem sameLater_iff (hl : ∀ n, v.link n = .sent) (hr : s.nextReceiveSeq = s'.nextReceiveSeq)
    (hsender : s.senderCompID = s'.senderCompID) (htarget : s.targetCompID = s'.targetCompID) :
    SameLater v s s' ↔ SameState s s' := by
  constructor
  · intro h
    have heffect : SameEffect s s' := h []
    have hprobe := (h [(0, probe)]).wire
    have hs : Succeeded v { s with clock := 0 } probe := succeeded_of_link hl rfl
    have hs' : Succeeded v { s' with clock := 0 } probe := succeeded_of_link hl rfl
    have htext (s : Session) : wireText v s probe = [stamp v s probe] := by
      unfold wireText
      split
      · rfl
      · exact congrArg (fun m => [m]) (stamp_cstr_eq.2 rfl)
    have hab : Abreast { s with clock := 0 } { s' with clock := 0 } :=
      ⟨heffect.nextSendSeq, hr, hsender, htarget, rfl, heffect.isOpen, heffect.contents 0⟩
    have hstamp := hab.stamp (v := v) (m := probe) (e := true) (b := true)
    have hbytes : Text.bytes [stamp v { s with clock := 0 } probe] =
        Text.bytes [stamp v { s' with clock := 0 } probe] := congrArg (fun m => [m]) hstamp
    refine ⟨heffect, ?_, hr, hsender, htarget⟩
    have hrun : Text.bytes (sendProcess v probe { s with clock := 0 }).2.wire =
        Text.bytes (sendProcess v probe { s' with clock := 0 }).2.wire := hprobe
    rw [hs.wire, hs'.wire] at hrun
    simp only [probe, if_true] at hrun
    rw [← probe, htext, htext, Text.bytes_append, Text.bytes_append, Text.bytes_append,
      Text.bytes_append, hbytes, heffect.wire] at hrun
    exact List.append_cancel_left (List.append_cancel_right hrun)
  · intro h later
    induction later generalizing s s' with
    | nil => exact h.effect
    | cons call later ih =>
      have hstep := h.step hl call
      exact ih hstep.nextReceiveSeq hstep.senderCompID hstep.targetCompID hstep

/-! ## The last message -/

/-- The batch before its last message: `first` and `rest` are what encodes of it. -/
structure Held (v : Env) (s : Session) (first : Msg) (rest : List Msg) : Prop where
  link : ∀ n, v.link n = .sent
  encodes : ∀ m ∈ first :: rest, m.encodeErr = none

variable {first last : Msg} {rest : List Msg}

theorem Held.tail (h : Held v s first rest) :
    Tail v rest (sendProcess v (flagged first false) s).2
      (sendProcess v (flagged first true) s).2 := by
  have hfirst := h.encodes first (List.mem_cons_self ..)
  have hs : Succeeded v s (flagged first true) := succeeded_of_link h.link hfirst
  exact tail_of_abreast h.link (fun m hm => h.encodes m (List.mem_cons_of_mem _ hm))
    ((Abreast.refl s).step h.link hfirst) hs.buffer

/-- What is held back before the last message: the buffer is not empty. -/
theorem Held.buffer (h : Held v s first rest) : ∃ t : Text,
    (sendAll v false (first :: rest) s).batchmsgsBuffer =
      s.batchmsgsBuffer ++ [(stamp v s (flagged first false)).cstr] ++ t := by
  have hfirst := h.encodes first (List.mem_cons_self ..)
  have hs : Succeeded v s (flagged first false) := succeeded_of_link h.link hfirst
  obtain ⟨t, t', hlen, hheld, hsent, hnul⟩ := h.tail.texts
  refine ⟨t, ?_⟩
  rw [sendAll_cons, hheld, hs.buffer, wireText_held]
  rfl

/-- A last message that does not encode leaves the batch in the buffer. -/
theorem Held.not_sameState (h : Held v s first rest) :
    ¬ SameState (sendAll v false (first :: rest) s) (sendAll v true (first :: rest) s) := by
  intro hal
  obtain ⟨t, ht⟩ := h.buffer
  have hnil : (sendAll v false (first :: rest) s).batchmsgsBuffer = [] :=
    hal.buffer_nil.2 h.tail.buffer
  rw [ht] at hnil
  simp at hnil

/-- The bytes of a whole batch are those of its messages one by one unless a NUL cuts one. -/
theorem Held.wire_iff (h : Held v s first rest) (hlast : last.encodeErr = none) :
    Text.bytes (sendProcess v (flagged last true) (sendAll v false (first :: rest) s)).2.wire =
        Text.bytes (sendProcess v (flagged last true) (sendAll v true (first :: rest) s)).2.wire ↔
      (s.batchmsgsBuffer = [] → first.nulErr = none) ∧ (∀ m ∈ rest, m.nulErr = none) ∧
        last.nulErr = none := by
  have hfirst := h.encodes first (List.mem_cons_self ..)
  have hab := Abreast.refl s
  have hF : Succeeded v s (flagged first false) := succeeded_of_link h.link hfirst
  have hT : Succeeded v s (flagged first true) := succeeded_of_link h.link hfirst
  obtain ⟨t, t', hlen, hheld, hsent, hnul⟩ := h.tail.texts
  have hH : Succeeded v (sendAll v false (first :: rest) s) (flagged last true) :=
    succeeded_of_link h.link hlast
  have hI : Succeeded v (sendAll v true (first :: rest) s) (flagged last true) :=
    succeeded_of_link h.link hlast
  have hbufH : (sendAll v false (first :: rest) s).batchmsgsBuffer ≠ [] := by
    obtain ⟨u, hu⟩ := h.buffer
    rw [hu]
    simp
  have hbufI : (sendAll v true (first :: rest) s).batchmsgsBuffer = [] := h.tail.buffer
  have hbatch : (sendProcess v (flagged last true) (sendAll v false (first :: rest) s)).2.wire =
      s.wire ++ s.batchmsgsBuffer ++ ([(stamp v s (flagged first false)).cstr] ++ t ++
        [(stamp v (sendAll v false (first :: rest) s) (flagged last true)).cstr]) := by
    rw [hH.wire, wireText_last hbufH, flagged_endOfBatch, if_pos rfl, sendAll_cons, h.tail.wire,
      hheld, hF.buffer, hF.wire, wireText_held]
    simp
  have heach : (sendProcess v (flagged last true) (sendAll v true (first :: rest) s)).2.wire =
      s.wire ++ s.batchmsgsBuffer ++ (wireText v s (flagged first true) ++ t' ++
        [stamp v (sendAll v true (first :: rest) s) (flagged last true)]) := by
    rw [hI.wire, wireText_alone hbufI, flagged_endOfBatch, if_pos rfl, hbufI, sendAll_cons, hsent,
      hT.wire]
    simp
  have hone : Text.bytes [(stamp v s (flagged first false)).cstr] =
      Text.bytes (wireText v s (flagged first true)) ↔
        (s.batchmsgsBuffer = [] → first.nulErr = none) := by
    by_cases hb : s.batchmsgsBuffer = []
    · rw [wireText_alone hb, hab.bytes_cstr]
      exact ⟨fun hn _ => hn, fun hn => hn hb⟩
    · rw [wireText_last hb]
      exact ⟨fun _ hb' => absurd hb' hb, fun _ => congrArg (fun m => [m]) hab.cstr⟩
  have hlastText := h.tail.abreast.bytes_cstr (v := v) (m := last) (e := true) (b := true)
  have hlen1 : (wireText v s (flagged first true)).length = 1 := by
    unfold wireText
    split <;> rfl
  have hlen2 : ([(stamp v s (flagged first false)).cstr] ++ t).length =
      (wireText v s (flagged first true) ++ t').length := by
    rw [List.length_append, List.length_append, hlen, hlen1]
    rfl
  have hlen3 : List.length [(stamp v s (flagged first false)).cstr] =
      (wireText v s (flagged first true)).length := by
    rw [hlen1]
    rfl
  rw [hbatch, heach, Text.bytes_append_cancel, Text.bytes_append_eq hlen2,
    Text.bytes_append_eq hlen3, hone, hnul, and_assoc]
  exact and_congr_right fun _ => and_congr_right fun _ => hlastText

/-- The stores of the two agree before the last message unless the first one, sent behind a batch
that was left over, is stored as an empty text. -/
theorem Held.sameStore (h : Held v s first rest)
    (hfirst : s.batchmsgsBuffer ≠ [] → ¬ Records v s (flagged first false)) :
    SameStore (sendAll v false (first :: rest) s) (sendAll v true (first :: rest) s) := by
  have he := h.encodes first (List.mem_cons_self ..)
  refine h.tail.sameStore (SameStore.step (fun _ => rfl) (Abreast.refl s) h.link he ?_)
  by_cases hb : s.batchmsgsBuffer = []
  · left
    rw [ptrText_held, ptrText_alone hb]
    exact congrArg (fun m => [m]) (Abreast.refl s).cstr
  · exact .inr (hfirst hb)

theorem Held.apart (h : Held v s first rest) (hb : s.batchmsgsBuffer ≠ [])
    (hfirst : Records v s (flagged first false)) :
    Apart (sendAll v false (first :: rest) s) (sendAll v true (first :: rest) s) := by
  have he := h.encodes first (List.mem_cons_self ..)
  refine h.tail.apart (apart_of_ptrText (fun _ => rfl) (Abreast.refl s) h.link he hfirst ?_)
  rw [ptrText_held, ptrText_last hb]
  simp [Text.bytes]

/-- **A batch whose last message encodes is its messages one by one** exactly when no NUL cuts one
of them and neither the first, behind a left-over batch, nor the last is stored. -/
theorem Held.sameState_iff (h : Held v s first rest) (hlast : last.encodeErr = none) :
    SameState (sendProcess v (flagged last true) (sendAll v false (first :: rest) s)).2
        (sendProcess v (flagged last true) (sendAll v true (first :: rest) s)).2 ↔
      ((s.batchmsgsBuffer = [] → first.nulErr = none) ∧ (∀ m ∈ rest, m.nulErr = none) ∧
        last.nulErr = none) ∧
      (s.batchmsgsBuffer ≠ [] → ¬ Records v s (flagged first false)) ∧
      ¬ Records v (sendAll v true (first :: rest) s) (flagged last true) := by
  have hwire := h.wire_iff hlast
  have hab : Abreast (sendAll v false (first :: rest) s) (sendAll v true (first :: rest) s) :=
    h.tail.abreast
  have hab' : Abreast (sendProcess v (flagged last true) (sendAll v false (first :: rest) s)).2
      (sendProcess v (flagged last true) (sendAll v true (first :: rest) s)).2 :=
    hab.step h.link hlast
  have hH : Succeeded v (sendAll v false (first :: rest) s) (flagged last true) :=
    succeeded_of_link h.link hlast
  have hI : Succeeded v (sendAll v true (first :: rest) s) (flagged last true) :=
    succeeded_of_link h.link hlast
  have hbufH : (sendAll v false (first :: rest) s).batchmsgsBuffer ≠ [] := by
    obtain ⟨u, hu⟩ := h.buffer
    rw [hu]
    simp
  have hbufI : (sendAll v true (first :: rest) s).batchmsgsBuffer = [] := h.tail.buffer
  -- at the end of the batch the stored text is empty
  have hptr : Text.bytes (ptrText v (sendAll v false (first :: rest) s) (flagged last true)) ≠
      Text.bytes (ptrText v (sendAll v true (first :: rest) s) (flagged last true)) := by
    rw [ptrText_last hbufH, ptrText_alone hbufI]
    simp [Text.bytes]
  constructor
  · intro hal
    have hnot : s.batchmsgsBuffer ≠ [] → ¬ Records v s (flagged first false) := fun hb hrec =>
      not_sameEffect_of_apart (h.apart hb hrec).step hal.effect
    refine ⟨hwire.1 hal.effect.wire, hnot, fun hrec => ?_⟩
    have hsame := h.sameStore hnot
    exact not_sameEffect_of_apart
      (apart_of_ptrText hsame hab h.link hlast ((hab.records hsame).2 hrec) hptr) hal.effect
  · intro ⟨hnul, hfirst, hrec⟩
    have hsame := h.sameStore hfirst
    have hstore : SameStore (sendProcess v (flagged last true) (sendAll v false (first :: rest) s)).2
        (sendProcess v (flagged last true) (sendAll v true (first :: rest) s)).2 :=
      hsame.step hab h.link hlast (.inr fun hrecH => hrec ((hab.records hsame).1 hrecH))
    refine ⟨⟨hwire.2 hnul, hab'.isOpen, hstore, hab'.nextSendSeq⟩, ?_, hab'.nextReceiveSeq,
      hab'.senderCompID, hab'.targetCompID⟩
    rw [hH.buffer, hI.buffer, flagged_endOfBatch, if_pos rfl, if_pos rfl]

/-! ## Numbers ahead of time -/

theorem isDup_congr : isDup v s m = isDup v s' m := by
  unfold isDup stampHeader stampResend
  generalize m.header = h
  obtain ⟨n, _, _, flag, _, _⟩ := h
  cases n <;> cases v.alwaysSeqnumAssign <;> cases flag <;> rfl

/-- The send counter after a message that goes out. -/
def nextCounter (v : Env) (s : Session) (n : Nat) (m : Msg) : Nat :=
  if isDup v s m = false ∧ Counts m then nextUnsigned n else n

/-- The numbers under which messages that go out from `n` on are stored. -/
def keysFrom (v : Env) (s : Session) : Nat → List Msg → List Nat
  | _, [] => []
  | n, m :: ms => (if isDup v s m = false ∧ m.isAdmin = false then [n] else []) ++
      keysFrom v s (nextCounter v s n m) ms

/-- `m` is stored under the counter `n` behind messages stored under `keys`. -/
def StoredUnder (v : Env) (s : Session) (keys : List Nat) (n : Nat) (m : Msg) : Prop :=
  isDup v s m = false ∧ m.isAdmin = false ∧ s.persist.isSome ∧ n ≠ 0 ∧ recordAt s n = none ∧
    n ∉ keys

/-- Counter and numbers stored after messages that all go out. -/
theorem sendAll_numbers (hl : ∀ n, v.link n = .sent) {ms : List Msg}
    (he : ∀ m ∈ ms, m.encodeErr = none) (s₀ : Session) :
    (sendAll v e ms s).nextSendSeq = ms.foldl (nextCounter v s₀) s.nextSendSeq ∧
      (sendAll v e ms s).persist.isSome = s.persist.isSome ∧
      ∀ k, k ≠ 0 → s.persist.isSome → (recordAt (sendAll v e ms s) k = none ↔
        recordAt s k = none ∧ k ∉ keysFrom v s₀ s.nextSendSeq ms) := by
  induction ms generalizing s with
  | nil => exact ⟨rfl, rfl, fun k _ _ => by simp [keysFrom]⟩
  | cons m ms ih =>
    have hm : m.encodeErr = none := he m (List.mem_cons_self ..)
    have hs : Succeeded v s (flagged m e) := succeeded_of_link hl hm
    have hdup : isDup v s (flagged m e) = isDup v s₀ m := isDup_congr (m := m)
    have hnext : (sendProcess v (flagged m e) s).2.nextSendSeq =
        nextCounter v s₀ s.nextSendSeq m := by
      rw [hs.nextSendSeq, hdup]
      rfl
    obtain ⟨hcounter, hopen, hkeys⟩ := ih (s := (sendProcess v (flagged m e) s).2)
      fun m' hm' => he m' (List.mem_cons_of_mem _ hm')
    refine ⟨?_, hopen.trans (persist_isSome ..), ?_⟩
    · rw [sendAll_cons, hcounter, hnext]
      rfl
    · intro k hk hsome
      rw [sendAll_cons, hkeys k hk (by rwa [persist_isSome]), hnext, recordAt_sent hs hk, hdup,
        flagged_isAdmin, keysFrom, List.mem_append, not_or]
      by_cases hst : isDup v s₀ m = false ∧ m.isAdmin = false
      · rw [if_pos hst, List.mem_singleton]
        by_cases hkey : k = s.nextSendSeq
        · rw [if_pos ⟨hst.1, hst.2, hsome, hkey⟩]
          simp [hkey]
        · rw [if_neg fun hc => hkey hc.2.2.2]
          simp [hkey]
      · rw [if_neg fun hc => hst ⟨hc.1, hc.2.1⟩, if_neg hst]
        simp

theorem records_first : Records v s (flagged m e) ↔ StoredUnder v s [] s.nextSendSeq m := by
  unfold Records StoredUnder
  simp only [List.not_mem_nil, not_false_eq_true, and_true]
  rfl

theorem Held.records_last (h : Held v s first rest) :
    Records v (sendAll v true (first :: rest) s) (flagged last true) ↔
      StoredUnder v s (keysFrom v s s.nextSendSeq (first :: rest))
        ((first :: rest).foldl (nextCounter v s) s.nextSendSeq) last := by
  obtain ⟨hcounter, hopen, hkeys⟩ := sendAll_numbers (e := true) (s := s) h.link h.encodes s
  have hdup : isDup v (sendAll v true (first :: rest) s) (flagged last true) = isDup v s last :=
    isDup_congr (m := last)
  unfold Records StoredUnder
  rw [hdup, hopen, hcounter, flagged_isAdmin]
  constructor
  · intro ⟨h1, h2, h3, h4, h5⟩
    exact ⟨h1, h2, h3, h4, (hkeys _ h4 h3).1 h5⟩
  · intro ⟨h1, h2, h3, h4, h5⟩
    exact ⟨h1, h2, h3, h4, (hkeys _ h4 h3).2 h5⟩

/-! ## The two ways to send a list -/

/-- A message as its constructor leaves it: only `write_batch` takes `end_of_batch` away. -/
abbrev NewMsg := { m : Msg // m.endOfBatch = true }

/-- `Session::send` on each message in turn. -/
def sendEach (v : Env) (ms : List Msg) (s : Session) : Session :=
  ms.foldl (fun s m => ((send v m : Method Bool) s).state) s

/-- The batch `first :: rest ++ [last]` of what encodes, and perhaps of a last message that does
not: no NUL cuts a message, and the calls that store an empty text store nothing. -/
structure Batchable (v : Env) (s : Session) (first : Msg) (rest : List Msg) (last : Msg) :
    Prop where
  encodes : last.encodeErr = none
  firstWhole : s.batchmsgsBuffer = [] → first.nulErr = none
  restWhole : ∀ m ∈ rest, m.nulErr = none
  lastWhole : last.nulErr = none
  firstStored : s.batchmsgsBuffer ≠ [] → ¬ StoredUnder v s [] s.nextSendSeq first
  lastStored : ¬ StoredUnder v s (keysFrom v s s.nextSendSeq (first :: rest))
    ((first :: rest).foldl (nextCounter v s) s.nextSendSeq) last

/-- The list can be sent as a batch: nothing in front of its last message encodes, or all of it is
`Batchable`. -/
def CanBatch (v : Env) (s : Session) (ms : List Msg) : Prop :=
  match ms.dropLast.filter fun m => m.encodeErr.isNone, ms.getLast? with
  | first :: rest, some last => Batchable v s first rest last
  | _, _ => True

theorem sameLater_refl : SameLater v s s :=
  fun _ => ⟨rfl, rfl, fun _ => rfl, rfl⟩

theorem writeBatchFrom_concat {init : List Msg} {result : Nat} :
    (writeBatchFrom v (init ++ [last]) result s).2 =
      (sendProcess v (flagged last true) (sendAll v false init s)).2 := by
  induction init generalizing result s with
  | nil => rfl
  | cons m init ih =>
    have hempty : (init ++ [last]).isEmpty = false := by
      cases init <;> rfl
    rw [List.cons_append, writeBatchFrom, hempty, ih]
    rfl

theorem flagged_eq (h : m.endOfBatch = true) : flagged m true = m := by
  unfold flagged
  rw [← h]

theorem sendEach_eq {ms : List Msg} (h : ∀ m ∈ ms, m.endOfBatch = true) :
    sendEach v ms s = sendAll v true ms s := by
  induction ms generalizing s with
  | nil => rfl
  | cons m ms ih =>
    have hm : ((send v m : Method Bool) s).state = (sendProcess v (flagged m true) s).2 := by
      rw [flagged_eq (h m (List.mem_cons_self ..))]
      rfl
    rw [sendAll_cons, ← hm, ← ih fun m' hm' => h m' (List.mem_cons_of_mem _ hm')]
    rfl

theorem sendAll_concat {init : List Msg} : sendAll v e (init ++ [last]) s =
    (sendProcess v (flagged last e) (sendAll v e init s)).2 := by
  unfold sendAll
  rw [List.foldl_append]
  rfl

/-- The iff behind a message that encodes, whatever the last one does. -/
theorem Held.sameLater_iff (h : Held v s first rest) :
    SameLater v (sendProcess v (flagged last true) (sendAll v false (first :: rest) s)).2
        (sendProcess v (flagged last true) (sendAll v true (first :: rest) s)).2 ↔
      Batchable v s first rest last := by
  have hab : Abreast (sendAll v false (first :: rest) s) (sendAll v true (first :: rest) s) :=
    h.tail.abreast
  cases hlast : last.encodeErr with
  | some w =>
    rw [sendProcess_unencoded (by simp [hlast]), sendProcess_unencoded (by simp [hlast]),
      Session.sameLater_iff h.link hab.nextReceiveSeq hab.senderCompID hab.targetCompID]
    constructor
    · intro hal
      exact absurd hal h.not_sameState
    · intro hb
      rw [hb.encodes] at hlast
      cases hlast
  | none =>
    have hab' : Abreast (sendProcess v (flagged last true) (sendAll v false (first :: rest) s)).2
        (sendProcess v (flagged last true) (sendAll v true (first :: rest) s)).2 :=
      hab.step h.link hlast
    rw [Session.sameLater_iff h.link hab'.nextReceiveSeq hab'.senderCompID hab'.targetCompID,
      h.sameState_iff hlast, records_first, h.records_last]
    constructor
    · intro ⟨⟨h1, h2, h3⟩, h4, h5⟩
      exact ⟨hlast, h1, h2, h3, h4, h5⟩
    · intro hb
      exact ⟨⟨hb.firstWhole, hb.restWhole, hb.lastWhole⟩, hb.firstStored, hb.lastStored⟩

/-- **A batch equals its messages one by one**: over a socket that accepts all bytes, `send_batch`
of a list leaves the bytes, the store, the counter and the later behaviour of `send` on each
message exactly when the list can be sent as a batch. -/
theorem batch_equals_each_iff (hl : ∀ n, v.link n = .sent) (ms : List NewMsg) :
    SameLater v (sendBatch v (ms.map Subtype.val) s).2 (sendEach v (ms.map Subtype.val) s) ↔
      CanBatch v s (ms.map Subtype.val) := by
  have hnew : ∀ m ∈ ms.map Subtype.val, m.endOfBatch = true := by
    intro m hm
    obtain ⟨m', -, rfl⟩ := List.mem_map.1 hm
    exact m'.2
  revert hnew
  generalize ms.map Subtype.val = msgs
  intro hnew
  rw [sendEach_eq hnew]
  rcases List.eq_nil_or_concat msgs with rfl | ⟨init, last, rfl⟩
  · exact iff_of_true sameLater_refl trivial
  unfold CanBatch
  rw [List.concat_eq_append, List.dropLast_concat, List.getLast?_concat]
  have hbatch : (sendBatch v (init ++ [last]) s).2 =
      (sendProcess v (flagged last true) (sendAll v false init s)).2 := by
    cases init with
    | nil =>
      rw [flagged_eq (hnew last (by simp))]
      rfl
    | cons m init =>
      rw [← @writeBatchFrom_concat v s last (m :: init) 0]
      cases init <;> rfl
  rw [hbatch, sendAll_concat, sendAll_filter, sendAll_filter (e := true)]
  cases hheld : init.filter fun m => m.encodeErr.isNone with
  | nil => exact iff_of_true sameLater_refl trivial
  | cons first rest =>
    have hencodes : ∀ m ∈ first :: rest, m.encodeErr = none := by
      intro m hm
      rw [← hheld] at hm
      simpa using (List.mem_filter.1 hm).2
    exact Held.sameLater_iff ⟨hl, hencodes⟩

end

/-- An order and then a heartbeat: the last message is not one to store. -/
theorem batch_equals_each_demo :
    SameLater demoEnv
      (sendBatch demoEnv ([demoNewOrder, generateHeartbeat ""] : List Msg) demoOpen).2
      (sendEach demoEnv ([demoNewOrder, generateHeartbeat ""] : List Msg) demoOpen) := by
  refine (batch_equals_each_iff (s := demoOpen) (fun _ => rfl)
    [⟨demoNewOrder, rfl⟩, ⟨generateHeartbeat "", rfl⟩]).2 ?_
  show Batchable demoEnv demoOpen demoNewOrder [] (generateHeartbeat "")
  refine ⟨rfl, fun _ => rfl, fun m hm => absurd hm (by simp), rfl, fun hb => absurd rfl hb, ?_⟩
  intro hstored
  cases hstored.2.1

/-- A batch of two orders: of the second an empty text is stored. -/
theorem batch_of_two_differs : ¬ ∀ (v : Env) (s : Session) (ms : List NewMsg),
    (∀ n, v.link n = .sent) →
    SameLater v (sendBatch v (ms.map Subtype.val) s).2 (sendEach v (ms.map Subtype.val) s) := by
  intro h
  have hsame := (h demoEnv demoOpen [⟨demoNewOrder, rfl⟩, ⟨demoNewOrder, rfl⟩] fun _ => rfl) []
  exact absurd (hsame.contents 2) (by decide)

end Session

end Fix8
