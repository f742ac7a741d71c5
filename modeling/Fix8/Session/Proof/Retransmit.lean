import Mathlib.Data.List.Perm.Subperm
import Fix8.Session.Proof.Outcome

/-!
# What a retransmission sends

`walk` is the list of messages that answers a ResendRequest, as a function of the stored records in
the range: a gap fill before each record that is not at the position reached, the record, and a
last gap fill.

* `nearest_spec`: the record a retransmission starts from;
* **`getRange_walked`**: on a connection that takes every write, `MemoryPersister::get` with
  `retrans_callback` sends `walk`;
* `answer_assigned`: with `always_seqnum_assign` nothing flagged `PossDup` is sent.
-/

namespace Fix8.Session

open Lib

/-- The connection takes every write. -/
def Lossless (v : Env) : Prop := ∀ n, v.link n = .sent

/-- A message with the number and the mark `send` was given. -/
def withSeqnum (m : Msg) (c : Nat) : Msg :=
  { m with customSeqnum := if c ≠ 0 then c else m.customSeqnum }

/-! ## The stream -/

/-- The position a retransmission has reached. -/
def position (first last : Nat) : Nat := if last = 0 then first else nextUnsigned last

/-- The new number of the last gap fill. -/
def fillEnd (nextSendSeq p : Nat) : Nat :=
  if p ≥ nextSendSeq then nextUnsigned p else nextSendSeq

/-- The last gap fill, from position `p`. -/
def lastFill (v : Env) (s : Session) (p : Nat) : Msg :=
  stamp v s (withSeqnum (generateSequenceReset (fillEnd s.nextSendSeq p) true) p)

/-- The gap fill before the record under `key`; only the first one has no number of its own. -/
def recordFill (v : Env) (s : Session) (last key : Nat) : Msg :=
  stamp v s (withSeqnum (generateSequenceReset key true) (if last = 0 then 0 else s.nextSendSeq))

/-- The gap fill before the record, where one is due. -/
def fillBefore (v : Env) (s : Session) (first last key : Nat) : List Msg :=
  if position first last < key then [recordFill v s last key] else []

/-- What answers a request from `first`, for the records still to come after `last`. -/
def walk (v : Env) (s : Session) (first : Nat) : Nat → List (Nat × Rec) → List Msg
  | last, [] => [lastFill v s (position first last)]
  | last, (key, r) :: K =>
    fillBefore v s first last key ++
      match factory v r.text with
      | .error _ => []
      | .ok m =>
        if m.encodeErr.isSome then [lastFill v s (nextUnsigned key)]
        else stamp v s m :: walk v s first key K

theorem walk_cons {v : Env} {s : Session} {first last key : Nat} {r : Rec}
    {K : List (Nat × Rec)} : walk v s first last ((key, r) :: K) =
      fillBefore v s first last key ++
        match factory v r.text with
        | .error _ => []
        | .ok m =>
          if m.encodeErr.isSome then [lastFill v s (nextUnsigned key)]
          else stamp v s m :: walk v s first key K := rfl

/-- A record that goes out. -/
theorem walk_sent {v : Env} {s : Session} {first last key : Nat} {r : Rec} {m : Msg}
    {K : List (Nat × Rec)} (hf : factory v r.text = .ok m) (he : m.encodeErr = none) :
    walk v s first last ((key, r) :: K) =
      fillBefore v s first last key ++ (stamp v s m :: walk v s first key K) := by
  simp [walk_cons, hf, he]

/-- The position of the last gap fill, when every record goes out. -/
def walkEnd (first : Nat) : Nat → List (Nat × Rec) → Nat
  | last, [] => position first last
  | _, (key, _) :: K => walkEnd first key K

/-- The record decodes and encodes again. -/
def Recodes (v : Env) (r : Rec) : Prop :=
  ∃ m, factory v r.text = .ok m ∧ m.encodeErr = none

/-! ## Sending without moving the counter -/

/-- The stores hold the same messages. -/
def Store.Agrees (st' st : Store) : Prop := ∀ k, k ≠ 0 → st'.get? k = st.get? k

/-- `s'` stamps as `s` does and holds the same messages. -/
structure Alike (s s' : Session) : Prop where
  nextSendSeq : s'.nextSendSeq = s.nextSendSeq
  senderCompID : s'.senderCompID = s.senderCompID
  targetCompID : s'.targetCompID = s.targetCompID
  clock : s'.clock = s.clock
  persist : ∀ st, s.persist = some st → ∃ st', s'.persist = some st' ∧ Store.Agrees st' st

section
variable {v : Env} {s s' s'' : Session} {m : Msg}

theorem Alike.refl (s : Session) : Alike s s :=
  ⟨rfl, rfl, rfl, rfl, fun st h => ⟨st, h, fun _ _ => rfl⟩⟩

theorem Alike.trans (h : Alike s s') (h' : Alike s' s'') : Alike s s'' where
  nextSendSeq := h'.nextSendSeq.trans h.nextSendSeq
  senderCompID := h'.senderCompID.trans h.senderCompID
  targetCompID := h'.targetCompID.trans h.targetCompID
  clock := h'.clock.trans h.clock
  persist st hst := by
    obtain ⟨st', h1, h2⟩ := h.persist st hst
    obtain ⟨st'', h3, h4⟩ := h'.persist st' h1
    exact ⟨st'', h3, fun k hk => (h4 k hk).trans (h2 k hk)⟩

theorem Alike.stamp (h : Alike s s') : stamp v s' m = stamp v s m := by
  simp only [Session.stamp, stampHeader, stampResend, assignedSeqnum, h.nextSendSeq,
    h.senderCompID, h.targetCompID, h.clock]

/-- What `recordSent` leaves alone for a message that does not move the counter. -/
theorem recordSent_alike {isDup : Bool} {ptr : Text}
    (h : isDup = true ∨ (m.isAdmin = true ∧ m.msgType = .sequenceReset)) :
    Alike s (recordSent v m isDup ptr s) := by
  unfold recordSent
  split
  · exact Alike.refl s
  · rename_i hd
    obtain ⟨ha, ht⟩ := h.resolve_left hd
    refine ⟨by simp [ht], rfl, rfl, rfl, fun st hst => ?_⟩
    refine ⟨st.putControl v.persister (nextUnsigned s.nextSendSeq) s.nextReceiveSeq,
      by simp [hst, persistSent, ha], fun k hk => Store.get?_putControl_of_ne hk⟩

/-- A message that goes out and does not move the counter. -/
theorem sendProcess_alike (hl : Lossless v) (he : m.encodeErr = none) (hb : m.endOfBatch = true)
    (h : isDup v s m = true ∨ (m.isAdmin = true ∧ m.msgType = .sequenceReset)) :
    (sendProcess v m s).1 = true ∧ Alike s (sendProcess v m s).2 := by
  have he' : (stamp v s m).encodeErr = none := he
  have hb' : (stamp v s m).endOfBatch = true := hb
  simp only [sendProcess, he', hb', transmit, hl _, Option.isSome_none, Bool.false_eq_true,
    if_false, if_true, true_and]
  refine Alike.trans ?_ (recordSent_alike (m := stamp v s m) h)
  exact ⟨rfl, rfl, rfl, rfl, fun st hst => ⟨st, hst, fun _ _ => rfl⟩⟩

theorem sendProcess_sent {c : Nat} (hl : Lossless v) (he : m.encodeErr = none)
    (hb : m.endOfBatch = true)
    (h : isDup v s (withSeqnum m c) = true ∨ (m.isAdmin = true ∧ m.msgType = .sequenceReset)) :
    ∃ s', send v m c false s = .ok true s' ∧ s'.sends = s.sends ++ [stamp v s (withSeqnum m c)] ∧
      Alike s s' := by
  obtain ⟨h1, h2⟩ := sendProcess_alike (m := withSeqnum m c) (s := s) hl he hb h
  refine ⟨(sendProcess v (withSeqnum m c) s).2, ?_, sendProcess_sends he, h2⟩
  unfold send
  simp only [Bool.false_or]
  exact congrArg (fun b => Res.ok b _) h1

/-! ## The walk -/

theorem decoded_seqnum {m m' : Msg} (h : m.decoded = .ok m') :
    m'.header.msgSeqNum.isSome = true ∧ m'.endOfBatch = true ∧ m'.customSeqnum = 0 := by
  unfold Msg.decoded at h
  split at h
  · cases h
  · cases h
  · rename_i hm
    cases h
    refine ⟨?_, rfl, rfl⟩
    unfold Header.findMissing at hm
    split at hm
    · cases hm
    · rename_i hq
      rwa [Bool.not_eq_true, Option.isNone_eq_false_iff] at hq

/-- What the factory returns has a number, and is the end of its batch. -/
theorem factory_seqnum {t : Text} {m : Msg} (h : factory v t = .ok m) :
    m.header.msgSeqNum.isSome = true ∧ m.endOfBatch = true ∧ m.customSeqnum = 0 := by
  unfold factory at h
  split at h
  · exact decoded_seqnum h
  · cases ht : v.factoryOther t with
    | error w => rw [ht] at h; cases h
    | ok m0 => rw [ht] at h; exact decoded_seqnum h

/-- A resend is a duplicate unless numbers are always assigned. -/
theorem isDup_of_seqnum (ha : v.alwaysSeqnumAssign = false)
    (h : m.header.msgSeqNum.isSome = true) : isDup v s m = true := by
  unfold isDup stampHeader stampResend
  simp only [h, if_true, ha, Bool.false_eq_true, if_false]
  cases m.header.possDupFlag <;> rfl

theorem withSeqnum_zero : withSeqnum m 0 = m := rfl

theorem getTurn_stop {finish key : Nat} {rctx : RetransmissionContext}
    {loop : Nat → RetransmissionContext → Method RetransmissionContext} (h : finish < key) :
    getTurn v finish key rctx loop s = .ok rctx s := by
  unfold getTurn
  rw [Act.get_bind_apply]
  cases recordAt s key with
  | none => rfl
  | some r => exact congrFun (if_pos (.inr h)) s

/-- A turn moves to a later key. -/
theorem getTurn_congr {finish key : Nat} {rctx : RetransmissionContext}
    {loop loop' : Nat → RetransmissionContext → Method RetransmissionContext}
    (h : ∀ key' rctx', key < key' → loop key' rctx' = loop' key' rctx') :
    getTurn v finish key rctx loop = getTurn v finish key rctx loop' := by
  have hnext : ∀ rctx', moveOn key rctx' loop = moveOn key rctx' loop' := by
    intro rctx'
    funext s
    unfold moveOn
    simp only [Act.get_bind_apply]
    cases hn : nextKey s key with
    | none => rfl
    | some key' =>
      obtain ⟨st, -, hst⟩ := Option.bind_eq_some_iff.1 hn
      exact congrFun (h key' rctx' (OrdMap.next?_eq_some hst).1) s
  unfold getTurn
  simp only [hnext]

/-- **The loop ends by itself**: more turns than there are keys left change nothing. -/
theorem getLoop_fuel {finish : Nat} : ∀ {fuel key : Nat} {rctx : RetransmissionContext},
    finish < key + fuel →
    getLoop v finish (fuel + 1) key rctx = getLoop v finish fuel key rctx
  | 0, _, _, h => funext fun _ => getTurn_stop h
  | _ + 1, _, _, h => getTurn_congr fun _ _ hlt => getLoop_fuel (by omega)

/-- The last gap fill goes out, and the counter goes to its new number. -/
theorem retransEnd_sent (rctx : RetransmissionContext) (hl : Lossless v) (ha : Alike s s')
    (hi : rctx.interruptedSeqnum = s.nextSendSeq) :
    ∃ s'', retransEnd v rctx s' = .ok () s'' ∧
      s''.sends = s'.sends ++ [lastFill v s (position rctx.beginSeq rctx.last)] ∧
      s''.nextSendSeq = fillEnd s.nextSendSeq (position rctx.beginSeq rctx.last) ∧
      s''.state = .stContinuous := by
  have hfill : ∀ p, ∃ s'', (fillToInterrupted v p rctx.interruptedSeqnum >>= fun _ =>
      doStateChange .stContinuous) s' = .ok () s'' ∧
      s''.sends = s'.sends ++ [lastFill v s p] ∧ s''.nextSendSeq = fillEnd s.nextSendSeq p ∧
      s''.state = .stContinuous := by
    intro p
    obtain ⟨s1, h1, h2, -⟩ := sendProcess_sent
      (m := generateSequenceReset (fillEnd s.nextSendSeq p) true) (s := s') (c := p) hl rfl rfl
      (.inr ⟨rfl, rfl⟩)
    refine ⟨{ s1 with nextSendSeq := fillEnd s.nextSendSeq p, state := .stContinuous }, ?_,
      h2.trans ?_, rfl, rfl⟩
    · have hf : fillToInterrupted v p rctx.interruptedSeqnum s' =
          .ok () { s1 with nextSendSeq := fillEnd s.nextSendSeq p } := by
        rw [hi]
        exact Act.bind_ok h1 _
      rw [Act.bind_ok hf]
      rfl
    · rw [ha.stamp]
      rfl
  unfold retransEnd position
  split
  · exact hfill _
  · exact hfill _

/-- The gap fill before a record. -/
theorem retransFill_sent (rctx : RetransmissionContext) (key : Nat) (hl : Lossless v)
    (ha : Alike s s') : ∃ s'', retransFill v rctx key s' = .ok () s'' ∧
      s''.sends = s'.sends ++ fillBefore v s rctx.beginSeq rctx.last key ∧ Alike s' s'' := by
  have hsend : ∀ c, ∃ s'', send v (generateSequenceReset key true) c false s' = .ok true s'' ∧
      s''.sends = s'.sends ++ [stamp v s (withSeqnum (generateSequenceReset key true) c)] ∧
      Alike s' s'' := by
    intro c
    obtain ⟨s'', h1, h2, h3⟩ := sendProcess_sent (m := generateSequenceReset key true) (s := s')
      (c := c) hl rfl rfl (.inr ⟨rfl, rfl⟩)
    exact ⟨s'', h1, by rw [h2, ha.stamp], h3⟩
  unfold retransFill fillBefore position recordFill
  by_cases h0 : rctx.last = 0
  · simp only [h0, ne_eq, not_true_eq_false, if_false, if_true, gt_iff_lt]
    by_cases hlt : rctx.beginSeq < key
    · obtain ⟨s'', h1, h2, h3⟩ := hsend 0
      simp only [hlt, if_true]
      exact ⟨s'', by rw [Act.bind_ok h1]; rfl, h2, h3⟩
    · simp only [hlt, if_false]
      exact ⟨s', rfl, by simp, Alike.refl _⟩
  · simp only [h0, ne_eq, not_false_eq_true, if_true, if_false]
    by_cases hlt : nextUnsigned rctx.last < key
    · obtain ⟨s'', h1, h2, h3⟩ := hsend s.nextSendSeq
      simp only [hlt, if_true, Act.get_bind_apply, ha.nextSendSeq]
      exact ⟨s'', by rw [Act.bind_ok h1]; rfl, h2, h3⟩
    · simp only [hlt, if_false]
      exact ⟨s', rfl, by simp, Alike.refl _⟩

/-- The three ways a record goes: it does not decode, it does not encode, it goes out. -/
theorem retransRecord_sent (rctx : RetransmissionContext) (key : Nat) (t : Text)
    (hl : Lossless v) (hassign : v.alwaysSeqnumAssign = false) (ha : Alike s s') :
    match factory v t with
    | .error w => ∃ s'', retransRecord v rctx key t s' = .throw (codecExn w) s'' ∧
        s''.sends = s'.sends ++ fillBefore v s rctx.beginSeq rctx.last key
    | .ok m =>
      if m.encodeErr.isSome then
        ∃ s'', retransRecord v rctx key t s' = .ok (false, { rctx with last := key }) s'' ∧
          s''.sends = s'.sends ++ fillBefore v s rctx.beginSeq rctx.last key ∧ Alike s s''
      else
        ∃ s'', retransRecord v rctx key t s' = .ok (true, { rctx with last := key }) s'' ∧
          s''.sends = s'.sends ++ (fillBefore v s rctx.beginSeq rctx.last key ++ [stamp v s m]) ∧
          Alike s s'' := by
  obtain ⟨s1, h1, h2, h3⟩ := retransFill_sent rctx key hl ha
  have h4 := ha.trans h3
  unfold retransRecord
  cases hf : factory v t with
  | error w => exact ⟨s1, by rw [Act.bind_ok h1]; rfl, h2⟩
  | ok m =>
    dsimp only
    obtain ⟨hq, hb, hc⟩ := factory_seqnum hf
    cases he : m.encodeErr with
    | some w =>
      refine ⟨s1, ?_, h2, h4⟩
      rw [Act.bind_ok h1]
      simp only [Except.mapError, ofExcept_ok, Act.pure_bind_apply]
      have hs : send v m 0 false s1 = .ok false s1 := by
        simp [send, sendProcess, stamp, he]
      exact Act.bind_ok hs _
    | none =>
      obtain ⟨s2, h5, h6, h7⟩ := sendProcess_sent (s := s1) (c := 0) hl he hb
        (.inl (isDup_of_seqnum hassign hq))
      refine ⟨s2, ?_, ?_, h4.trans h7⟩
      · rw [Act.bind_ok h1]
        simp only [Except.mapError, ofExcept_ok, Act.pure_bind_apply]
        exact Act.bind_ok h5 _
      · rw [h6, h2, withSeqnum_zero, h4.stamp, List.append_assoc]

/-- What the rest of a retransmission does, from the records still in the range. -/
def Walked (v : Env) (s s' : Session) (first last : Nat) (K : List (Nat × Rec))
    (r : Res Session Exn Unit) : Prop :=
  r.state.sends = s'.sends ++ walk v s first last K ∧
    ((∀ e ∈ K, Recodes v e.2) → ∃ s'', r = .ok () s'' ∧
      s''.nextSendSeq = fillEnd s.nextSendSeq (walkEnd first last K) ∧ s''.state = .stContinuous)

theorem retransEnd_walked (rctx : RetransmissionContext) (hl : Lossless v) (ha : Alike s s')
    (hi : rctx.interruptedSeqnum = s.nextSendSeq) :
    Walked v s s' rctx.beginSeq rctx.last [] (retransEnd v rctx s') := by
  obtain ⟨s'', h1, h2, h3, h4⟩ := retransEnd_sent rctx hl ha hi
  rw [h1]
  exact ⟨h2, fun _ => ⟨s'', rfl, h3, h4⟩⟩

theorem recordAt_alike {st : Store} {key : Nat} (ha : Alike s s') (hst : s.persist = some st)
    (hk : key ≠ 0) : recordAt s' key = st.get? key := by
  obtain ⟨st', h1, h2⟩ := ha.persist st hst
  rw [recordAt, h1]
  exact h2 key hk

theorem nextKey_alike {st : Store} {key : Nat} (ha : Alike s s') (hst : s.persist = some st) :
    nextKey s' key = st.next? key := by
  obtain ⟨st', h1, h2⟩ := ha.persist st hst
  rw [nextKey, h1]
  exact OrdMap.next?_congr fun j hj => h2 j (by omega)

/-- A turn on a record that is in the range. -/
theorem getLoop_turn {st : Store} {finish key : Nat} {r : Rec} (fuel : Nat)
    (rctx : RetransmissionContext) (ha : Alike s s') (hst : s.persist = some st) (hk : key ≠ 0)
    (hle : key ≤ finish) (hr : st.get? key = some r) : getLoop v finish (fuel + 1) key rctx s' =
      (retransRecord v rctx key r.text >>= fun p =>
        if !p.1 then pure p.2 else moveOn key p.2 (getLoop v finish fuel)) s' := by
  unfold getLoop getTurn
  rw [Act.get_bind_apply, recordAt_alike ha hst hk, hr]
  dsimp only
  rw [if_neg (by omega)]

theorem moveOn_none {key : Nat} {rctx : RetransmissionContext}
    {loop : Nat → RetransmissionContext → Method RetransmissionContext}
    (h : nextKey s key = none) : moveOn key rctx loop s = .ok rctx s := by
  unfold moveOn
  rw [Act.get_bind_apply, h]
  rfl

theorem moveOn_some {key key' : Nat} {rctx : RetransmissionContext}
    {loop : Nat → RetransmissionContext → Method RetransmissionContext}
    (h : nextKey s key = some key') : moveOn key rctx loop s = loop key' rctx s := by
  unfold moveOn
  rw [Act.get_bind_apply, h]

/-- A record that goes out is the head of the walk. -/
theorem walked_cons {s1 : Session} {first last key : Nat} {r : Rec} {K : List (Nat × Rec)}
    {res : Res Session Exn Unit} (hf : factory v r.text = .ok m) (he : m.encodeErr = none)
    (h : s1.sends = s'.sends ++ (fillBefore v s first last key ++ [stamp v s m]))
    (hw : Walked v s s1 first key K res) : Walked v s s' first last ((key, r) :: K) res := by
  refine ⟨?_, fun hgood => hw.2 fun e he => hgood e (List.mem_cons_of_mem _ he)⟩
  rw [hw.1, h, walk_sent hf he]
  simp

/-- **The loop sends the walk** over the records from its iterator on. -/
theorem getLoop_walked {st : Store} {finish : Nat} (hl : Lossless v)
    (hst : s.persist = some st) :
    ∀ {K : List (Nat × Rec)} {fuel key : Nat} (rctx : RetransmissionContext) {s' : Session},
      st.range key finish = K → K.length ≤ fuel → key ≠ 0 → (st.get? key).isSome →
      (K = [] ∨ v.alwaysSeqnumAssign = false) → Alike s s' →
      rctx.interruptedSeqnum = s.nextSendSeq →
      Walked v s s' rctx.beginSeq rctx.last K
        ((getLoop v finish fuel key rctx >>= retransEnd v) s') := by
  intro K
  induction K with
  | nil =>
    intro fuel key rctx s' hK _ _ hsome _ ha hi
    -- the key is beyond the range, so the loop stops at once
    have hlt : finish < key := by
      by_contra hle
      obtain ⟨r, hr⟩ := Option.isSome_iff_exists.1 hsome
      rw [OrdMap.range_eq_cons hr (by omega)] at hK
      cases hK
    have hstop : getLoop v finish fuel key rctx s' = .ok rctx s' := by
      cases fuel with
      | zero => rfl
      | succ fuel => exact getTurn_stop hlt
    rw [Act.bind_ok hstop]
    exact retransEnd_walked rctx hl ha hi
  | cons e K ih =>
    intro fuel key rctx s' hK hfuel hkey hsome hassign ha hi
    obtain ⟨r, hr⟩ := Option.isSome_iff_exists.1 hsome
    have hle : key ≤ finish := by
      have : e ∈ st.range key finish := by rw [hK]; simp
      obtain ⟨-, h1, h2⟩ := OrdMap.mem_range.1 this
      omega
    rw [OrdMap.range_eq_cons hr hle] at hK
    obtain ⟨rfl, hrest⟩ := List.cons.inj hK
    have hassign := hassign.resolve_left (by simp)
    cases fuel with
    | zero => simp at hfuel
    | succ fuel =>
    have hturn := getLoop_turn (v := v) fuel rctx ha hst hkey hle hr
    have hrec := retransRecord_sent rctx key r.text hl hassign ha
    cases hf : factory v r.text with
    | error w =>
      rw [hf] at hrec
      obtain ⟨s1, h1, h2⟩ := hrec
      rw [Act.bind_throw (hturn.trans (Act.bind_throw h1 _))]
      refine ⟨by simp [walk, hf, h2], fun hgood => ?_⟩
      obtain ⟨m, hm, -⟩ := hgood (key, r) (by simp)
      rw [hf] at hm
      cases hm
    | ok m =>
      rw [hf] at hrec
      cases he : m.encodeErr with
      | some w =>
        -- the message does not encode: the loop stops, and the last fill follows its key
        simp only [he, Option.isSome_some, if_true] at hrec
        obtain ⟨s1, h1, h2, h3⟩ := hrec
        rw [Act.bind_ok (hturn.trans (Act.bind_ok h1 _))]
        obtain ⟨s2, h4, h5, -⟩ := retransEnd_sent { rctx with last := key } hl h3 hi
        rw [h4]
        refine ⟨by simp [walk, hf, he, h5, h2, position, hkey], fun hgood => ?_⟩
        obtain ⟨m', hm', he'⟩ := hgood (key, r) (by simp)
        rw [hf] at hm'
        cases hm'
        rw [he] at he'
        cases he'
      | none =>
        simp only [he, Option.isSome_none, Bool.false_eq_true, if_false] at hrec
        obtain ⟨s1, h1, h2, h3⟩ := hrec
        refine walked_cons hf he h2 ?_
        rw [Act.bind_apply, hturn.trans (Act.bind_ok h1 _)]
        show Walked v s s1 rctx.beginSeq key K
          ((moveOn key { rctx with last := key } (getLoop v finish fuel) >>= retransEnd v) s1)
        cases hn : st.next? key with
        | none =>
          rw [OrdMap.above_eq_nil hn] at hrest
          rw [← hrest, Act.bind_ok (moveOn_none ((nextKey_alike h3 hst).trans hn))]
          exact retransEnd_walked { rctx with last := key } hl h3 hi
        | some key' =>
          rw [OrdMap.above_eq_range hn] at hrest
          have hnext := OrdMap.next?_eq_some hn
          have hgo := ih { rctx with last := key } hrest (by simpa using hfuel)
            (by omega) hnext.2.1 (.inr hassign) h3 hi
          rw [Act.bind_apply, moveOn_some ((nextKey_alike h3 hst).trans hn)]
          exact hgo

/-! ## The range -/

/-- Where `find_nearest_highest_seqnum` ends: at the first number from `n` on that is stored. -/
theorem nearestFrom_spec (st : Store) : ∀ fuel n : Nat, 0 < n →
    (st.nearestFrom fuel n = 0 ∧ ∀ k, n ≤ k → k < n + fuel → st.get? k = none) ∨
    (n ≤ st.nearestFrom fuel n ∧ (st.get? (st.nearestFrom fuel n)).isSome ∧
      ∀ k, n ≤ k → k < st.nearestFrom fuel n → st.get? k = none)
  | 0, n, _ => .inl ⟨rfl, fun k h1 h2 => by omega⟩
  | fuel + 1, n, hn => by
    unfold Store.nearestFrom
    by_cases hs : (st.get? n).isSome
    · rw [if_pos hs]
      exact .inr ⟨le_refl _, hs, fun k h1 h2 => by omega⟩
    · rw [if_neg hs]
      have hnone : st.get? n = none := by simpa using hs
      have hstep : ∀ k, n ≤ k → k ≠ n → n + 1 ≤ k := fun k h1 h2 => by omega
      rcases nearestFrom_spec st fuel (n + 1) (by omega) with
        ⟨h1, h2⟩ | ⟨h1, h2, h3⟩
      · refine .inl ⟨h1, fun k hk1 hk2 => ?_⟩
        by_cases hk : k = n
        · rw [hk, hnone]
        · exact h2 k (hstep k hk1 hk) (by omega)
      · refine .inr ⟨by omega, h2, fun k hk1 hk2 => ?_⟩
        by_cases hk : k = n
        · rw [hk, hnone]
        · exact h3 k (hstep k hk1 hk) hk2

theorem le_getLastSeqnum {st : Store} {k : Nat} (h : (st.get? k).isSome) :
    k ≤ st.getLastSeqnum :=
  OrdMap.le_lastKey h

/-- **The record a retransmission starts from**: the first one stored from `first` on, if any. -/
theorem nearest_spec (st : Store) {first : Nat} (h1 : 1 ≤ first) :
    (st.findNearestHighestSeqnum first st.getLastSeqnum = 0 ∧
      ∀ k, first ≤ k → st.get? k = none) ∨
    (first ≤ st.findNearestHighestSeqnum first st.getLastSeqnum ∧
      (st.get? (st.findNearestHighestSeqnum first st.getLastSeqnum)).isSome ∧
      ∀ k, first ≤ k → k < st.findNearestHighestSeqnum first st.getLastSeqnum →
        st.get? k = none) := by
  have hbeyond : ∀ k, st.getLastSeqnum < k → st.get? k = none := by
    intro k hk
    by_contra hs
    have := le_getLastSeqnum (Option.isSome_iff_ne_none.2 hs)
    omega
  unfold Store.findNearestHighestSeqnum
  by_cases h0 : st.getLastSeqnum = 0
  · rw [if_neg (not_not.2 h0)]
    exact .inl ⟨rfl, fun k hk => hbeyond k (by omega)⟩
  · rw [if_pos h0]
    rcases nearestFrom_spec st (st.getLastSeqnum + 1 - first) first h1 with
      ⟨h2, h3⟩ | h2
    · refine .inl ⟨h2, fun k hk => ?_⟩
      rcases Nat.lt_or_ge st.getLastSeqnum k with hlt | hge
      · exact hbeyond k hlt
      · exact h3 k hk (by omega)
    · exact .inr h2

/-- The last number of a range that is asked for up to `last`. -/
def rangeEnd (st : Store) (last : Nat) : Nat := if last = 0 then st.getLastSeqnum else last

/-- The number of records in a range. -/
theorem range_length_le {st : Store} {lo hi : Nat} :
    (st.range lo hi).length ≤ hi + 1 := by
  have hsorted : (st.range lo hi).Pairwise (fun a b => a.1 < b.1) := OrdMap.range_sorted
  have hnodup : ((st.range lo hi).map Prod.fst).Nodup :=
    List.pairwise_map.2 (hsorted.imp fun hab => ne_of_lt hab)
  have hsub : (st.range lo hi).map Prod.fst ⊆ List.range (hi + 1) := by
    intro k hk
    obtain ⟨e, he, rfl⟩ := List.mem_map.1 hk
    have := (OrdMap.mem_range.1 he).2.2
    exact List.mem_range.2 (by omega)
  have := (List.subperm_of_subset hnodup hsub).length_le
  simpa using this

/-- **`MemoryPersister::get` with `retrans_callback` sends the walk** over the records in the
range. -/
theorem getRange_walked {st : Store} {first last : Nat} (hl : Lossless v)
    (hst : s.persist = some st) (h1 : 1 ≤ first) (ha : Alike s s')
    (hassign : st.range first (rangeEnd st last) = [] ∨ v.alwaysSeqnumAssign = false) :
    Walked v s s' first 0 (st.range first (rangeEnd st last))
      (getRange v st first last s') := by
  have hi : s'.nextSendSeq = s.nextSendSeq := ha.nextSendSeq
  have hempty : ∀ {K : List (Nat × Rec)}, K = [] → Walked v s s' first 0 K (retransEnd v
      { beginSeq := first, endSeq := last, interruptedSeqnum := s'.nextSendSeq } s') := by
    rintro _ rfl
    exact retransEnd_walked _ hl ha hi
  unfold getRange
  rw [Act.get_bind_apply]
  rw [show (if last = 0 then st.getLastSeqnum else last) = rangeEnd st last from rfl]
  rcases nearest_spec st h1 with ⟨h2, h3⟩ | ⟨h2, h3, h4⟩
  · rw [if_pos (.inl h2)]
    exact hempty (OrdMap.range_eq_nil fun j hj _ => h3 j hj)
  · by_cases hgt : first > rangeEnd st last
    · rw [if_pos (.inr hgt)]
      exact hempty (OrdMap.range_eq_nil fun j _ _ => by omega)
    · rw [if_neg (by omega)]
      -- nothing is stored before the record the search found
      have hrange : st.range first (rangeEnd st last) =
          st.range (st.findNearestHighestSeqnum first st.getLastSeqnum) (rangeEnd st last) := by
        refine OrdMap.eq_of_sorted OrdMap.range_sorted OrdMap.range_sorted fun e => ?_
        simp only [OrdMap.mem_range]
        constructor
        · rintro ⟨h5, h6, h7⟩
          refine ⟨h5, ?_, h7⟩
          by_contra hlt
          rw [h4 _ h6 (by omega)] at h5
          cases h5
        · rintro ⟨h5, h6, h7⟩
          exact ⟨h5, by omega, h7⟩
      rw [hrange] at hassign ⊢
      exact getLoop_walked hl hst _ rfl range_length_le (by omega) h3 hassign ha hi

/-! ## The request -/

/-- A request for a range in order is served, unless an answer is under way. -/
theorem answer_serves {q first : Nat} {msg : Msg} {last : Int}
    (hst : s.state ≠ .stResendRequestReceived) (hb : msg.beginSeqNo = some (first : Int))
    (he : msg.endSeqNo = some last) (hv : ¬ ((first : Int) > last ∧ last ≠ 0)) (h1 : 1 ≤ first) :
    answerResendRequest v q msg s = serveResend v first last s := by
  unfold answerResendRequest
  rw [Act.get_bind_apply, if_pos hst, hb, he]
  simp only [Option.getD_some]
  rw [if_neg (by omega)]

theorem serveResend_some {st : Store} {first : Nat} {last : Int} (hp : s.persist = some st)
    (hfirst : first < 2147483648) (hlast : 0 ≤ last) (hlt : last < 2147483648) :
    serveResend v first last s =
      getRange v st first last.toNat { s with state := .stResendRequestReceived } := by
  unfold serveResend
  rw [Act.get_bind_apply, hp]
  dsimp only
  rw [doStateChange_bind_apply, toUnsigned_natCast (by omega),
    toUnsigned_of_nonneg hlast (by omega), hp]

/-! ## Where a walk ends -/

/-- The keys ascend, from `p` on. -/
def Ascends (p : Nat) (K : List (Nat × Rec)) : Prop :=
  K.Pairwise (fun a b => a.1 < b.1) ∧ ∀ e ∈ K, p ≤ e.1

section Ascends
variable {K : List (Nat × Rec)} {st : Store} {first last key p : Nat} {r : Rec}

theorem ascends_cons (h : Ascends p ((key, r) :: K)) : p ≤ key ∧ Ascends (key + 1) K := by
  obtain ⟨h1, h2⟩ := h
  obtain ⟨h3, h4⟩ := List.pairwise_cons.1 h1
  exact ⟨h2 _ List.mem_cons_self, h4, h3⟩

/-- The keys are numbers that an `int` shows. -/
def Shown (K : List (Nat × Rec)) : Prop := ∀ e ∈ K, e.1 < 2147483648

theorem Shown.tail {e : Nat × Rec} (h : Shown (e :: K)) : Shown K :=
  fun _ he => h _ (List.mem_cons_of_mem _ he)

theorem fillEnd_eq (n : Nat) (hp : p + 1 < 4294967296) :
    fillEnd n p = if p ≥ n then p + 1 else n := by
  unfold fillEnd
  rw [nextUnsigned_of_lt hp]

theorem lt_fillEnd (n : Nat) (hp : p + 1 < 4294967296) : p < fillEnd n p := by
  rw [fillEnd_eq n hp]
  split <;> omega

theorem position_of_pos (h : key ≠ 0) (hlt : key < 2147483648) :
    position first key = key + 1 := by
  unfold position
  rw [if_neg h, nextUnsigned_of_lt (by omega)]

theorem lt_walkEnd : ∀ {K : List (Nat × Rec)} {last : Nat}, 1 ≤ position first last →
    Ascends (position first last) K → Shown K → position first last ≤ walkEnd first last K ∧
      ∀ e ∈ K, e.1 < walkEnd first last K
  | [], _, _, _, _ => ⟨le_refl _, by simp⟩
  | (key, r) :: K, last, h1, hK, hs => by
    obtain ⟨hle, hK'⟩ := ascends_cons hK
    have hpos : position first key = key + 1 :=
      position_of_pos (by omega) (hs _ List.mem_cons_self)
    obtain ⟨h2, h3⟩ := lt_walkEnd (by omega) (hpos ▸ hK') hs.tail
    rw [hpos] at h2
    refine ⟨le_trans hle (Nat.le_of_succ_le h2), fun e he => ?_⟩
    rcases List.mem_cons.1 he with rfl | he
    · exact h2
    · exact h3 e he

theorem walkEnd_eq : ∀ {K : List (Nat × Rec)} {last : Nat}, 1 ≤ position first last →
    Ascends (position first last) K → Shown K → walkEnd first last K = position first last ∨
      ∃ e ∈ K, walkEnd first last K = e.1 + 1
  | [], _, _, _, _ => .inl rfl
  | (key, r) :: K, last, h1, hK, hs => by
    obtain ⟨hle, hK'⟩ := ascends_cons hK
    have hpos : position first key = key + 1 :=
      position_of_pos (by omega) (hs _ List.mem_cons_self)
    rcases walkEnd_eq (by omega) (hpos ▸ hK') hs.tail with h | ⟨e, he, h⟩
    · exact .inr ⟨_, List.mem_cons_self, h.trans hpos⟩
    · exact .inr ⟨e, List.mem_cons_of_mem _ he, h⟩

theorem ascends_range {hi : Nat} : Ascends first (st.range first hi) :=
  ⟨OrdMap.range_sorted, fun _ he => (OrdMap.mem_range.1 he).2.1⟩

/-- A number of the requested range is stored iff there is a record for it. -/
theorem mem_range_of_isSome {hi k : Nat} (hs : (st.get? k).isSome) (h1 : first ≤ k)
    (h2 : k ≤ hi) : ∃ e ∈ st.range first hi, e.1 = k := by
  obtain ⟨r, hr⟩ := Option.isSome_iff_exists.1 hs
  exact ⟨(k, r), OrdMap.mem_range.2 ⟨hr, h1, h2⟩, rfl⟩

end Ascends

/-! ## With numbers always assigned -/

/-- What is sent from one session to the next satisfies `P`. -/
def Sends (P : Msg → Prop) (s s' : Session) : Prop :=
  ∃ E, s'.sends = s.sends ++ E ∧ ∀ m ∈ E, P m

variable {P : Msg → Prop}

instance : IsPreorder Session (Sends P) where
  refl s := ⟨[], (List.append_nil _).symm, by simp⟩
  trans := by
    rintro s s' s'' ⟨E, h1, h2⟩ ⟨E', h3, h4⟩
    refine ⟨E ++ E', by rw [h3, h1, List.append_assoc], fun m hm => ?_⟩
    exact (List.mem_append.1 hm).elim (h2 m) (h4 m)

theorem sends_of_eq (h : s'.sends = s.sends) : Sends P s s' :=
  ⟨[], by rw [h, List.append_nil], by simp⟩

theorem sends_send {c : Nat} {n : Bool} (h : ∀ s c n,
    P (stamp v s { m with customSeqnum := c, noIncrement := n })) :
    Act.Moves (Sends P) (send v m c n) := by
  intro s
  cases he : m.encodeErr with
  | some w => exact sends_of_eq (by simp [send, sendProcess, stamp, he])
  | none =>
    refine ⟨_, sendProcess_sends he, fun m' hm => ?_⟩
    rw [List.mem_singleton.1 hm]
    exact h _ _ _

/-- What holds of every gap fill, Reject and resend holds of the answer. -/
theorem retransmits_sends
    (hmade : ∀ m : Msg, m.header = {} → ∀ s, P (stamp v s m))
    (hrec : ∀ t m, factory v t = .ok m → ∀ s c n,
      P (stamp v s { m with customSeqnum := c, noIncrement := n })) :
    Retransmits v (Sends P) where
  made m _ hm _ := sends_send fun s c n => hmade { m with customSeqnum := c, noIncrement := n } hm s
  record t m hf := sends_send (hrec t m hf)
  nextSendSeq _ _ := sends_of_eq rfl
  state _ _ := sends_of_eq rfl

/-- Where numbers are always assigned, nothing goes out flagged `PossDup` but what came so and
has no number of its own. -/
theorem stamp_possDupFlag (ha : v.alwaysSeqnumAssign = true)
    (h : m.header.msgSeqNum.isSome = true ∨ m.header.possDupFlag = none) :
    (stamp v s m).header.possDupFlag = none := by
  unfold stamp stampHeader stampResend
  simp only [ha, if_true]
  cases hd : m.header.possDupFlag with
  | none => split <;> simp
  | some b =>
    rw [hd] at h
    rw [if_pos (h.resolve_right (by simp))]
    simp

/-- **Where numbers are always assigned, an answer flags nothing `PossDup`.** -/
theorem answer_assigned (q : Nat) (msg : Msg) (ha : v.alwaysSeqnumAssign = true) :
    Act.Moves (Sends fun m => m.header.possDupFlag = none) (answerResendRequest v q msg) :=
  moves_answerResendRequest (retransmits_sends
    (fun _ hm _ => stamp_possDupFlag ha (.inr (by rw [hm])))
    fun _ _ hf _ _ _ => stamp_possDupFlag ha (.inl (factory_seqnum hf).1))

end

end Fix8.Session
