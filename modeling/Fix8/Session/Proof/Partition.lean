import Fix8.Lib.Tiling
import Fix8.Session.Proof.Counter
import Fix8.Session.Proof.Retransmit

/-!
# The answer to a ResendRequest as a partition of the requested range

A resent application message covers its own number, a gap fill the numbers from its own up to its
`NewSeqNo`, both as the `int` fields show them (`shown`). `PartitionLaw` says that what a request is
answered with covers the range from its first number on without hole or overlap, resends every stored
message of the range once, and fills over none that is not resent.

The code keeps the law exactly when the answer is `Partitionable`: the two gap fills before a record
carry `_next_send_seq` as their number, and the last one runs up to `_next_send_seq` even where the
request is bounded. From 2^31 on its `NewSeqNo` is negative.

* `walk_good`: a walk that tiles and resends every record is unbroken;
* `walk_tiles`, `walk_resends`: an unbroken walk tiles and resends the records;
* `answer_walked`: what answers a request is a walk;
* **`retransmission_partition_iff`**: the law holds iff the request is `Answerable`.
-/

namespace Fix8.Session

open Lib

/-! ## The law -/

/-- The number that MsgSeqNum shows; a negative one is none, here 0. -/
@[irreducible] def shown (n : Nat) : Nat := (toInt n).toNat

/-- The numbers a message of the answer covers, as a half-open range. -/
def cover (m : Msg) : Option (Nat × Nat) :=
  match m.msgType with
  | .application _ =>
    some (shown (m.header.msgSeqNum.getD 0), shown (m.header.msgSeqNum.getD 0) + 1)
  | .sequenceReset => some (shown (m.header.msgSeqNum.getD 0), (m.newSeqNo.getD 0).toNat)
  | _ => none

/-- The message is application message `k`, resent. -/
def resends (k : Nat) (m : Msg) : Bool :=
  match m.msgType with
  | .application _ => m.header.msgSeqNum.map shown = some k && m.header.possDupFlag = some true
  | _ => false

/-- The last number a request asks for; 0 asks for everything. -/
def requestEnd (st : Store) (last : Int) : Nat :=
  if last = 0 then st.getLastSeqnum else last.toNat

/-- What `E` answers a request from `first` to `last` with is a partition. The stored messages are
application messages: `send_process` stores no others. -/
structure PartitionLaw (st : Store) (first : Nat) (last : Int) (E : List Msg) : Prop where
  tiles : ∃ q, Tiles first (E.filterMap cover) q
  resent : ∀ e ∈ st.range first (requestEnd st last), E.countP (resends e.1) = 1
  covered : ∀ m ∈ E, m.msgType = .sequenceReset → ∀ lo hi, cover m = some (lo, hi) →
    ∀ k, lo ≤ k → k < hi → (st.get? k).isSome → ∃ m' ∈ E, resends k m'

/-! ## The condition -/

/-- The record is an application message that decodes, encodes again, and carries its key and no
`PossDupFlag` of N. -/
def Resendable (v : Env) (k : Nat) (r : Rec) : Prop :=
  ∃ m t, factory v r.text = .ok m ∧ m.encodeErr = none ∧ m.msgType = .application t ∧
    m.header.msgSeqNum.map shown = some k ∧ m.header.possDupFlag ≠ some false

/-- No hole before a record, or one that starts at the next number to send. -/
def Unbroken (nextSendSeq : Nat) : Nat → List (Nat × Rec) → Prop
  | _, [] => True
  | p, (key, _) :: K => (p = key ∨ p = nextSendSeq) ∧ Unbroken nextSendSeq (key + 1) K

/-- The condition under which the answer is a partition: numbers are not always assigned, every
record of the range can be resent, the holes between them are at the next number to send, no
record lies beyond the range and below the next number to send, or right after a range that ends
with a record, and the last gap fill ends below 2^31. -/
structure Partitionable (v : Env) (s : Session) (st : Store) (first : Nat) (last : Int) :
    Prop where
  assigned : st.range first (requestEnd st last) = [] ∨ v.alwaysSeqnumAssign = false
  records : ∀ e ∈ st.range first (requestEnd st last), Resendable v e.1 e.2
  unbroken : Unbroken s.nextSendSeq first (st.range first (requestEnd st last))
  beyond : ∀ k, requestEnd st last < k →
    (k < s.nextSendSeq ∨ (k = requestEnd st last + 1 ∧ (st.get? (requestEnd st last)).isSome)) →
    st.get? k = none
  counter : s.persist.isSome → s.nextSendSeq < 2147483648
  start : first + 1 < 2147483648
  keys : ∀ e ∈ st.range first (requestEnd st last), e.1 + 2 < 2147483648

/-- The store a session answers from. -/
def served (s : Session) : Store := s.persist.getD OrdMap.empty

/-- The condition under which the answer to a request keeps the law: it is a partition, the range
is refused, or an answer is under way and there is nothing to resend. -/
def Answerable (v : Env) (s : Session) (first : Nat) (last : Int) : Prop :=
  ((first : Int) > last ∧ last ≠ 0) ∨
    if s.state = .stResendRequestReceived then
      (served s).range first (requestEnd (served s) last) = []
    else Partitionable v s (served s) first last

section
variable {v : Env} {s : Session} {m : Msg} {st : Store} {first last p t u key : Nat} {r : Rec}
  {K : List (Nat × Rec)} {E : List Msg}

/-! ## What a message covers -/

theorem shown_eq (n : Nat) : shown n = (toInt n).toNat := by
  unfold shown
  rfl

theorem shown_of_lt {n : Nat} (h : n < 2147483648) : shown n = n := by
  rw [shown_eq, toInt_of_lt h, Int.toNat_natCast]

theorem shown_lt (n : Nat) : shown n < 2147483648 := by
  unfold shown toInt
  have := Int.bmod_lt (x := (n : Int)) (m := 4294967296) (by decide)
  omega

/-- A number of 32 bits is shown where it is below 2^31. -/
theorem lt_of_shown {n : Nat} (hn : n < 4294967296) (h : 1 ≤ shown n) : n < 2147483648 := by
  by_contra hge
  unfold shown toInt at h
  rw [Int.bmod_def] at h
  omega

theorem eq_of_shown {n t : Nat} (hn : n < 4294967296) (ht : 1 ≤ t) (h : shown n = t) : n = t := by
  rw [← h, shown_of_lt (lt_of_shown hn (h ▸ ht))]

theorem resends_cover (h : resends u m = true) : cover m = some (u, u + 1) := by
  unfold resends at h
  split at h
  · rename_i t ht
    simp only [Bool.and_eq_true, decide_eq_true_eq] at h
    obtain ⟨n, hn, rfl⟩ := Option.map_eq_some_iff.1 h.1
    simp [cover, ht, hn]
  · cases h

/-- What is resent has a number below 2^31. -/
theorem lt_of_resends (h : resends u m = true) : u < 2147483648 := by
  unfold resends at h
  split at h
  · simp only [Bool.and_eq_true, decide_eq_true_eq] at h
    obtain ⟨n, -, rfl⟩ := Option.map_eq_some_iff.1 h.1
    exact shown_lt n
  · cases h

theorem resends_inj (h : resends u m = true) (h' : resends t m = true) : u = t := by
  have := (resends_cover h).symm.trans (resends_cover h')
  simp only [Option.some.injEq, Prod.mk.injEq] at this
  exact this.1

theorem mem_covers (hm : m ∈ E) (h : resends u m = true) : (u, u + 1) ∈ E.filterMap cover :=
  List.mem_filterMap.2 ⟨m, hm, resends_cover h⟩

/-- Nothing below a tiling is resent in it. -/
theorem le_of_resends {q : Nat} (ht : Tiles t (E.filterMap cover) q) (hm : m ∈ E)
    (h : resends u m = true) : t ≤ u := ht.le_of_mem (mem_covers hm h)

/-- A tiling begins with what its first message resends. -/
theorem not_resends_of_tiles {q : Nat} (ht : Tiles t ((m :: E).filterMap cover) q) (hne : t ≠ u) :
    resends u m = false := by
  by_contra hr
  rw [List.filterMap_cons, resends_cover (eq_true_of_ne_false hr)] at ht
  exact hne ht.1.symm

theorem cover_fill {n k : Nat} (ht : m.msgType = .sequenceReset)
    (hseq : m.header.msgSeqNum = some n) (hnew : m.newSeqNo = some (toInt k)) :
    cover m = some (shown n, shown k) := by
  unfold cover
  rw [ht]
  dsimp only
  rw [hseq, hnew, Option.getD_some, Option.getD_some, ← shown_eq]

theorem recordFill_msgType : (recordFill v s last key).msgType = .sequenceReset := rfl

theorem lastFill_msgType : (lastFill v s p).msgType = .sequenceReset := rfl

theorem cover_recordFill :
    cover (recordFill v s last key) = some (shown s.nextSendSeq, shown key) := by
  apply cover_fill recordFill_msgType
  · unfold recordFill stamp stampHeader assignedSeqnum withSeqnum
    by_cases h0 : last = 0
    · simp [h0, generateSequenceReset]
    · by_cases hn : s.nextSendSeq = 0 <;> simp [h0, hn, generateSequenceReset]
  · rfl

theorem cover_lastFill (hp : p ≠ 0) :
    cover (lastFill v s p) = some (shown p, shown (fillEnd s.nextSendSeq p)) := by
  apply cover_fill lastFill_msgType
  · simp [lastFill, stamp, stampHeader, assignedSeqnum, withSeqnum, generateSequenceReset, hp]
  · rfl

theorem resends_fill (h : m.msgType = .sequenceReset) : resends u m = false := by
  simp [resends, h]

/-! ## The header of a resend -/

theorem stamp_resend (ha : v.alwaysSeqnumAssign = false)
    (hq : m.header.msgSeqNum.isSome = true) :
    (stamp v s m).header.msgSeqNum = m.header.msgSeqNum ∧
      (stamp v s m).header.possDupFlag = some (m.header.possDupFlag.getD true) := by
  unfold stamp stampHeader stampResend
  simp only [hq, if_true, ha, Bool.false_eq_true, if_false]
  cases m.header.possDupFlag <;> simp

/-- A record that is resent under its key could be resent. -/
theorem resendable_of_resends (ha : v.alwaysSeqnumAssign = false)
    (hf : factory v r.text = .ok m) (he : m.encodeErr = none)
    (h : resends key (stamp v s m) = true) : Resendable v key r := by
  obtain ⟨hq, hd⟩ := stamp_resend (s := s) ha (factory_seqnum hf).1
  unfold resends at h
  split at h
  · rename_i t ht
    simp only [hq, hd, Bool.and_eq_true, decide_eq_true_eq] at h
    refine ⟨m, t, hf, he, ht, h.1, fun hfalse => ?_⟩
    rw [hfalse] at h
    exact absurd h.2 (by simp)
  · cases h

theorem resends_of_resendable (ha : v.alwaysSeqnumAssign = false) (h : Resendable v key r) :
    ∃ m, factory v r.text = .ok m ∧ m.encodeErr = none ∧
      resends key (stamp v s m) = true := by
  obtain ⟨m, t, hf, he, ht, hq, hd⟩ := h
  obtain ⟨hq', hd'⟩ := stamp_resend (s := s) ha (factory_seqnum hf).1
  refine ⟨m, hf, he, ?_⟩
  have ht' : (stamp v s m).msgType = .application t := ht
  simp only [resends, ht', hq', hd', hq, decide_true, Bool.true_and, decide_eq_true_eq]
  cases hb : m.header.possDupFlag with
  | none => rfl
  | some b =>
    cases b with
    | true => rfl
    | false => exact absurd hb hd

/-! ## The head of a walk -/

/-- The gap fill before a record resends nothing. -/
theorem not_resends_fillBefore (hm : m ∈ fillBefore v s first last key) :
    resends u m = false := by
  unfold fillBefore at hm
  split at hm
  · rw [List.mem_singleton.1 hm]
    exact resends_fill recordFill_msgType
  · cases hm

/-- Where the walk tiles from its position, it tiles from the record's key after the gap fill. -/
theorem tiles_after_fill {q : Nat} (hle : position first last ≤ key)
    (h : Tiles t ((fillBefore v s first last key ++ E).filterMap cover) q) :
    (position first last = key ∧ Tiles t (E.filterMap cover) q) ∨
    (position first last < key ∧ shown s.nextSendSeq = t ∧
      Tiles (shown key) (E.filterMap cover) q) := by
  unfold fillBefore at h
  split at h
  · rename_i hlt
    rw [List.singleton_append, List.filterMap_cons, cover_recordFill] at h
    obtain ⟨h1, -, h2⟩ := tiles_cons.1 h
    exact .inr ⟨hlt, h1, h2⟩
  · exact .inl ⟨by omega, h⟩

/-- A walk whose next record does not go out resends nothing. -/
theorem walk_head (hres : ∃ m' ∈ walk v s first last ((key, r) :: K), resends u m' = true) :
    ∃ m, factory v r.text = .ok m ∧ m.encodeErr = none ∧
      walk v s first last ((key, r) :: K) =
        fillBefore v s first last key ++ (stamp v s m :: walk v s first key K) := by
  obtain ⟨m', hm', hr'⟩ := hres
  rw [walk_cons] at hm' ⊢
  rcases List.mem_append.1 hm' with hm' | hm'
  · rw [not_resends_fillBefore hm'] at hr'
    cases hr'
  · cases hf : factory v r.text with
    | error w =>
      rw [hf] at hm'
      cases hm'
    | ok m =>
      rw [hf] at hm'
      dsimp only at hm'
      cases he : m.encodeErr with
      | some w =>
        rw [he] at hm'
        simp only [Option.isSome_some, if_true, List.mem_singleton] at hm'
        rw [hm', resends_fill lastFill_msgType] at hr'
        cases hr'
      | none => exact ⟨m, rfl, he, by simp [he]⟩

/-- What the walk resends and the gap fill and the record do not, the rest of the walk does. -/
theorem resends_rest {m' : Msg} (hne : resends u m' = false)
    (h : ∃ m ∈ fillBefore v s first last key ++ (m' :: E), resends u m = true) :
    ∃ m ∈ E, resends u m = true := by
  obtain ⟨m, hm, hr⟩ := h
  rcases List.mem_append.1 hm with hm | hm
  · rw [not_resends_fillBefore hm] at hr
    cases hr
  · rcases List.mem_cons.1 hm with rfl | hm
    · rw [hne] at hr
      cases hr
    · exact ⟨m, hm, hr⟩

/-! ## A walk that keeps the law is unbroken -/

/-- The walk does not tile from a number it has left behind, if it is to resend one there and
every record. -/
theorem not_tiles_behind {q : Nat} :
    ∀ {K : List (Nat × Rec)} {last t u : Nat}, 1 ≤ position first last →
      position first last ≤ 2147483648 → Ascends (position first last) K → Shown K → 1 ≤ t →
      (∀ e ∈ K, ∃ m ∈ walk v s first last K, resends e.1 m = true) →
      (∃ m ∈ walk v s first last K, resends u m = true) → u < position first last →
      t < position first last → ¬ Tiles t ((walk v s first last K).filterMap cover) q
  | [], last, t, u, hp, hple, _, _, ht1, _, _, _, ht, hq => by
    rw [walk, List.filterMap_cons, cover_lastFill (by omega)] at hq
    obtain ⟨hstart, -⟩ := tiles_cons.1 hq
    have := eq_of_shown (by omega) ht1 hstart
    omega
  | (key, r) :: K, last, t, u, hp, _, hK, hs, ht1, hall, hu, hup, ht, hq => by
    obtain ⟨hle, hK'⟩ := ascends_cons hK
    have hkey : key < 2147483648 := hs _ List.mem_cons_self
    obtain ⟨m, -, -, hw⟩ := walk_head hu
    rw [hw] at hall hu hq
    have hpos : position first key = key + 1 := position_of_pos (by omega) hkey
    have hne : position first last = key ∧
        Tiles t ((stamp v s m :: walk v s first key K).filterMap cover) q := by
      rcases tiles_after_fill hle hq with h | ⟨hlt, -, hq'⟩
      · exact h
      · -- after the gap fill the tiling is past `u`, which is still to be resent
        obtain ⟨m', hm', hr'⟩ := hu
        rcases List.mem_append.1 hm' with hm' | hm'
        · rw [not_resends_fillBefore hm'] at hr'
          cases hr'
        · rw [shown_of_lt hkey] at hq'
          have := le_of_resends hq' hm' hr'
          omega
    obtain ⟨hpk, hq'⟩ := hne
    -- the record does not resend its own key: the tiling has not come so far
    have hrest := resends_rest (not_resends_of_tiles hq' (by omega)) (hall _ List.mem_cons_self)
    have hall' : ∀ e ∈ K, ∃ m ∈ walk v s first key K, resends e.1 m = true := by
      intro e he
      have := hK'.2 e he
      exact resends_rest (not_resends_of_tiles hq' (by omega)) (hall e (List.mem_cons_of_mem _ he))
    rw [List.filterMap_cons] at hq'
    cases hc : cover (stamp v s m) with
    | none =>
      rw [hc] at hq'
      exact not_tiles_behind (by omega) (by omega) (hpos ▸ hK') hs.tail ht1 hall' hrest (by omega)
        (by omega) hq'
    | some c =>
      rw [hc] at hq'
      obtain ⟨m', hm', hr'⟩ := hrest
      have := le_of_resends hq'.2.2 hm' hr'
      have := hq'.2.1
      exact not_tiles_behind (by omega) (by omega) (hpos ▸ hK') hs.tail (by omega) hall'
        ⟨m', hm', hr'⟩ (by omega) (by omega) hq'.2.2

/-- **A walk that tiles and resends every record is unbroken**, and every record can be resent. -/
theorem walk_good {q : Nat} (hn : s.nextSendSeq < 4294967296) :
    ∀ {K : List (Nat × Rec)} {last : Nat}, 1 ≤ position first last →
      (K = [] ∨ v.alwaysSeqnumAssign = false) → Ascends (position first last) K → Shown K →
      (∀ e ∈ K, ∃ m ∈ walk v s first last K, resends e.1 m = true) →
      Tiles (position first last) ((walk v s first last K).filterMap cover) q →
      Unbroken s.nextSendSeq (position first last) K ∧ ∀ e ∈ K, Resendable v e.1 e.2
  | [], _, _, _, _, _, _, _ => ⟨trivial, by simp⟩
  | (key, r) :: K, last, hp, ha, hK, hs, hall, hq => by
    have ha := ha.resolve_left (by simp)
    obtain ⟨hle, hK'⟩ := ascends_cons hK
    have hlt : key < 2147483648 := hs _ List.mem_cons_self
    have hpos : position first key = key + 1 := position_of_pos (by omega) hlt
    obtain ⟨m, hf, he, hw⟩ := walk_head (hall _ List.mem_cons_self)
    rw [hw] at hall hq
    have hfill : (position first last = key ∨ position first last = s.nextSendSeq) ∧
        Tiles key ((stamp v s m :: walk v s first key K).filterMap cover) q := by
      rcases tiles_after_fill hle hq with ⟨h, hq'⟩ | ⟨-, h, hq'⟩
      · exact ⟨.inl h, h ▸ hq'⟩
      · rw [shown_of_lt hlt] at hq'
        exact ⟨.inr (eq_of_shown hn hp h).symm, hq'⟩
    obtain ⟨hhole, hq'⟩ := hfill
    have hlater : ∀ e ∈ K, resends e.1 (stamp v s m) = false := by
      intro e he
      have := hK'.2 e he
      exact not_resends_of_tiles hq' (by omega)
    have hall' : ∀ e ∈ K, ∃ m ∈ walk v s first key K, resends e.1 m = true :=
      fun e he => resends_rest (hlater e he) (hall e (List.mem_cons_of_mem _ he))
    have hkey : resends key (stamp v s m) = true := by
      -- otherwise the rest of the walk resends the key, which the tiling has not reached
      by_contra hr
      obtain ⟨m', hm', hr'⟩ := resends_rest (eq_false_of_ne_true hr) (hall _ List.mem_cons_self)
      rw [List.filterMap_cons] at hq'
      cases hc : cover (stamp v s m) with
      | none =>
        rw [hc] at hq'
        exact not_tiles_behind (by omega) (by omega) (hpos ▸ hK') hs.tail (by omega) hall'
          ⟨m', hm', hr'⟩ (by omega) (by omega) hq'
      | some c =>
        rw [hc] at hq'
        have := le_of_resends hq'.2.2 hm' hr'
        have := hq'.2.1
        omega
    rw [List.filterMap_cons, resends_cover hkey] at hq'
    obtain ⟨hub, hrec⟩ := walk_good hn (by omega) (.inr ha) (hpos ▸ hK') hs.tail hall'
      (hpos.symm ▸ hq'.2.2)
    rw [hpos] at hub
    refine ⟨⟨hhole, hub⟩, fun e hin => ?_⟩
    rcases List.mem_cons.1 hin with rfl | hin
    · exact resendable_of_resends ha hf he hkey
    · exact hrec e hin

/-! ## An unbroken walk keeps the law -/

/-- **An unbroken walk of records that can be resent tiles.** -/
theorem walk_tiles (ha : K = [] ∨ v.alwaysSeqnumAssign = false) (hs : Shown K)
    (hn : s.nextSendSeq < 2147483648) :
    ∀ {last : Nat}, 1 ≤ position first last → Ascends (position first last) K →
      walkEnd first last K + 1 < 2147483648 → (∀ e ∈ K, Resendable v e.1 e.2) →
      Unbroken s.nextSendSeq (position first last) K →
      Tiles (position first last) ((walk v s first last K).filterMap cover)
        (fillEnd s.nextSendSeq (walkEnd first last K)) := by
  induction K with
  | nil =>
    intro last hp _ hend _ _
    have hpos : position first last + 1 < 2147483648 := hend
    have hfill : fillEnd s.nextSendSeq (position first last) < 2147483648 := by
      rw [fillEnd_eq _ (by omega)]
      split <;> omega
    rw [walk, List.filterMap_cons, cover_lastFill (by omega), shown_of_lt hfill,
      shown_of_lt (by omega)]
    exact ⟨rfl, lt_fillEnd _ (by omega), rfl⟩
  | cons e K ih =>
    intro last hp hK hend hrec hub
    obtain ⟨key, r⟩ := e
    have ha := ha.resolve_left (by simp)
    obtain ⟨hle, hK'⟩ := ascends_cons hK
    have hkey : key < 2147483648 := hs _ List.mem_cons_self
    have hpos : position first key = key + 1 := position_of_pos (by omega) hkey
    obtain ⟨m, hf, he, hr⟩ := resends_of_resendable (s := s) ha (hrec _ List.mem_cons_self)
    have hrest := ih (.inr ha) hs.tail (by omega) (hpos ▸ hK') hend
      (fun e he => hrec e (List.mem_cons_of_mem _ he)) (hpos ▸ hub.2)
    rw [hpos] at hrest
    have htail : Tiles key ((stamp v s m :: walk v s first key K).filterMap cover)
        (fillEnd s.nextSendSeq (walkEnd first key K)) := by
      rw [List.filterMap_cons, resends_cover hr]
      exact ⟨rfl, Nat.lt_succ_self _, hrest⟩
    rw [walk_sent hf he]
    unfold fillBefore
    split
    · rename_i hlt
      rw [List.singleton_append, List.filterMap_cons, cover_recordFill, shown_of_lt hn,
        shown_of_lt hkey]
      exact ⟨(hub.1.resolve_left (by omega)).symm, hlt, htail⟩
    · rename_i hge
      rw [List.nil_append, show position first last = key by omega]
      exact htail

/-- Where every record can be resent, the walk resends them and nothing else. -/
theorem walk_resends (s : Session) (first last : Nat)
    (ha : K = [] ∨ v.alwaysSeqnumAssign = false) (hrec : ∀ e ∈ K, Resendable v e.1 e.2) :
      lastFill v s (walkEnd first last K) ∈ walk v s first last K ∧
      ∀ u, (∃ m ∈ walk v s first last K, resends u m = true) ↔ ∃ e ∈ K, e.1 = u := by
  induction K generalizing last with
  | nil =>
    refine ⟨by simp [walk, walkEnd], fun u => ⟨?_, by simp⟩⟩
    rintro ⟨m, hm, hr⟩
    rw [List.mem_singleton.1 hm, resends_fill lastFill_msgType] at hr
    cases hr
  | cons e K ih =>
    obtain ⟨key, r⟩ := e
    have ha := ha.resolve_left (by simp)
    obtain ⟨m, hf, he, hr⟩ := resends_of_resendable (s := s) ha (hrec _ List.mem_cons_self)
    obtain ⟨hmem, hiff⟩ := ih key (.inr ha)
      fun e he => hrec e (List.mem_cons_of_mem _ he)
    rw [walk_sent hf he]
    refine ⟨List.mem_append_right _ (List.mem_cons_of_mem _ hmem), fun u => ⟨fun h => ?_, ?_⟩⟩
    · cases hu : resends u (stamp v s m) with
      | true => exact ⟨_, List.mem_cons_self, resends_inj hr hu⟩
      | false =>
        obtain ⟨e, he, heq⟩ := (hiff u).1 (resends_rest hu h)
        exact ⟨e, List.mem_cons_of_mem _ he, heq⟩
    · rintro ⟨e, he, rfl⟩
      rcases List.mem_cons.1 he with rfl | he
      · exact ⟨_, List.mem_append_right _ List.mem_cons_self, hr⟩
      · obtain ⟨m', hm', hr'⟩ := (hiff e.1).2 ⟨e, he, rfl⟩
        exact ⟨m', List.mem_append_right _ (List.mem_cons_of_mem _ hm'), hr'⟩

/-- A tiling resends nothing twice. -/
theorem countP_resends_le {q : Nat} : ∀ {E : List Msg} {t : Nat},
    Tiles t (E.filterMap cover) q → E.countP (resends u) ≤ 1
  | [], _, _ => by simp
  | m :: E, t, h => by
    rw [List.filterMap_cons] at h
    cases hr : resends u m with
    | true =>
      rw [resends_cover hr] at h
      have h0 : E.countP (resends u) = 0 := by
        refine List.countP_eq_zero.2 fun m' hm' hr' => ?_
        have := le_of_resends h.2.2 hm' hr'
        omega
      simp [hr, h0]
    | false =>
      rw [List.countP_cons, hr]
      cases hc : cover m with
      | none =>
        rw [hc] at h
        simpa using countP_resends_le h
      | some c =>
        rw [hc] at h
        simpa using countP_resends_le h.2.2

/-- What is stored beyond the requested range is beyond a bounded one. -/
theorem bounded_of_beyond {last : Int} {k : Nat} (hv : ¬ ((first : Int) > last ∧ last ≠ 0))
    (hs : (st.get? k).isSome) (hk : requestEnd st last < k) : first ≤ requestEnd st last := by
  unfold requestEnd at hk ⊢
  split
  · rename_i h0
    rw [if_pos h0] at hk
    have := le_getLastSeqnum hs
    omega
  · omega

/-- The last gap fill goes beyond the range where `beyond` says so. -/
theorem lt_fillEnd_walkEnd {hi k n : Nat} (h1 : 1 ≤ first) (hf : first ≤ hi) (hk : hi < k)
    (hs : Shown (st.range first hi))
    (hend : walkEnd first 0 (st.range first hi) + 1 < 4294967296) :
    k < fillEnd n (walkEnd first 0 (st.range first hi)) ↔
      k < n ∨ (k = hi + 1 ∧ (st.get? hi).isSome) := by
  have hp0 : 1 ≤ position first 0 := h1
  have hasc : Ascends (position first 0) (st.range first hi) := ascends_range
  obtain ⟨-, hlt⟩ := lt_walkEnd hp0 hasc hs
  rw [fillEnd_eq n hend]
  constructor
  · intro h
    split at h
    · -- the last gap fill is for its own position, right after the last record
      rcases walkEnd_eq hp0 hasc hs with he | ⟨e, he, heq⟩
      · rw [he] at h
        exact absurd (lt_of_lt_of_le hk (Nat.lt_succ_iff.1 h)) (not_lt.2 hf)
      · obtain ⟨h2, -, h3⟩ := OrdMap.mem_range.1 he
        have hei : e.1 = hi := by omega
        rw [hei] at h2
        exact .inr ⟨by omega, by rw [h2]; rfl⟩
    · exact .inl h
  · rintro (h | ⟨rfl, hrec⟩)
    · split <;> omega
    · obtain ⟨e, he, heq⟩ := mem_range_of_isSome hrec hf (le_refl hi)
      have := hlt e he
      split <;> omega

theorem fillEnd_lt {n : Nat} (hn : n < 2147483648) (hp : p + 1 < 2147483648) :
    fillEnd n p < 2147483648 := by
  rw [fillEnd_eq n (by omega)]
  split <;> omega

/-- Where the last gap fill is in a tiling, its `NewSeqNo` is below 2^31. -/
theorem end_of_tiles {q : Nat} (h1 : 1 ≤ first) (hfirst : first < 2147483648)
    (hn : s.nextSendSeq < 4294967296) (hK : Ascends (position first 0) K) (hs : Shown K)
    (hmem : lastFill v s (walkEnd first 0 K) ∈ E) (hq : Tiles first (E.filterMap cover) q) :
    walkEnd first 0 K + 1 < 2147483648 ∧ s.nextSendSeq < 2147483648 := by
  have hp0 : 1 ≤ position first 0 := h1
  obtain ⟨hpos, -⟩ := lt_walkEnd hp0 hK hs
  have hpos' : first ≤ walkEnd first 0 K := hpos
  have hp : walkEnd first 0 K ≤ 2147483648 := by
    rcases walkEnd_eq hp0 hK hs with h | ⟨e, he, h⟩
    · rw [h]
      exact le_of_lt hfirst
    · have := hs e he
      omega
  have hin := List.mem_filterMap.2 ⟨_, hmem, cover_lastFill (by omega)⟩
  have hlo : first ≤ shown (walkEnd first 0 K) := hq.le_of_mem hin
  have hlt : shown (walkEnd first 0 K) < shown (fillEnd s.nextSendSeq (walkEnd first 0 K)) :=
    hq.lt_of_mem hin
  rw [fillEnd_eq _ (by omega)] at hlt
  split at hlt
  · have := lt_of_shown (n := walkEnd first 0 K + 1) (by omega) (by omega)
    omega
  · have := lt_of_shown hn (by omega)
    omega

/-! ## The law of the answer -/

/-- **A walk over the requested range keeps the law iff the answer is a partition.** -/
theorem walk_partition_iff {last : Int} (h1 : 1 ≤ first) (hfirst : first < 2147483648)
    (hn : s.nextSendSeq < 4294967296) (hnone : s.persist = none → s.nextSendSeq < 2147483648)
    (hv : ¬ ((first : Int) > last ∧ last ≠ 0))
    (ha : st.range first (requestEnd st last) = [] ∨ v.alwaysSeqnumAssign = false) :
    PartitionLaw st first last (walk v s first 0 (st.range first (requestEnd st last))) ↔
      Partitionable v s st first last := by
  have hp0 : 1 ≤ position first 0 := h1
  have hasc : Ascends (position first 0) (st.range first (requestEnd st last)) := ascends_range
  constructor
  · rintro ⟨⟨q, hq⟩, hres, hcov⟩
    have hall : ∀ e ∈ st.range first (requestEnd st last),
        ∃ m ∈ walk v s first 0 (st.range first (requestEnd st last)), resends e.1 m = true :=
      fun e he => List.countP_pos_iff.1 (by rw [hres e he]; exact Nat.one_pos)
    have hshown : Shown (st.range first (requestEnd st last)) := fun e he =>
      let ⟨_, _, hr⟩ := hall e he
      lt_of_resends hr
    obtain ⟨hub, hrec⟩ := walk_good hn hp0 ha hasc hshown hall hq
    obtain ⟨hmem, hiff⟩ := walk_resends s first 0 ha hrec
    obtain ⟨hend, hcounter⟩ := end_of_tiles h1 hfirst hn hasc hshown hmem hq
    obtain ⟨hpos, hkeys⟩ := lt_walkEnd hp0 hasc hshown
    have hpos' : first ≤ walkEnd first 0 (st.range first (requestEnd st last)) := hpos
    refine ⟨ha, hrec, hub, fun k hk hbelow => ?_, fun _ => hcounter, by omega, fun e he => ?_⟩
    swap
    · have := hkeys e he
      omega
    by_contra hs
    rw [← ne_eq, ← Option.isSome_iff_ne_none] at hs
    -- the last gap fill covers the record, which the walk does not resend
    have hf := bounded_of_beyond hv hs hk
    have hle : walkEnd first 0 (st.range first (requestEnd st last)) ≤ k := by
      rcases walkEnd_eq hp0 hasc hshown with h | ⟨e, he, h⟩
      · exact h ▸ le_trans hf (le_of_lt hk)
      · have := (OrdMap.mem_range.1 he).2.2
        omega
    have hfill : k < shown (fillEnd s.nextSendSeq
        (walkEnd first 0 (st.range first (requestEnd st last)))) := by
      rw [shown_of_lt (fillEnd_lt hcounter hend)]
      exact (lt_fillEnd_walkEnd h1 hf hk hshown (by omega)).2 hbelow
    obtain ⟨e, he, heq⟩ := (hiff k).1 (hcov _ hmem lastFill_msgType _ _
      (cover_lastFill (by omega)) k (by rwa [shown_of_lt (by omega)]) hfill hs)
    have := (OrdMap.mem_range.1 he).2.2
    omega
  · rintro ⟨-, hrec, hub, hbeyond, hpersist, hstart, hkeys⟩
    have hcounter : s.nextSendSeq < 2147483648 := by
      cases hp : s.persist with
      | none => exact hnone hp
      | some _ => exact hpersist (by rw [hp]; rfl)
    have hshown : Shown (st.range first (requestEnd st last)) := fun e he => by
      have := hkeys e he
      omega
    have hend : walkEnd first 0 (st.range first (requestEnd st last)) + 1 < 2147483648 := by
      rcases walkEnd_eq hp0 hasc hshown with h | ⟨e, he, h⟩
      · rw [h]
        exact hstart
      · have := hkeys e he
        omega
    have htiles := walk_tiles ha hshown hcounter hp0 hasc hend hrec hub
    obtain ⟨hmem, hiff⟩ := walk_resends s first 0 ha hrec
    refine ⟨⟨_, htiles⟩, fun e he => ?_, fun m hm _ lo hi hc k hlo hhi hs => ?_⟩
    · have hle := countP_resends_le (u := e.1) htiles
      have hpos := List.countP_pos_iff.2 ((hiff e.1).2 ⟨e, he, rfl⟩)
      omega
    · have hin := List.mem_filterMap.2 ⟨m, hm, hc⟩
      have hfk : first ≤ k := le_trans (htiles.le_of_mem hin) hlo
      have hkq := lt_of_lt_of_le hhi (htiles.le_end.2 _ hin)
      rcases Nat.lt_or_ge (requestEnd st last) k with hk | hk
      · have hf := bounded_of_beyond hv hs hk
        rw [hbeyond k hk ((lt_fillEnd_walkEnd h1 hf hk hshown (by omega)).1 hkq)] at hs
        cases hs
      · exact (hiff k).2 (mem_range_of_isSome hs hfk hk)

/-! ## The answer -/

variable {msg : Msg} {q : Nat} {lst : Int}

theorem empty_range {lo hi : Nat} : (OrdMap.empty : Store).range lo hi = [] :=
  OrdMap.range_eq_nil fun _ _ _ => rfl

/-- A request without a persister is answered with one gap fill. -/
theorem serveResend_none (hl : Lossless v) (hp : s.persist = none) (hfirst : first < 2147483648)
    (hn : s.nextSendSeq < 2147483648) :
    (serveResend v first lst s).state.sends = s.sends ++ [lastFill v s first] := by
  have hend : toUnsigned (if (first : Int) ≥ s.nextSendSeq then first + 1 else s.nextSendSeq) =
      fillEnd s.nextSendSeq first := by
    rw [fillEnd_eq _ (by omega)]
    split
    · rw [if_pos (by omega), toUnsigned_of_nonneg (by omega) (by omega)]
      omega
    · rw [if_neg (by omega), toUnsigned_natCast (by omega)]
  obtain ⟨s', h2, h3, -⟩ := sendProcess_sent (c := first) (s := s)
    (m := generateSequenceReset (fillEnd s.nextSendSeq first) true) hl rfl rfl (.inr ⟨rfl, rfl⟩)
  unfold serveResend
  rw [Act.get_bind_apply, hp]
  dsimp only
  rw [toInt_of_lt hn, hend, toUnsigned_natCast (by omega), Act.bind_ok h2]
  exact h3

/-- **A request the session serves is answered with the walk** over the requested range. -/
theorem answer_walked (hl : Lossless v) (h1 : 1 ≤ first) (hfirst : first < 2147483648)
    (hb : msg.beginSeqNo = some (first : Int)) (he : msg.endSeqNo = some lst)
    (hlst : lst < 2147483648) (hst : s.state ≠ .stResendRequestReceived)
    (hv : ¬ ((first : Int) > lst ∧ lst ≠ 0)) (hn : s.persist = none → s.nextSendSeq < 2147483648)
    (ha : (served s).range first (requestEnd (served s) lst) = [] ∨
      v.alwaysSeqnumAssign = false) :
    (answerResendRequest v q msg s).state.sends =
      s.sends ++ walk v s first 0 ((served s).range first (requestEnd (served s) lst)) := by
  rw [answer_serves hst hb he hv h1]
  cases hp : s.persist with
  | none =>
    rw [serveResend_none hl hp hfirst (hn hp), served, hp, Option.getD_none, empty_range]
    rfl
  | some st =>
    have hlast : rangeEnd st lst.toNat = requestEnd st lst := by
      unfold rangeEnd requestEnd
      by_cases h0 : lst = 0
      · simp [h0]
      · rw [if_neg h0, if_neg (by omega)]
    have hs : Alike s { s with state := .stResendRequestReceived } :=
      ⟨rfl, rfl, rfl, rfl, fun st h => ⟨st, h, fun _ _ => rfl⟩⟩
    rw [served, hp, Option.getD_some, ← hlast] at ha ⊢
    rw [serveResend_some hp hfirst (by omega) hlst]
    exact (getRange_walked hl hp h1 hs ha).1

/-- Without a persister, and with the counter beyond `int`, the gap fill covers one number. -/
theorem unserved_partition_iff (hl : Lossless v) (h1 : 1 ≤ first) (hfirst : first < 2147483648)
    (hp : s.persist = none) (hn : s.nextSendSeq < 4294967296) (hge : 2147483648 ≤ s.nextSendSeq)
    (hE : (serveResend v first lst s).state.sends = s.sends ++ E) :
    PartitionLaw (served s) first lst E ↔ Partitionable v s (served s) first lst := by
  have hneg : toInt s.nextSendSeq < 0 := by
    unfold toInt
    rw [Int.bmod_def]
    omega
  obtain ⟨s', h2, h3, -⟩ := sendProcess_sent (c := first) (s := s)
    (m := generateSequenceReset (first + 1) true) hl rfl rfl (.inr ⟨rfl, rfl⟩)
  have hfill : E = [stamp v s (withSeqnum (generateSequenceReset (first + 1) true) first)] := by
    unfold serveResend at hE
    rw [Act.get_bind_apply, hp] at hE
    dsimp only at hE
    rw [if_pos (by omega), toUnsigned_natCast (by omega),
      toUnsigned_of_nonneg (by omega) (by omega), show ((first : Int) + 1).toNat = first + 1 by omega,
      Act.bind_ok h2] at hE
    exact List.append_cancel_left (hE.symm.trans h3)
  have hcover : E.filterMap cover = [(first, shown (first + 1))] := by
    have hc : cover (stamp v s (withSeqnum (generateSequenceReset (first + 1) true) first)) =
        some (shown first, shown (first + 1)) := by
      apply cover_fill rfl
      · simp [stamp, stampHeader, assignedSeqnum, withSeqnum, generateSequenceReset,
          Nat.one_le_iff_ne_zero.1 h1]
      · rfl
    rw [hfill, List.filterMap_cons, hc, shown_of_lt hfirst]
    rfl
  have hK : (served s).range first (requestEnd (served s) lst) = [] := by
    rw [served, hp, Option.getD_none]
    exact empty_range
  have hstored : ∀ k, (served s).get? k = none := by
    rw [served, hp]
    exact fun _ => rfl
  constructor
  · rintro ⟨⟨q, hq⟩, -, -⟩
    rw [hcover] at hq
    obtain ⟨-, hlt, -⟩ := tiles_cons.1 hq
    have hstart := lt_of_shown (n := first + 1) (by omega) (by omega)
    exact ⟨.inl hK, by simp [hK], by rw [hK]; trivial, fun k _ _ => hstored k,
      fun hs => absurd hs (by simp [hp]), hstart, by simp [hK]⟩
  · intro hpart
    refine ⟨⟨first + 1, ?_⟩, by simp [hK], fun m hm _ lo hi hc k _ _ hs => ?_⟩
    · rw [hcover, shown_of_lt hpart.start]
      exact ⟨rfl, Nat.lt_succ_self _, rfl⟩
    · rw [hstored k] at hs
      cases hs

theorem not_resends (h : m.header.possDupFlag = none) (u : Nat) : resends u m = false := by
  unfold resends
  split
  · simp [h]
  · rfl

/-- What covers nothing keeps the law where there is nothing to resend. -/
theorem law_of_nothing (hc : ∀ m ∈ E, cover m = none)
    (hK : st.range first (requestEnd st lst) = []) : PartitionLaw st first lst E where
  tiles := ⟨first, by rw [List.filterMap_eq_nil_iff.2 hc]; rfl⟩
  resent := by simp [hK]
  covered m hm _ lo hi h := by
    rw [hc m hm] at h
    cases h

/-- The law of what `answerResendRequest` sends. -/
theorem answer_partition_iff (hl : Lossless v) (h1 : 1 ≤ first) (hfirst : first < 2147483648)
    (hb : msg.beginSeqNo = some (first : Int)) (he : msg.endSeqNo = some lst)
    (hlst : lst < 2147483648) (hn : s.nextSendSeq < 4294967296)
    (hE : (answerResendRequest v q msg s).state.sends = s.sends ++ E) :
    PartitionLaw (served s) first lst E ↔ Answerable v s first lst := by
  have hnil : ∀ {E'}, (answerResendRequest v q msg s).state.sends = s.sends ++ E' → E' = E :=
    fun h => List.append_cancel_left (h.symm.trans hE)
  by_cases hv : (first : Int) > lst ∧ lst ≠ 0
  · -- the range is refused, and there is nothing in it
    have hK : (served s).range first (requestEnd (served s) lst) = [] := by
      refine OrdMap.range_eq_nil fun j h2 h3 => ?_
      unfold requestEnd at h3
      rw [if_neg hv.2] at h3
      omega
    refine ⟨fun _ => .inl hv, fun _ => law_of_nothing (fun m hm => ?_) hK⟩
    obtain ⟨E', h2, h3⟩ : ∃ E', (answerResendRequest v q msg s).state.sends = s.sends ++ E' ∧
        ∀ m ∈ E', cover m = none := by
      unfold answerResendRequest
      rw [Act.get_bind_apply, hb, he]
      simp only [Option.getD_some]
      by_cases hst : s.state = .stResendRequestReceived
      · rw [if_neg (not_not.2 hst)]
        exact ⟨[], (List.append_nil _).symm, by simp⟩
      · rw [if_pos hst, if_pos (.inl hv)]
        refine ⟨_, sendProcess_sends rfl, fun m hm => ?_⟩
        rw [List.mem_singleton.1 hm]
        rfl
    exact h3 m (hnil h2 ▸ hm)
  · unfold Answerable
    rw [or_iff_right hv]
    split
    · rename_i hst
      have hnone : (answerResendRequest v q msg s).state.sends = s.sends ++ [] := by
        unfold answerResendRequest
        rw [Act.get_bind_apply, if_neg (not_not.2 hst)]
        exact (List.append_nil _).symm
      rw [← hnil hnone]
      refine ⟨fun h => ?_, fun h => law_of_nothing (by simp) h⟩
      refine List.eq_nil_iff_forall_not_mem.2 fun e he => ?_
      have := h.resent e he
      simp at this
    · rename_i hst
      by_cases hunserved : s.persist = none ∧ 2147483648 ≤ s.nextSendSeq
      · rw [answer_serves hst hb he hv h1] at hE
        exact unserved_partition_iff hl h1 hfirst hunserved.1 hn hunserved.2 hE
      have hnone : s.persist = none → s.nextSendSeq < 2147483648 := fun hp => by
        by_contra hge
        exact hunserved ⟨hp, by omega⟩
      by_cases ha : (served s).range first (requestEnd (served s) lst) = [] ∨
          v.alwaysSeqnumAssign = false
      · rw [← hnil (answer_walked hl h1 hfirst hb he hlst hst hv hnone ha)]
        exact walk_partition_iff h1 hfirst hn hnone hv ha
      · refine ⟨fun h => absurd ?_ ha, fun h => absurd h.assigned ha⟩
        -- numbers are always assigned, so nothing of the range is resent
        obtain ⟨hK, hassign⟩ := not_or.1 ha
        obtain ⟨e, hin⟩ := List.exists_mem_of_ne_nil _ hK
        have hcount := h.resent e hin
        obtain ⟨E', h2, h3⟩ := answer_assigned q msg (eq_true_of_ne_false hassign) s
        rw [List.countP_eq_zero.2 fun m hm => by
          rw [not_resends (h3 m (hnil h2 ▸ hm))]
          simp] at hcount
        cases hcount

/-- **A ResendRequest that passes `enforce` is answered with a partition of the requested range iff
it is `Answerable`.** BeginSeqNo and EndSeqNo are `int`s, and the counter is an `unsigned`. -/
theorem retransmission_partition_iff {s₀ : Session} {b : Bool} (hl : Lossless v)
    (hen : enforce v q msg s₀ = .ok b s) (h1 : 1 ≤ first) (hfirst : first < 2147483648)
    (hb : msg.beginSeqNo = some (first : Int)) (he : msg.endSeqNo = some lst)
    (hlst : lst < 2147483648) (hn : s.nextSendSeq < 4294967296) :
    PartitionLaw (served s) first lst
        ((handleResendRequest v q msg s₀).state.sends.drop s.sends.length) ↔
      Answerable v s first lst := by
  obtain ⟨E, hE, -⟩ : ∃ E, (answerResendRequest v q msg s).state.sends = s.sends ++ E ∧
      ∀ m ∈ E, True :=
    moves_answerResendRequest (retransmits_sends (fun _ _ _ => trivial)
      fun _ _ _ _ _ _ => trivial) s
  have hsends : (handleResendRequest v q msg s₀).state.sends = s.sends ++ E := by
    rw [← hE]
    unfold handleResendRequest
    rw [Act.bind_ok hen, Act.bind_apply]
    cases answerResendRequest v q msg s <;> rfl
  rw [hsends, List.drop_left]
  exact answer_partition_iff hl h1 hfirst hb he hlst hn hE

end

/-! ## An answer, and a hole before the first record -/

/-- An order the session has sent. -/
def demoOrder (seqnum : Nat) : Msg :=
  { msgType := .application "D"
    isAdmin := false
    header :=
      { msgSeqNum := some seqnum
        senderCompID := some "A"
        targetCompID := some "B"
        sendingTime := some 0 } }

/-- A session that has sent the orders `ks` and sends `nextSendSeq` next. -/
def demoSender (nextSendSeq : Nat) (ks : List Nat) : Session :=
  { demoSession with
    nextSendSeq := nextSendSeq
    persist := some (ks.foldl (fun st k => st.putMessage k [demoOrder k]) OrdMap.empty) }

/-- A request of the session's peer for everything from 5 on. -/
def demoResendRequest : Msg := { generateResendRequest 5 with header := demoHeader 5 }

/-- The orders 5 and 6 are resent, and a gap fill covers 7. -/
theorem retransmission_partition_demo :
    PartitionLaw (served (demoSender 7 [5, 6])) 5 0
      ((handleResendRequest demoEnv 5 demoResendRequest (demoSender 7 [5, 6])).state.sends.drop
        (demoSender 7 [5, 6]).sends.length) := by
  have hr : (served (demoSender 7 [5, 6])).range 5 (requestEnd (served (demoSender 7 [5, 6])) 0) =
      [(5, .message [demoOrder 5]), (6, .message [demoOrder 6])] := by decide
  have hresent : ∀ k < 2147483648, Resendable demoEnv k (.message [demoOrder k]) := fun k hk =>
    ⟨demoOrder k, "D", rfl, rfl, rfl, congrArg some (shown_of_lt hk),
      by simp [demoOrder]⟩
  refine (retransmission_partition_iff (b := false) (fun _ => rfl) rfl (by decide) (by decide) rfl
    rfl (by decide) (by decide)).2 (.inr ⟨.inr rfl, fun e he => ?_, ⟨.inl rfl, .inl rfl, trivial⟩,
      fun k hk hb => ?_, by decide, by decide, by decide⟩)
  · rw [hr] at he
    rcases List.mem_cons.1 he with rfl | he
    · exact hresent 5 (by decide)
    · rw [List.mem_singleton.1 he]
      exact hresent 6 (by decide)
  · have hend : requestEnd (served (demoSender 7 [5, 6])) 0 = 6 := by decide
    have hnext : (demoSender 7 [5, 6]).nextSendSeq = 7 := rfl
    rw [hend] at hk hb
    obtain rfl : k = 7 := by omega
    decide

/-- Only 6 is stored where 5 is the first number requested: the gap fill before it goes out under
the number 10, the next to send. -/
theorem first_hole_not_partitioned : ¬ ∀ (v : Env) (s₀ s : Session) (msg : Msg) (q first : Nat)
    (last : Int) (b : Bool), Lossless v → enforce v q msg s₀ = .ok b s → 1 ≤ first →
    first < 2147483648 → msg.beginSeqNo = some (first : Int) → msg.endSeqNo = some last →
    last < 2147483648 → first ≤ s.nextSendSeq → s.nextSendSeq < 4294967296 →
    PartitionLaw (served s) first last
      ((handleResendRequest v q msg s₀).state.sends.drop s.sends.length) := by
  intro h
  obtain ⟨⟨q, hq⟩, -, -⟩ := h demoEnv (demoSender 10 [6]) (demoSender 10 [6]) demoResendRequest 5 5
    0 false (fun _ => rfl) rfl (by decide) (by decide) rfl rfl (by decide) (by decide) (by decide)
  have hcovers : ((handleResendRequest demoEnv 5 demoResendRequest
      (demoSender 10 [6])).state.sends.drop (demoSender 10 [6]).sends.length).filterMap cover =
      [(10, 6), (6, 7), (7, 10)] := by decide +kernel
  rw [hcovers] at hq
  exact absurd hq.1 (by decide)

end Fix8.Session
