import Fix8.Persist.Proof.Nearest
import Mathlib.Data.List.Basic

/-!
# Handing out a range

`get` of a range walks the map from the first number that is stored in the range, until a number is
above it or the callback signals an error. The callback may use the persister, as long as it leaves
the records of the range as they are.

* `rangeOf`: the messages in a range; `RangeGet`: they are handed out until the callback returns
  false;
* `scan_handsOut`: a loop from key to key hands out what is stored from the first key on;
* **`range_get`**: both persisters.
-/

namespace Fix8.Persist

open Lib Codec

/-! ## The messages of a range -/

/-- The messages with a number in the range, in ascending order. -/
def rangeOf (message : Nat → Option F8String) (first finish : Nat) : List (Nat × F8String) :=
  (List.range' first (finish + 1 - first)).filterMap fun k => (message k).map fun what => (k, what)

section
variable {message message' : Nat → Option F8String} {first finish k : Nat} {what : F8String}

theorem mem_rangeOf {record : Nat × F8String} : record ∈ rangeOf message first finish ↔
    message record.1 = some record.2 ∧ first ≤ record.1 ∧ record.1 ≤ finish := by
  obtain ⟨k, what⟩ := record
  simp only [rangeOf, List.mem_filterMap, List.mem_range'_1, Option.map_eq_some_iff, Prod.mk.injEq]
  constructor
  · rintro ⟨_, hk, _, hm, rfl, rfl⟩
    exact ⟨hm, by omega, by omega⟩
  · rintro ⟨hm, hle, hle'⟩
    exact ⟨k, by omega, what, hm, rfl, rfl⟩

theorem rangeOf_length (message : Nat → Option F8String) (first finish : Nat) :
    (rangeOf message first finish).length ≤ finish + 1 - first := by
  have hlen := List.length_filterMap_le (fun k => (message k).map fun what => (k, what))
    (List.range' first (finish + 1 - first))
  rwa [List.length_range'] at hlen

theorem rangeOf_eq_nil (h : finish < first) : rangeOf message first finish = [] := by
  rw [rangeOf, show finish + 1 - first = 0 by omega]
  rfl

theorem rangeOf_step (h : first ≤ finish) : rangeOf message first finish =
    ((message first).map fun what => (first, what)).toList ++ rangeOf message (first + 1) finish := by
  have hlen : finish + 1 - first = finish + 1 - (first + 1) + 1 := by omega
  rw [rangeOf, hlen, List.range'_succ, List.filterMap_cons]
  cases message first <;> rfl

theorem rangeOf_cons (h : first ≤ finish) (hm : message first = some what) :
    rangeOf message first finish = (first, what) :: rangeOf message (first + 1) finish := by
  rw [rangeOf_step h, hm]
  rfl

/-- Numbers without a message in front of the range. -/
theorem rangeOf_skip (hle : first ≤ k) (h : ∀ j, first ≤ j → j < k → message j = none) :
    rangeOf message first finish = rangeOf message k finish := by
  induction k, hle using Nat.le_induction with
  | base => rfl
  | succ k hle ih =>
    rw [ih fun j hj hlt => h j hj (by omega)]
    rcases Nat.lt_or_ge finish k with hlt | hge
    · rw [rangeOf_eq_nil hlt, rangeOf_eq_nil (by omega)]
    · rw [rangeOf_step hge, h k hle (by omega)]
      rfl

theorem rangeOf_congr (h : ∀ j, first ≤ j → j ≤ finish → message' j = message j) :
    rangeOf message' first finish = rangeOf message first finish := by
  refine List.filterMap_congr fun j hj => ?_
  have hj := List.mem_range'_1.1 hj
  rw [h j hj.1 (by omega)]

end

/-! ## Handing out -/

section
variable {S : Type}

/-- The records are handed out in order, until the callback returns false: how many, and the state
behind the last call. -/
def handOut (callback : Nat × F8String → Bool → S → Bool × S) : List (Nat × F8String) → S → Nat × S
  | [], s => (0, s)
  | record :: records, s =>
    let r := callback record false s
    if r.1 then
      let h := handOut callback records r.2
      (h.1 + 1, h.2)
    else (1, r.2)

/-- The records are handed out in order, until the callback returns false, and then there is one
call with `_no_more_records`; the result is the number of records. -/
def RangeGet (callback : Nat × F8String → Bool → S → Bool × S) (records : List (Nat × F8String))
    (s : S) (result : Option (Nat × S)) : Prop :=
  result = some ((handOut callback records s).1,
    (callback (0, []) true (handOut callback records s).2).2)

variable {finish : Nat}

/-- Where an iterator moves to from `key`: to the next message of the range, or behind it. -/
def MovesOn (message : Nat → Option F8String) (finish key : Nat) : Option Nat → Prop
  | none => ∀ j, key < j → j ≤ finish → message j = none
  | some key' => key < key' ∧ (key' ≤ finish → (message key').isSome) ∧
      ∀ j, key < j → j < key' → j ≤ finish → message j = none

/-- The rest of the range is what the iterator comes to. -/
theorem MovesOn.rangeOf_eq {message : Nat → Option F8String} {key : Nat} {next : Option Nat}
    (h : MovesOn message finish key next) : rangeOf message (key + 1) finish =
      next.elim [] fun key' => rangeOf message key' finish := by
  cases next with
  | none =>
    refine List.eq_nil_iff_forall_not_mem.2 fun record hrecord => ?_
    obtain ⟨hm, hle, hle'⟩ := mem_rangeOf.1 hrecord
    rw [h _ hle hle'] at hm
    cases hm
  | some key' =>
    obtain ⟨hlt, -, hnone⟩ := h
    rcases Nat.lt_or_ge finish key' with hgt | hge
    · refine (List.eq_nil_iff_forall_not_mem.2 fun record hrecord => ?_).trans
        (rangeOf_eq_nil hgt).symm
      obtain ⟨hm, hle, hle'⟩ := mem_rangeOf.1 hrecord
      rw [hnone _ hle (by omega) hle'] at hm
      cases hm
    · exact rangeOf_skip hlt fun j hj hjk => hnone j hj hjk (by omega)

/-- **A loop that goes from key to key hands out the range**: each turn on a number up to `finish`
hands out its message and moves on, a turn on a number above ends the loop. -/
theorem scan_handsOut {R : Type} (callback : Nat × F8String → Bool → S → Bool × S) (finish : Nat)
    (message : S → Nat → Option F8String) (next : S → Nat → Option Nat) (ret : Nat × S → R)
    (loop : Nat → Nat → Nat → S → R) {I : S → Prop}
    (hkeeps : ∀ record noMore s, I s → I (callback record noMore s).2 ∧
      ∀ k, 0 < k → k ≤ finish → message (callback record noMore s).2 k = message s k)
    (hmoves : ∀ s key, I s → 0 < key → MovesOn (message s) finish key (next s key))
    (hstop : ∀ fuel key n s, finish < key → loop (fuel + 1) key n s = ret (n, s))
    (hturn : ∀ fuel key n s what, I s → 0 < key → key ≤ finish → message s key = some what →
      loop (fuel + 1) key n s =
        let r := callback (key, what) false s
        if r.1 then
          (next r.2 key).elim (ret (n + 1, r.2)) fun key' => loop fuel key' (n + 1) r.2
        else ret (n + 1, r.2)) :
    ∀ (fuel key n : Nat) {s : S}, I s → 0 < key → (key ≤ finish → (message s key).isSome) →
      (rangeOf (message s) key finish).length < fuel →
      loop fuel key n s = ret (n + (handOut callback (rangeOf (message s) key finish) s).1,
        (handOut callback (rangeOf (message s) key finish) s).2)
  | 0, _, _, _, _, _, _, hfuel => absurd hfuel (Nat.not_lt_zero _)
  | fuel + 1, key, n, s, hI, hkey, hsome, hfuel => by
    rcases Nat.lt_or_ge finish key with hgt | hle
    · rw [hstop fuel key n s hgt, rangeOf_eq_nil hgt]
      rfl
    · obtain ⟨what, hwhat⟩ := Option.isSome_iff_exists.1 (hsome hle)
      rw [rangeOf_cons hle hwhat] at hfuel ⊢
      rw [hturn fuel key n s what hI hkey hle hwhat]
      have hcall := hkeeps (key, what) false s hI
      simp only [handOut]
      generalize callback (key, what) false s = r at hcall ⊢
      obtain ⟨hI', hsame⟩ := hcall
      cases hr : r.1 with
      | false => rfl
      | true =>
        have hrest : rangeOf (message r.2) (key + 1) finish =
            rangeOf (message s) (key + 1) finish :=
          rangeOf_congr fun j hj hj' => hsame j (by omega) hj'
        have hmove := hmoves r.2 key hI' hkey
        have hnext := hmove.rangeOf_eq
        rw [hrest] at hnext
        rw [hnext] at hfuel ⊢
        cases hn : next r.2 key with
        | none => rfl
        | some key' =>
          rw [hn] at hmove hfuel
          have ih := scan_handsOut callback finish message next ret loop
            hkeeps hmoves hstop hturn fuel key' (n + 1) hI' (by have := hmove.1; omega) hmove.2.1
            (by simpa using Nat.lt_of_succ_lt_succ hfuel)
          simp only [if_pos, Option.elim_some]
          rw [ih, Nat.add_assoc, Nat.add_comm 1]

end

/-! ## Where the walk begins -/

/-- The keys are of type `unsigned`. -/
def Unsigned {α : Type} (m : OrdMap Nat α) : Prop := ∀ k, (m.get? k).isSome → k < 4294967296

/-- The last number of a range that is asked for up to `last`. -/
def finishOf {α : Type} (m : OrdMap Nat α) (last : Nat) : Nat :=
  if last = 0 then getLastSeqnum m else last

section
variable {α : Type} {m : OrdMap Nat α} {first last finish n k key : Nat}

theorem le_getLastSeqnum (h : (m.get? k).isSome) : k ≤ getLastSeqnum m := OrdMap.le_lastKey h

theorem getLastSeqnum_lt (hm : Unsigned m) : getLastSeqnum m < 4294967296 := by
  unfold getLastSeqnum
  cases hl : m.lastKey? with
  | none => decide
  | some k => exact hm k (OrdMap.lastKey?_eq_some hl).1

/-- The search for the first number of a range ends at the nearest one: the last number is stored,
so that the counter does not wrap. -/
theorem findsNearest_last (hm : Unsigned m) (h1 : 1 ≤ first) (hlt : first < 4294967296) :
    FindsNearest m first (getLastSeqnum m) := by
  refine (nearest_iff hlt (getLastSeqnum_lt hm)).2 ⟨fun hcut => ?_, fun hwraps => ?_⟩
  · have hzero := hcut.1
    omega
  · obtain ⟨hlast, -, hnone⟩ := hwraps
    have hl : m.lastKey? = some 4294967295 := by
      unfold getLastSeqnum at hlast
      cases hl : m.lastKey? with
      | none =>
        rw [hl] at hlast
        cases hlast
      | some k =>
        rw [hl] at hlast
        exact congrArg some hlast
    exact hnone 4294967295 ⟨by decide, (OrdMap.lastKey?_eq_some hl).1, by omega, by omega⟩

/-- Nothing is stored before the number that the search found. -/
theorem IsNearest.before (h : IsNearest m first (getLastSeqnum m) n) (hn : n ≠ 0) :
    first ≤ n ∧ (m.get? n).isSome ∧ ∀ j, 0 < j → first ≤ j → j < n → m.get? j = none := by
  rcases h with h | ⟨rfl, -⟩
  · refine ⟨h.1.2.2.1, h.1.2.1, fun j hj0 hj hlt => ?_⟩
    simpa using not_isSome_of_least h (by omega) hj hlt
  · exact absurd rfl hn

/-- Nothing is stored in the range. -/
theorem IsNearest.absent (h : IsNearest m first (getLastSeqnum m) 0) (hk0 : 0 < k) (hk : first ≤ k) :
    m.get? k = none := by
  rcases h with h | ⟨-, hnone⟩
  · exact absurd rfl h.1.1
  · by_contra hs
    have hs : (m.get? k).isSome := Option.isSome_iff_ne_none.2 hs
    exact hnone k ⟨by omega, hs, hk, le_getLastSeqnum hs⟩

/-- An iterator over the map, for messages that are stored in it. -/
theorem movesOn_next? {message : Nat → Option F8String}
    (hsome : ∀ k, 0 < k → k ≤ finish → (message k).isSome = (m.get? k).isSome) (hkey : 0 < key) :
    MovesOn message finish key (m.next? key) := by
  have hnone : ∀ j, 0 < j → j ≤ finish → m.get? j = none → message j = none := by
    intro j hj hle hget
    have hs := hsome j hj hle
    rw [hget] at hs
    simpa using hs
  cases hn : m.next? key with
  | none => exact fun j hj hle => hnone j (by omega) hle (OrdMap.next?_eq_none.1 hn j hj)
  | some key' =>
    obtain ⟨hlt, hs, hleast⟩ := OrdMap.next?_eq_some hn
    refine ⟨hlt, fun hle => (hsome key' (by omega) hle).trans hs, fun j hj hjk hle => ?_⟩
    refine hnone j (by omega) hle ?_
    by_contra hj'
    have := hleast j hj (Option.isSome_iff_ne_none.2 hj')
    omega

end

/-! ## The two persisters -/

/-- The callback leaves what is seen of the numbers up to `finish` as it is. -/
def Leaves {S β : Type} (look : S → Nat → β) (finish : Nat)
    (callback : Nat × F8String → Bool → S → Bool × S) : Prop :=
  ∀ record noMore s k, 0 < k → k ≤ finish → look (callback record noMore s).2 k = look s k

section
variable {σ : Type} {first last finish : Nat}

/-- A search and a loop that hand out the range. -/
theorem rangeGet_of_scan {S α : Type} {callback : Nat × F8String → Bool → S → Bool × S}
    {message : Nat → Option F8String} {m : OrdMap Nat α} {s : S} {result : Option (Nat × S)} {n : Nat}
    (hnone : ∀ k, 0 < k → m.get? k = none → message k = none)
    (hsome : ∀ k, 0 < k → k ≤ finish → (message k).isSome = (m.get? k).isSome) (h1 : 1 ≤ first)
    (hnearest : IsNearest m first (getLastSeqnum m) n)
    (hempty : n = 0 ∨ first > finish → result = some (0, (callback (0, []) true s).2))
    (hscan : n ≠ 0 → first ≤ finish → (n ≤ finish → (message n).isSome) →
      (rangeOf message n finish).length < finish + 1 → result = some ((handOut callback (rangeOf message n finish) s).1,
        (callback (0, []) true (handOut callback (rangeOf message n finish) s).2).2)) :
    RangeGet callback (rangeOf message first finish) s result := by
  unfold RangeGet
  by_cases hn : n = 0 ∨ first > finish
  · have hnil : rangeOf message first finish = [] := by
      refine List.eq_nil_iff_forall_not_mem.2 fun record hrecord => ?_
      obtain ⟨hm, hle, hle'⟩ := mem_rangeOf.1 hrecord
      rcases hn with rfl | hgt
      · rw [hnone _ (by omega) (hnearest.absent (by omega) hle)] at hm
        cases hm
      · omega
    rw [hempty hn, hnil]
    rfl
  · obtain ⟨hn0, hfinish⟩ := not_or.1 hn
    obtain ⟨hle, hs, hbefore⟩ := hnearest.before hn0
    rw [rangeOf_skip hle fun j hj hlt => hnone j (by omega) (hbefore j (by omega) hj hlt)]
    refine hscan hn0 (not_lt.1 hfinish) (fun hle' => (hsome n (by omega) hle').trans hs) ?_
    have := rangeOf_length message n finish
    omega

theorem memory_rangeGet {callback : MemoryPersister.Callback σ} {s : σ × MemoryPersister}
    (hm : Unsigned s.2.store) (h1 : 1 ≤ first) (hlt : first < 4294967296)
    (hcallback : Leaves (fun s => s.2.getMessage) (finishOf s.2.store last) callback) :
    RangeGet callback (rangeOf s.2.getMessage first (finishOf s.2.store last)) s
      (MemoryPersister.getRange callback first last s) := by
  have hget : ∀ (p : MemoryPersister) k, 0 < k → p.getMessage k = p.store.get? k :=
    fun p k hk => if_neg (by omega)
  obtain ⟨n, hfind, hnearest⟩ := findsNearest_last hm h1 hlt
  refine rangeGet_of_scan (m := s.2.store) (fun k hk hnone => (hget _ k hk).trans hnone)
    (fun k hk _ => by rw [hget _ k hk]) h1 hnearest (fun hn => ?_) (fun hn0 hle hs hlen => ?_)
  · unfold MemoryPersister.getRange
    dsimp only
    rw [hfind]
    exact if_pos hn
  · have hscan := scan_handsOut (I := fun _ => True) callback (finishOf s.2.store last)
      (fun s => s.2.getMessage) (fun s k => s.2.store.next? k) id
      (MemoryPersister.rangeLoop callback (finishOf s.2.store last))
      (fun record noMore s _ => ⟨trivial, hcallback record noMore s⟩)
      (fun s key _ hkey => movesOn_next? (fun k hk _ => by rw [hget _ k hk]) hkey)
      (fun fuel key n s hgt => by
        unfold MemoryPersister.rangeLoop
        cases s.2.store.get? key with
        | none => rfl
        | some what => exact if_pos (.inr hgt))
      (fun fuel key n s what _ hkey hle hwhat => by
        rw [hget _ key hkey] at hwhat
        rw [MemoryPersister.rangeLoop, hwhat]
        dsimp only
        rw [if_neg (by omega)]
        cases hr : (callback (key, what) false s).1 with
        | false => rfl
        | true =>
          rw [if_neg (by simp), if_pos rfl]
          cases (callback (key, what) false s).2.2.store.next? key <;> rfl)
      _ _ 0 trivial (by omega) hs hlen
    unfold MemoryPersister.getRange
    dsimp only
    rw [hfind]
    dsimp only
    rw [if_neg (by unfold finishOf at hle; omega)]
    unfold finishOf at hscan ⊢
    rw [hscan, Nat.zero_add]
    rfl

/-- What `get` of a message gives. -/
def FilePersister.message (p : FilePersister) (k : Nat) : Option F8String :=
  match p.getMessage k with
  | .message what => what
  | _ => none

/-- The record that the index has under a number, as it is read. -/
def FilePersister.record (p : FilePersister) (k : Nat) : Option (Nat × Option F8String) :=
  (p.index.get? k).map fun prec => (prec.size, p.read prec)

/-- The messages up to `finish` can be read, and fit the buffer. -/
def Readable (p : FilePersister) (finish : Nat) : Prop :=
  ∀ k prec, 0 < k → k ≤ finish → p.index.get? k = some prec →
    prec.size ≤ maxMsgLength ∧ (p.read prec).isSome

variable {p q : FilePersister}

theorem message_of_record {k : Nat} (hk : 0 < k) : p.message k =
    (p.record k).elim none fun r => if r.1 > maxMsgLength then none else r.2 := by
  unfold FilePersister.message FilePersister.getMessage FilePersister.record
  rw [if_neg (by omega)]
  cases p.index.get? k with
  | none => rfl
  | some prec =>
    by_cases hsize : prec.size > maxMsgLength
    · simp [hsize]
    · simp [hsize]

/-- Readable messages stay readable while the records stay. -/
theorem Readable.of_record (h : Readable p finish)
    (hsame : ∀ k, 0 < k → k ≤ finish → q.record k = p.record k) : Readable q finish := by
  intro k prec hk hle hget
  have hrecord := hsame k hk hle
  unfold FilePersister.record at hrecord
  rw [hget] at hrecord
  obtain ⟨prec', hget', heq⟩ := Option.map_eq_some_iff.1 hrecord.symm
  obtain ⟨hsize, hread⟩ := Prod.mk.inj heq
  have hp := h k prec' hk hle hget'
  rw [← hread, ← hsize]
  exact hp

theorem Readable.message (h : Readable p finish) {k : Nat} {prec : Prec} (hk : 0 < k)
    (hle : k ≤ finish) (hget : p.index.get? k = some prec) : p.message k = p.read prec := by
  rw [message_of_record hk, FilePersister.record, hget]
  exact if_neg (not_lt.2 (h k prec hk hle hget).1)

theorem Readable.isSome_message (h : Readable p finish) {k : Nat} (hk : 0 < k) (hle : k ≤ finish) :
    (p.message k).isSome = (p.index.get? k).isSome := by
  cases hget : p.index.get? k with
  | none => rw [message_of_record hk, FilePersister.record, hget]; rfl
  | some prec =>
    rw [h.message hk hle hget]
    exact (h k prec hk hle hget).2

theorem file_rangeGet {callback : FilePersister.Callback σ} {s : σ × FilePersister}
    (hm : Unsigned s.2.index) (hread : Readable s.2 (finishOf s.2.index last))
    (h1 : 1 ≤ first) (hlt : first < 4294967296)
    (hcallback : Leaves (fun s => s.2.record) (finishOf s.2.index last) callback) :
    RangeGet callback (rangeOf s.2.message first (finishOf s.2.index last)) s
      (FilePersister.getRange callback first last s) := by
  obtain ⟨n, hfind, hnearest⟩ := findsNearest_last hm h1 hlt
  refine rangeGet_of_scan (m := s.2.index)
    (fun k hk hnone => by rw [message_of_record hk, FilePersister.record, hnone]; rfl)
    (fun k hk hle => hread.isSome_message hk hle) h1 hnearest (fun hn => ?_)
    (fun hn0 hle hs hlen => ?_)
  · unfold FilePersister.getRange
    dsimp only
    rw [hfind]
    exact if_pos hn
  · have hscan := scan_handsOut (I := fun s' => Readable s'.2 (finishOf s.2.index last)) callback
      (finishOf s.2.index last) (fun s => s.2.message) (fun s k => s.2.index.next? k) some
      (FilePersister.rangeLoop callback (finishOf s.2.index last))
      (fun record noMore s hI => ⟨hI.of_record (hcallback record noMore s), fun k hk hle => by
        have hsame : (callback record noMore s).2.2.record k = s.2.record k :=
          hcallback record noMore s k hk hle
        rw [message_of_record hk, message_of_record hk, hsame]⟩)
      (fun s' key hI hkey => movesOn_next? (fun k hk hle => hI.isSome_message hk hle) hkey)
      (fun fuel key n s' hgt => by
        rw [FilePersister.rangeLoop]
        cases s'.2.index.get? key with
        | none => rfl
        | some prec => exact if_pos (.inr hgt))
      (fun fuel key n s' what hI hkey hle hwhat => by
        cases hget : s'.2.index.get? key with
        | none =>
          have hs := hI.isSome_message hkey hle
          rw [hwhat, hget] at hs
          cases hs
        | some prec =>
          rw [hI.message hkey hle hget] at hwhat
          rw [FilePersister.rangeLoop, hget]
          dsimp only
          rw [if_neg (by omega), if_neg (not_lt.2 (hI key prec hkey hle hget).1), hwhat]
          dsimp only
          cases hr : (callback (key, what) false s').1 with
          | false => rfl
          | true =>
            rw [if_neg (by simp), if_pos rfl]
            cases (callback (key, what) false s').2.2.index.next? key <;> rfl)
      _ _ 0 hread (by omega) hs hlen
    unfold FilePersister.getRange
    dsimp only
    rw [hfind]
    dsimp only
    rw [if_neg (by unfold finishOf at hle; omega)]
    unfold finishOf at hscan ⊢
    rw [hscan, Nat.zero_add]
    rfl

end

/-- **`get` of a range** hands out the messages with a number in the range, in ascending order,
until the callback returns false, and then calls it once with `_no_more_records`; it returns how
many it has handed out. -/
theorem range_get (first last : Nat) (h1 : 1 ≤ first) (hlt : first < 4294967296) :
    (∀ (σ : Type) (callback : MemoryPersister.Callback σ) (s : σ × MemoryPersister),
      Unsigned s.2.store →
      Leaves (fun s => s.2.getMessage) (finishOf s.2.store last) callback →
      RangeGet callback (rangeOf s.2.getMessage first (finishOf s.2.store last)) s
        (MemoryPersister.getRange callback first last s)) ∧
    ∀ (σ : Type) (callback : FilePersister.Callback σ) (s : σ × FilePersister),
      Unsigned s.2.index → Readable s.2 (finishOf s.2.index last) →
      Leaves (fun s => s.2.record) (finishOf s.2.index last) callback →
      RangeGet callback (rangeOf s.2.message first (finishOf s.2.index last)) s
        (FilePersister.getRange callback first last s) :=
  ⟨fun _ _ _ hm hcallback => memory_rangeGet hm h1 hlt hcallback,
    fun _ _ _ hm hread hcallback => file_rangeGet hm hread h1 hlt hcallback⟩

/-- A callback that counts the calls. -/
def countCalls {P : Type} (_ : Nat × F8String) (_ : Bool) (s : Nat × P) : Bool × (Nat × P) :=
  (true, (s.1 + 1, s.2))

/-- A file persister with a control record and the message 1. -/
def demoFile : FilePersister := ⟨(OrdMap.empty.insert 0 ⟨2, 1⟩).insert 1 ⟨0, 3⟩,
  [⟨0, ⟨2, 1⟩⟩, ⟨1, ⟨0, 3⟩⟩], ascii "one"⟩

theorem range_get_demo :
    RangeGet countCalls (rangeOf (MemoryPersister.mk demoStore (0, 0)).getMessage 1 1)
      (0, ⟨demoStore, (0, 0)⟩)
      (MemoryPersister.getRange countCalls 1 0 (0, ⟨demoStore, (0, 0)⟩)) ∧
    RangeGet countCalls (rangeOf demoFile.message 1 1) (0, demoFile)
      (FilePersister.getRange countCalls 1 0 (0, demoFile)) := by
  have hkeys : ∀ {α : Type} {m : OrdMap Nat α}, (∀ e ∈ m.entries, e.1 ≤ 1) → Unsigned m := by
    intro α m hall k hk
    obtain ⟨e, he, rfl⟩ := OrdMap.get?_isSome.1 hk
    have := hall e he
    omega
  have hread : ∀ prec, demoFile.index.get? 1 = some prec →
      prec.size ≤ maxMsgLength ∧ (demoFile.read prec).isSome := by
    intro prec hprec
    have hget : demoFile.index.get? 1 = some ⟨0, 3⟩ := by decide +kernel
    obtain rfl := Option.some.inj (hget.symm.trans hprec)
    decide +kernel
  obtain ⟨hmemory, hfile⟩ := range_get 1 0 le_rfl (by decide)
  refine ⟨hmemory Nat countCalls (0, ⟨demoStore, (0, 0)⟩) (hkeys (by decide +kernel))
    fun _ _ _ _ _ _ => rfl, hfile Nat countCalls (0, demoFile) (hkeys (by decide +kernel))
    (fun k prec hk hle hprec => ?_) fun _ _ _ _ _ _ => rfl⟩
  have hle : k ≤ 1 := hle
  obtain rfl : k = 1 := by omega
  exact hread prec hprec

end Fix8.Persist
