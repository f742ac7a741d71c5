import Fix8.Persist.Disk
import Fix8.Persist.Proof.Reload

/-!
# A put that fails

The index record of a message is written before the message, and a reload takes the first record of
a number that it finds. So what a failing put has written of its record stays: a whole record is
found by the reload in place of that of a later put, and a part of one moves all that is written
behind it out of the grid of the records.

* `records_append`: a record behind whole records is read as it was written;
* `Represents`: as long as nothing fails the files are those of the persister on records;
* `torn_not_found`: behind a torn record no record is read for every message as it was written;
* `replaceable_iff`: when a later put of a number is what a reload finds;
* **`failed_put_iff`**: when a failing put leaves the store as it was.
-/

namespace Fix8.Persist

open Lib Codec DiskPersister

/-! ## Reading records -/

/-- What is read from the bytes `iod` on, after `iprec`. -/
def recordsFrom (iprec iod : F8String) : List IPrec := readRecords iod.length iprec iod

theorem readRecords_fuel {fuel fuel' : Nat} {iprec iod : F8String} (h : iod.length ≤ fuel)
    (h' : iod.length ≤ fuel') : readRecords fuel iprec iod = readRecords fuel' iprec iod := by
  induction fuel generalizing fuel' iprec iod with
  | zero =>
    obtain rfl := List.eq_nil_of_length_eq_zero (Nat.le_zero.1 h)
    cases fuel' <;> simp [readRecords]
  | succ fuel ih =>
    cases fuel' with
    | zero =>
      obtain rfl := List.eq_nil_of_length_eq_zero (Nat.le_zero.1 h')
      simp [readRecords]
    | succ fuel' =>
      unfold readRecords
      split
      · rfl
      · have hdrop : (iod.drop 16).length = iod.length - 16 := List.length_drop
        exact congrArg (List.cons _) (ih (by rw [hdrop]; omega) (by rw [hdrop]; omega))

@[simp] theorem recordsFrom_nil {iprec : F8String} : recordsFrom iprec [] = [] := rfl

theorem recordsFrom_ne_nil {iprec iod : F8String} (h : iod ≠ []) : recordsFrom iprec iod =
    record (iod.take 16 ++ iprec.drop (iod.take 16).length) ::
      recordsFrom (iod.take 16 ++ iprec.drop (iod.take 16).length) (iod.drop 16) := by
  obtain ⟨n, hn⟩ := Nat.exists_eq_succ_of_ne_zero (mt List.eq_nil_of_length_eq_zero h)
  have hdrop : (iod.drop 16).length = iod.length - 16 := List.length_drop
  rw [recordsFrom, hn, readRecords, if_neg h]
  refine congrArg (List.cons _) (readRecords_fuel ?_ (le_refl _))
  rw [hdrop]
  omega

/-- A whole record is read whatever has been read before. -/
theorem recordsFrom_block {iprec block iod : F8String} (hz : iprec.length = 16)
    (hb : block.length = 16) :
    recordsFrom iprec (block ++ iod) = record block :: recordsFrom block iod := by
  have hne : block ++ iod ≠ [] := by
    intro h
    simp [(List.append_eq_nil_iff.1 h).1] at hb
  rw [recordsFrom_ne_nil hne, List.take_append_of_le_length (le_of_eq hb.symm),
    List.take_of_length_le (le_of_eq hb), hb, List.drop_of_length_le (le_of_eq hz),
    List.append_nil, ← hb, List.drop_left]

/-- A part of a record is read over the record before. -/
theorem recordsFrom_part {iprec part : F8String} (h : part ≠ []) (hlt : part.length < 16) :
    recordsFrom iprec part = [record (part ++ iprec.drop part.length)] := by
  rw [recordsFrom_ne_nil h, List.take_of_length_le (le_of_lt hlt),
    List.drop_of_length_le (le_of_lt hlt)]
  rfl

/-- Behind whole records it is read as if they were not there, but for what they leave behind. -/
theorem recordsFrom_whole {whole : F8String} (h : whole.length % 16 = 0) {iprec : F8String}
    (hz : iprec.length = 16) : ∃ iprec', iprec'.length = 16 ∧ ∀ iod,
      recordsFrom iprec (whole ++ iod) = recordsFrom iprec whole ++ recordsFrom iprec' iod := by
  obtain ⟨k, hk⟩ := Nat.dvd_of_mod_eq_zero h
  clear h
  induction k generalizing whole iprec with
  | zero =>
    obtain rfl := List.eq_nil_of_length_eq_zero hk
    exact ⟨iprec, hz, fun iod => rfl⟩
  | succ k ih =>
    have hblock : (whole.take 16).length = 16 := by
      rw [List.length_take]
      omega
    have hrest : (whole.drop 16).length = 16 * k := by
      rw [List.length_drop]
      omega
    obtain ⟨iprec', hz', hread⟩ := ih hblock hrest
    refine ⟨iprec', hz', fun iod => ?_⟩
    have hcons : ∀ iod, recordsFrom iprec (whole ++ iod) =
        record (whole.take 16) :: recordsFrom (whole.take 16) (whole.drop 16 ++ iod) := by
      intro iod
      rw [← recordsFrom_block hz hblock, ← List.append_assoc, List.take_append_drop]
    have hnil := hcons []
    rw [List.append_nil, List.append_nil] at hnil
    rw [hcons, hnil, hread, List.cons_append]

theorem records_eq (iod : F8String) : records iod = recordsFrom (List.replicate 16 0) iod := rfl

@[simp] theorem recordBytes_length {r : IPrec} : (recordBytes r).length = 16 := by
  simp [recordBytes]

/-- A record is read as it was written, up to what its fields hold. -/
theorem record_recordBytes (r : IPrec) : record (recordBytes r) =
    ⟨r.seq % 4294967296, ⟨r.prec.offset % 18446744073709551616, r.prec.size % 4294967296⟩⟩ := by
  have hseq : (recordBytes r).take 4 = leBytes 4 r.seq := by
    rw [recordBytes, List.append_assoc, List.take_left' leBytes_length]
  have hrest : (recordBytes r).drop 4 = leBytes 8 r.prec.offset ++ leBytes 4 r.prec.size := by
    rw [recordBytes, List.append_assoc, List.drop_left' leBytes_length]
  have hsize : (recordBytes r).drop 12 = leBytes 4 r.prec.size := by
    rw [recordBytes, List.drop_left' (by simp)]
  rw [record, hseq, hrest, hsize, List.take_left' leBytes_length, leNat_leBytes, leNat_leBytes,
    leNat_leBytes]
  rfl

/-- A record behind whole records is read as it was written. -/
theorem records_append {iod : F8String} (h : iod.length % 16 = 0) (r : IPrec) :
    records (iod ++ recordBytes r) = records iod ++ [record (recordBytes r)] := by
  obtain ⟨iprec', hz', hread⟩ := recordsFrom_whole h (List.length_replicate (n := 16) (a := 0))
  rw [records_eq, hread, records_eq]
  have hlast : recordsFrom iprec' (recordBytes r ++ []) = _ :=
    recordsFrom_block hz' recordBytes_length
  rw [List.append_nil] at hlast
  rw [hlast, recordsFrom_nil]

/-! ## Torn records -/

/-- A torn record, and as much of the next one as makes it whole. -/
def joined (part : F8String) (r : IPrec) : F8String :=
  part ++ (recordBytes r).take (16 - part.length)

/-- The rest of the next one, over the record before. -/
def leftOver (part : F8String) (r : IPrec) : F8String :=
  (recordBytes r).drop (16 - part.length) ++ (joined part r).drop part.length

/-- A record behind a torn one is read as these two. -/
theorem records_torn {whole part : F8String} (hwhole : whole.length % 16 = 0) (hne : part ≠ [])
    (hlt : part.length < 16) (r : IPrec) : records (whole ++ part ++ recordBytes r) =
      records whole ++ [record (joined part r), record (leftOver part r)] := by
  obtain ⟨iprec', hz', hread⟩ := recordsFrom_whole hwhole (List.length_replicate (n := 16) (a := 0))
  have hjoined : (joined part r).length = 16 := by
    rw [joined, List.length_append, List.length_take, recordBytes_length]
    omega
  have hsplit : part ++ recordBytes r = joined part r ++ (recordBytes r).drop (16 - part.length) := by
    rw [joined, List.append_assoc, List.take_append_drop]
  have hdrop : ((recordBytes r).drop (16 - part.length)).length = part.length := by
    rw [List.length_drop, recordBytes_length]
    omega
  have hrest : (recordBytes r).drop (16 - part.length) ≠ [] := by
    intro h
    rw [h] at hdrop
    exact hne (List.eq_nil_of_length_eq_zero hdrop.symm)
  rw [List.append_assoc, records_eq, hread, hsplit, recordsFrom_block hz' hjoined,
    recordsFrom_part hrest (lt_of_eq_of_lt hdrop hlt), hdrop]
  rfl

/-- A file has whole records, and maybe a part of one behind. -/
theorem exists_whole (iod : F8String) : ∃ whole part, iod = whole ++ part ∧
    whole.length % 16 = 0 ∧ part.length = iod.length % 16 := by
  refine ⟨iod.take (16 * (iod.length / 16)), iod.drop (16 * (iod.length / 16)),
    (List.take_append_drop _ _).symm, ?_, ?_⟩
  · rw [List.length_take]
    omega
  · rw [List.length_drop]
    omega

/-! ## Sizes -/

/-- The record of a message with a small size. -/
theorem recordBytes_small {seqnum offset n : Nat} (hn : n < 256) :
    recordBytes ⟨seqnum, ⟨offset, n⟩⟩ =
      leBytes 4 seqnum ++ leBytes 8 offset ++ UInt8.ofNat n :: [0, 0, 0] := by
  have hbytes : leBytes 4 n = UInt8.ofNat n :: [0, 0, 0] := by
    rw [leBytes, Nat.mod_eq_of_lt hn, Nat.div_eq_of_lt hn]
    rfl
  rw [recordBytes, hbytes]

section Torn
variable {part : F8String}

theorem length_rest (r : IPrec) (hlt : part.length < 16) :
    ((recordBytes r).drop (16 - part.length)).length = part.length := by
  rw [List.length_drop, recordBytes_length]
  omega

/-- Where no more than twelve bytes are torn, the size of the left over record is that of the record
before. -/
theorem leftOver_size {r : IPrec} (hle : part.length ≤ 12) :
    (record (leftOver part r)).prec.size = (record (joined part r)).prec.size := by
  have hlen : ((recordBytes r).drop (16 - part.length)).length = part.length :=
    length_rest r (by omega)
  have hnil : ((recordBytes r).drop (16 - part.length)).drop 12 = [] :=
    List.drop_of_length_le (by omega)
  have hsum : part.length + (12 - part.length) = 12 := by omega
  show leNat ((leftOver part r).drop 12) = leNat ((joined part r).drop 12)
  rw [leftOver, List.drop_append, hlen, hnil, List.nil_append, List.drop_drop, hsum]

/-- Where no more than three bytes are torn, a small size is read as a larger one. -/
theorem joined_size_lt (seqnum offset : Nat) {n : Nat} (hpos : 0 < part.length) (hle : part.length ≤ 3) (h0 : 0 < n)
    (hn : n < 256) : n < (record (joined part ⟨seqnum, ⟨offset, n⟩⟩)).prec.size := by
  obtain ⟨k, hk⟩ : ∃ k, 16 - part.length = 12 + (k + 1) := ⟨3 - part.length, by omega⟩
  let low := (leBytes 4 seqnum ++ leBytes 8 offset).drop (12 - part.length)
  have hlow : low.length = part.length := by
    simp only [low, List.length_drop, List.length_append, leBytes_length]
    omega
  have hdrop : (joined part ⟨seqnum, ⟨offset, n⟩⟩).drop 12 =
      low ++ UInt8.ofNat n :: ([0, 0, 0] : F8String).take k := by
    have hhead : (leBytes 4 seqnum ++ leBytes 8 offset).length = 12 := by simp
    rw [joined, recordBytes_small hn, List.drop_append, List.drop_of_length_le (by omega),
      List.nil_append, hk, ← hhead, List.take_length_add_append, List.take_succ_cons, hhead,
      List.drop_append_of_le_length (by omega)]
  have hbyte : (UInt8.ofNat n).toNat = n := by
    rw [UInt8.toNat_ofNat']
    omega
  show n < leNat ((joined part ⟨seqnum, ⟨offset, n⟩⟩).drop 12)
  rw [hdrop, leNat_append, leNat_cons, hbyte, hlow]
  have hweight : 256 ≤ 256 ^ part.length := Nat.le_self_pow (by omega) 256
  calc n < 256 * n := by omega
    _ ≤ 256 ^ part.length * (n + 256 * leNat (([0, 0, 0] : F8String).take k)) :=
      Nat.mul_le_mul hweight (Nat.le_add_right _ _)
    _ ≤ _ := Nat.le_add_left _ _

/-- Where more is torn, small sizes are not read. -/
theorem torn_same (seqnum offset : Nat) {n n' : Nat} (hge : 4 ≤ part.length) (hlt : part.length < 16) (hn : n < 256)
    (hn' : n' < 256) :
    joined part ⟨seqnum, ⟨offset, n⟩⟩ = joined part ⟨seqnum, ⟨offset, n'⟩⟩ ∧
      (record (leftOver part ⟨seqnum, ⟨offset, n⟩⟩)).prec.size =
        (record (leftOver part ⟨seqnum, ⟨offset, n'⟩⟩)).prec.size := by
  have hhead : (leBytes 4 seqnum ++ leBytes 8 offset).length = 12 := by simp
  have hjoined : joined part ⟨seqnum, ⟨offset, n⟩⟩ = joined part ⟨seqnum, ⟨offset, n'⟩⟩ := by
    have htake : ∀ {m}, m < 256 →
        (recordBytes ⟨seqnum, ⟨offset, m⟩⟩).take (16 - part.length) =
          (leBytes 4 seqnum ++ leBytes 8 offset).take (16 - part.length) := by
      intro m hm
      rw [recordBytes_small hm]
      exact List.take_append_of_le_length (by omega)
    rw [joined, joined, htake hn, htake hn']
  refine ⟨hjoined, ?_⟩
  by_cases hle : part.length ≤ 12
  · rw [leftOver_size hle, leftOver_size hle, hjoined]
  · have hrest : ∀ {m}, m < 256 →
        ((recordBytes ⟨seqnum, ⟨offset, m⟩⟩).drop (16 - part.length)).drop 12 =
          ([0, 0, 0] : F8String).drop (15 - part.length) := by
      intro m hm
      have hsum : 16 - part.length + 12 = 12 + (15 - part.length + 1) := by omega
      rw [recordBytes_small hm, List.drop_drop, hsum, ← hhead, List.drop_length_add_append,
        List.drop_succ_cons]
    have hlen : ∀ r, ((recordBytes r).drop (16 - part.length)).length = part.length :=
      fun r => length_rest r hlt
    show leNat ((leftOver part _).drop 12) = leNat ((leftOver part _).drop 12)
    rw [leftOver, leftOver, List.drop_append, List.drop_append, hrest hn, hrest hn', hlen, hlen,
      hjoined]

end Torn

/-! ## Messages -/

/-- What `get` returns of a message that is stored. -/
def got (what : F8String) : Reply :=
  if what.length > maxMsgLength then .undefined else .message (some what)

/-- The same contents are seen through `get`. -/
def SameContents (p q : DiskPersister) : Prop :=
  (∀ seqnum, p.getMessage seqnum = q.getMessage seqnum) ∧ p.getControl = q.getControl

/-- A later successful `put` of a number is what `get` returns after a reload, whatever is put in
between. -/
def Replaceable (p : DiskPersister) (seqnum : Nat) : Prop :=
  ∀ steps what, (∀ n w, Step.putMessage n w ∈ steps → n < 4294967296) → what.length < 2 ^ 31 →
    (runFrom DiskPersister.step p steps).fod.length < 2 ^ 63 →
    ((runFrom DiskPersister.step p steps).putMessage (.success what) seqnum what).1 = true →
    (((runFrom DiskPersister.step p steps).putMessage (.success what) seqnum what).2.reopen).getMessage
      seqnum = got what

/-- A put that leaves the persister `p'` has left the store `p` as it was. -/
structure LeavesStore (p p' : DiskPersister) (seqnum : Nat) : Prop where
  now : SameContents p' p
  reopened : SameContents p'.reopen p.reopen
  later : Replaceable p' seqnum

section Put
variable {p : DiskPersister} {seqnum : Nat} {what : F8String}

theorem putMessage_success (h0 : seqnum ≠ 0) (hnew : p.index.get? seqnum = none) :
    p.putMessage (.success what) seqnum what =
      (true, ⟨p.index.insert seqnum ⟨p.fod.length, what.length⟩,
        p.iod ++ recordBytes ⟨seqnum, ⟨p.fod.length, what.length⟩⟩, p.fod ++ what⟩) := by
  have htake : (recordBytes ⟨seqnum, ⟨p.fod.length, what.length⟩⟩).take 16 =
      recordBytes ⟨seqnum, ⟨p.fod.length, what.length⟩⟩ := by
    rw [List.take_of_length_le (by simp)]
  simp [DiskPersister.putMessage, Outcome.success, h0, hnew, htake]

/-- A number that is not new is 0, or in the index. -/
theorem old_of_not_new (h : ¬(seqnum ≠ 0 ∧ p.index.get? seqnum = none)) :
    seqnum = 0 ∨ (p.index.get? seqnum).isSome := by
  rcases not_and_or.1 h with h0 | hsome
  · exact .inl (not_not.1 h0)
  · exact .inr (Option.isSome_iff_ne_none.2 hsome)

/-- Nothing is put under 0, or under a number that the index has. -/
theorem putMessage_refused {o : Outcome} (h : seqnum = 0 ∨ (p.index.get? seqnum).isSome) :
    p.putMessage o seqnum what = (false, p) := by
  unfold DiskPersister.putMessage
  by_cases h0 : seqnum = 0
  · rw [if_pos h0]
  · rw [if_neg h0, if_pos (h.resolve_left h0)]

/-- A put that succeeds has stored a new number. -/
theorem new_of_putMessage {o : Outcome} (h : (p.putMessage o seqnum what).1 = true) :
    seqnum ≠ 0 ∧ p.index.get? seqnum = none := by
  unfold DiskPersister.putMessage at h
  split at h
  · cases h
  · split at h
    · cases h
    · rename_i h0 hnew
      exact ⟨h0, by simpa using hnew⟩

/-- The index that a reload makes has the first record of a number. -/
theorem reopen_get? {k : Nat} : p.reopen.index.get? k =
    ((records p.iod).find? fun r => r.seq == k).map IPrec.prec := reloadIndex_get?

/-- A message that `get` returns has the size that stands in the index. -/
theorem size_of_getMessage (h : p.getMessage seqnum = .message (some what)) :
    ∃ prec, p.index.get? seqnum = some prec ∧ prec.size = what.length := by
  unfold DiskPersister.getMessage at h
  split at h
  · cases h
  · split at h
    · cases h
    · rename_i prec hindex
      split at h
      · cases h
      · refine ⟨prec, hindex, ?_⟩
        have hread : p.read prec = some what := by simpa using h
        unfold DiskPersister.read at hread
        split at hread
        · cases hread
        · simp only [Option.ite_none_right_eq_some] at hread
          rw [← hread.1, ← Option.some.inj hread.2]

end Put

/-! ## Records as bytes -/

/-- The fields of a record hold its numbers. -/
def IPrec.InRange (r : IPrec) : Prop :=
  r.seq < 4294967296 ∧ r.prec.offset < 2 ^ 63 ∧ r.prec.size < 4294967296

theorem IPrec.InRange.record {r : IPrec} (h : r.InRange) : record (recordBytes r) = r := by
  obtain ⟨hseq, hoffset, hsize⟩ := h
  rw [record_recordBytes, Nat.mod_eq_of_lt hseq, Nat.mod_eq_of_lt (by omega),
    Nat.mod_eq_of_lt hsize]

/-- The records that have been written are read. -/
theorem recordsFrom_flatMap {iprec : F8String} (hz : iprec.length = 16) {rs : List IPrec}
    (h : ∀ r ∈ rs, r.InRange) : recordsFrom iprec (rs.flatMap recordBytes) = rs := by
  induction rs generalizing iprec with
  | nil => rfl
  | cons r rs ih =>
    rw [List.flatMap_cons, recordsFrom_block hz recordBytes_length,
      (h r List.mem_cons_self).record,
      ih recordBytes_length fun r hr => h r (List.mem_cons_of_mem _ hr)]

/-- The files of `p` are those of `f`, whose index file is kept as its records. -/
structure Represents (p : DiskPersister) (f : FilePersister) : Prop where
  index : p.index = f.index
  fod : p.fod = f.fod
  iod : p.iod = f.iod.flatMap recordBytes
  records : ∀ r ∈ f.iod, r.InRange
  entries : ∀ k prec, f.index.get? k = some prec → prec.offset < 2 ^ 63 ∧ prec.size < 4294967296

namespace Represents

variable {p : DiskPersister} {f : FilePersister}

theorem getMessage (h : Represents p f) (seqnum : Nat) :
    p.getMessage seqnum = f.getMessage seqnum := by
  unfold DiskPersister.getMessage FilePersister.getMessage
  rw [h.index]
  cases hindex : f.index.get? seqnum with
  | none => rfl
  | some prec =>
    have hread : p.read prec = f.read prec := by
      unfold DiskPersister.read FilePersister.read
      rw [if_neg (not_le.2 (h.entries seqnum prec hindex).1), h.fod]
    dsimp only
    rw [hread]

theorem reopen (h : Represents p f) : Represents p.reopen f.reload := by
  have hrecords : Persist.records p.iod = f.iod := by
    rw [records_eq, h.iod]
    exact recordsFrom_flatMap List.length_replicate h.records
  refine ⟨?_, h.fod, h.iod, h.records, fun k prec hindex => ?_⟩
  · show FilePersister.reloadIndex (Persist.records p.iod) = FilePersister.reloadIndex f.iod
    rw [hrecords]
  · obtain ⟨r, hr, rfl⟩ := Option.map_eq_some_iff.1 (reloadIndex_get?.symm.trans hindex)
    exact (h.records r (List.mem_of_find?_eq_some hr)).2

theorem putControl (h : Represents p f) {a b : Nat} (ha : a < 4294967296) (hb : b < 4294967296) :
    Represents (p.putControl a b) (f.putControl a b).2 := by
  have hrange : IPrec.InRange ⟨0, ⟨a, b⟩⟩ := ⟨Nat.zero_lt_succ _, by dsimp only; omega, hb⟩
  refine ⟨?_, h.fod, ?_, fun r hr => ?_, fun k prec hindex => ?_⟩
  · show FilePersister.indexControl p.index ⟨a, b⟩ = FilePersister.indexControl f.index ⟨a, b⟩
    rw [h.index]
  · show recordBytes ⟨0, ⟨a, b⟩⟩ ++ p.iod.drop 16 =
      (FilePersister.writeFirst ⟨0, ⟨a, b⟩⟩ f.iod).flatMap recordBytes
    rw [h.iod]
    cases f.iod with
    | nil => rfl
    | cons r rs => rw [List.flatMap_cons, List.drop_left' recordBytes_length]; rfl
  · have hr : r ∈ FilePersister.writeFirst ⟨0, ⟨a, b⟩⟩ f.iod := hr
    cases hiod : f.iod with
    | nil =>
      rw [hiod] at hr
      exact List.mem_singleton.1 hr ▸ hrange
    | cons r' rs =>
      rw [hiod] at hr
      rcases List.mem_cons.1 hr with rfl | hr
      · exact hrange
      · exact h.records r (hiod ▸ List.mem_cons_of_mem _ hr)
  · by_cases hk : k = 0
    · subst hk
      have hprec : prec = ⟨a, b⟩ := by
        have hindex : (FilePersister.indexControl f.index ⟨a, b⟩).get? 0 = some prec := hindex
        rw [indexControl_self] at hindex
        exact (Option.some.inj hindex).symm
      rw [hprec]
      exact hrange.2
    · exact h.entries k prec ((indexControl_of_ne hk).symm.trans hindex)

theorem putMessage (h : Represents p f) {seqnum : Nat} {what : F8String}
    (hseq : seqnum < 4294967296) (hwhat : what.length < 4294967296) (hfit : f.fod.length < 2 ^ 63) :
    (p.putMessage (.success what) seqnum what).1 = (f.putMessage seqnum what).1 ∧
      Represents (p.putMessage (.success what) seqnum what).2 (f.putMessage seqnum what).2 := by
  by_cases hnew : seqnum ≠ 0 ∧ p.index.get? seqnum = none
  · have hput : f.putMessage seqnum what = (true, ⟨f.index.insert seqnum ⟨f.fod.length, what.length⟩,
        f.iod ++ [⟨seqnum, ⟨f.fod.length, what.length⟩⟩], f.fod ++ what⟩) := by
      rw [h.index] at hnew
      simp [FilePersister.putMessage, hnew]
    rw [putMessage_success hnew.1 hnew.2, hput, h.fod]
    refine ⟨rfl, ?_, rfl, ?_, fun r hr => ?_, fun k prec hindex => ?_⟩
    · rw [h.index]
    · rw [h.iod, List.flatMap_append, List.flatMap_singleton]
    · rcases List.mem_append.1 hr with hr | hr
      · exact h.records r hr
      · exact List.mem_singleton.1 hr ▸ ⟨hseq, hfit, hwhat⟩
    · have hindex : (f.index.insert seqnum ⟨f.fod.length, what.length⟩).get? k = some prec := hindex
      by_cases hk : k = seqnum
      · rw [OrdMap.get?_insert, if_pos hk, ← h.index, hnew.2] at hindex
        exact Option.some.inj hindex ▸ ⟨hfit, hwhat⟩
      · rw [OrdMap.get?_insert_of_ne hk] at hindex
        exact h.entries k prec hindex
  · have hold := old_of_not_new hnew
    rw [putMessage_refused hold, FilePersister.putMessage, if_pos (h.index ▸ hold)]
    exact ⟨rfl, h⟩

end Represents

/-! ## Later puts -/

/-- The index file has whole records, and none of a number that the index does not have. -/
def Clean (seqnum : Nat) (p : DiskPersister) : Prop :=
  p.iod.length % 16 = 0 ∧ (p.index.get? seqnum = none → ∀ r ∈ records p.iod, r.seq ≠ seqnum)

/-- Whole records are read whatever has been read before. -/
theorem recordsFrom_congr {iprec iprec' iod : F8String} (h : iod.length % 16 = 0)
    (hz : iprec.length = 16) (hz' : iprec'.length = 16) :
    recordsFrom iprec iod = recordsFrom iprec' iod := by
  by_cases hne : iod = []
  · subst hne
    rfl
  · have hpos := List.length_pos_iff.2 hne
    have hblock : (iod.take 16).length = 16 := by
      rw [List.length_take]
      omega
    rw [← List.take_append_drop 16 iod, recordsFrom_block hz hblock, recordsFrom_block hz' hblock]

/-- A control record takes the place of the first record. -/
theorem records_putControl {iod : F8String} (h : iod.length % 16 = 0) (r : IPrec) :
    ∀ r' ∈ records (recordBytes r ++ iod.drop 16), r' = record (recordBytes r) ∨ r' ∈ records iod := by
  have hz := List.length_replicate (n := 16) (a := (0 : UInt8))
  intro r' hr'
  rw [records_eq, recordsFrom_block hz recordBytes_length] at hr'
  refine (List.mem_cons.1 hr').imp_right fun hr' => ?_
  by_cases hne : iod = []
  · simp [hne] at hr'
  · have hpos := List.length_pos_iff.2 hne
    have hblock : (iod.take 16).length = 16 := by
      rw [List.length_take]
      omega
    have hrest : (iod.drop 16).length % 16 = 0 := by
      rw [List.length_drop]
      omega
    rw [records_eq, ← List.take_append_drop 16 iod, recordsFrom_block hz hblock]
    exact List.mem_cons_of_mem _ (recordsFrom_congr hrest recordBytes_length hblock ▸ hr')

section Later
variable {p : DiskPersister} {seqnum : Nat}

theorem Clean.step (h : Clean seqnum p) (h0 : seqnum ≠ 0) (s : Step)
    (hs : ∀ n w, s = .putMessage n w → n < 4294967296) : Clean seqnum (p.step s) := by
  obtain ⟨hwhole, hnone⟩ := h
  cases s with
  | putMessage n w =>
    show Clean seqnum (p.putMessage (.success w) n w).2
    by_cases hn : n ≠ 0 ∧ p.index.get? n = none
    · rw [putMessage_success hn.1 hn.2]
      refine ⟨?_, fun hindex r hr => ?_⟩
      · show (p.iod ++ recordBytes _).length % 16 = 0
        rw [List.length_append, recordBytes_length]
        omega
      · have hindex : (p.index.insert n ⟨p.fod.length, w.length⟩).get? seqnum = none := hindex
        have hne : seqnum ≠ n := by
          rintro rfl
          rw [OrdMap.get?_insert, if_pos rfl] at hindex
          cases hindex
        rw [OrdMap.get?_insert_of_ne hne] at hindex
        have hr : r ∈ records (p.iod ++ recordBytes _) := hr
        rw [records_append hwhole, List.mem_append, List.mem_singleton] at hr
        rcases hr with hr | rfl
        · exact hnone hindex r hr
        · rw [record_recordBytes]
          show n % 4294967296 ≠ seqnum
          rw [Nat.mod_eq_of_lt (hs n w rfl)]
          exact hne.symm
    · rw [putMessage_refused (old_of_not_new hn)]
      exact ⟨hwhole, hnone⟩
  | putControl a b =>
    refine ⟨?_, fun hindex r hr => ?_⟩
    · show (recordBytes _ ++ p.iod.drop 16).length % 16 = 0
      rw [List.length_append, recordBytes_length, List.length_drop]
      omega
    · have hindex : p.index.get? seqnum = none := (indexControl_of_ne h0).symm.trans hindex
      rcases records_putControl hwhole _ r hr with rfl | hr
      · rw [record_recordBytes]
        exact h0.symm
      · exact hnone hindex r hr
  | reopen =>
    refine ⟨hwhole, fun hindex r hr => ?_⟩
    have hfind : (records p.iod).find? (fun r => r.seq == seqnum) = none :=
      Option.map_eq_none_iff.1 (reopen_get?.symm.trans hindex)
    simpa using List.find?_eq_none.1 hfind r hr

/-- A number whose put behind a clean file succeeds is found by a reload, with its message. -/
theorem Clean.getMessage (h : Clean seqnum p) (hlt : seqnum < 4294967296) {what : F8String}
    (hwhat : what.length < 2 ^ 31) (hfit : p.fod.length < 2 ^ 63)
    (hput : (p.putMessage (.success what) seqnum what).1 = true) :
    ((p.putMessage (.success what) seqnum what).2.reopen).getMessage seqnum = got what := by
  obtain ⟨h0, hnew⟩ := new_of_putMessage hput
  rw [putMessage_success h0 hnew]
  let prec : Prec := ⟨p.fod.length, what.length⟩
  let q : DiskPersister := ⟨p.index.insert seqnum prec, p.iod ++ recordBytes ⟨seqnum, prec⟩,
    p.fod ++ what⟩
  show q.reopen.getMessage seqnum = got what
  have hrecord : record (recordBytes ⟨seqnum, prec⟩) = ⟨seqnum, prec⟩ := by
    rw [record_recordBytes, Nat.mod_eq_of_lt hlt, Nat.mod_eq_of_lt (by simp only [prec]; omega),
      Nat.mod_eq_of_lt (by simp only [prec]; omega)]
  have hnone : (records p.iod).find? (fun r => r.seq == seqnum) = none :=
    List.find?_eq_none.2 fun r hr => by simpa using h.2 hnew r hr
  have hindex : q.reopen.index.get? seqnum = some prec := by
    rw [reopen_get?]
    show ((records (p.iod ++ recordBytes ⟨seqnum, prec⟩)).find? _).map _ = _
    rw [records_append h.1, List.find?_append, hnone, hrecord]
    simp
  have hread : q.reopen.read prec = some what := by
    have hbuff : ((p.fod ++ what).drop p.fod.length).take what.length = what := by
      rw [List.drop_left, List.take_length]
    show (if 2 ^ 63 ≤ p.fod.length then none
      else if (((p.fod ++ what).drop p.fod.length).take what.length).length = what.length then
        some (((p.fod ++ what).drop p.fod.length).take what.length) else none) = some what
    rw [hbuff, if_neg (not_le.2 hfit), if_pos rfl]
  unfold DiskPersister.getMessage got
  rw [if_neg h0, hindex]
  show (if what.length > maxMsgLength then Reply.undefined else .message (q.reopen.read prec)) = _
  rw [hread]

/-- In a run that keeps to the numbers there are a clean file stays clean. -/
theorem Clean.run (h : Clean seqnum p) (h0 : seqnum ≠ 0) {steps : List Step}
    (hs : ∀ n w, Step.putMessage n w ∈ steps → n < 4294967296) :
    Clean seqnum (runFrom DiskPersister.step p steps) := by
  induction steps generalizing p with
  | nil => exact h
  | cons s steps ih =>
    rw [runFrom_cons]
    exact ih (h.step h0 s fun n w hsw => hs n w (hsw ▸ List.mem_cons_self))
      fun n w hm => hs n w (List.mem_cons_of_mem _ hm)

/-- The size under which a reload finds a message that is put now. -/
theorem Replaceable.size (h : Replaceable p seqnum) (h0 : seqnum ≠ 0)
    (hnew : p.index.get? seqnum = none) (hfit : p.fod.length < 2 ^ 63) {n : Nat} (hn : n < 256) :
    ((records (p.iod ++ recordBytes ⟨seqnum, ⟨p.fod.length, n⟩⟩)).find?
      fun r => r.seq == seqnum).map (fun r => r.prec.size) = some n := by
  have hlen : (List.replicate n (0 : UInt8)).length = n := List.length_replicate
  have hget := h [] (List.replicate n 0) (by simp) (by omega) hfit
    (by rw [runFrom_nil, putMessage_success h0 hnew])
  have hgot : got (List.replicate n 0) = .message (some (List.replicate n 0)) :=
    if_neg (by rw [hlen, maxMsgLength]; omega)
  rw [runFrom_nil, hgot, putMessage_success h0 hnew] at hget
  obtain ⟨prec, hindex, hsize⟩ := size_of_getMessage hget
  rw [reopen_get?, hlen] at hindex
  have hmap := congrArg (Option.map Prec.size) hindex
  rw [Option.map_map] at hmap
  exact hmap.trans (congrArg some (hsize.trans hlen))

/-- The size of the first of two records that has a number. -/
theorem size_of_pair {a b : IPrec} {k n : Nat}
    (h : ([a, b].find? fun r => r.seq == k).map (fun r => r.prec.size) = some n) :
    (a.seq = k ∧ a.prec.size = n) ∨ (a.seq ≠ k ∧ b.prec.size = n) := by
  rw [List.find?_cons, List.find?_singleton] at h
  split at h
  · rename_i ha
    exact .inl ⟨by simpa using ha, Option.some.inj h⟩
  · rename_i ha
    split at h
    · exact .inr ⟨by simpa using ha, Option.some.inj h⟩
    · cases h

/-- Behind a torn record no size is found for every message. -/
theorem torn_not_found {whole part : F8String} {offset : Nat} (hwhole : whole.length % 16 = 0)
    (hne : part ≠ []) (hlt : part.length < 16)
    (h : ∀ n < 256, ((records (whole ++ part ++ recordBytes ⟨seqnum, ⟨offset, n⟩⟩)).find?
      fun r => r.seq == seqnum).map (fun r => r.prec.size) = some n) : False := by
  have h₁ := h 1 (by decide)
  have h₂ := h 2 (by decide)
  rw [records_torn hwhole hne hlt, List.find?_append] at h₁ h₂
  cases hfound : (records whole).find? fun r => r.seq == seqnum with
  | some r =>
    rw [hfound] at h₁ h₂
    exact absurd (h₁.symm.trans h₂) (by decide)
  | none =>
    rw [hfound, Option.none_or] at h₁ h₂
    by_cases hle : part.length ≤ 3
    · have hsmall := joined_size_lt seqnum offset (List.length_pos_iff.2 hne) hle Nat.one_pos
        (by decide)
      rcases size_of_pair h₁ with ⟨-, hsize⟩ | ⟨-, hsize⟩
      · exact absurd hsize (ne_of_gt hsmall)
      · rw [leftOver_size (by omega)] at hsize
        exact absurd hsize (ne_of_gt hsmall)
    · obtain ⟨hjoined, hsize⟩ := torn_same seqnum offset (not_le.1 hle) hlt
        (show 1 < 256 by decide) (show 2 < 256 by decide)
      rcases size_of_pair h₁ with ⟨hseq₁, hsize₁⟩ | ⟨hseq₁, hsize₁⟩ <;>
        rcases size_of_pair h₂ with ⟨hseq₂, hsize₂⟩ | ⟨hseq₂, hsize₂⟩
      · rw [hjoined, hsize₂] at hsize₁
        exact absurd hsize₁ (by decide)
      · exact hseq₂ (hjoined ▸ hseq₁)
      · exact hseq₁ (hjoined ▸ hseq₂)
      · rw [hsize, hsize₂] at hsize₁
        exact absurd hsize₁ (by decide)

/-- A later put of a number is what a reload finds, exactly where the index file has whole records
and none of that number. -/
theorem replaceable_iff (h0 : seqnum ≠ 0) (hlt : seqnum < 4294967296)
    (hnew : p.index.get? seqnum = none) (hfit : p.fod.length < 2 ^ 63) :
    Replaceable p seqnum ↔ p.iod.length % 16 = 0 ∧ ∀ r ∈ records p.iod, r.seq ≠ seqnum := by
  constructor
  · intro h
    obtain ⟨whole, part, hiod, hwhole, hpart⟩ := exists_whole p.iod
    have hsize : ∀ n < 256, ((records (whole ++ part ++
        recordBytes ⟨seqnum, ⟨p.fod.length, n⟩⟩)).find? fun r => r.seq == seqnum).map
          (fun r => r.prec.size) = some n := fun n hn => hiod ▸ h.size h0 hnew hfit hn
    by_cases hne : part = []
    · rw [hne, List.append_nil] at hiod
      rw [hiod]
      refine ⟨hwhole, fun r hr hseq => ?_⟩
      have h₁ := hsize 1 (by decide)
      have h₂ := hsize 2 (by decide)
      rw [hne, List.append_nil, records_append hwhole, List.find?_append] at h₁ h₂
      have hsome : ((records whole).find? fun r => r.seq == seqnum).isSome :=
        List.find?_isSome.2 ⟨r, hr, by simpa using hseq⟩
      obtain ⟨r', hr'⟩ := Option.isSome_iff_exists.1 hsome
      rw [hr'] at h₁ h₂
      exact absurd (h₁.symm.trans h₂) (by decide)
    · have hlt16 : part.length < 16 := hpart ▸ Nat.mod_lt _ (by decide)
      exact (torn_not_found hwhole hne hlt16 hsize).elim
  · intro ⟨hwhole, hnone⟩ steps what hs hwhat hfit' hput
    exact (Clean.run ⟨hwhole, fun _ => hnone⟩ h0 hs).getMessage hlt hwhat hfit' hput

end Later

/-! ## Failing puts -/

/-- How many bytes of its index record a put has written. -/
def Outcome.written (o : Outcome) : Nat :=
  if o.seekIndex = true ∧ o.seekData = true then o.writeIndex.getD 0 else 0

section Failing
variable {p : DiskPersister} {o : Outcome} {seqnum : Nat} {what : F8String}

/-- What a failing put leaves: the part of the index record that it has written, and of the message
nothing before all of the record is written. -/
theorem putMessage_failed (h0 : seqnum ≠ 0) (hnew : p.index.get? seqnum = none)
    (hfail : (p.putMessage o seqnum what).1 = false) : ∃ n, (o.written = 0 → n = 0) ∧
      (p.putMessage o seqnum what).2 = ⟨p.index,
        p.iod ++ (recordBytes ⟨seqnum, ⟨p.fod.length, what.length⟩⟩).take o.written,
        p.fod ++ what.take n⟩ := by
  have hsame : p = ⟨p.index, p.iod ++ [], p.fod ++ []⟩ := by simp
  by_cases hi : o.seekIndex = true
  · by_cases hd : o.seekData = true
    · have hwritten : o.written = o.writeIndex.getD 0 := if_pos ⟨hi, hd⟩
      by_cases hw : o.writeIndex = some 16
      · have hdata : o.writeData ≠ some what.length := by
          intro hdata
          simp [DiskPersister.putMessage, h0, hnew, hi, hd, hw, hdata] at hfail
        refine ⟨o.writeData.getD 0, fun h => ?_, ?_⟩
        · rw [hwritten, hw] at h
          cases h
        · simp [DiskPersister.putMessage, h0, hnew, hi, hd, hw, hdata, hwritten]
      · refine ⟨0, fun _ => rfl, ?_⟩
        simp [DiskPersister.putMessage, h0, hnew, hi, hd, hw, hwritten]
    · refine ⟨0, fun _ => rfl, ?_⟩
      simp [DiskPersister.putMessage, h0, hnew, hi, hd, Outcome.written]
  · refine ⟨0, fun _ => rfl, ?_⟩
    simp [DiskPersister.putMessage, h0, hnew, hi, Outcome.written]

/-- **A failing put leaves the store as it was** exactly when it has written nothing, and the index
file has whole records and none of its number. Apart stands a write that completes a torn record. -/
theorem failed_put_iff (h0 : seqnum ≠ 0) (hlt : seqnum < 4294967296)
    (hnew : p.index.get? seqnum = none) (hfit : p.fod.length + what.length < 2 ^ 63)
    (hfail : (p.putMessage o seqnum what).1 = false)
    (htorn : p.iod.length % 16 = 0 ∨ (p.iod.length + min o.written 16) % 16 ≠ 0) :
    LeavesStore p (p.putMessage o seqnum what).2 seqnum ↔
      o.written = 0 ∧ p.iod.length % 16 = 0 ∧ ∀ r ∈ records p.iod, r.seq ≠ seqnum := by
  obtain ⟨n, hn, hput⟩ := putMessage_failed h0 hnew hfail
  let r : IPrec := ⟨seqnum, ⟨p.fod.length, what.length⟩⟩
  let p' : DiskPersister := ⟨p.index, p.iod ++ (recordBytes r).take o.written, p.fod ++ what.take n⟩
  have hfit' : p'.fod.length < 2 ^ 63 := by
    show (p.fod ++ what.take n).length < 2 ^ 63
    rw [List.length_append, List.length_take]
    omega
  have hlen : p'.iod.length = p.iod.length + min o.written 16 := by
    show (p.iod ++ (recordBytes r).take o.written).length = _
    rw [List.length_append, List.length_take, recordBytes_length]
  have hlater : Replaceable p' seqnum ↔
      p'.iod.length % 16 = 0 ∧ ∀ r ∈ records p'.iod, r.seq ≠ seqnum :=
    replaceable_iff h0 hlt hnew hfit'
  rw [hput]
  show LeavesStore p p' seqnum ↔ _
  constructor
  · intro h
    obtain ⟨hwhole', hnone'⟩ := hlater.1 h.later
    rw [hlen] at hwhole'
    have hwhole := htorn.resolve_right (not_not.2 hwhole')
    have hnot : ¬ 16 ≤ o.written := by
      intro hge
      have hall : (recordBytes r).take o.written = recordBytes r :=
        List.take_of_length_le (by rw [recordBytes_length]; exact hge)
      have hmem : record (recordBytes r) ∈ records p'.iod := by
        show _ ∈ records (p.iod ++ (recordBytes r).take o.written)
        rw [hall, records_append hwhole]
        exact List.mem_append_right _ (List.mem_singleton.2 rfl)
      refine hnone' _ hmem ?_
      rw [record_recordBytes]
      exact Nat.mod_eq_of_lt hlt
    have hwritten : o.written = 0 := by omega
    have hsame : p'.iod = p.iod := by
      show p.iod ++ (recordBytes r).take o.written = p.iod
      rw [hwritten, List.take_zero, List.append_nil]
    exact ⟨hwritten, hwhole, hsame ▸ hnone'⟩
  · intro ⟨hwritten, hwhole, hnone⟩
    have hsame : p' = p := by
      show DiskPersister.mk p.index (p.iod ++ (recordBytes r).take o.written) (p.fod ++ what.take n) = p
      rw [hwritten, hn hwritten, List.take_zero, List.take_zero, List.append_nil, List.append_nil]
    rw [hsame] at hlater ⊢
    exact ⟨⟨fun _ => rfl, rfl⟩, ⟨fun _ => rfl, rfl⟩, hlater.2 ⟨hwhole, hnone⟩⟩

end Failing

/-- An opened persister whose files are new. -/
def newDisk : DiskPersister := ⟨OrdMap.empty, [], []⟩

/-- The message cannot be written. -/
def noSpace : Outcome := ⟨true, true, some 16, none⟩

/-- The index record of a message that could not be written stays: a later message under its number
is not found by a reload. -/
theorem put_stays : (newDisk.putMessage noSpace 1 (ascii "one")).1 = false ∧
    ¬ LeavesStore newDisk (newDisk.putMessage noSpace 1 (ascii "one")).2 1 := by
  refine ⟨by decide +kernel, fun h => ?_⟩
  have hlater := h.later [] (ascii "another") (by simp) (by decide) (by decide) (by decide +kernel)
  exact absurd hlater (by decide +kernel)

/-- The index cannot be written at all. -/
def noIndex : Outcome := ⟨true, true, none, none⟩

theorem failed_put_iff_new :
    LeavesStore newDisk (newDisk.putMessage noIndex 1 (ascii "one")).2 1 ↔
      noIndex.written = 0 ∧ newDisk.iod.length % 16 = 0 ∧ ∀ r ∈ records newDisk.iod, r.seq ≠ 1 :=
  failed_put_iff (by decide) (by decide) rfl (by decide) (by decide +kernel) (.inl rfl)

end Fix8.Persist
