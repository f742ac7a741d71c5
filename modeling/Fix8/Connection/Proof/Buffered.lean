import Fix8.Connection.Socket

/-!
# The buffered reader

What the buffered `sockRead` has read ahead stands between the two pointers, in front of what is
still to come. The first pointer is in the first half of the buffer between two requests, so that a
request up to the message limit fits behind it.

* `sockRead_eq`: the plain reader delivers the next bytes of the stream, however they come in;
* `Holding`: the unread bytes between the pointers; `triple_realSockRead`, `triple_handOver`,
  `triple_compact`: what becomes of them;
* **`buffered_reads`**: the two readers deliver the same, and the pointers stay in the buffer.
-/

namespace Fix8.Connection

open Lib Lib.Act Codec

/-! ## The socket -/

section
variable {s : Socket} {n sz : Nat}

/-- What a call for `n` bytes brings: some of the stream, or nothing yet, or nothing at the end of
the stream. -/
inductive Brings (s : Socket) (n : Nat) : Received × Socket → Prop where
  | bytes (bs : F8String) (s' : Socket) (hstream : s.stream = bs ++ s'.stream) (hpos : 0 < bs.length)
      (hle : bs.length ≤ n) (hsplits : s'.splits.length ≤ s.splits.length) :
      Brings s n (.bytes bs, s')
  | wouldBlock (s' : Socket) (hstream : s'.stream = s.stream)
      (hsplits : s'.splits.length < s.splits.length) : Brings s n (.wouldBlock, s')
  | closed (s' : Socket) (hstream : s.stream = []) : Brings s n (.closed, s')

theorem brings_take {s' : Socket} {k : Nat} (hstream : s'.stream = s.stream)
    (hsplits : s'.splits.length ≤ s.splits.length) (hpos : 0 < k) (hle : k ≤ n) :
    Brings s n (s'.take k) := by
  unfold Socket.take
  cases htake : s'.stream.take k with
  | nil =>
    refine .closed _ ?_
    rw [← hstream]
    rcases List.take_eq_nil_iff.1 htake with hk | hnil
    · omega
    · exact hnil
  | cons c cs =>
    refine .bytes _ _ ?_ (by simp) ?_ hsplits
    · rw [← htake, ← hstream]
      exact (List.take_append_drop k _).symm
    · rw [← htake, List.length_take]
      omega

/-- What `receiveBytes` brings. -/
theorem brings_receiveBytes (hn : 0 < n) : Brings s n (s.receiveBytes n) := by
  unfold Socket.receiveBytes
  cases hsplits : s.splits with
  | nil => exact brings_take rfl (by simp [hsplits]) hn (Nat.le_refl n)
  | cons k splits =>
    cases k with
    | zero => exact .wouldBlock _ rfl (by simp [hsplits])
    | succ k => exact brings_take rfl (by simp [hsplits]) (by omega) (by omega)

/-! ## Plain reading -/

/-- A turn of the plain reader, where the stream began with what has been read. -/
theorem triple_readTurn (stream : F8String) (sz : Nat) (c : Nat × F8String) (k : Nat) :
    Triple (fun s => (c.1 + c.2.length = sz ∧ stream = c.2 ++ s.stream) ∧
        s.splits.length + c.1 = k) (readTurn c)
      (Turned (fun c' s => (c'.1 + c'.2.length = sz ∧ stream = c'.2 ++ s.stream) ∧
        s.splits.length + c'.1 < k)
        fun bytes s => bytes.length = sz ∧ stream = bytes ++ s.stream)
      fun e _ => e = .peerReset ∧ stream.length < sz := by
  intro s hs
  obtain ⟨⟨hlen, hstream⟩, rfl⟩ := hs
  unfold readTurn
  rw [get_bind_apply]
  by_cases hpos : 0 < c.1
  · have hbrings := brings_receiveBytes (s := s) hpos
    rw [if_pos hpos]
    dsimp only
    rw [modify_bind_apply]
    generalize s.receiveBytes c.1 = r at hbrings ⊢
    cases hbrings with
    | bytes bs s' hbs hbpos hle hsplits =>
      refine ⟨⟨?_, ?_⟩, ?_⟩
      · simp only [List.length_append]
        omega
      · rw [hstream, hbs, List.append_assoc]
      · simp only
        omega
    | wouldBlock s' hsame hsplits =>
      refine ⟨⟨hlen, ?_⟩, ?_⟩
      · rw [hstream, hsame]
      · simp only
        omega
    | closed s' hnil =>
      refine ⟨rfl, ?_⟩
      rw [hstream, hnil, List.append_nil]
      omega
  · rw [if_neg hpos]
    exact ⟨by omega, hstream⟩

/-- **The plain reader** delivers the next `sz` bytes of the stream, however they come in, or throws
where there are fewer. -/
theorem sockRead_eq (s : Socket) (sz : Nat) :
    (∃ s', sockRead sz s = .ok (s.stream.take sz) s' ∧ s'.stream = s.stream.drop sz ∧
      sz ≤ s.stream.length) ∨
    ∃ s', sockRead sz s = .throw .peerReset s' ∧ s.stream.length < sz := by
  have hloop := triple_loop_measure ReadStop.fuel (fun c s => s.splits.length + c.1)
    (triple_readTurn s.stream sz) (s.splits.length + sz + 1) (sz, []) s
    ⟨⟨rfl, rfl⟩, by simp⟩
  unfold sockRead
  rw [get_bind_apply]
  cases hr : loop .fuel readTurn (s.splits.length + sz + 1) (sz, []) s with
  | ok bytes s' =>
    rw [hr] at hloop
    obtain ⟨rfl, hstream⟩ := hloop
    refine .inl ⟨s', ?_, ?_, ?_⟩
    · rw [hstream, List.take_left]
    · rw [hstream, List.drop_left]
    · rw [hstream, List.length_append]
      exact Nat.le_add_right ..
  | throw e s' =>
    rw [hr] at hloop
    obtain ⟨rfl, hlt⟩ := hloop
    exact .inr ⟨s', rfl, hlt⟩

end

/-! ## The buffer -/

/-- The pointers are ordered and in the buffer. -/
structure PointersOk (b : BufferedReader) : Prop where
  ordered : b.rptr ≤ b.wptr
  inside : b.wptr ≤ readBufferSize

/-- Between the pointers stands `ahead`, in front of what is still to come. -/
structure Holding (b : BufferedReader) (ahead stream : F8String) : Prop where
  size : b.buffer.length = readBufferSize
  segments : ∃ before behind, b.buffer = before ++ (ahead ++ behind) ∧ before.length = b.rptr
  wptr : b.wptr = b.rptr + ahead.length
  stream : stream = ahead ++ b.sock.stream

variable {b b' : BufferedReader} {ahead stream : F8String} {sz : Nat}

theorem Holding.pointersOk (h : Holding b ahead stream) : PointersOk b := by
  obtain ⟨hsize, ⟨before, behind, hbuffer, hrptr⟩, hwptr, -⟩ := h
  refine ⟨by omega, ?_⟩
  rw [← hsize, hbuffer]
  simp only [List.length_append]
  omega

/-- What is received is written behind what is held. -/
theorem Holding.receive (h : Holding b ahead stream) {bs : F8String} {sock : Socket}
    (hstream : b.sock.stream = bs ++ sock.stream) (hfits : b.wptr + bs.length ≤ readBufferSize) :
    ∃ buffer, write b.buffer b.wptr bs = some buffer ∧
      Holding ⟨sock, buffer, b.rptr, b.wptr + bs.length⟩ (ahead ++ bs) stream := by
  obtain ⟨hsize, ⟨before, behind, hbuffer, hrptr⟩, hwptr, hall⟩ := h
  have hlen : bs.length ≤ behind.length := by
    rw [hbuffer] at hsize
    simp only [List.length_append] at hsize
    omega
  obtain ⟨old, rest, rfl, hold⟩ := exists_segment hlen
  refine ⟨before ++ ahead ++ (bs ++ rest), ?_, ?_, ⟨before, rest, by simp, hrptr⟩, ?_, ?_⟩
  · rw [hbuffer, ← List.append_assoc before]
    refine write_append ?_ hold.symm
    simp only [List.length_append]
    omega
  · rw [hbuffer] at hsize
    simp only [List.length_append] at hsize ⊢
    omega
  · simp only [List.length_append]
    omega
  · rw [hall, hstream, List.append_assoc]

/-! ## Receiving -/

/-- What holds of the pointers while bytes are received for a request of `sz`, from `rptr` on. -/
def Receiving (stream : F8String) (rptr sz : Nat) (c : Int × Int) (b : BufferedReader) : Prop :=
  ∃ ahead, Holding b ahead stream ∧ b.rptr = rptr ∧ c.2 = sz - ahead.length ∧ c.2 ≤ c.1 ∧
    c.1 ≤ readBufferSize - b.wptr

/-- The request can be met. -/
def Filled (stream : F8String) (rptr sz : Nat) (b : BufferedReader) : Prop :=
  ∃ ahead, Holding b ahead stream ∧ b.rptr = rptr ∧ sz ≤ ahead.length

theorem triple_receiveTurn (stream : F8String) (rptr sz : Nat) (c : Int × Int) (k : Nat) :
    Triple (fun b => Receiving stream rptr sz c b ∧ b.sock.splits.length + c.2.toNat = k)
      (receiveTurn c)
      (Turned (fun c' b => Receiving stream rptr sz c' b ∧ b.sock.splits.length + c'.2.toNat < k)
        fun _ b => Filled stream rptr sz b)
      fun e b => (e = .peerReset ∧ stream.length < sz) ∧ PointersOk b := by
  intro b hb
  obtain ⟨⟨ahead, hholding, hrptr, hneed, hle, hroom⟩, rfl⟩ := hb
  have hinside := hholding.pointersOk.inside
  unfold receiveTurn
  rw [get_bind_apply]
  by_cases hpos : 0 < c.2 ∧ b.wptr < readBufferSize
  · have hbrings := brings_receiveBytes (s := b.sock) (n := c.1.toNat) (by omega)
    rw [if_pos hpos]
    dsimp only
    rw [modify_bind_apply]
    generalize b.sock.receiveBytes c.1.toNat = r at hbrings ⊢
    cases hbrings with
    | bytes bs sock hbs hbpos hble hsplits =>
      obtain ⟨buffer, hwrite, hholding'⟩ := hholding.receive hbs (by omega)
      dsimp only
      rw [hwrite]
      refine ⟨⟨ahead ++ bs, hholding', hrptr, ?_, ?_, ?_⟩, ?_⟩
      · simp only [List.length_append]
        omega
      · simp only
        omega
      · simp only
        omega
      · simp only
        omega
    | wouldBlock sock hsame hsplits =>
      refine ⟨⟨ahead, ⟨hholding.size, hholding.segments, hholding.wptr, ?_⟩, hrptr, hneed, hle,
        hroom⟩, ?_⟩
      · rw [hholding.stream, hsame]
      · simp only
        omega
    | closed sock hnil =>
      refine ⟨⟨rfl, ?_⟩, hholding.pointersOk.ordered, hinside⟩
      rw [hholding.stream, hnil, List.append_nil]
      omega
  · rw [if_neg hpos]
    exact ⟨ahead, hholding, hrptr, by omega⟩

/-- At the first turn. -/
theorem Holding.receiving (h : Holding b ahead stream) (hrptr : b.rptr ≤ maxMsgLen)
    (hsz : sz ≤ maxMsgLen) (hmore : b.wptr - b.rptr < sz) :
    Receiving stream b.rptr sz (b.toReceive (sz - (b.wptr - b.rptr)) maxMsgLen) b := by
  have hwptr := h.wptr
  have hinside := h.pointersOk.inside
  unfold readBufferSize at hinside
  refine ⟨ahead, h, rfl, ?_, ?_, ?_⟩
  · unfold BufferedReader.toReceive readBufferSize
    simp only
    omega
  · unfold BufferedReader.toReceive readBufferSize
    simp only
    omega
  · unfold BufferedReader.toReceive readBufferSize
    simp only
    omega

/-- **What the buffer does not have is read**, unless the stream ends. -/
theorem triple_fill (h : Holding b ahead stream) (hrptr : b.rptr ≤ maxMsgLen)
    (hsz : sz ≤ maxMsgLen) :
    Triple (fun b' => b' = b) (fill sz) (fun _ b' => Filled stream b.rptr sz b')
      fun e b' => (e = .peerReset ∧ stream.length < sz) ∧ PointersOk b' := by
  rintro b' rfl
  unfold fill
  rw [get_bind_apply]
  by_cases hmore : b'.wptr - b'.rptr < sz
  · rw [if_pos hmore]
    have hstart := h.receiving hrptr hsz hmore
    have hloop := triple_loop_measure ReadStop.fuel
      (fun c (b : BufferedReader) => b.sock.splits.length + c.2.toNat)
      (triple_receiveTurn stream b'.rptr sz)
      (b'.sock.splits.length + (sz - (b'.wptr - b'.rptr)) + 1)
      (b'.toReceive (sz - (b'.wptr - b'.rptr)) maxMsgLen) b' ⟨hstart, by
        obtain ⟨ahead', h', -, hneed, -⟩ := hstart
        have hwptr := h'.wptr
        omega⟩
    unfold realSockRead
    rw [bind_apply, get_bind_apply, bind_apply]
    cases hr : loop .fuel receiveTurn (b'.sock.splits.length + (sz - (b'.wptr - b'.rptr)) + 1)
        (b'.toReceive (sz - (b'.wptr - b'.rptr)) maxMsgLen) b' with
    | ok u b'' =>
      rw [hr] at hloop
      exact hloop
    | throw e b'' =>
      rw [hr] at hloop
      exact hloop
  · rw [if_neg hmore]
    exact ⟨ahead, h, rfl, by have := h.wptr; omega⟩

/-! ## Handing over -/

/-- The bytes that are handed over are the next ones of the stream. -/
theorem Holding.handOver (h : Holding b ahead stream) (hsz : sz ≤ ahead.length) :
    Connection.handOver sz b = .ok (stream.take sz) { b with rptr := b.rptr + sz } ∧
      Holding { b with rptr := b.rptr + sz } (ahead.drop sz) (stream.drop sz) := by
  obtain ⟨hsize, ⟨before, behind, hbuffer, hrptr⟩, hwptr, hstream⟩ := h
  have hmin : min (b.wptr - b.rptr) sz = sz := by omega
  have hread : read b.buffer b.rptr sz = some (ahead.take sz) := by
    rw [hbuffer, ← List.take_append_drop sz ahead, List.append_assoc]
    rw [List.take_append_drop sz ahead]
    refine read_append (by rw [hrptr]) ?_
    rw [List.length_take]
    omega
  constructor
  · unfold Connection.handOver
    rw [get_bind_apply, hmin, hread, hstream, List.take_append_of_le_length hsz]
    rfl
  · refine ⟨hsize, ⟨before ++ ahead.take sz, behind, ?_, ?_⟩, ?_, ?_⟩
    · simp only [hbuffer, List.append_assoc]
      rw [← List.append_assoc (ahead.take sz), List.take_append_drop]
    · rw [List.length_append, List.length_take, hrptr]
      simp only
      omega
    · rw [List.length_drop]
      simp only
      omega
    · rw [hstream, List.drop_append_of_le_length hsz]

/-- What is held survives the compaction. -/
theorem Holding.compact (h : Holding b ahead stream) (hrptr : b.rptr ≤ readBufferSize) :
    ∃ b', Connection.compact b = .ok () b' ∧ Holding b' ahead stream ∧ b'.rptr ≤ maxMsgLen := by
  obtain ⟨hsize, ⟨before, behind, hbuffer, hbefore⟩, hwptr, hstream⟩ := h
  unfold readBufferSize at hsize hrptr
  unfold Connection.compact
  rw [get_bind_apply]
  by_cases hshift : maxMsgLen ≤ b.rptr
  · rw [if_pos hshift]
    have hlen : maxMsgLen ≤ before.length := by omega
    obtain ⟨front, back, rfl, hfront⟩ := exists_segment hlen
    rw [List.length_append] at hbefore
    have hdrop : b.buffer.drop maxMsgLen = back ++ (ahead ++ behind) := by
      rw [hbuffer, List.append_assoc]
      exact List.drop_left' hfront
    have hhalf : front.length = (back ++ (ahead ++ behind)).length := by
      rw [hbuffer] at hsize
      simp only [List.length_append] at hsize ⊢
      omega
    have hwrite : write b.buffer 0 (b.buffer.drop maxMsgLen) =
        some ((back ++ (ahead ++ behind)) ++ (back ++ (ahead ++ behind))) := by
      rw [hdrop]
      have hsplit : b.buffer = [] ++ (front ++ (back ++ (ahead ++ behind))) := by
        rw [hbuffer]
        simp
      rw [hsplit]
      exact write_append rfl hhalf.symm
    rw [hwrite]
    refine ⟨_, rfl, ⟨?_, ⟨back, behind ++ (back ++ (ahead ++ behind)), by simp, ?_⟩, ?_, hstream⟩, ?_⟩
    · rw [hbuffer] at hsize
      simp only [List.length_append] at hsize hhalf ⊢
      unfold readBufferSize
      omega
    · simp only
      omega
    · simp only
      omega
    · simp only
      omega
  · rw [if_neg hshift]
    exact ⟨b, rfl, ⟨hsize, ⟨before, behind, hbuffer, hbefore⟩, hwptr, hstream⟩, by omega⟩

/-- Between two requests. -/
def Ready (b : BufferedReader) (stream : F8String) : Prop :=
  (∃ ahead, Holding b ahead stream) ∧ b.rptr ≤ maxMsgLen

theorem ready_opened (sock : Socket) : Ready (.opened sock) sock.stream :=
  ⟨⟨[], List.length_replicate, ⟨[], List.replicate readBufferSize 0, rfl, rfl⟩, rfl, rfl⟩,
    Nat.zero_le _⟩

/-- **The buffered reader** delivers the next `sz` bytes of the stream, or throws where there are
fewer. -/
theorem bufferedSockRead_eq (h : Ready b stream) (hsz : sz ≤ maxMsgLen) :
    (∃ b', bufferedSockRead sz b = .ok (stream.take sz) b' ∧ Ready b' (stream.drop sz) ∧
      sz ≤ stream.length) ∨
    ∃ b', bufferedSockRead sz b = .throw .peerReset b' ∧ stream.length < sz ∧ PointersOk b' := by
  obtain ⟨⟨ahead, hholding⟩, hrptr⟩ := h
  have hfill := triple_fill hholding hrptr hsz b rfl
  unfold bufferedSockRead
  cases hr : fill sz b with
  | ok u b₁ =>
    rw [hr] at hfill
    obtain ⟨ahead₁, hholding₁, hrptr₁, hle⟩ := hfill
    obtain ⟨hover, hholding₂⟩ := hholding₁.handOver hle
    have hinside := hholding₂.pointersOk
    obtain ⟨b₃, hcompact, hholding₃, hrptr₃⟩ :=
      hholding₂.compact (Nat.le_trans hinside.ordered hinside.inside)
    refine .inl ⟨b₃, ?_, ⟨⟨_, hholding₃⟩, hrptr₃⟩, ?_⟩
    · rw [bind_ok hr, bind_ok hover, bind_ok hcompact]
      rfl
    · rw [hholding₁.stream, List.length_append]
      omega
  | throw e b₁ =>
    rw [hr] at hfill
    obtain ⟨⟨rfl, hlt⟩, hpointers⟩ := hfill
    exact .inr ⟨b₁, bind_throw hr _, hlt, hpointers⟩

/-! ## Requests -/

/-- The states that the reader goes through while the requests are met: every turn of the loop that
receives, and the state behind each step. -/
inductive Visits : List Nat → BufferedReader → BufferedReader → Prop where
  | here (sizes : List Nat) (b : BufferedReader) : Visits sizes b b
  | receive (sizes : List Nat) (sz : Nat) (b b' : BufferedReader) (c : Int × Int)
      (hmore : b.wptr - b.rptr < sz)
      (hr : Reaches receiveTurn (b.toReceive (sz - (b.wptr - b.rptr)) maxMsgLen) b c b') :
      Visits (sz :: sizes) b b'
  | fill (sizes : List Nat) (sz : Nat) (b b' : BufferedReader) (h : (fill sz b).state = b') :
      Visits (sz :: sizes) b b'
  | handOver (sizes : List Nat) (sz : Nat) (b b₁ b' : BufferedReader) (h : fill sz b = .ok () b₁)
      (h' : (handOver sz b₁).state = b') : Visits (sz :: sizes) b b'
  | next (sizes : List Nat) (sz : Nat) (b b₁ b' : BufferedReader) (bytes : F8String)
      (h : bufferedSockRead sz b = .ok bytes b₁) (hv : Visits sizes b₁ b') : Visits (sz :: sizes) b b'

/-- The pointers are in the buffer throughout. -/
theorem visits_pointersOk {sizes : List Nat} (hv : Visits sizes b b') :
    (∀ sz ∈ sizes, sz ≤ maxMsgLen) → ∀ {stream : F8String}, Ready b stream → PointersOk b' := by
  induction hv with
  | here sizes b =>
    intro _ stream h
    obtain ⟨⟨ahead, hholding⟩, -⟩ := h
    exact hholding.pointersOk
  | receive sizes sz b b' c hmore hr =>
    intro hsizes stream h
    obtain ⟨⟨ahead, hholding⟩, hrptr⟩ := h
    have hreached : Receiving stream b.rptr sz c b' := by
      induction hr with
      | here => exact hholding.receiving hrptr (hsizes sz List.mem_cons_self) hmore
      | next _ hturn ih => exact ((triple_receiveTurn _ _ _ _ _).ok ⟨ih, rfl⟩ hturn).1
    obtain ⟨_, h', -⟩ := hreached
    exact h'.pointersOk
  | fill sizes sz b b' h =>
    intro hsizes stream hready
    obtain ⟨⟨ahead, hholding⟩, hrptr⟩ := hready
    have hfill := triple_fill hholding hrptr (hsizes sz List.mem_cons_self) b rfl
    rw [← h]
    cases hr : Connection.fill sz b with
    | ok u b₁ =>
      rw [hr] at hfill
      obtain ⟨_, h', -⟩ := hfill
      exact h'.pointersOk
    | throw e b₁ =>
      rw [hr] at hfill
      exact hfill.2
  | handOver sizes sz b b₁ b' h h' =>
    intro hsizes stream hready
    obtain ⟨⟨ahead, hholding⟩, hrptr⟩ := hready
    obtain ⟨ahead₁, hholding₁, -, hle⟩ :=
      (triple_fill hholding hrptr (hsizes sz List.mem_cons_self)).ok rfl h
    obtain ⟨hover, hholding₂⟩ := hholding₁.handOver hle
    rw [← h', hover]
    exact hholding₂.pointersOk
  | next sizes sz b b₁ b' bytes h hv ih =>
    intro hsizes stream hready
    rcases bufferedSockRead_eq hready (hsizes sz List.mem_cons_self) with
      ⟨b₂, hread, hready₂, -⟩ | ⟨b₂, hread, -⟩
    · rw [h] at hread
      obtain ⟨rfl, rfl⟩ := Res.ok.inj hread
      exact ih (fun sz hsz => hsizes sz (List.mem_cons_of_mem _ hsz)) hready₂
    · rw [h] at hread
      cases hread

/-- Requests to the two readers, on the same stream. -/
theorem reads_eq {sizes : List Nat} : (∀ sz ∈ sizes, sz ≤ maxMsgLen) →
    ∀ {b : BufferedReader} {s : Socket}, Ready b s.stream →
      (reads bufferedSockRead sizes b).1 = (reads sockRead sizes s).1 := by
  induction sizes with
  | nil => exact fun _ _ _ _ => rfl
  | cons sz sizes ih =>
    intro hsizes b s h
    obtain ⟨hsz, hsizes⟩ := List.forall_mem_cons.1 hsizes
    rcases bufferedSockRead_eq h hsz with ⟨b', hbuffered, hready, hle⟩ | ⟨b', hbuffered, hlt, -⟩
    · rcases sockRead_eq s sz with ⟨s', hplain, hstream, -⟩ | ⟨s', -, hlt⟩
      · rw [reads, reads, hbuffered, hplain]
        rw [← hstream] at hready
        exact congrArg _ (ih hsizes hready)
      · omega
    · rcases sockRead_eq s sz with ⟨s', -, -, hle⟩ | ⟨s', hplain, -⟩
      · omega
      · rw [reads, reads, hbuffered, hplain]

/-- **Buffered reading equals plain reading**: requests up to the message limit deliver the same
bytes in the same order, however the stream comes in, and the pointers of the buffered reader stay
ordered and in the buffer throughout. -/
theorem buffered_reads (sizes : List Nat) (hsizes : ∀ sz ∈ sizes, sz ≤ maxMsgLen) (stream : F8String)
    (splits splits' : List Nat) :
    (reads bufferedSockRead sizes (.opened ⟨stream, splits⟩)).1 =
      (reads sockRead sizes ⟨stream, splits'⟩).1 ∧
    ∀ b, Visits sizes (.opened ⟨stream, splits⟩) b → PointersOk b :=
  ⟨reads_eq hsizes (ready_opened ⟨stream, splits⟩),
    fun _ hv => visits_pointersOk hv hsizes (ready_opened ⟨stream, splits⟩)⟩

theorem buffered_reads_demo :
    (reads bufferedSockRead [2, 1] (.opened ⟨ascii "abc", [1, 0, 3]⟩)).1 =
      (reads sockRead [2, 1] ⟨ascii "abc", [2]⟩).1 ∧
    ∀ b, Visits [2, 1] (.opened ⟨ascii "abc", [1, 0, 3]⟩) b → PointersOk b :=
  buffered_reads [2, 1] (by decide) (ascii "abc") [1, 0, 3] [2]

end Fix8.Connection
