import Fix8.Queue.Mpmc
import Fix8.Lib.Ticket

/-!
# Any number of threads on a queue

The numbers of the pushes are tickets, and so are those of the pops, both in the lanes of the
buffers: a thread that pushes to a buffer, or pops from it, is the only one that does. The item of a
push has the same number as the pop that takes it, so the queue is first in, first out in the order
of the numbers.

* `producers`, `consumers`: the two counters as tickets;
* `Holds`: the invariant; `holds_claimP`, `holds_store`, `holds_finishP` and the same for a `pop`:
  the turns that change more than the place of a thread;
* **`mpmc_fifo`**: every run of turns of any threads.
-/

namespace Fix8.Queue.Mpmc

open Lib

variable {τ α : Type}

/-! ## Tickets -/

/-- The number that a thread pushes under. -/
def pushHolds : MpmcPc α → Option Nat
  | .pushStore _ pw => some pw
  | .pushDone _ pw => some pw
  | _ => none

/-- The number that a thread tries to push under. -/
def pushAims : MpmcPc α → Option Nat
  | .pushCas _ pw => some pw
  | _ => none

/-- The number that a thread pops. -/
def popHolds : MpmcPc α → Option Nat
  | .popTake pr => some pr
  | .popDone _ pr => some pr
  | _ => none

/-- The number that a thread tries to pop. -/
def popAims : MpmcPc α → Option Nat
  | .popFilled pr => some pr
  | .popCas pr => some pr
  | _ => none

/-- The numbers of the pushes. -/
def producers (s : Mpmc τ α) : Tickets τ :=
  ⟨s.preadP, s.seqP, pushHolds ∘ s.threads, pushAims ∘ s.threads⟩

/-- The numbers of the pops. -/
def consumers (s : Mpmc τ α) : Tickets τ :=
  ⟨s.preadC, s.seqC, popHolds ∘ s.threads, popAims ∘ s.threads⟩

/-- What a thread has read is not ahead of the counter. -/
def Behind (s : Mpmc τ α) : MpmcPc α → Prop
  | .pushLook _ pw => pw ≤ s.preadP
  | .popLook pr => pr ≤ s.preadC
  | _ => True

/-- What a thread knows of the items; the next item of buffer `i` to be taken has the number `a i`,
and the next to be stored the number `b i`. -/
def Knows (n : Nat) (s : Mpmc τ α) (a b : Nat → Nat) : MpmcPc α → Prop
  | .pushStore data t => (puts s.acts)[t]? = some data ∧ b (t % n) = t
  | .pushDone data t => (puts s.acts)[t]? = some data ∧ b (t % n) = t + n
  | .popCas t => t < s.seqP (t % n)
  | .popTake t => a (t % n) = t
  | .popDone data t => (∃ x, data = some x ∧ (puts s.acts)[t]? = some x) ∧ a (t % n) = t + n
  | _ => True

/-- Buffer `i` has the items from the number `a i` on up to `b i`. -/
structure Filled (n : Nat) (s : Mpmc τ α) (a b : Nat → Nat) (i : Nat) : Prop where
  length : a i + n * (s.buf i).length = b i
  items : ∀ k x, (s.buf i)[k]? = some x → (puts s.acts)[a i + n * k]? = some x
  stored : s.seqP i ≤ b i
  level : (∀ th data, s.threads th ≠ .pushDone data (s.seqP i)) → b i = s.seqP i
  taken : (∀ th data, s.threads th ≠ .popDone data (s.seqC i)) → a i = s.seqC i

/-- What the calls of `pop` have returned. -/
structure Returned (n : Nat) (s : Mpmc τ α) : Prop where
  items : ∀ p ∈ s.popped, ∃ x, p.2 = some x ∧ (puts s.acts)[p.1]? = some x
  finished : ∀ t, t ∈ s.popped.map (·.1) ↔ t < s.seqC (t % n)
  nodup : (s.popped.map (·.1)).Nodup

/-- The invariant. -/
structure Holds (n : Nat) (s : Mpmc τ α) (a b : Nat → Nat) : Prop where
  count : s.mask + 1 = n
  power : n.isPowerOfTwo
  numbered : (puts s.acts).length = s.preadP
  run : FifoRun [] s.acts ((puts s.acts).drop s.preadC)
  producers : s.producers.Ok n
  consumers : s.consumers.Ok n
  complete : ∀ t, t < s.preadC → t < s.seqP (t % n)
  behind : ∀ th, Behind s (s.threads th)
  knows : ∀ th, Knows n s a b (s.threads th)
  filled : ∀ i, i < n → Filled n s a b i
  returned : Returned n s

theorem Holds.and_mask {n : Nat} {s : Mpmc τ α} {a b : Nat → Nat} (h : Holds n s a b) (t : Nat) :
    t &&& s.mask = t % n := by
  obtain ⟨k, hk⟩ := h.power
  have hmask : s.mask = 2 ^ k - 1 := by
    have := h.count
    omega
  rw [hmask, Nat.and_two_pow_sub_one_eq_mod, hk]

theorem Holds.pos {n : Nat} {s : Mpmc τ α} {a b : Nat → Nat} (h : Holds n s a b) : 0 < n :=
  Nat.pos_of_isPowerOfTwo h.power

theorem queueCount_power (nqueues : Nat) : (queueCount nqueues).isPowerOfTwo := by
  unfold queueCount
  dsimp only
  generalize (if nqueues < 2 then 2 else nqueues) = m
  split
  · rename_i h
    simp only [isPowerOf2, ne_eq, Bool.and_eq_true, decide_eq_true_eq] at h
    exact Nat.ne_zero_and_sub_one_eq_zero_iff_isPowerOfTwo.1 h
  · exact Nat.isPowerOfTwo_nextPowerOfTwo m

theorem holds_init (nqueues : Nat) :
    Holds (queueCount nqueues) (init nqueues : Mpmc τ α) id id := by
  have hpower := queueCount_power nqueues
  have hpos := Nat.pos_of_isPowerOfTwo hpower
  have hok : ∀ T : Tickets τ, T.next = 0 → T.seq = id → (∀ th, T.holds th = none) →
      (∀ th, T.aims th = none) → T.Ok (queueCount nqueues) := by
    intro T hnext hseq hholds haims
    refine ⟨fun i hi => ?_, fun i hi => ?_, by simp [hholds], by simp [hholds], by simp [hnext],
      by simp [haims]⟩
    · rw [hseq]
      exact Nat.mod_eq_of_lt hi
    · rw [hseq, hnext]
      simp only [id]
      omega
  refine ⟨Nat.sub_add_cancel hpos, hpower, rfl, .start, hok _ rfl rfl (fun _ => rfl) fun _ => rfl,
    hok _ rfl rfl (fun _ => rfl) fun _ => rfl, by simp [init], fun _ => trivial, fun _ => trivial,
    fun i hi => ⟨by simp [init], by simp [init], Nat.le_refl _, fun _ => rfl, fun _ => rfl⟩,
    ⟨by simp [init], fun t => ?_, by simp [init]⟩⟩
  have hle := Nat.mod_le t (queueCount nqueues)
  simp only [init, List.map_nil, List.not_mem_nil, id, false_iff]
  omega

/-! ## The place of a thread -/

variable {n : Nat} {s s' : Mpmc τ α} {a b a' b' : Nat → Nat} {th : τ}

/-- What is known stays known as more items come, and numbers are finished. -/
theorem Knows.mono {pc : MpmcPc α} (h : Knows n s a b pc)
    (hputs : ∀ (t : Nat) x, (puts s.acts)[t]? = some x → (puts s'.acts)[t]? = some x)
    (hseq : ∀ i, s.seqP i ≤ s'.seqP i)
    (ha : ∀ t, popHolds pc = some t → a' (t % n) = a (t % n))
    (hb : ∀ t, pushHolds pc = some t → b' (t % n) = b (t % n)) : Knows n s' a' b' pc := by
  cases pc with
  | pushStore data t => exact ⟨hputs t data h.1, (hb t rfl).trans h.2⟩
  | pushDone data t => exact ⟨hputs t data h.1, (hb t rfl).trans h.2⟩
  | popCas t => exact Nat.lt_of_lt_of_le h (hseq (t % n))
  | popTake t => exact (ha t rfl).trans h
  | popDone data t =>
    obtain ⟨⟨x, hx, hput⟩, hat⟩ := h
    exact ⟨⟨x, hx, hputs t x hput⟩, (ha t rfl).trans hat⟩
  | _ => trivial

/-- Nothing has happened to a buffer. -/
theorem Filled.mono {i : Nat} (h : Filled n s a b i)
    (hputs : ∀ (t : Nat) x, (puts s.acts)[t]? = some x → (puts s'.acts)[t]? = some x)
    (hbuf : s'.buf i = s.buf i) (hseqP : s'.seqP i = s.seqP i) (hseqC : s'.seqC i = s.seqC i)
    (hpush : ∀ th data, s.threads th = .pushDone data (s.seqP i) →
      s'.threads th = .pushDone data (s.seqP i))
    (hpop : ∀ th data, s.threads th = .popDone data (s.seqC i) →
      s'.threads th = .popDone data (s.seqC i)) : Filled n s' a b i where
  length := hbuf ▸ h.length
  items k x hx := hputs _ x (h.items k x (hbuf ▸ hx))
  stored := hseqP ▸ h.stored
  level hnone := by
    rw [hseqP] at hnone ⊢
    exact h.level fun th data hd => hnone th data (hpush th data hd)
  taken hnone := by
    rw [hseqC] at hnone ⊢
    exact h.taken fun th data hd => hnone th data (hpop th data hd)

/-- Only a number that a push has taken is popped. -/
theorem Holds.le (h : Holds n s a b) : s.preadC ≤ s.preadP := by
  by_contra hlt
  have hdone := h.complete s.preadP (by omega)
  exact absurd (h.producers.lt_next h.pos hdone) (Nat.lt_irrefl _)

/-- The item that a pop takes is in its buffer, and is the first. -/
theorem Holds.ready (h : Holds n s a b) {t : Nat} (hpc : s.threads th = .popTake t) :
    ∃ x rest, s.buf (t % n) = x :: rest ∧ (puts s.acts)[t]? = some x := by
  have hi : t % n < n := Nat.mod_lt _ h.pos
  have hf := h.filled _ hi
  have hholds : s.consumers.holds th = some t := by simp [Mpmc.consumers, hpc, popHolds]
  have hdone := h.complete t (h.consumers.turn th t hholds).2
  have hat : a (t % n) = t := by
    have := h.knows th
    rwa [hpc] at this
  cases hbuf : s.buf (t % n) with
  | nil =>
    have hlen := hf.length
    have hstored := hf.stored
    simp only [hbuf, List.length_nil, Nat.mul_zero] at hlen
    omega
  | cons x rest =>
    refine ⟨x, rest, rfl, ?_⟩
    have hput := hf.items 0 x (by simp [hbuf])
    rwa [hat, Nat.mul_zero, Nat.add_zero] at hput

/-- A `pop` that finds its number unused: it is the next one, and its `push` has not returned. -/
theorem Holds.empty (h : Holds n s a b) {t : Nat} (hpc : s.threads th = .popFilled t)
    (hempty : s.seqP (t &&& s.mask) ≤ t) :
    t = s.preadC ∧ (t = (puts s.acts).length ∨ ∃ th', pushHolds (s.threads th') = some t) := by
  rw [h.and_mask] at hempty
  have haim : s.consumers.aims th = some t := by simp [Mpmc.consumers, hpc, popAims]
  have hle : t ≤ s.preadC := (h.consumers.aimed th t haim).1
  have heq : t = s.preadC := by
    by_contra hne
    exact absurd (h.complete t (Nat.lt_of_le_of_ne hle hne)) (Nat.not_lt.2 hempty)
  refine ⟨heq, ?_⟩
  rw [h.numbered]
  rcases Nat.lt_or_ge t s.preadP with hlt | hge
  · rcases h.producers.finished_or_held h.pos hlt with hdone | hheld
    · exact absurd hdone (Nat.not_lt.2 hempty)
    · exact .inr hheld
  · exact .inl (Nat.le_antisymm (heq ▸ h.le) hge)

/-- One more call of `pop` has returned. -/
theorem Returned.finish {s' : Mpmc τ α} (h : Returned n s) {x : α} {t : Nat} (hn : 0 < n)
    (hup : s.seqC (t % n) = t) (hput : (puts s.acts)[t]? = some x)
    (hacts : s'.acts = s.acts) (hseq : s'.seqC = Function.update s.seqC (t % n) (t + n))
    (hpopped : s'.popped = s.popped ++ [(t, some x)]) : Returned n s' := by
  have hnew : t ∉ s.popped.map (·.1) := by
    rw [h.finished t, hup]
    exact Nat.lt_irrefl t
  refine ⟨fun p hp => ?_, fun t' => ?_, ?_⟩
  · rw [hacts]
    rw [hpopped, List.mem_append, List.mem_singleton] at hp
    obtain hold | rfl := hp
    · exact h.items p hold
    · exact ⟨x, rfl, hput⟩
  · simp only [hpopped, hseq, List.map_append, List.map_cons, List.map_nil, List.mem_append,
      List.mem_singleton, h.finished t']
    by_cases hl : t' % n = t % n
    · rw [hl, hup, Function.update_self]
      refine ⟨by omega, fun hlt => ?_⟩
      rcases Nat.lt_or_ge t' t with hold | hge
      · exact .inl hold
      · exact .inr (Tickets.lane_eq_or hl hlt (by omega))
    · rw [Function.update_of_ne hl, or_iff_left]
      exact fun he => hl (he ▸ rfl)
  · rw [hpopped, List.map_append, List.map_singleton]
    refine List.nodup_append.2 ⟨h.nodup, by simp, fun t' ht' u hu he => hnew ?_⟩
    rw [List.mem_singleton] at hu
    subst hu
    rwa [he] at ht'

variable [DecidableEq τ]

theorem producers_goto (s : Mpmc τ α) (th : τ) (pc : MpmcPc α) : (s.goto th pc).producers =
    { s.producers with
      holds := Function.update s.producers.holds th (pushHolds pc)
      aims := Function.update s.producers.aims th (pushAims pc) } := by
  simp [producers, goto, Function.comp_update]

theorem consumers_goto (s : Mpmc τ α) (th : τ) (pc : MpmcPc α) : (s.goto th pc).consumers =
    { s.consumers with
      holds := Function.update s.consumers.holds th (popHolds pc)
      aims := Function.update s.consumers.aims th (popAims pc) } := by
  simp [consumers, goto, Function.comp_update]

theorem producers_same (s : Mpmc τ α) (th : τ) {pc : MpmcPc α}
    (hholds : pushHolds pc = pushHolds (s.threads th))
    (haims : pushAims pc = pushAims (s.threads th)) : (s.goto th pc).producers = s.producers := by
  rw [producers_goto, hholds, haims]
  simp only [producers]
  rw [← Function.comp_apply (f := pushHolds), ← Function.comp_apply (f := pushAims),
    Function.update_eq_self, Function.update_eq_self]

theorem consumers_same (s : Mpmc τ α) (th : τ) {pc : MpmcPc α}
    (hholds : popHolds pc = popHolds (s.threads th))
    (haims : popAims pc = popAims (s.threads th)) : (s.goto th pc).consumers = s.consumers := by
  rw [consumers_goto, hholds, haims]
  simp only [consumers]
  rw [← Function.comp_apply (f := popHolds), ← Function.comp_apply (f := popAims),
    Function.update_eq_self, Function.update_eq_self]

/-- A thread that neither takes a number nor has one may look for one. -/
theorem ok_producers (h : s.producers.Ok n) {pc : MpmcPc α}
    (hholds : pushHolds pc = pushHolds (s.threads th))
    (haims : ∀ t, pushAims pc = some t → t ≤ s.preadP ∧ s.seqP (t % n) = t) :
    (s.goto th pc).producers.Ok n := by
  have hsame : Function.update s.producers.holds th (pushHolds pc) = s.producers.holds := by
    rw [hholds]
    exact Function.update_eq_self th _
  rw [producers_goto, hsame]
  cases haim : pushAims pc with
  | none => exact h.giveUp _
  | some t =>
    obtain ⟨hle, hup⟩ := haims t haim
    exact h.aim hle hup

theorem ok_consumers (h : s.consumers.Ok n) {pc : MpmcPc α}
    (hholds : popHolds pc = popHolds (s.threads th))
    (haims : ∀ t, popAims pc = some t → t ≤ s.preadC ∧ s.seqC (t % n) = t) :
    (s.goto th pc).consumers.Ok n := by
  have hsame : Function.update s.consumers.holds th (popHolds pc) = s.consumers.holds := by
    rw [hholds]
    exact Function.update_eq_self th _
  rw [consumers_goto, hsame]
  cases haim : popAims pc with
  | none => exact h.giveUp _
  | some t =>
    obtain ⟨hle, hup⟩ := haims t haim
    exact h.aim hle hup

theorem forall_goto {P : MpmcPc α → Prop} {pc : MpmcPc α} (hpc : P pc)
    (h : ∀ th', th' ≠ th → P (s.threads th')) (th' : τ) : P ((s.goto th pc).threads th') := by
  by_cases he : th' = th
  · subst he
    simpa [goto] using hpc
  · simpa [goto, Function.update_of_ne he] using h th' he

theorem goto_of_ne {pc : MpmcPc α} {th' : τ} (he : th' ≠ th) :
    (s.goto th pc).threads th' = s.threads th' := Function.update_of_ne he _ _

/-- Another thread is where it was. -/
theorem goto_keeps {pc x : MpmcPc α} {th' : τ} (hne : s.threads th ≠ x) (h : s.threads th' = x) :
    (s.goto th pc).threads th' = x := by
  rw [goto_of_ne, h]
  intro he
  exact hne (he ▸ h)

/-- A turn that changes no more than the place of a thread. -/
theorem Holds.goto (h : Holds n s a b) {pc : MpmcPc α}
    (hP : (s.goto th pc).producers.Ok n) (hC : (s.goto th pc).consumers.Ok n)
    (hbehind : Behind s pc) (hknows : Knows n s a b pc)
    (hpush : ∀ data t, s.threads th ≠ .pushDone data t)
    (hpop : ∀ data t, s.threads th ≠ .popDone data t) : Holds n (s.goto th pc) a b where
  count := h.count
  power := h.power
  numbered := h.numbered
  run := h.run
  producers := hP
  consumers := hC
  complete := h.complete
  behind := forall_goto hbehind fun th' _ => h.behind th'
  knows := forall_goto (P := Knows n s a b) hknows fun th' _ => h.knows th'
  filled i hi := (h.filled i hi).mono (fun _ _ hx => hx) rfl rfl rfl
    (fun _ data hd => goto_keeps (hpush data _) hd) fun _ data hd => goto_keeps (hpop data _) hd
  returned := ⟨h.returned.items, h.returned.finished, h.returned.nodup⟩

/-! ## Pushing -/

/-- A push takes its number. -/
theorem holds_claimP (h : Holds n s a b) {data : α} (hpc : s.threads th = .pushCas data s.preadP) :
    Holds n { s.goto th (.pushStore data s.preadP) with
      preadP := s.preadP + 1, acts := s.acts ++ [.put data] } a b := by
  have haim : s.producers.aims th = some s.preadP := by simp [producers, hpc, pushAims]
  have hfree : s.producers.holds th = none := by simp [producers, hpc, pushHolds]
  have hup : s.seqP (s.preadP % n) = s.preadP := (h.producers.aimed th _ haim).2 rfl
  have hi : s.preadP % n < n := Nat.mod_lt _ h.pos
  have hputs : ∀ (t : Nat) x, (puts s.acts)[t]? = some x →
      (puts (s.acts ++ [.put data]))[t]? = some x := by
    intro t x hx
    obtain ⟨ht, -⟩ := List.getElem?_eq_some_iff.1 hx
    rw [puts_append, List.getElem?_append_left ht, hx]
  have hlevel : b (s.preadP % n) = s.preadP := by
    rw [(h.filled _ hi).level, hup]
    intro th' data' hd
    have hholds : s.producers.holds th' = some s.preadP := by
      simp [producers, hd, pushHolds, hup]
    exact absurd (h.producers.turn th' _ hholds).2 (Nat.lt_irrefl _)
  refine ⟨h.count, h.power, ?_, ?_, ?_, ?_, h.complete, ?_, ?_, fun i hi => ?_, ?_⟩
  · show (puts (s.acts ++ [.put data])).length = s.preadP + 1
    simp [h.numbered]
  · show FifoRun [] (s.acts ++ [.put data]) ((puts (s.acts ++ [.put data])).drop s.preadC)
    rw [puts_append, puts_put, List.drop_append_of_le_length (h.numbered.symm ▸ h.le)]
    exact h.run.put data
  · have hclaim := h.producers.claim haim hfree
    simpa [producers, goto, Function.comp_update, pushHolds, pushAims] using hclaim
  · show Tickets.Ok n (s.goto th (.pushStore data s.preadP)).consumers
    rw [consumers_same s th (by simp [hpc, popHolds]) (by simp [hpc, popAims])]
    exact h.consumers
  · refine forall_goto trivial fun th' _ => ?_
    have hbehind := h.behind th'
    cases hth : s.threads th' with
    | pushLook data' pw =>
      rw [hth] at hbehind
      exact Nat.le_succ_of_le hbehind
    | popLook pr =>
      rw [hth] at hbehind
      exact hbehind
    | _ => trivial
  · refine forall_goto ⟨?_, hlevel⟩ fun th' _ =>
      (h.knows th').mono hputs (fun _ => Nat.le_refl _) (fun _ _ => rfl) fun _ _ => rfl
    show (puts (s.acts ++ [.put data]))[s.preadP]? = some data
    simp [← h.numbered]
  · exact (h.filled i hi).mono hputs rfl rfl rfl (fun _ _ hd => goto_keeps (by simp [hpc]) hd)
      fun _ _ hd => goto_keeps (by simp [hpc]) hd
  · refine ⟨fun p hp => ?_, h.returned.finished, h.returned.nodup⟩
    obtain ⟨x, hx, hput⟩ := h.returned.items p hp
    exact ⟨x, hx, hputs _ _ hput⟩

/-- A push stores its item. -/
theorem holds_store (h : Holds n s a b) {data : α} {t : Nat}
    (hpc : s.threads th = .pushStore data t) :
    Holds n { s.goto th (.pushDone data t) with
      buf := Function.update s.buf (t % n) (s.buf (t % n) ++ [data]) } a
      (Function.update b (t % n) (t + n)) := by
  have hholds : s.producers.holds th = some t := by simp [producers, hpc, pushHolds]
  have hturn : s.seqP (t % n) = t := (h.producers.turn th t hholds).1
  have hknows := h.knows th
  rw [hpc] at hknows
  obtain ⟨hput, hat⟩ := hknows
  have hother : ∀ th' t', th' ≠ th → pushHolds (s.threads th') = some t' → t' % n ≠ t % n :=
    fun th' t' hne h' hlane => hne (h.producers.exclusive h' hholds hlane).1
  refine ⟨h.count, h.power, h.numbered, h.run, ?_, ?_, h.complete,
    forall_goto trivial fun th' _ => h.behind th', ?_, fun i hi => ?_,
    ⟨h.returned.items, h.returned.finished, h.returned.nodup⟩⟩
  · show Tickets.Ok n (s.goto th (.pushDone data t)).producers
    rw [producers_same s th (by simp [hpc, pushHolds]) (by simp [hpc, pushAims])]
    exact h.producers
  · show Tickets.Ok n (s.goto th (.pushDone data t)).consumers
    rw [consumers_same s th (by simp [hpc, popHolds]) (by simp [hpc, popAims])]
    exact h.consumers
  · refine forall_goto ⟨hput, by simp⟩ fun th' hne =>
      (h.knows th').mono (fun _ _ hx => hx) (fun _ => Nat.le_refl _) (fun _ _ => rfl)
        fun t' h' => ?_
    rw [Function.update_of_ne (hother th' t' hne h')]
  · have hf := h.filled i hi
    have hpop : ∀ th' data', s.threads th' = .popDone data' (s.seqC i) →
        (s.goto th (.pushDone data t)).threads th' = .popDone data' (s.seqC i) :=
      fun _ _ hd => goto_keeps (by simp [hpc]) hd
    by_cases he : i = t % n
    · subst he
      have hlen := hf.length
      rw [hat] at hlen
      refine ⟨?_, fun k x hx => ?_, ?_, fun hall => ?_, fun hall =>
        hf.taken fun th' data' hd => hall th' data' (hpop th' data' hd)⟩
      · simp only [Function.update_self, List.length_append, List.length_singleton, Nat.mul_add,
          Nat.mul_one]
        omega
      · simp only [Function.update_self] at hx
        rcases Nat.lt_or_ge k (s.buf (t % n)).length with hk | hk
        · rw [List.getElem?_append_left hk] at hx
          exact hf.items k x hx
        · have hlast : k = (s.buf (t % n)).length := by
            obtain ⟨hlt, -⟩ := List.getElem?_eq_some_iff.1 hx
            simp only [List.length_append, List.length_singleton] at hlt
            omega
          subst hlast
          simp only [List.getElem?_append_right (Nat.le_refl _), Nat.sub_self,
            List.getElem?_cons_zero] at hx
          show (puts s.acts)[a (t % n) + n * (s.buf (t % n)).length]? = some x
          rw [hlen, hput, hx]
      · show s.seqP (t % n) ≤ Function.update b (t % n) (t + n) (t % n)
        rw [Function.update_self, hturn]
        omega
      · refine absurd ?_ (hall th data)
        simp [goto, hturn]
    · have hsame : Filled n { s.goto th (.pushDone data t) with
          buf := Function.update s.buf (t % n) (s.buf (t % n) ++ [data]) } a b i := by
        exact hf.mono (fun _ _ hx => hx) (Function.update_of_ne he _ _) rfl rfl
          (fun _ _ hd => goto_keeps (by simp [hpc]) hd) hpop
      refine ⟨?_, hsame.items, ?_, ?_, hsame.taken⟩
      · rw [Function.update_of_ne he]
        exact hsame.length
      · rw [Function.update_of_ne he]
        exact hsame.stored
      · rw [Function.update_of_ne he]
        exact hsame.level

/-- A push sets the sequence of its buffer. -/
theorem holds_finishP (h : Holds n s a b) {data : α} {t : Nat}
    (hpc : s.threads th = .pushDone data t) :
    Holds n { s.goto th .idle with seqP := Function.update s.seqP (t % n) (t + n) } a b := by
  have hholds : s.producers.holds th = some t := by simp [producers, hpc, pushHolds]
  have hturn : s.seqP (t % n) = t := (h.producers.turn th t hholds).1
  have hknows := h.knows th
  rw [hpc] at hknows
  obtain ⟨hput, hat⟩ := hknows
  have hseq : ∀ i, s.seqP i ≤ Function.update s.seqP (t % n) (t + n) i := by
    intro i
    by_cases he : i = t % n
    · subst he
      rw [Function.update_self, hturn]
      omega
    · simp [Function.update_of_ne he]
  refine ⟨h.count, h.power, h.numbered, h.run, ?_, ?_,
    fun t' ht' => Nat.lt_of_lt_of_le (h.complete t' ht') (hseq _),
    forall_goto trivial fun th' _ => h.behind th', ?_, fun i hi => ?_,
    ⟨h.returned.items, h.returned.finished, h.returned.nodup⟩⟩
  · have hfinish := (h.producers.finish hholds).giveUp th
    simpa [producers, goto, Function.comp_update, pushHolds, pushAims] using hfinish
  · show Tickets.Ok n (s.goto th .idle).consumers
    rw [consumers_same s th (by simp [hpc, popHolds]) (by simp [hpc, popAims])]
    exact h.consumers
  · exact forall_goto trivial fun th' hne =>
      (h.knows th').mono (fun _ _ hx => hx) hseq (fun _ _ => rfl) fun _ _ => rfl
  · have hf := h.filled i hi
    have hpop : ∀ th' data', s.threads th' = .popDone data' (s.seqC i) →
        (s.goto th .idle).threads th' = .popDone data' (s.seqC i) :=
      fun _ _ hd => goto_keeps (by simp [hpc]) hd
    by_cases he : i = t % n
    · subst he
      refine ⟨hf.length, hf.items, ?_, fun _ => ?_, fun hall =>
        hf.taken fun th' data' hd => hall th' data' (hpop th' data' hd)⟩
      · simp [hat]
      · simp [hat]
    · refine hf.mono (fun _ _ hx => hx) rfl (Function.update_of_ne he _ _) rfl
        (fun th' data' hd => ?_) hpop
      refine (goto_of_ne fun hth => ?_).trans hd
      rw [hth, hpc, MpmcPc.pushDone.injEq] at hd
      have hlane : s.seqP i % n = i := h.producers.lane i hi
      exact he (by rw [hd.2, hlane])

/-! ## Popping -/

/-- A pop takes its number. -/
theorem holds_claimC (h : Holds n s a b) (hpc : s.threads th = .popCas s.preadC) :
    Holds n { s.goto th (.popTake s.preadC) with
      preadC := s.preadC + 1
      acts := s.acts ++ (puts s.acts)[s.preadC]?.toList.map .take } a b := by
  have haim : s.consumers.aims th = some s.preadC := by simp [consumers, hpc, popAims]
  have hfree : s.consumers.holds th = none := by simp [consumers, hpc, popHolds]
  have hup : s.seqC (s.preadC % n) = s.preadC := (h.consumers.aimed th _ haim).2 rfl
  have hi : s.preadC % n < n := Nat.mod_lt _ h.pos
  have hdone : s.preadC < s.seqP (s.preadC % n) := by
    have := h.knows th
    rwa [hpc] at this
  have hlt : s.preadC < (puts s.acts).length := h.numbered.symm ▸ h.producers.lt_next h.pos hdone
  obtain ⟨x, hx⟩ : ∃ x, (puts s.acts)[s.preadC]? = some x := ⟨_, List.getElem?_eq_getElem hlt⟩
  have hdrop : (puts s.acts).drop s.preadC = x :: (puts s.acts).drop (s.preadC + 1) := by
    rw [List.drop_eq_getElem_cons hlt]
    rw [List.getElem?_eq_getElem hlt, Option.some.injEq] at hx
    rw [hx]
  have hlevel : a (s.preadC % n) = s.preadC := by
    rw [(h.filled _ hi).taken, hup]
    intro th' data' hd
    have hholds : s.consumers.holds th' = some s.preadC := by simp [consumers, hd, popHolds, hup]
    exact absurd (h.consumers.turn th' _ hholds).2 (Nat.lt_irrefl _)
  have hacts : s.acts ++ (puts s.acts)[s.preadC]?.toList.map .take = s.acts ++ [.take x] := by
    simp [hx]
  have hputs : puts (s.acts ++ [.take x]) = puts s.acts := by simp
  have hsame : ∀ (t : Nat) y, (puts s.acts)[t]? = some y →
      (puts (s.acts ++ [.take x]))[t]? = some y := fun _ _ hy => hputs.symm ▸ hy
  rw [hacts]
  refine ⟨h.count, h.power, hputs.symm ▸ h.numbered, ?_, ?_, ?_, fun t ht => ?_, ?_, ?_,
    fun i hi => ?_, ?_⟩
  · have hrun := h.run
    rw [hdrop] at hrun
    show FifoRun [] (s.acts ++ [.take x]) ((puts (s.acts ++ [.take x])).drop (s.preadC + 1))
    rw [hputs]
    exact hrun.take
  · show Tickets.Ok n (s.goto th (.popTake s.preadC)).producers
    rw [producers_same s th (by simp [hpc, pushHolds]) (by simp [hpc, pushAims])]
    exact h.producers
  · have hclaim := h.consumers.claim haim hfree
    simpa [consumers, goto, Function.comp_update, popHolds, popAims] using hclaim
  · rcases Nat.lt_succ_iff_lt_or_eq.1 ht with hold | heq
    · exact h.complete t hold
    · exact heq ▸ hdone
  · refine forall_goto trivial fun th' _ => ?_
    have hbehind := h.behind th'
    cases hth : s.threads th' with
    | pushLook data' pw =>
      rw [hth] at hbehind
      exact hbehind
    | popLook pr =>
      rw [hth] at hbehind
      exact Nat.le_succ_of_le hbehind
    | _ => trivial
  · exact forall_goto hlevel fun th' _ =>
      (h.knows th').mono hsame (fun _ => Nat.le_refl _) (fun _ _ => rfl) fun _ _ => rfl
  · exact (h.filled i hi).mono hsame rfl rfl rfl (fun _ _ hd => goto_keeps (by simp [hpc]) hd)
      fun _ _ hd => goto_keeps (by simp [hpc]) hd
  · refine ⟨fun p hp => ?_, h.returned.finished, h.returned.nodup⟩
    obtain ⟨y, hy, hput⟩ := h.returned.items p hp
    exact ⟨y, hy, hsame _ _ hput⟩

/-- A pop takes its item. -/
theorem holds_take (h : Holds n s a b) {x : α} {rest : List α} {t : Nat}
    (hpc : s.threads th = .popTake t) (hbuf : s.buf (t % n) = x :: rest)
    (hput : (puts s.acts)[t]? = some x) :
    Holds n { s.goto th (.popDone (some x) t) with buf := Function.update s.buf (t % n) rest }
      (Function.update a (t % n) (t + n)) b := by
  have hholds : s.consumers.holds th = some t := by simp [consumers, hpc, popHolds]
  have hturn : s.seqC (t % n) = t := (h.consumers.turn th t hholds).1
  have hat : a (t % n) = t := by
    have := h.knows th
    rwa [hpc] at this
  have hother : ∀ th' t', th' ≠ th → popHolds (s.threads th') = some t' → t' % n ≠ t % n :=
    fun th' t' hne h' hlane => hne (h.consumers.exclusive h' hholds hlane).1
  refine ⟨h.count, h.power, h.numbered, h.run, ?_, ?_, h.complete,
    forall_goto trivial fun th' _ => h.behind th', ?_, fun i hi => ?_,
    ⟨h.returned.items, h.returned.finished, h.returned.nodup⟩⟩
  · show Tickets.Ok n (s.goto th (.popDone (some x) t)).producers
    rw [producers_same s th (by simp [hpc, pushHolds]) (by simp [hpc, pushAims])]
    exact h.producers
  · show Tickets.Ok n (s.goto th (.popDone (some x) t)).consumers
    rw [consumers_same s th (by simp [hpc, popHolds]) (by simp [hpc, popAims])]
    exact h.consumers
  · refine forall_goto ⟨⟨x, rfl, hput⟩, by simp⟩ fun th' hne =>
      (h.knows th').mono (fun _ _ hx => hx) (fun _ => Nat.le_refl _) (fun t' h' => ?_)
        fun _ _ => rfl
    rw [Function.update_of_ne (hother th' t' hne h')]
  · have hf := h.filled i hi
    have hpush : ∀ th' data', s.threads th' = .pushDone data' (s.seqP i) →
        (s.goto th (.popDone (some x) t)).threads th' = .pushDone data' (s.seqP i) :=
      fun _ _ hd => goto_keeps (by simp [hpc]) hd
    by_cases he : i = t % n
    · subst he
      have hlen := hf.length
      rw [hbuf, hat, List.length_cons, Nat.mul_succ] at hlen
      refine ⟨?_, fun k y hy => ?_, hf.stored, fun hall =>
        hf.level fun th' data' hd => hall th' data' (hpush th' data' hd), fun hall => ?_⟩
      · simp only [Function.update_self]
        omega
      · simp only [Function.update_self] at hy ⊢
        have hlater := hf.items (k + 1) y (by simpa [hbuf] using hy)
        rwa [hat, Nat.mul_succ, ← Nat.add_assoc, Nat.add_right_comm] at hlater
      · refine absurd ?_ (hall th (some x))
        simp [goto, hturn]
    · have hsame : Filled n { s.goto th (.popDone (some x) t) with
          buf := Function.update s.buf (t % n) rest } a b i :=
        hf.mono (fun _ _ hx => hx) (Function.update_of_ne he _ _) rfl rfl hpush
          fun _ _ hd => goto_keeps (by simp [hpc]) hd
      refine ⟨?_, ?_, hsame.stored, hsame.level, ?_⟩
      · rw [Function.update_of_ne he]
        exact hsame.length
      · rw [Function.update_of_ne he]
        exact hsame.items
      · rw [Function.update_of_ne he]
        exact hsame.taken

/-- A pop sets the sequence of its buffer. -/
theorem holds_finishC (h : Holds n s a b) {data : Option α} {t : Nat}
    (hpc : s.threads th = .popDone data t) :
    Holds n { s.goto th .idle with
      seqC := Function.update s.seqC (t % n) (t + n), popped := s.popped ++ [(t, data)] } a b := by
  have hholds : s.consumers.holds th = some t := by simp [consumers, hpc, popHolds]
  have hturn : s.seqC (t % n) = t := (h.consumers.turn th t hholds).1
  have hknows := h.knows th
  rw [hpc] at hknows
  obtain ⟨⟨x, rfl, hput⟩, hat⟩ := hknows
  refine ⟨h.count, h.power, h.numbered, h.run, ?_, ?_, h.complete,
    forall_goto trivial fun th' _ => h.behind th', ?_, fun i hi => ?_,
    h.returned.finish h.pos hturn hput rfl rfl rfl⟩
  · show Tickets.Ok n (s.goto th .idle).producers
    rw [producers_same s th (by simp [hpc, pushHolds]) (by simp [hpc, pushAims])]
    exact h.producers
  · have hfinish := (h.consumers.finish hholds).giveUp th
    simpa [consumers, goto, Function.comp_update, popHolds, popAims] using hfinish
  · exact forall_goto trivial fun th' _ =>
      (h.knows th').mono (fun _ _ hx => hx) (fun _ => Nat.le_refl _) (fun _ _ => rfl)
        fun _ _ => rfl
  · have hf := h.filled i hi
    have hpush : ∀ th' data', s.threads th' = .pushDone data' (s.seqP i) →
        (s.goto th .idle).threads th' = .pushDone data' (s.seqP i) :=
      fun _ _ hd => goto_keeps (by simp [hpc]) hd
    by_cases he : i = t % n
    · subst he
      refine ⟨hf.length, hf.items, hf.stored, fun hall =>
        hf.level fun th' data' hd => hall th' data' (hpush th' data' hd), fun _ => ?_⟩
      simp [hat]
    · have hlane : s.seqC i % n = i := h.consumers.lane i hi
      refine hf.mono (fun _ _ hx => hx) rfl rfl (Function.update_of_ne he _ _) hpush
        fun th' data' hd => goto_keeps ?_ hd
      rw [hpc, ne_eq, MpmcPc.popDone.injEq, not_and]
      intro _ ht
      exact he (by rw [ht, hlane])

/-! ## Runs -/

/-- What a turn keeps. -/
theorem holds_run (h : Holds n s a b) (th : τ) (call : MpmcCall α) :
    ∃ a' b', Holds n (s.run th call) a' b' := by
  have hP : ∀ pc, pushHolds pc = pushHolds (s.threads th) → pushAims pc = none →
      (s.goto th pc).producers.Ok n := fun pc hholds haims =>
    ok_producers h.producers hholds (by simp [haims])
  have hC : ∀ pc, popHolds pc = popHolds (s.threads th) → popAims pc = none →
      (s.goto th pc).consumers.Ok n := fun pc hholds haims =>
    ok_consumers h.consumers hholds (by simp [haims])
  have hcount := h.count
  have hbehind := h.behind th
  unfold run
  cases hpc : s.threads th with
  | idle =>
    rw [hpc] at hP hC
    cases call with
    | push data => exact ⟨a, b, h.goto (hP _ rfl rfl) (hC _ rfl rfl) trivial trivial
        (by simp [hpc]) (by simp [hpc])⟩
    | pop => exact ⟨a, b, h.goto (hP _ rfl rfl) (hC _ rfl rfl) trivial trivial
        (by simp [hpc]) (by simp [hpc])⟩
  | pushRead data =>
    rw [hpc] at hP hC
    exact ⟨a, b, h.goto (hP _ rfl rfl) (hC _ rfl rfl) (Nat.le_refl _) trivial
      (by simp [hpc]) (by simp [hpc])⟩
  | pushLook data pw =>
    rw [hpc] at hP hC hbehind
    dsimp only
    split
    · rename_i hseq
      rw [h.and_mask] at hseq
      refine ⟨a, b, h.goto (ok_producers h.producers (by simp [hpc, pushHolds]) fun t ht => ?_)
        (hC _ rfl rfl) trivial trivial (by simp [hpc]) (by simp [hpc])⟩
      cases ht
      exact ⟨hbehind, hseq.symm⟩
    · exact ⟨a, b, h.goto (hP _ rfl rfl) (hC _ rfl rfl) trivial trivial
        (by simp [hpc]) (by simp [hpc])⟩
  | pushCas data pw =>
    rw [hpc] at hP hC
    dsimp only
    split
    · rename_i heq
      subst heq
      exact ⟨a, b, holds_claimP h hpc⟩
    · exact ⟨a, b, h.goto (hP _ rfl rfl) (hC _ rfl rfl) trivial trivial
        (by simp [hpc]) (by simp [hpc])⟩
  | pushStore data pw =>
    dsimp only
    rw [h.and_mask]
    exact ⟨a, _, holds_store h hpc⟩
  | pushDone data pw =>
    dsimp only
    rw [h.and_mask, Nat.add_assoc, hcount]
    exact ⟨a, b, holds_finishP h hpc⟩
  | popRead =>
    rw [hpc] at hP hC
    exact ⟨a, b, h.goto (hP _ rfl rfl) (hC _ rfl rfl) (Nat.le_refl _) trivial
      (by simp [hpc]) (by simp [hpc])⟩
  | popLook pr =>
    rw [hpc] at hP hC hbehind
    dsimp only
    split
    · rename_i hseq
      rw [h.and_mask] at hseq
      refine ⟨a, b, h.goto (hP _ rfl rfl)
        (ok_consumers h.consumers (by simp [hpc, popHolds]) fun t ht => ?_)
        trivial trivial (by simp [hpc]) (by simp [hpc])⟩
      cases ht
      exact ⟨hbehind, hseq.symm⟩
    · exact ⟨a, b, h.goto (hP _ rfl rfl) (hC _ rfl rfl) trivial trivial
        (by simp [hpc]) (by simp [hpc])⟩
  | popFilled pr =>
    rw [hpc] at hP hC
    dsimp only
    split
    · exact ⟨a, b, h.goto (hP _ rfl rfl) (hC _ rfl rfl) trivial trivial
        (by simp [hpc]) (by simp [hpc])⟩
    · rename_i hlt
      rw [h.and_mask, Nat.not_le] at hlt
      refine ⟨a, b, h.goto (hP _ rfl rfl) ?_ trivial hlt (by simp [hpc]) (by simp [hpc])⟩
      rw [consumers_same s th (by simp [hpc, popHolds]) (by simp [hpc, popAims])]
      exact h.consumers
  | popCas pr =>
    rw [hpc] at hP hC
    dsimp only
    split
    · rename_i heq
      subst heq
      exact ⟨a, b, holds_claimC h hpc⟩
    · exact ⟨a, b, h.goto (hP _ rfl rfl) (hC _ rfl rfl) trivial trivial
        (by simp [hpc]) (by simp [hpc])⟩
  | popTake pr =>
    obtain ⟨x, rest, hbuf, hput⟩ := h.ready hpc
    dsimp only
    rw [h.and_mask, hbuf]
    exact ⟨_, b, holds_take h hpc hbuf hput⟩
  | popDone data pr =>
    dsimp only
    rw [h.and_mask, Nat.add_assoc, hcount]
    exact ⟨a, b, holds_finishC h hpc⟩

/-- However the turns of any threads are interleaved: in the order of the numbers the queue is first
in, first out; a `pop` returns the item of its number, and no two of them the same number; no item
is lost; two threads are never in the same buffer to push to it, nor to pop from it, and none finds
it empty; and a `pop` says that there is nothing only when the `push` of the next item has not
returned. -/
theorem mpmc_fifo (nqueues : Nat) (turns : List (Turn τ α)) :
    let s := runFrom step (init nqueues) turns
    FifoRun [] s.acts ((puts s.acts).drop s.preadC) ∧
      (∀ p ∈ s.popped, ∃ x, p.2 = some x ∧ (puts s.acts)[p.1]? = some x) ∧
      (s.popped.map (·.1)).Nodup ∧
      (∀ t < s.preadC, t ∈ s.popped.map (·.1) ∨ ∃ th, popHolds (s.threads th) = some t) ∧
      (∀ th th' t t', pushHolds (s.threads th) = some t → pushHolds (s.threads th') = some t' →
        t &&& s.mask = t' &&& s.mask → th = th') ∧
      (∀ th th' t t', popHolds (s.threads th) = some t → popHolds (s.threads th') = some t' →
        t &&& s.mask = t' &&& s.mask → th = th') ∧
      (∀ th t, s.threads th = .popTake t → s.buf (t &&& s.mask) ≠ []) ∧
      ∀ th t, s.threads th = .popFilled t → s.seqP (t &&& s.mask) ≤ t →
        t = s.preadC ∧ (t = (puts s.acts).length ∨ ∃ th', pushHolds (s.threads th') = some t) := by
  intro s
  obtain ⟨a, b, h⟩ : ∃ a b, Holds (queueCount nqueues) s a b :=
    runFrom_of_step (P := fun s => ∃ a b, Holds (queueCount nqueues) s a b)
      (fun _ t ⟨_, _, h⟩ => holds_run h t.thread t.call) ⟨id, id, holds_init nqueues⟩ turns
  refine ⟨h.run, h.returned.items, h.returned.nodup, fun t ht => ?_,
    fun th th' t t' ht ht' hlane => ?_, fun th th' t t' ht ht' hlane => ?_, fun th t ht => ?_,
    fun th t ht hempty => ?_⟩
  · rw [h.returned.finished t]
    exact h.consumers.finished_or_held h.pos ht
  · rw [h.and_mask, h.and_mask] at hlane
    exact (h.producers.exclusive ht ht' hlane).1
  · rw [h.and_mask, h.and_mask] at hlane
    exact (h.consumers.exclusive ht ht' hlane).1
  · obtain ⟨x, rest, hbuf, -⟩ := h.ready ht
    rw [h.and_mask, hbuf]
    simp
  · exact h.empty ht hempty

end Fix8.Queue.Mpmc
