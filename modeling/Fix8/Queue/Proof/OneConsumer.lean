import Fix8.Queue.Proof.Mpmc

/-!
# One thread that pops

When all calls of `pop` are those of one thread, they return the items in the order of their
numbers: the queue of a thread that does what the others ask for.

* `Alone`: only this thread is, or has been, in a call of `pop`; `alone_run`;
* `Alone.returned`: what it has been given so far;
* `pending`, `puts_run`: an item on its way into the queue;
* `Served`: whose items have been put; `Served.inOrder`: those of each thread come in its order.
-/

namespace Fix8.Queue.Mpmc

open Lib

variable {τ α : Type} {n : Nat} {s : Mpmc τ α} {a b : Nat → Nat} {c th : τ} {call : MpmcCall α}

/-! ## The items in order -/

/-- In a call of `pop`. -/
def inPop : MpmcPc α → Bool
  | .popRead | .popLook _ | .popFilled _ | .popCas _ | .popTake _ | .popDone _ _ => true
  | _ => false

/-- The number that `popped` goes on with is taken. -/
def Taken (s : Mpmc τ α) (c : τ) : Prop :=
  popHolds (s.threads c) = some s.popped.length ∧ s.preadC = s.popped.length + 1

/-- No number is taken that has not been returned with. -/
def Untaken (s : Mpmc τ α) (c : τ) : Prop :=
  popHolds (s.threads c) = none ∧ s.preadC = s.popped.length

/-- All calls of `pop` are those of `c`. -/
structure Alone (c : τ) (s : Mpmc τ α) : Prop where
  others : ∀ th, th ≠ c → inPop (s.threads th) = false
  numbers : s.popped.map (·.1) = List.range s.popped.length
  turn : Taken s c ∨ Untaken s c

/-- What the calls of `pop` have set. -/
def returns (s : Mpmc τ α) : List α := s.popped.filterMap (·.2)

/-- An item that a call of `push` has no number for yet. -/
def pending : MpmcPc α → Option α
  | .pushRead data => some data
  | .pushLook data _ => some data
  | .pushCas data _ => some data
  | _ => none

theorem alone_init (nqueues : Nat) : Alone c (init nqueues : Mpmc τ α) where
  others _ _ := rfl
  numbers := rfl
  turn := .inr ⟨rfl, rfl⟩

theorem filterMap_zip_range {l : List (Nat × Option α)} {items : List α}
    (hnumbers : l.map (·.1) = List.range l.length)
    (hitems : ∀ p ∈ l, ∃ x, p.2 = some x ∧ items[p.1]? = some x) :
    l.filterMap (·.2) = items.take l.length := by
  have hsome : l.map (·.2) = (items.take l.length).map some := by
    refine List.ext_getElem? fun k => ?_
    simp only [List.getElem?_map, List.getElem?_take]
    rcases Nat.lt_or_ge k l.length with hk | hk
    · obtain ⟨x, hx, hitem⟩ := hitems _ (List.getElem_mem hk)
      have hnumber : l[k].1 = k := by
        have := congrArg (·[k]?) hnumbers
        simpa [hk] using this
      rw [hnumber] at hitem
      simp [hk, hx, hitem]
    · simp [Nat.not_lt.2 hk]
  have hid : l.filterMap (·.2) = (l.map (·.2)).filterMap id := by
    simp [List.filterMap_map]
  rw [hid, hsome, List.filterMap_map]
  simp

/-- **What has been returned** is what was put first. -/
theorem Alone.returned (h : Alone c s) (hq : Holds n s a b) :
    returns s = (puts s.acts).take s.popped.length :=
  filterMap_zip_range h.numbers hq.returned.items

/-- When the thread finds the next number unused, no item waits that has been stored. -/
theorem Alone.drained (h : Alone c s) (hq : Holds n s a b) {pr : Nat}
    (hpc : s.threads c = .popFilled pr) (hempty : s.seqP (pr &&& s.mask) ≤ pr)
    (hpush : ∀ th, pushHolds (s.threads th) = none) : returns s = puts s.acts := by
  have hnext : s.preadC = s.popped.length := by
    have hturn := h.turn
    simp only [Taken, Untaken, hpc, popHolds, reduceCtorEq, false_and, false_or, true_and] at hturn
    exact hturn
  obtain ⟨heq, hlast | ⟨th, hth⟩⟩ := hq.empty hpc hempty
  · rw [h.returned hq, ← hnext, ← heq, hlast, List.take_length]
  · rw [hpush th] at hth
    contradiction

/-! ## A turn -/

variable [DecidableEq τ]

theorem threads_run_of_ne {th' : τ} (hne : th' ≠ th) :
    (s.run th call).threads th' = s.threads th' := by
  have hgoto : ∀ pc, (s.goto th pc).threads th' = s.threads th' := fun pc => goto_of_ne hne
  cases hpc : s.threads th with
  | idle => cases call <;> simp [run, hpc, hgoto]
  | popTake pr => cases hbuf : s.buf (pr &&& s.mask) <;> simp [run, hpc, hbuf, hgoto]
  | _ =>
    simp only [run, hpc]
    first
    | exact hgoto _
    | split <;> exact hgoto _

/-- An item on its way stays on its way until it has its number. -/
theorem puts_run (hpc : s.threads th ≠ .idle) :
    puts (s.run th call).acts ++ (pending ((s.run th call).threads th)).toList =
      puts s.acts ++ (pending (s.threads th)).toList := by
  cases hpc' : s.threads th with
  | idle => contradiction
  | popTake pr => cases hbuf : s.buf (pr &&& s.mask) <;> simp [run, hpc', hbuf, goto, pending]
  | popCas pr =>
    cases hitem : (puts s.acts)[pr]? <;> simp only [run, hpc'] <;>
      split <;> simp [goto, pending, hitem]
  | _ =>
    simp only [run, hpc']
    first
    | simp [goto, pending]; done
    | split <;> simp [goto, pending]

/-- A call that goes on pushes what it was given. -/
theorem pending_run (hpc : s.threads th ≠ .idle) {data : α}
    (h : pending ((s.run th call).threads th) = some data) : pending (s.threads th) = some data := by
  cases hpc' : s.threads th with
  | idle => contradiction
  | popTake pr => cases hbuf : s.buf (pr &&& s.mask) <;> simp [run, hpc', hbuf, goto, pending] at h
  | _ =>
    revert h
    simp only [run, hpc']
    first
    | simp [goto, pending]; done
    | split <;> simp [goto, pending]

theorem run_push (hpc : s.threads th = .idle) (data : α) :
    s.run th (.push data) = s.goto th (.pushRead data) := by
  simp [run, hpc]

theorem run_pop (hpc : s.threads th = .idle) :
    s.run th .pop = (s.goto th .popRead : Mpmc τ α) := by
  simp [run, hpc]

/-- A call of `pop` that is over has returned with what it set. -/
theorem returns_run : returns (s.run th call) = returns s ++
    (match s.threads th with
      | .popDone data _ => data.toList
      | _ => []) := by
  cases hpc : s.threads th with
  | idle => cases call <;> simp [run, hpc, goto, returns]
  | popTake pr => cases hbuf : s.buf (pr &&& s.mask) <;> simp [run, hpc, hbuf, goto, returns]
  | popDone data pr => cases data <;> simp [run, hpc, goto, returns]
  | _ =>
    simp only [run, hpc]
    first
    | simp [goto, returns]; done
    | split <;> simp [goto, returns]

theorem returns_run_done {x : α} {pr : Nat} (hpc : s.threads th = .popDone (some x) pr) :
    returns (s.run th call) = returns s ++ [x] := by
  rw [returns_run, hpc]
  rfl

theorem returns_run_of_ne (hpc : ∀ data pr, s.threads th ≠ .popDone data pr) :
    returns (s.run th call) = returns s := by
  rw [returns_run]
  split
  · rename_i data pr hdone
    exact absurd hdone (hpc data pr)
  · exact List.append_nil _

/-- A thread that does not pop leaves alone what the pops use. -/
theorem run_other (hpc : inPop (s.threads th) = false) (hcall : call ≠ .pop) :
    inPop ((s.run th call).threads th) = false ∧ (s.run th call).popped = s.popped ∧
      (s.run th call).preadC = s.preadC := by
  cases hpc' : s.threads th with
  | idle =>
    cases call with
    | push data => simp [run, hpc', goto, inPop]
    | pop => contradiction
  | popRead | popLook | popFilled | popCas | popTake | popDone => simp [hpc', inPop] at hpc
  | _ =>
    simp only [run, hpc']
    first
    | simp [goto, inPop]; done
    | split <;> simp [goto, inPop]

/-- The turns of the thread that pops. -/
theorem turn_run (call : MpmcCall α) (h : Alone c s) :
    ((s.run c call).popped.map (·.1) = List.range (s.run c call).popped.length) ∧
      (Taken (s.run c call) c ∨ Untaken (s.run c call) c) := by
  have hnumbers := h.numbers
  have hturn := h.turn
  unfold Taken Untaken at *
  cases hpc : s.threads c with
  | idle => cases call <;> simp_all [run, goto, popHolds]
  | popTake pr => cases hbuf : s.buf (pr &&& s.mask) <;> simp_all [run, goto, popHolds]
  | popDone data pr =>
    simp only [hpc, popHolds, Option.some.injEq, reduceCtorEq, false_and, or_false] at hturn
    obtain ⟨rfl, hnext⟩ := hturn
    simp [run, hpc, goto, popHolds, hnumbers, hnext, List.range_succ]
  | popCas pr =>
    simp only [hpc, popHolds, reduceCtorEq, false_and, false_or, true_and] at hturn
    simp only [run, hpc]
    split
    · rename_i hnext
      exact ⟨hnumbers, .inl (by simp [goto, popHolds, ← hnext, hturn])⟩
    · exact ⟨hnumbers, .inr (by simp [goto, popHolds, hturn])⟩
  | _ =>
    have hnext : s.preadC = s.popped.length := by simpa [hpc, popHolds] using hturn
    simp only [run, hpc]
    first
    | exact ⟨hnumbers, .inr (by simp [goto, popHolds, hnext])⟩
    | split <;> exact ⟨hnumbers, .inr (by simp [goto, popHolds, hnext])⟩

/-- **Only one thread pops**, if the others do not begin to. -/
theorem alone_run (h : Alone c s) (hcall : th ≠ c → call ≠ .pop) : Alone c (s.run th call) := by
  by_cases heq : th = c
  · subst heq
    obtain ⟨hnumbers, hturn⟩ := turn_run call h
    refine ⟨fun th' hne => ?_, hnumbers, hturn⟩
    rw [threads_run_of_ne hne]
    exact h.others th' hne
  · obtain ⟨hout, hpopped, hpread⟩ := run_other (h.others th heq) (hcall heq)
    have hkept : (s.run th call).threads c = s.threads c := threads_run_of_ne (Ne.symm heq)
    refine ⟨fun th' hne => ?_, ?_, ?_⟩
    · by_cases he : th' = th
      · exact he ▸ hout
      · rw [threads_run_of_ne he]
        exact h.others th' hne
    · rw [hpopped]
      exact h.numbers
    · unfold Taken Untaken
      rw [hpopped, hpread, hkept]
      exact h.turn

/-! ## What each thread has pushed -/

/-- The calls of `push` of each thread, where an item tells whose it is: those of `c`, which pops,
are none. -/
structure Served (n : Nat) (c : τ) (tag : α → τ) (q : Mpmc τ α) (calls : τ → List α) : Prop where
  holds : ∃ a b, Holds n q a b
  alone : Alone c q
  tagged : ∀ th, ∀ m ∈ pending (q.threads th), tag m = th ∧ th ≠ c
  calls : ∀ th, (puts q.acts).filter (tag · = th) ++ (pending (q.threads th)).toList = calls th

variable {tag : α → τ} {q : Mpmc τ α} {calls : τ → List α}

theorem served_init (nqueues : Nat) :
    Served (queueCount nqueues) c tag (init nqueues) fun _ => [] where
  holds := ⟨id, id, holds_init nqueues⟩
  alone := alone_init nqueues
  tagged _ _ hm := by simp [init, pending] at hm
  calls _ := rfl

theorem holds_turn (h : ∃ a b, Holds n q a b) : ∃ a b, Holds n (q.run th call) a b := by
  obtain ⟨a, b, h⟩ := h
  exact holds_run h th call

/-- A thread begins to push. -/
theorem Served.push (h : Served n c tag q calls) (hidle : q.threads th = .idle) {m : α}
    (hm : tag m = th) (hth : th ≠ c) :
    Served n c tag (q.run th (.push m)) (Function.update calls th (calls th ++ [m])) where
  holds := holds_turn h.holds
  alone := alone_run h.alone (by simp)
  tagged th' m' hm' := by
    by_cases he : th' = th
    · subst he
      simp only [run_push hidle, goto, Function.update_self, pending, Option.mem_def,
        Option.some.injEq] at hm'
      exact ⟨hm' ▸ hm, hth⟩
    · rw [threads_run_of_ne he] at hm'
      exact h.tagged th' m' hm'
  calls th' := by
    have hcalls := h.calls th'
    have hputs : puts (q.run th (.push m)).acts = puts q.acts := by simp [run_push hidle, goto]
    by_cases he : th' = th
    · subst he
      simp only [hidle, pending, Option.toList_none, List.append_nil] at hcalls
      simp [run_push hidle, goto, pending, hcalls]
    · rw [threads_run_of_ne he, hputs, Function.update_of_ne he]
      exact hcalls

/-- A thread goes on with its call. -/
theorem Served.run (h : Served n c tag q calls) (hbusy : q.threads th ≠ .idle)
    (hcall : th ≠ c → call ≠ .pop) : Served n c tag (q.run th call) calls where
  holds := holds_turn h.holds
  alone := alone_run h.alone hcall
  tagged th' m hm := by
    by_cases he : th' = th
    · subst he
      exact h.tagged th' m (pending_run hbusy hm)
    · rw [threads_run_of_ne he] at hm
      exact h.tagged th' m hm
  calls th' := by
    have hitem : ∀ {pc : MpmcPc α}, (∀ m ∈ pending pc, tag m = th) →
        (pending pc).toList.filter (tag · = th') = if th' = th then (pending pc).toList else [] := by
      intro pc hpc
      cases hp : pending pc with
      | none => simp
      | some m =>
        have hm := hpc m hp
        by_cases he : th' = th
        · simp [hm, he]
        · simp [hm, he, Ne.symm he]
    have hnext : ∀ m ∈ pending ((q.run th call).threads th), tag m = th := fun m hm =>
      (h.tagged th m (pending_run hbusy hm)).1
    have hputs : (puts (q.run th call).acts).filter (tag · = th') ++
        (pending ((q.run th call).threads th)).toList.filter (tag · = th') =
          (puts q.acts).filter (tag · = th') ++
            (pending (q.threads th)).toList.filter (tag · = th') := by
      rw [← List.filter_append, ← List.filter_append, puts_run hbusy]
    rw [hitem hnext, hitem fun m hm => (h.tagged th m hm).1] at hputs
    by_cases he : th' = th
    · subst he
      rw [if_pos rfl, if_pos rfl] at hputs
      exact hputs.trans (h.calls th')
    · rw [if_neg he, if_neg he, List.append_nil, List.append_nil] at hputs
      rw [threads_run_of_ne he, hputs]
      exact h.calls th'

/-- The thread that pops goes on, or begins to. -/
theorem Served.pop (h : Served n c tag q calls) : Served n c tag (q.run c .pop) calls := by
  by_cases hidle : q.threads c = .idle
  · have hpending : pending ((q.run c .pop).threads c) = pending (q.threads c) := by
      simp [run_pop hidle, hidle, goto, pending]
    have hputs : puts (q.run c .pop).acts = puts q.acts := by simp [run_pop hidle, goto]
    have hthreads : ∀ th, pending ((q.run c .pop).threads th) = pending (q.threads th) := by
      intro th
      by_cases he : th = c
      · subst he
        exact hpending
      · rw [threads_run_of_ne he]
    refine ⟨holds_turn h.holds, alone_run h.alone fun hne => absurd rfl hne, fun th m hm => ?_,
      fun th => ?_⟩
    · rw [hthreads th] at hm
      exact h.tagged th m hm
    · rw [hputs, hthreads th]
      exact h.calls th
  · exact h.run hidle fun hne => absurd rfl hne

/-- **What a thread has pushed is returned in its order.** -/
theorem Served.inOrder (h : Served n c tag q calls) (th : τ) :
    (returns q).filter (tag · = th) <+: calls th := by
  obtain ⟨a, b, hholds⟩ := h.holds
  rw [← h.calls th, h.alone.returned hholds]
  exact ((List.take_prefix _ _).filter _).trans (List.prefix_append _ _)

/-- When the next number is unused and nobody is in a `push`, everything has been returned. -/
theorem Served.drained (h : Served n c tag q calls) {pr : Nat} (hpc : q.threads c = .popFilled pr)
    (hempty : q.seqP (pr &&& q.mask) ≤ pr) (hpush : ∀ th, th ≠ c → q.threads th = .idle) (th : τ) :
    (returns q).filter (tag · = th) = calls th := by
  obtain ⟨a, b, hholds⟩ := h.holds
  have hidle : ∀ th, pushHolds (q.threads th) = none ∧ pending (q.threads th) = none := by
    intro th
    by_cases he : th = c
    · rw [he, hpc]
      exact ⟨rfl, rfl⟩
    · rw [hpush th he]
      exact ⟨rfl, rfl⟩
  have hcalls := h.calls th
  rw [(hidle th).2, Option.toList_none, List.append_nil] at hcalls
  rw [h.alone.drained hholds hpc hempty fun th => (hidle th).1, hcalls]

end Fix8.Queue.Mpmc
