import Fix8.Session.Logger
import Mathlib.Data.List.Basic

/-!
# What a logger writes

A turn neither loses nor moves a line: what is written, what the thread holds, what is queued and
what is still to be enqueued are together the lines of the application, the empty ones apart. So
what is missing in the end is in the queue, and a thread that has seen the stop flag takes one line
more at most.

* `step_lineup`: one turn; `logged_sublist`: no line is written twice, or out of order;
* `leftover_after_stop`: what a stopping logger will leave is settled at its stop;
* `stop_returns`: the join returns;
* **`stream_eq_iff`**: the runs in which no line is lost.
-/

namespace Fix8.Session.Logger

open Lib

variable {cfg : Config} {s : Logger} {lines : List String} {turns : List Turn}

/-! ## No turn loses a line -/

/-- The line the thread holds. -/
def Pc.held : Pc → List String
  | .got str => [str]
  | _ => []

/-- The line an operation brings. -/
def Op.line : Op → List String
  | .enqueue what => [what]
  | .requestStop => []

/-- The lines that are not empty. -/
def texts (lines : List String) : List String := lines.filter (· ≠ "")

@[simp] theorem texts_nil : texts [] = [] := rfl

@[simp] theorem texts_empty (lines : List String) : texts ("" :: lines) = texts lines := rfl

theorem texts_cons {str : String} (h : str ≠ "") (lines : List String) :
    texts (str :: lines) = str :: texts lines := by simp [texts, h]

@[simp] theorem texts_append (l l' : List String) : texts (l ++ l') = texts l ++ texts l' :=
  List.filter_append l l'

theorem texts_eq_self : texts lines = lines ↔ "" ∉ lines := by
  simp only [texts, List.filter_eq_self, decide_eq_true_eq]
  constructor
  · intro h hmem
    exact h "" hmem rfl
  · rintro h str hstr rfl
    exact h hstr

/-- What `process_logline` was called with. -/
def logged (cfg : Config) (s : Logger) : List String := if cfg.buffer then s.buffer else s.stream

theorem logged_processLogline (str : String) (pc : Pc) :
    logged cfg { processLogline cfg str s with pc := pc } = logged cfg s ++ [str] := by
  unfold logged processLogline
  cases cfg.buffer <;> rfl

/-- The lines in the order of their way through the logger. -/
def lineup (cfg : Config) (s : Logger) : List String :=
  logged cfg s ++ texts (s.pc.held ++ (s.msgQueue ++ s.ops.flatMap Op.line))

theorem produce_lineup : lineup cfg (produce s) = lineup cfg s := by
  obtain ⟨msgQueue, stopping, buffer, stream, pc, ops⟩ := s
  cases ops with
  | nil => rfl
  | cons op ops =>
    cases op with
    | enqueue what =>
      simp only [lineup, logged, produce, Op.line, List.flatMap_cons, List.append_assoc]
    | requestStop => rfl

theorem consume_lineup : lineup cfg (consume cfg s) = lineup cfg s := by
  obtain ⟨msgQueue, stopping, buffer, stream, pc, ops⟩ := s
  cases pc with
  | top =>
    cases stopping <;> cases hmpmc : cfg.mpmc <;>
      simp [consume, hmpmc, lineup, logged, Pc.held]
  | choose => cases stopping <;> simp [consume, lineup, logged, Pc.held]
  | tryPop =>
    cases msgQueue with
    | nil => cases hmpmc : cfg.mpmc <;> simp [consume, hmpmc, lineup, logged, Pc.held]
    | cons str rest => simp [consume, lineup, logged, Pc.held]
  | pop =>
    cases msgQueue with
    | nil => rfl
    | cons str rest => simp [consume, lineup, logged, Pc.held]
  | got str =>
    by_cases hstr : str = ""
    · subst hstr
      cases hmpmc : cfg.mpmc <;> simp [consume, hmpmc, lineup, logged, Pc.held]
    · have hstep : consume cfg ⟨msgQueue, stopping, buffer, stream, .got str, ops⟩ =
          { processLogline cfg str ⟨msgQueue, stopping, buffer, stream, .got str, ops⟩ with
            pc := .top } := if_neg hstr
      have hkeep : ∀ s : Logger, (processLogline cfg str s).msgQueue = s.msgQueue ∧
          (processLogline cfg str s).ops = s.ops := by
        intro s
        unfold processLogline
        cases cfg.buffer <;> exact ⟨rfl, rfl⟩
      rw [hstep, lineup, lineup, logged_processLogline]
      simp only [Pc.held, hkeep, List.nil_append, List.singleton_append, texts_cons hstr,
        List.append_assoc]
  | exited => rfl

/-- **No turn** loses a line, or moves it past another. -/
theorem step_lineup (t : Turn) : lineup cfg (step cfg s t) = lineup cfg s := by
  cases t with
  | producer => exact produce_lineup
  | consumer => exact consume_lineup

theorem lineup_start : lineup cfg (start lines) = texts lines := by
  have hbuf : logged cfg (start lines) = [] := by
    unfold logged
    cases cfg.buffer <;> rfl
  have hops : (start lines).ops.flatMap Op.line = lines ++ [""] := by
    simp [start, stop, List.flatMap_map, Op.line]
  rw [lineup, hbuf, hops]
  simp [start, Pc.held]

theorem lineup_run : ∀ (turns : List Turn) (s : Logger),
    lineup cfg (runFrom (step cfg) s turns) = lineup cfg s
  | [], _ => rfl
  | t :: turns, s => (lineup_run turns (step cfg s t)).trans (step_lineup t)

/-- A state that a run reaches. -/
def Reached (cfg : Config) (lines : List String) (s : Logger) : Prop :=
  ∃ turns, runFrom (step cfg) (start lines) turns = s

theorem Reached.lineup (h : Reached cfg lines s) : lineup cfg s = texts lines := by
  obtain ⟨turns, rfl⟩ := h
  exact (lineup_run turns _).trans lineup_start

/-- **No line is written twice, or out of order**, wherever a run stands. -/
theorem logged_sublist (h : Reached cfg lines s) : (logged cfg s).Sublist lines := by
  have hpre : (logged cfg s).Sublist (texts lines) := by
    rw [← h.lineup]
    exact List.sublist_append_left _ _
  exact hpre.trans List.filter_sublist

/-- What is not written when the logger has stopped is in its queue. -/
theorem logged_stopped (h : Reached cfg lines s) (hstopped : s.Stopped) :
    logged cfg s ++ texts s.msgQueue = texts lines := by
  rw [← h.lineup, Logger.lineup, hstopped.1, hstopped.2]
  simp [Pc.held]

/-! ## After the stop -/

/-- How many elements a thread takes that meets the stop flag at the condition. -/
def slack : Pc → Nat
  | .choose | .tryPop | .pop => 1
  | .top | .got _ | .exited => 0

/-- The lines in the queue that a thread takes no more, once the logger is stopping. -/
def leftover (s : Logger) : List String := texts (s.msgQueue.drop (slack s.pc))

theorem leftover_enqueue_empty {ops : List Op} (hops : s.ops = .enqueue "" :: ops) :
    leftover (produce s) = leftover s := by
  obtain ⟨msgQueue, stopping, buffer, stream, pc, ops'⟩ := s
  cases hops
  simp only [produce, leftover]
  cases hslack : slack pc with
  | zero => simp
  | succ n =>
    have hone : n = 0 := by
      cases pc <;> cases hslack <;> rfl
    subst hone
    cases msgQueue <;> simp

theorem leftover_consume (h : s.stopping = true) : leftover (consume cfg s) = leftover s := by
  obtain ⟨msgQueue, stopping, buffer, stream, pc, ops⟩ := s
  cases h
  cases pc with
  | top => rfl
  | choose => rfl
  | tryPop =>
    cases msgQueue with
    | nil => cases hmpmc : cfg.mpmc <;> simp [consume, hmpmc, leftover]
    | cons str rest => rfl
  | pop => cases msgQueue <;> rfl
  | got str =>
    by_cases hstr : str = ""
    · cases hmpmc : cfg.mpmc <;> simp [consume, hmpmc, hstr, leftover, slack]
    · simp only [consume, if_neg hstr, leftover, processLogline]
      cases cfg.buffer <;> rfl
  | exited => rfl

/-- How far the application is: the stop is ahead of it, or behind it. A thread that blocks when the
application is at its end has an element to come. -/
def Phase (s : Logger) : Prop :=
  (s.stopping = false ∧ ∃ lines : List String, s.ops = lines.map .enqueue ++ stop) ∨
    (s.stopping = true ∧ s.ops = [.enqueue ""]) ∨
    (s.stopping = true ∧ s.ops = [] ∧ (s.pc = .pop → s.msgQueue ≠ []))

theorem phase_start (lines : List String) : Phase (start lines) := .inl ⟨rfl, lines, rfl⟩

theorem Phase.running (h : Phase s) (hs : s.stopping = false) :
    ∃ lines : List String, s.ops = lines.map .enqueue ++ stop := by
  obtain ⟨-, hops⟩ | ⟨hstopping, -⟩ | ⟨hstopping, -⟩ := h
  · exact hops
  · exact absurd (hs.symm.trans hstopping) Bool.false_ne_true
  · exact absurd (hs.symm.trans hstopping) Bool.false_ne_true

theorem Phase.stopping (h : Phase s) (hs : s.stopping = true) :
    s.ops = [.enqueue ""] ∨ s.ops = [] := by
  obtain ⟨hrunning, -⟩ | ⟨-, hops⟩ | ⟨-, hops, -⟩ := h
  · exact absurd (hrunning.symm.trans hs) Bool.false_ne_true
  · exact .inl hops
  · exact .inr hops

/-- An application at its end has stopped the logger. -/
theorem Phase.ended (h : Phase s) (hops : s.ops = []) :
    s.stopping = true ∧ (s.pc = .pop → s.msgQueue ≠ []) := by
  obtain ⟨-, lines, hops'⟩ | ⟨-, hops'⟩ | ⟨hstopping, -, hpop⟩ := h
  · rw [hops] at hops'
    simp [stop] at hops'
  · rw [hops] at hops'
    cases hops'
  · exact ⟨hstopping, hpop⟩

theorem consume_shared : (consume cfg s).stopping = s.stopping ∧ (consume cfg s).ops = s.ops := by
  obtain ⟨msgQueue, stopping, buffer, stream, pc, ops⟩ := s
  cases pc with
  | top => cases stopping <;> cases hmpmc : cfg.mpmc <;> simp [consume, hmpmc]
  | choose => cases stopping <;> exact ⟨rfl, rfl⟩
  | tryPop => cases msgQueue <;> cases hmpmc : cfg.mpmc <;> simp [consume, hmpmc]
  | pop => cases msgQueue <;> exact ⟨rfl, rfl⟩
  | got str =>
    by_cases hstr : str = ""
    · cases hmpmc : cfg.mpmc <;> simp [consume, hmpmc, hstr]
    · simp only [consume, if_neg hstr, processLogline]
      cases cfg.buffer <;> exact ⟨rfl, rfl⟩
  | exited => exact ⟨rfl, rfl⟩

/-- A stopping thread does not come to block. -/
theorem consume_pop (h : s.stopping = true) (hpop : (consume cfg s).pc = .pop) :
    s.pc = .pop ∧ consume cfg s = s := by
  obtain ⟨msgQueue, stopping, buffer, stream, pc, ops⟩ := s
  cases h
  cases pc with
  | top => cases hpop
  | choose => cases hpop
  | tryPop => cases msgQueue <;> cases hmpmc : cfg.mpmc <;> simp [consume, hmpmc] at hpop
  | pop =>
    cases msgQueue with
    | nil => exact ⟨rfl, rfl⟩
    | cons str rest => cases hpop
  | got str =>
    by_cases hstr : str = ""
    · cases hmpmc : cfg.mpmc <;> simp [consume, hmpmc, hstr] at hpop
    · simp [consume, hstr] at hpop
  | exited => cases hpop

theorem phase_step (cfg : Config) (h : Phase s) (t : Turn) : Phase (step cfg s t) := by
  cases t with
  | producer =>
    obtain ⟨msgQueue, stopping, buffer, stream, pc, ops⟩ := s
    obtain ⟨hstopping, lines, hops⟩ | ⟨hstopping, hops⟩ | ⟨hstopping, hops, hpop⟩ := h
    · cases hstopping
      cases hops
      cases lines with
      | nil => exact .inr (.inl ⟨rfl, rfl⟩)
      | cons line lines => exact .inl ⟨rfl, lines, rfl⟩
    · cases hstopping
      cases hops
      exact .inr (.inr ⟨rfl, rfl, fun _ => List.append_ne_nil_of_right_ne_nil _ (by simp)⟩)
    · cases hops
      exact .inr (.inr ⟨hstopping, rfl, hpop⟩)
  | consumer =>
    have hstep : step cfg s .consumer = consume cfg s := rfl
    rw [hstep, Phase, consume_shared.1, consume_shared.2]
    refine h.imp_right (Or.imp_right ?_)
    rintro ⟨hstopping, hops, hpop⟩
    refine ⟨hstopping, hops, fun hpc => ?_⟩
    obtain ⟨hpc', hsame⟩ := consume_pop hstopping hpc
    rw [hsame]
    exact hpop hpc'

/-- The stop finds no line that the thread will not take. -/
def StopsDrained (s : Logger) (t : Turn) : Prop :=
  t = .producer → s.ops.head? = some .requestStop → leftover s = []

instance (s : Logger) (t : Turn) : Decidable (StopsDrained s t) :=
  inferInstanceAs (Decidable (_ → _))

/-- **What a stopping logger leaves** is settled at its stop. -/
theorem leftover_after_stop (cfg : Config) : ∀ (turns : List Turn) {s : Logger}, Phase s →
    s.stopping = true → Along (step cfg) StopsDrained s turns ∧
      leftover (runFrom (step cfg) s turns) = leftover s
  | [], _, _, _ => ⟨trivial, rfl⟩
  | t :: turns, s, hphase, hstopping => by
    have hops := hphase.stopping hstopping
    have hstep : (step cfg s t).stopping = true ∧ leftover (step cfg s t) = leftover s := by
      cases t with
      | producer =>
        obtain hops | hops := hops
        · refine ⟨?_, leftover_enqueue_empty hops⟩
          simp only [step, produce, hops, hstopping]
        · have hsame : step cfg s .producer = s := by simp only [step, produce, hops]
          rw [hsame]
          exact ⟨hstopping, rfl⟩
      | consumer => exact ⟨consume_shared.1.trans hstopping, leftover_consume hstopping⟩
    obtain ⟨hrest, hleft⟩ := leftover_after_stop cfg turns (phase_step cfg hphase t) hstep.1
    refine ⟨⟨?_, hrest⟩, hleft.trans hstep.2⟩
    intro _ hhead
    obtain hops | hops := hops <;> rw [hops] at hhead <;> cases hhead

/-- A run that stops leaves nothing exactly when its stop finds nothing that stays. -/
theorem drained_iff : ∀ (turns : List Turn) {s : Logger}, Phase s → s.stopping = false →
    (runFrom (step cfg) s turns).Stopped →
      (Along (step cfg) StopsDrained s turns ↔ leftover (runFrom (step cfg) s turns) = [])
  | [], _, hphase, hstopping, hstopped => by
    have hended := (hphase.ended hstopped.1).1
    exact absurd (hstopping.symm.trans hended) Bool.false_ne_true
  | t :: turns, s, hphase, hstopping, hstopped => by
    have hphase' : Phase (step cfg s t) := phase_step cfg hphase t
    -- a turn that is not the stop
    have hgoes : StopsDrained s t → (step cfg s t).stopping = false →
        (Along (step cfg) StopsDrained s (t :: turns) ↔
          leftover (runFrom (step cfg) (step cfg s t) turns) = []) := fun hdrained hstep =>
      (and_iff_right hdrained).trans (drained_iff turns hphase' hstep hstopped)
    obtain ⟨lines, hops⟩ := hphase.running hstopping
    cases t with
    | consumer => exact hgoes (fun h => nomatch h) (consume_shared.1.trans hstopping)
    | producer =>
      cases lines with
      | cons line lines =>
        refine hgoes (fun _ hhead => ?_) ?_
        · rw [hops] at hhead
          cases hhead
        · simp only [step, produce, hops, List.map_cons, List.cons_append, hstopping]
      | nil =>
        have hstep : step cfg s .producer = { s with stopping := true, ops := [.enqueue ""] } := by
          simp only [step, produce, hops, stop, List.map_nil, List.nil_append]
        have hsettled := leftover_after_stop cfg turns hphase' (by rw [hstep])
        have hstop : StopsDrained s .producer ↔ leftover s = [] := by
          refine ⟨fun h => h rfl ?_, fun h _ _ => h⟩
          rw [hops]
          rfl
        have hsame : leftover (step cfg s .producer) = leftover s := by
          rw [hstep]
          rfl
        refine (and_iff_left hsettled.1).trans (hstop.trans ?_)
        rw [runFrom_cons, hsettled.2, hsame]

/-! ## The join -/

/-- How many turns a stopping thread is away from its end, at most. -/
def turnsLeft : Pc → Nat
  | .exited => 0
  | .top => 1
  | .got _ => 2
  | .tryPop | .pop => 3
  | .choose => 4

theorem consume_turnsLeft (h : s.stopping = true) (hpop : s.pc = .pop → s.msgQueue ≠ []) :
    turnsLeft (consume cfg s).pc ≤ turnsLeft s.pc - 1 := by
  obtain ⟨msgQueue, stopping, buffer, stream, pc, ops⟩ := s
  cases h
  cases pc with
  | top => exact Nat.le_refl _
  | choose => exact Nat.le_refl _
  | tryPop => cases msgQueue <;> cases hmpmc : cfg.mpmc <;> simp [consume, hmpmc, turnsLeft]
  | pop =>
    cases msgQueue with
    | nil => exact absurd rfl (hpop rfl)
    | cons str rest => exact Nat.le_refl _
  | got str =>
    by_cases hstr : str = ""
    · cases hmpmc : cfg.mpmc <;> simp [consume, hmpmc, hstr, turnsLeft]
    · simp [consume, hstr, turnsLeft]
  | exited => exact Nat.le_refl _

/-- The thread comes to its end when the application has come to its own. -/
theorem exits : ∀ (n : Nat) {s : Logger}, Phase s → s.ops = [] → turnsLeft s.pc ≤ n →
    (runFrom (step cfg) s (List.replicate n .consumer)).Stopped
  | 0, s, _, hops, hn => by
    refine ⟨hops, ?_⟩
    show s.pc = .exited
    cases hpc : s.pc <;> rw [hpc] at hn <;> first | rfl | cases hn
  | n + 1, s, hphase, hops, hn => by
    obtain ⟨hstopping, hpop⟩ := hphase.ended hops
    have hstep : turnsLeft (consume cfg s).pc ≤ turnsLeft s.pc - 1 :=
      consume_turnsLeft hstopping hpop
    refine exits n (phase_step cfg hphase .consumer) (consume_shared.2.trans hops) ?_
    show turnsLeft (consume cfg s).pc ≤ n
    omega

theorem produce_ops (s : Logger) : (produce s).ops = s.ops.tail := by
  obtain ⟨msgQueue, stopping, buffer, stream, pc, ops⟩ := s
  cases ops with
  | nil => rfl
  | cons op ops => cases op <;> rfl

theorem Reached.phase (h : Reached cfg lines s) : Phase s := by
  obtain ⟨turns, rfl⟩ := h
  exact runFrom_of_step (P := Phase) (fun _ t hs => phase_step cfg hs t) (phase_start lines) turns

/-- **The join returns**: wherever a run stands, the application and then the thread come to their
ends. -/
theorem stop_returns (h : Reached cfg lines s) :
    ∃ turns, (runFrom (step cfg) s turns).Stopped := by
  have hend : ∀ (n : Nat) {s : Logger}, s.ops.length ≤ n →
      (runFrom (step cfg) s (List.replicate n .producer)).ops = [] := by
    intro n
    induction n with
    | zero => exact fun hn => List.eq_nil_of_length_eq_zero (Nat.le_zero.1 hn)
    | succ n ih =>
      intro s hn
      refine ih (s := produce s) ?_
      rw [produce_ops, List.length_tail]
      omega
  have hphase := runFrom_of_step (P := Phase) (fun _ t hs => phase_step cfg hs t) h.phase
    (List.replicate s.ops.length .producer)
  refine ⟨List.replicate s.ops.length .producer ++ List.replicate 4 .consumer, ?_⟩
  rw [runFrom_append]
  refine exits 4 hphase (hend _ (Nat.le_refl _)) ?_
  cases (runFrom (step cfg) s (List.replicate s.ops.length .producer)).pc <;> simp [turnsLeft]

/-! ## The stream -/

theorem buffered_step (t : Turn) (hbuf : cfg.buffer = true) :
    (step cfg s t).stream = s.stream := by
  obtain ⟨msgQueue, stopping, buffer, stream, pc, ops⟩ := s
  cases t with
  | producer =>
    cases ops with
    | nil => rfl
    | cons op ops => cases op <;> rfl
  | consumer =>
    cases pc with
    | top => cases stopping <;> cases hmpmc : cfg.mpmc <;> simp [step, consume, hmpmc]
    | choose => cases stopping <;> rfl
    | tryPop => cases msgQueue <;> cases hmpmc : cfg.mpmc <;> simp [step, consume, hmpmc]
    | pop => cases msgQueue <;> rfl
    | got str =>
      by_cases hstr : str = ""
      · cases hmpmc : cfg.mpmc <;> simp [step, consume, hmpmc, hstr]
      · simp [step, consume, hstr, processLogline, hbuf]
    | exited => rfl

/-- A logger that buffers writes nothing to its stream. -/
theorem buffered_stream (h : Reached cfg lines s) (hbuf : cfg.buffer = true) : s.stream = [] := by
  obtain ⟨turns, rfl⟩ := h
  exact runFrom_of_step (P := fun s : Logger => s.stream = [])
    (fun _ t hs => (buffered_step t hbuf).trans hs) rfl turns

/-- **Every line is logged once and in order** when no line is empty, and the stop finds the thread
with nothing left behind the element it will take. -/
theorem logged_iff (h : (runFrom (step cfg) (start lines) turns).Stopped) :
    logged cfg (runFrom (step cfg) (start lines) turns) = lines ↔
      "" ∉ lines ∧ Along (step cfg) StopsDrained (start lines) turns := by
  have hall := logged_stopped ⟨turns, rfl⟩ h
  have hleft : leftover (runFrom (step cfg) (start lines) turns) =
      texts (runFrom (step cfg) (start lines) turns).msgQueue := by
    rw [leftover, h.2]
    rfl
  rw [drained_iff turns (phase_start lines) rfl h, hleft]
  constructor
  · intro hlogged
    have htexts : texts lines = lines := by
      refine List.filter_sublist.eq_of_length_le ?_
      rw [← texts, ← hall, hlogged, List.length_append]
      exact Nat.le_add_right _ _
    rw [hlogged, htexts] at hall
    exact ⟨texts_eq_self.1 htexts, List.append_right_eq_self.1 hall⟩
  · rintro ⟨hempty, hqueue⟩
    rw [hqueue, List.append_nil, texts_eq_self.2 hempty] at hall
    exact hall

/-- **The logger writes every line once and in order** exactly when there is none, or it does not
buffer, no line is empty, and the stop finds at most the element that the thread will take. -/
theorem stream_eq_iff (h : (runFrom (step cfg) (start lines) turns).Stopped) :
    (runFrom (step cfg) (start lines) turns).stream = lines ↔
      lines = [] ∨ cfg.buffer = false ∧ "" ∉ lines ∧
        Along (step cfg) StopsDrained (start lines) turns := by
  cases hbuf : cfg.buffer with
  | true =>
    rw [buffered_stream ⟨turns, rfl⟩ hbuf]
    simp [eq_comm]
  | false =>
    have hlogged : ∀ s, logged cfg s = s.stream := fun s => by simp [logged, hbuf]
    have hiff := logged_iff h
    rw [hlogged] at hiff
    rw [hiff]
    refine ⟨fun hand => .inr ⟨rfl, hand⟩, ?_⟩
    rintro (hnil | ⟨-, hand⟩)
    · refine hiff.1 ?_
      have hsub : (logged cfg (runFrom (step cfg) (start lines) turns)).Sublist lines :=
        logged_sublist ⟨turns, rfl⟩
      rw [hlogged, hnil, List.sublist_nil] at hsub
      rw [hnil]
      exact hsub
    · exact hand

/-- A thread that keeps up, and has passed its condition when the stop comes. -/
def demoTurns : List Turn :=
  [.producer, .consumer, .consumer, .consumer, .producer, .consumer, .producer, .producer,
    .consumer, .consumer, .consumer]

theorem stream_eq_demo : (runFrom (step {}) (start ["Logon", "Logout"]) demoTurns).stream =
    ["Logon", "Logout"] :=
  (stream_eq_iff (by decide)).2 (.inr ⟨rfl, by decide, by decide⟩)

/-- A line that is stopped after before the thread has looked is never written. -/
theorem stream_stop_first : ¬∀ (cfg : Config) (lines : List String) (turns : List Turn),
    (runFrom (step cfg) (start lines) turns).Stopped →
      (runFrom (step cfg) (start lines) turns).stream = lines := by
  intro h
  have hrun := h {} ["Logon"] [.producer, .producer, .consumer, .producer] (by decide)
  revert hrun
  decide

end Fix8.Session.Logger
