import Fix8.Session.Timer
import Fix8.Session.Proof.Admission

/-!
# The lock of the timer

A callback runs under the lock of the timer. `stop` of an initiator clears the timer, and so takes
the lock again; the heartbeat service comes to it when a test request has not been answered.

* `Spins`: a method ends in a thread that spins on the lock, with a rule for each construct;
* `heartbeatTimed_session`: what the service does to the session is what `heartbeat_service` does;
* `round_spins_iff`: one round of the timer thread;
* **`relocks_iff`**: every round of a run.
-/

namespace Fix8.Session

open Lib

/-! ## Spinning -/

section
variable {α β : Type} {st st' : Timed} {v : Env} {sch : Schedule}

/-- The thread takes a lock that is not released. -/
def Spins (m : TimedMethod α) (st : Timed) : Prop := ∃ st', m st = .throw .spinning st'

theorem spins_ok {m : TimedMethod α} {a : α} (h : m st = .ok a st') : ¬Spins m st := by
  rintro ⟨st'', hspin⟩
  rw [h] at hspin
  cases hspin

theorem spins_bind_ok {m : TimedMethod α} {k : α → TimedMethod β} {a : α} (h : m st = .ok a st') :
    Spins (m >>= k) st ↔ Spins (k a) st' := by
  unfold Spins
  rw [Act.bind_ok h]

/-- What follows does not spin. -/
theorem spins_bind_free {m : TimedMethod α} {k : α → TimedMethod β}
    (hk : ∀ a st', ¬Spins (k a) st') : Spins (m >>= k) st ↔ Spins m st := by
  cases h : m st with
  | ok a st' =>
    rw [spins_bind_ok h]
    exact iff_of_false (hk a st') (spins_ok h)
  | throw e st' =>
    have hbind : (m >>= k) st = .throw e st' := Act.bind_throw h k
    unfold Spins
    rw [hbind, h]
    constructor <;>
      · rintro ⟨st'', heq⟩
        cases heq
        exact ⟨_, rfl⟩

theorem spins_get {k : Timed → TimedMethod α} : Spins (Act.get >>= k) st ↔ Spins (k st) st :=
  Iff.rfl

theorem spins_pure_bind {a : α} {k : α → TimedMethod β} :
    Spins (pure a >>= k) st ↔ Spins (k a) st := Iff.rfl

theorem spins_modify_bind {f : Timed → Timed} {k : Unit → TimedMethod α} :
    Spins (Act.modify f >>= k) st ↔ Spins (k ()) (f st) := Iff.rfl

theorem spins_send {m : Msg} {c : Nat} {n : Bool} {k : TimedMethod α} :
    Spins (onSession (send v m c n) >>= fun _ => k) st ↔
      Spins k { st with session := (send v m c n st.session).state } := Iff.rfl

theorem spins_modifySession {f : Session → Session} {k : TimedMethod α} :
    Spins (onSession (Act.modify f) >>= fun _ => k) st ↔
      Spins k { st with session := f st.session } := Iff.rfl

theorem spins_pure {a : α} : ¬Spins (pure a) st := spins_ok rfl

theorem spins_modify {f : Timed → Timed} : ¬Spins (Act.modify f) st := spins_ok rfl

theorem spins_onSession {m : Method α} : ¬Spins (onSession m) st := by
  rintro ⟨st', hspin⟩
  unfold onSession at hspin
  split at hspin <;> cases hspin

namespace Timer

/-- A lock that is free is taken. -/
theorem guarded_spins {m : TimedMethod α} (h : st.locked = false) :
    Spins (guarded m) st ↔ Spins m { st with locked := true } := by
  unfold Spins guarded
  rw [h]
  cases m { st with locked := true } with
  | ok a st' => simp
  | throw e st' => cases e <;> simp

/-- A lock that is held is not. -/
theorem guarded_of_locked {m : TimedMethod α} (h : st.locked = true) :
    guarded m st = .throw .spinning st := by
  rw [guarded, if_pos h]

/-- A round that returns has released the lock. -/
theorem guarded_unlocked {m : TimedMethod α} (h : st.locked = false)
    (hspins : ¬Spins (guarded m) st) : (guarded m st).state.locked = false := by
  cases hm : m { st with locked := true } with
  | ok a st' =>
    have hrun : guarded m st = .ok a { st' with locked := false } := by
      unfold guarded
      rw [h, hm]
      rfl
    rw [hrun]
    rfl
  | throw e st' =>
    cases e with
    | exn e =>
      have hrun : guarded m st = .throw (.exn e) { st' with locked := false } := by
        unfold guarded
        rw [h, hm]
        rfl
      rw [hrun]
      rfl
    | spinning => exact absurd ((guarded_spins h).2 ⟨st', hm⟩) hspins

/-- **A round spins** when its event is due and the callback does, with the lock held. -/
theorem round_spins {cb : Callback → TimedMethod Bool} {i : Nat} (h : st.locked = false) :
    Spins (round cb i) st ↔ ∃ op, top st.queue i = some op ∧ op.t ≠ 0 ∧ op.t ≤ st.session.clock ∧
      Spins (cb op.callback) { st with locked := true, queue := st.queue.eraseIdx i } := by
  rw [round, guarded_spins h, spins_get]
  dsimp only
  cases top st.queue i with
  | none => simp [spins_pure]
  | some op =>
    simp only [Option.some.injEq, exists_eq_left']
    by_cases hempty : op.t = 0
    · simp [hempty, spins_modify]
    · by_cases hdue : op.t ≤ st.session.clock
      · rw [if_neg hempty, if_pos hdue, spins_modify_bind]
        simp only [ne_eq, hempty, not_false_eq_true, hdue, true_and]
        refine spins_bind_free fun result st' => ?_
        split
        · exact spins_modify
        · exact spins_pure
      · simp [hempty, hdue, spins_pure]

end Timer

/-! ## The callbacks -/

/-- `stop` takes the lock for an initiator, the first time. -/
theorem stopTimed_spins (h : st.locked = true) :
    Spins (stopTimed v) st ↔ st.session.shutdown = false ∧ v.role = .initiator := by
  rw [stopTimed, spins_get]
  cases hdown : st.session.shutdown with
  | true => simp [spins_pure]
  | false =>
    simp only [Bool.false_eq_true, if_false, true_and]
    rw [stop, spins_modifySession]
    by_cases hrole : v.role = .initiator
    · rw [if_pos hrole, spins_bind_free fun _ _ => spins_pure]
      exact iff_of_true ⟨_, Timer.guarded_of_locked h⟩ hrole
    · rw [if_neg hrole]
      exact iff_of_false spins_pure hrole

/-- What the heartbeat service looks at. -/
def watched (s : Session) : Bool × SessionState × Nat × Nat × Nat :=
  (s.shutdown, s.state, s.clock, s.lastReceived, s.hbInterval20pc)

theorem watched_send {m : Msg} {c : Nat} {n : Bool} {s : Session} :
    watched (send v m c n s).state = watched s :=
  keeps_send (fun _ _ _ _ _ _ _ _ => rfl) s

/-- The peer has been silent for longer than a fifth above the interval. -/
def Overdue (s : Session) : Prop := s.hbInterval20pc < (s.clock - s.lastReceived) / 1000

instance (s : Session) : Decidable (Overdue s) := inferInstanceAs (Decidable (_ < _))

theorem watchTimed_spins (h : st.locked = true) : Spins (watchTimed v) st ↔
    Overdue st.session ∧ st.session.state = .stTestRequestSent ∧ st.session.shutdown = false ∧
      v.role = .initiator := by
  rw [watchTimed, spins_get]
  dsimp only
  by_cases hover : (st.session.clock - st.session.lastReceived) / 1000 > st.session.hbInterval20pc
  · rw [if_pos hover]
    have hyes : Overdue st.session := hover
    simp only [hyes, true_and]
    by_cases hsent : st.session.state = .stTestRequestSent
    · rw [if_pos hsent, spins_send, doStateChange, spins_modifySession]
      have hdown : ∀ m, (send v m 0 true st.session).state.shutdown = st.session.shutdown := fun m =>
        congrArg Prod.fst watched_send
      refine (stopTimed_spins (by exact h)).trans ⟨?_, ?_⟩
      · rintro ⟨hup, hrole⟩
        exact ⟨hsent, (hdown _).symm.trans hup, hrole⟩
      · rintro ⟨-, hup, hrole⟩
        exact ⟨(hdown _).trans hup, hrole⟩
    · rw [if_neg hsent]
      refine iff_of_false ?_ fun hand => hsent hand.1
      split
      · rw [spins_send]
        exact spins_onSession
      · exact spins_pure
  · rw [if_neg hover]
    exact iff_of_false spins_pure fun hand => hover hand.1

/-- **The heartbeat service spins** when an initiator's test request has not been answered. -/
theorem heartbeatTimed_spins (h : st.locked = true) : Spins (heartbeatTimed v) st ↔
    st.session.shutdown = false ∧ v.connected = true ∧ Overdue st.session ∧
      st.session.state = .stTestRequestSent ∧ v.role = .initiator := by
  have hwatch : ∀ s, watched s = watched st.session →
      (Spins (watchTimed v >>= fun _ => pure true) { st with session := s } ↔
        Overdue st.session ∧ st.session.state = .stTestRequestSent ∧ st.session.shutdown = false ∧
          v.role = .initiator) := by
    intro s hs
    simp only [watched, Prod.mk.injEq] at hs
    obtain ⟨hdown, hstate, hclock, hlast, hint⟩ := hs
    rw [spins_bind_free fun _ _ => spins_pure]
    refine (watchTimed_spins (by exact h)).trans ?_
    simp only [Overdue, hdown, hstate, hclock, hlast, hint]
  have hquiet : st.session.isShutdown = true →
      ¬(st.session.state = .stTestRequestSent ∧ st.session.shutdown = false) := by
    rintro hdown ⟨hsent, hup⟩
    simp [Session.isShutdown, hsent, hup] at hdown
  rw [heartbeatTimed, spins_get]
  cases hdown : st.session.isShutdown with
  | true =>
    refine iff_of_false spins_pure ?_
    rintro ⟨hup, -, -, hsent, -⟩
    exact hquiet hdown ⟨hsent, hup⟩
  | false =>
    have hup : st.session.shutdown = false := (Bool.or_eq_false_iff.1 hdown).1
    cases hconn : v.connected with
    | false => simp [spins_pure]
    | true =>
      simp only [Bool.false_eq_true, if_false, if_true, hup, true_and]
      rw [hup] at hwatch
      split
      · refine (spins_send (m := generateHeartbeat "")).trans ?_
        simpa using hwatch _ watched_send
      · rw [spins_pure_bind]
        simpa using hwatch _ rfl

/-! ## The session alone -/

/-- A method with calls of the timer that ends as the method without them, unless it spins. -/
def Tracks (m' : TimedMethod α) (m : Method α) (st : Timed) : Prop :=
  ∀ r, m' st = r → match r with
    | .ok a st' => m st.session = .ok a st'.session
    | .throw (.exn e) st' => m st.session = .throw e st'.session
    | .throw .spinning _ => True

theorem tracks_onSession {m : Method α} : Tracks (onSession m) m st := by
  rintro r rfl
  unfold onSession
  cases m st.session <;> rfl

theorem tracks_pure {a : α} : Tracks (pure a) (pure a) st := by
  rintro r rfl
  rfl

theorem tracks_bind {m' : TimedMethod α} {m : Method α} {k' : α → TimedMethod β}
    {k : α → Method β} (hm : Tracks m' m st)
    (hk : ∀ a st', m' st = .ok a st' → Tracks (k' a) (k a) st') :
    Tracks (m' >>= k') (m >>= k) st := by
  rintro r rfl
  cases h : m' st with
  | ok a st' =>
    have hsame := hm _ h
    have hbind : (m' >>= k') st = k' a st' := Act.bind_ok h k'
    have hbind' : (m >>= k) st.session = k a st'.session := Act.bind_ok hsame k
    rw [hbind, hbind']
    exact hk a st' h _ rfl
  | throw e st' =>
    have hsame := hm _ h
    have hbind : (m' >>= k') st = .throw e st' := Act.bind_throw h k'
    rw [hbind]
    cases e with
    | exn e => exact Act.bind_throw hsame k
    | spinning => trivial

theorem tracks_get {k' : Timed → TimedMethod α} {k : Session → Method α}
    (h : Tracks (k' st) (k st.session) st) : Tracks (Act.get >>= k') (Act.get >>= k) st := h

theorem tracks_ite {m' n' : TimedMethod α} {m n : Method α} {p : Prop} [Decidable p]
    (hm : Tracks m' m st) (hn : Tracks n' n st) :
    Tracks (if p then m' else n') (if p then m else n) st := by
  split
  · exact hm
  · exact hn

theorem tracks_stop : Tracks (stopTimed v) stop st := by
  rintro r rfl
  rw [stopTimed, Act.get_bind_apply]
  cases hdown : st.session.shutdown with
  | true =>
    show stop st.session = .ok () st.session
    rw [stop, Act.modify_apply, ← hdown]
  | false =>
    rw [if_neg Bool.false_ne_true]
    by_cases hrole : v.role = .initiator
    · rw [if_pos hrole]
      cases hlocked : st.locked with
      | true =>
        have hclear : Timer.clear { st with session := { st.session with shutdown := true } } =
            .throw .spinning _ := Timer.guarded_of_locked hlocked
        have hrun : (onSession stop >>= fun _ => Timer.clear >>= fun _ => pure ()) st =
            .throw .spinning { st with session := { st.session with shutdown := true } } :=
          Act.bind_throw hclear _
        rw [hrun]
        trivial
      | false =>
        have hrun : (onSession stop >>= fun _ => Timer.clear >>= fun _ => pure ()) st =
            .ok () { st with session := { st.session with shutdown := true }, queue := [] } := by
          obtain ⟨session, queue, locked⟩ := st
          cases hlocked
          rfl
        rw [hrun]
        rfl
    · rw [if_neg hrole]
      rfl

/-- **The heartbeat service** does to the session what it does without a timer, unless it spins. -/
theorem heartbeatTimed_session : Tracks (heartbeatTimed v) (heartbeatService v) st := by
  have hwatch : ∀ st, Tracks (watchTimed v) (watchReceived v) st := by
    intro st
    refine tracks_get (tracks_ite (tracks_ite ?_ (tracks_ite ?_ tracks_pure)) tracks_pure)
    · exact tracks_bind tracks_onSession fun _ _ _ =>
        tracks_bind tracks_onSession fun _ _ _ => tracks_stop
    · exact tracks_bind tracks_onSession fun _ _ _ => tracks_onSession
  refine tracks_get (tracks_ite tracks_pure (tracks_ite ?_ tracks_pure))
  refine tracks_bind (tracks_ite ?_ tracks_pure) fun _ _ _ =>
    tracks_bind (hwatch _) fun _ _ _ => tracks_pure
  exact tracks_bind tracks_onSession fun _ _ _ => tracks_pure

/-! ## Runs -/

/-- The timer thread takes its own lock again. -/
def Relocks (v : Env) (sch : Schedule) (st : Timed) : TimedCall → Prop
  | .round now i => Spins (Timer.round (callback v sch) i) (st.at now)
  | _ => False

/-- The heartbeat event of an initiator is due, and the test request of the session, which is up, has
not been answered in time. -/
def Aborts (v : Env) (st : Timed) : TimedCall → Prop
  | .round now i =>
    (∃ op ∈ Timer.top st.queue i, op.t ≠ 0 ∧ op.t ≤ now ∧ op.callback = .heartbeatService) ∧
      st.session.shutdown = false ∧ v.connected = true ∧ Overdue { st.session with clock := now } ∧
        st.session.state = .stTestRequestSent ∧ v.role = .initiator
  | _ => False

instance (v : Env) (st : Timed) (c : TimedCall) : Decidable (Aborts v st c) :=
  match c with
  | .round _ _ => inferInstanceAs (Decidable (_ ∧ _))
  | .send _ _ | .received _ _ | .stop => inferInstanceAs (Decidable False)

theorem relocks_call_iff (h : st.locked = false) (c : TimedCall) :
    Relocks v sch st c ↔ Aborts v st c := by
  cases c with
  | round now i =>
    have hfree : (st.at now).locked = false := h
    refine (Timer.round_spins hfree).trans ⟨?_, ?_⟩
    · rintro ⟨op, htop, hne, hdue, hspins⟩
      cases hcb : op.callback with
      | heartbeatService =>
        rw [hcb] at hspins
        exact ⟨⟨op, htop, hne, hdue, hcb⟩, (heartbeatTimed_spins rfl).1 hspins⟩
      | activationService =>
        rw [hcb] at hspins
        exact absurd hspins spins_onSession
    · rintro ⟨⟨op, htop, hne, hdue, hcb⟩, haborts⟩
      refine ⟨op, htop, hne, hdue, ?_⟩
      rw [hcb]
      exact (heartbeatTimed_spins rfl).2 haborts
  | _ => exact Iff.rfl

/-- A free lock stays free. -/
def StaysFree (st st' : Timed) : Prop := st.locked = false → st'.locked = false

instance : IsPreorder Timed StaysFree where
  refl _ h := h
  trans _ _ _ h h' free := h' (h free)

theorem frees_guarded {m : TimedMethod α} (hm : ∀ st, ¬Spins m st) :
    Act.Moves StaysFree (Timer.guarded m) := fun _ h =>
  Timer.guarded_unlocked h fun hspins => hm _ ((Timer.guarded_spins h).1 hspins)

theorem frees_onSession {m : Method α} : Act.Moves StaysFree (onSession m) := by
  intro st h
  unfold onSession
  cases m st.session <;> exact h

theorem frees_clear : Act.Moves StaysFree Timer.clear := frees_guarded fun _ => spins_ok rfl

theorem frees_schedule {what : TimerEvent} {timeToWait : Nat} :
    Act.Moves StaysFree (Timer.schedule what timeToWait) :=
  Act.moves_bind Act.moves_get fun _ =>
    Act.moves_bind (frees_guarded fun _ => spins_modify) fun _ => Act.moves_pure _

theorem frees_stopTimed : Act.Moves StaysFree (stopTimed v) :=
  Act.moves_bind Act.moves_get fun _ => Act.moves_ite (Act.moves_pure _)
    (Act.moves_bind frees_onSession fun _ => Act.moves_ite
      (Act.moves_bind frees_clear fun _ => Act.moves_pure _) (Act.moves_pure _))

theorem frees_processTimed {inb : Inbound} : Act.Moves StaysFree (processTimed v inb) := by
  refine Act.moves_bind Act.moves_get fun _ => Act.moves_bind (Act.moves_ite ?_ (Act.moves_pure _))
    fun _ => Act.moves_bind (Act.moves_ite ?_ (Act.moves_pure _)) fun _ => frees_onSession
  · exact Act.moves_bind frees_schedule fun _ => Act.moves_pure _
  · exact Act.moves_bind frees_clear fun _ => Act.moves_pure _

/-- **One call** leaves the lock free, unless the timer thread takes it twice. -/
theorem timedStep_unlocked {c : TimedCall} (h : st.locked = false) (hc : ¬Relocks v sch st c) :
    (timedStep v sch st c).locked = false := by
  cases c with
  | send now m => exact h
  | received now inb => exact frees_processTimed _ h
  | round now i => exact Timer.guarded_unlocked h hc
  | stop => exact frees_stopTimed _ h

/-- **The timer thread does not take its lock twice** in a run exactly when no round of it finds an
initiator's test request unanswered. -/
theorem relocks_iff (h : st.locked = false) (calls : List TimedCall) :
    Along (timedStep v sch) (fun st c => ¬Relocks v sch st c) st calls ↔
      Along (timedStep v sch) (fun st c => ¬Aborts v st c) st calls :=
  along_congr_of_step (P := fun st : Timed => st.locked = false) (fun _ c hst => not_congr (relocks_call_iff hst c))
    (fun _ _ hst hc => timedStep_unlocked hst hc) h

end

/-- An initiator that has sent its Logon, and its timer. -/
def demoTimed : Timed := { session := demoLogonSent }

def demoSchedule : Schedule := ⟨0, 0, 0, 0, -1, -1, 0⟩

theorem relocks_demo : Along (timedStep demoEnv demoSchedule)
    (fun st c => ¬Relocks demoEnv demoSchedule st c) demoTimed
    [.received 0 (demoLogon "B").inbound, .round 31000 0, .received 32000 (demoHeartbeat 6).inbound,
      .round 40000 0] := by
  exact (relocks_iff rfl _).2 ⟨by decide +kernel, by decide +kernel, by decide +kernel,
    by decide +kernel, trivial⟩

/-- A peer that answers the Logon and is silent from then on. -/
theorem relocks_silent_peer : ¬∀ (v : Env) (sch : Schedule) (st : Timed) (calls : List TimedCall),
    st.locked = false → Along (timedStep v sch) (fun st c => ¬Relocks v sch st c) st calls := by
  intro h
  have hrun := h demoEnv demoSchedule demoTimed
    [.received 0 (demoLogon "B").inbound, .round 37000 0, .round 38000 0] rfl
  exact hrun.2.2.1 ((relocks_call_iff (by decide +kernel) _).2 (by decide +kernel))

end Fix8.Session
