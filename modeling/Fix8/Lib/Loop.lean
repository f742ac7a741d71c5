import Fix8.Lib.Act

/-!
# Triples and loops

`Triple P m Q E`: from a state in `P` the action `m` either returns a value and a state in `Q` or
throws, with the exception and the state in `E`. `loop` repeats a body until it delivers a
result, with a bound on the number of turns; a loop that reaches the bound throws `out`, so a
bounded loop that ends otherwise is the unbounded one.

* `triple_bind`, `triple_get`, `triple_modify`, `triple_onLocal`: the rules of the actions;
* **`triple_loop`**: an invariant of the body is one of the loop;
* **`triple_loop_measure`**, `triple_loop_lt`: with a variant, the loop never reaches its bound;
* `Runs`, `Reaches`: the turns of a loop that returns, and the turns up to some point of it, without
  the bound; `runs_of_loop`, `runs_reaches`.
-/

namespace Lib.Act

variable {σ τ ε α β γ : Type}

/-- From `P`, `m` returns in `Q` or throws in `E`. -/
def Triple (P : σ → Prop) (m : Act σ ε α) (Q : α → σ → Prop) (E : ε → σ → Prop) : Prop :=
  ∀ s, P s → match m s with
    | .ok a s' => Q a s'
    | .throw e s' => E e s'

section Triple
variable {P P' : σ → Prop} {Q Q' : α → σ → Prop} {E E' : ε → σ → Prop} {m : Act σ ε α}

theorem Triple.ok {s s' : σ} {a : α} (h : Triple P m Q E) (hs : P s) (hm : m s = .ok a s') :
    Q a s' := by
  have := h s hs
  rwa [hm] at this

theorem Triple.throw {s s' : σ} {e : ε} (h : Triple P m Q E) (hs : P s)
    (hm : m s = .throw e s') : E e s' := by
  have := h s hs
  rwa [hm] at this

theorem Triple.conseq (h : Triple P m Q E) (hP : ∀ s, P' s → P s) (hQ : ∀ a s, Q a s → Q' a s)
    (hE : ∀ e s, E e s → E' e s) : Triple P' m Q' E' := by
  intro s hs
  have := h s (hP s hs)
  cases hm : m s with
  | ok a s' =>
    rw [hm] at this
    exact hQ a s' this
  | throw e s' =>
    rw [hm] at this
    exact hE e s' this

/-- What is known of the state before `m` can be used inside the triple. -/
theorem triple_of (h : ∀ s, P s → Triple (fun s' => s' = s) m Q E) : Triple P m Q E :=
  fun s hs => h s hs s rfl

theorem triple_pure {a : α} (h : ∀ s, P s → Q a s) : Triple P (pure a) Q E := h

theorem triple_throw {e : ε} (h : ∀ s, P s → E e s) : Triple P (throw e : Act σ ε α) Q E := h

theorem triple_modify {g : σ → σ} {Q : Unit → σ → Prop} (h : ∀ s, P s → Q () (g s)) :
    Triple P (modify g) Q E := h

theorem triple_bind {R : α → σ → Prop} {Q : β → σ → Prop} {k : α → Act σ ε β}
    (hm : Triple P m R E) (hk : ∀ a, Triple (R a) (k a) Q E) : Triple P (m >>= k) Q E := by
  intro s hs
  have h := hm s hs
  rw [bind_apply]
  cases hms : m s with
  | ok a s' =>
    rw [hms] at h
    exact hk a s' h
  | throw e s' =>
    rw [hms] at h
    exact h

theorem triple_get {Q : β → σ → Prop} {k : σ → Act σ ε β}
    (h : ∀ s, P s → Triple (fun s' => s' = s) (k s) Q E) : Triple P (get >>= k) Q E :=
  fun s hs => h s hs s rfl

/-- What the moves of `m` keep holds at its end. -/
theorem Moves.triple {R : σ → σ → Prop} (h : Moves R m) (hP : ∀ s s', R s s' → P s → P s') :
    Triple P m (fun _ => P) (fun _ => P) := by
  intro s hs
  have hmove := h s
  cases hm : m s with
  | ok a s' =>
    rw [hm] at hmove
    exact hP s s' hmove hs
  | throw e s' =>
    rw [hm] at hmove
    exact hP s s' hmove hs

theorem triple_ite {p : Prop} [Decidable p] {m' : Act σ ε α}
    (h : p → Triple P m Q E) (h' : ¬ p → Triple P m' Q E) :
    Triple P (if p then m else m') Q E := by
  split
  · exact h ‹_›
  · exact h' ‹_›

end Triple

/-! ## Local state -/

/-- `m` on a state of its own, which is lost when `m` throws. -/
def onLocal (init : τ) (m : Act τ ε α) : Act σ ε (α × τ) := fun s =>
  match m init with
  | .ok a t => .ok (a, t) s
  | .throw e _ => .throw e s

theorem moves_onLocal {R : σ → σ → Prop} [IsPreorder σ R] (init : τ) (m : Act τ ε α) :
    Moves R (onLocal init m : Act σ ε (α × τ)) := by
  intro s
  unfold onLocal
  cases m init with
  | ok a t => exact refl_of R s
  | throw e t => exact refl_of R s

theorem onLocal_ok {init t : τ} {m : Act τ ε α} {a : α} (h : m init = .ok a t) (s : σ) :
    (onLocal init m : Act σ ε (α × τ)) s = .ok (a, t) s := by
  rw [onLocal, h]

theorem onLocal_eq_ok {init : τ} {m : Act τ ε α} {r : α × τ} {s s' : σ}
    (h : (onLocal init m : Act σ ε (α × τ)) s = .ok r s') : s' = s ∧ m init = .ok r.1 r.2 := by
  unfold onLocal at h
  cases hm : m init with
  | ok a t =>
    rw [hm] at h
    cases h
    exact ⟨rfl, rfl⟩
  | throw e t =>
    rw [hm] at h
    cases h

theorem triple_onLocal {init : τ} {m : Act τ ε α} {P : σ → Prop} {P' : τ → Prop}
    {Q : α × τ → σ → Prop} {Q' : α → τ → Prop} {E : ε → σ → Prop} {E' : ε → τ → Prop}
    (hm : Triple P' m Q' E') (hi : P' init) (hQ : ∀ a t s, P s → Q' a t → Q (a, t) s)
    (hE : ∀ e t s, P s → E' e t → E e s) : Triple P (onLocal init m) Q E := by
  intro s hs
  have h := hm init hi
  unfold onLocal
  cases hms : m init with
  | ok a t =>
    rw [hms] at h
    exact hQ a t s hs h
  | throw e t =>
    rw [hms] at h
    exact hE e t s hs h

/-! ## Loops -/

/-- `body` from `b` on until it delivers a result, for at most `n` turns. -/
def loop (out : ε) (body : β → Act σ ε (β ⊕ γ)) : Nat → β → Act σ ε γ
  | 0, _ => throw out
  | n + 1, b => do
    match ← body b with
    | .inl b' => loop out body n b'
    | .inr c => pure c

section Loop
variable {out : ε} {body : β → Act σ ε (β ⊕ γ)} {b b' : β} {c : γ} {s s' s₁ : σ} {n : Nat}

theorem loop_next (h : body b s = .ok (.inl b') s') :
    loop out body (n + 1) b s = loop out body n b' s' := by
  rw [loop, bind_ok h]

theorem loop_done (h : body b s = .ok (.inr c) s') :
    loop out body (n + 1) b s = .ok c s' := by
  rw [loop, bind_ok h]
  rfl

theorem loop_throw {e : ε} (h : body b s = .throw e s') :
    loop out body (n + 1) b s = .throw e s' := by
  rw [loop, bind_throw h]

/-- What a turn establishes: the invariant for another turn, or the result. -/
def Turned (I : β → σ → Prop) (Q : γ → σ → Prop) : β ⊕ γ → σ → Prop
  | .inl b => I b
  | .inr c => Q c

theorem triple_loop {I : β → σ → Prop} {Q : γ → σ → Prop} {E : ε → σ → Prop}
    (hbody : ∀ b, Triple (I b) (body b) (Turned I Q) E) (hout : ∀ b s, I b s → E out s) :
    ∀ n b, Triple (I b) (loop out body n b) Q E := by
  intro n
  induction n with
  | zero => exact fun b => triple_throw (hout b)
  | succ n ih =>
    intro b
    refine triple_bind (hbody b) fun r => ?_
    cases r with
    | inl b' => exact ih b'
    | inr c => exact triple_pure fun _ h => h

theorem moves_loop {R : σ → σ → Prop} [IsPreorder σ R] (h : ∀ b, Moves R (body b)) :
    ∀ n b, Moves R (loop out body n b) := by
  intro n
  induction n with
  | zero => exact fun b => moves_throw out
  | succ n ih =>
    intro b
    refine moves_bind (h b) fun r => ?_
    cases r with
    | inl b' => exact ih b'
    | inr c => exact moves_pure c

/-- A loop whose turns decrease a measure of cursor and state does not reach its bound. -/
theorem triple_loop_measure {I : β → σ → Prop} {Q : γ → σ → Prop} {E : ε → σ → Prop} (out : ε)
    (μ : β → σ → Nat)
    (hbody : ∀ b k, Triple (fun s => I b s ∧ μ b s = k) (body b)
      (Turned (fun b' s => I b' s ∧ μ b' s < k) Q) E) :
    ∀ n b, Triple (fun s => I b s ∧ μ b s < n) (loop out body n b) Q E := by
  intro n
  induction n with
  | zero => exact fun b s hs => absurd hs.2 (Nat.not_lt_zero _)
  | succ n ih =>
    intro b
    refine triple_of fun s hs => triple_bind
      ((hbody b (μ b s)).conseq (fun s' hs' => by rw [hs']; exact ⟨hs.1, rfl⟩) (fun _ _ h => h)
        fun _ _ h => h) fun r => ?_
    cases r with
    | inl b' =>
      intro s' hs'
      have hlt : μ b' s' < n := by
        have hdecr := hs'.2
        have hbound := hs.2
        omega
      exact ih b' s' ⟨hs'.1, hlt⟩
    | inr c => exact triple_pure fun _ h => h

/-- From `b` and `s` the turns of the loop lead to the result `c` and `s'`. -/
inductive Runs (body : β → Act σ ε (β ⊕ γ)) : β → σ → γ → σ → Prop where
  | done {b : β} {s : σ} {c : γ} {s' : σ} (h : body b s = .ok (.inr c) s') : Runs body b s c s'
  | next {b : β} {s : σ} {b₁ : β} {s₁ : σ} {c : γ} {s' : σ} (h : body b s = .ok (.inl b₁) s₁)
      (hr : Runs body b₁ s₁ c s') : Runs body b s c s'

/-- A loop that returns has made its turns. -/
theorem runs_of_loop (h : loop out body n b s = .ok c s') : Runs body b s c s' := by
  induction n generalizing b s with
  | zero => cases h
  | succ n ih =>
    rw [loop] at h
    obtain ⟨r, s₁, hbody, h⟩ := bind_eq_ok h
    cases r with
    | inl b₁ => exact .next hbody (ih h)
    | inr c₁ =>
      cases h
      exact .done hbody

/-- From `b` and `s` the loop comes to a turn from `b'` and `s'`. -/
inductive Reaches (body : β → Act σ ε (β ⊕ γ)) (b : β) (s : σ) : β → σ → Prop where
  | here : Reaches body b s b s
  | next {b₁ b₂ : β} {s₁ s₂ : σ} (hr : Reaches body b s b₁ s₁)
      (h : body b₁ s₁ = .ok (.inl b₂) s₂) : Reaches body b s b₂ s₂

theorem Reaches.trans {b₁ : β} (h : Reaches body b s b₁ s₁) (h' : Reaches body b₁ s₁ b' s') :
    Reaches body b s b' s' := by
  induction h' with
  | here => exact h
  | next _ h' ih => exact ih.next h'

theorem Reaches.head {b₁ : β} {s₁ : σ} (h : body b s = .ok (.inl b₁) s₁)
    (hr : Reaches body b₁ s₁ b' s') : Reaches body b s b' s' :=
  (Reaches.here.next h).trans hr

theorem Reaches.cases_head (h : Reaches body b s b' s') :
    (b' = b ∧ s' = s) ∨ ∃ b₁ s₁, body b s = .ok (.inl b₁) s₁ ∧ Reaches body b₁ s₁ b' s' := by
  induction h with
  | here => exact .inl ⟨rfl, rfl⟩
  | next _ h ih =>
    right
    obtain ⟨rfl, rfl⟩ | ⟨b₁, s₁, hfirst, hr⟩ := ih
    · exact ⟨_, _, h, .here⟩
    · exact ⟨b₁, s₁, hfirst, hr.next h⟩

/-- Of two turns that a loop comes to, it comes to one from the other. -/
theorem Reaches.linear {b₁ b₂ : β} {s₁ s₂ : σ} (h₁ : Reaches body b s b₁ s₁)
    (h₂ : Reaches body b s b₂ s₂) : Reaches body b₁ s₁ b₂ s₂ ∨ Reaches body b₂ s₂ b₁ s₁ := by
  induction h₂ with
  | here => exact .inr h₁
  | next _ h ih =>
    obtain hr | hr := ih
    · exact .inl (hr.next h)
    · obtain ⟨rfl, rfl⟩ | ⟨b', s', hfirst, hr⟩ := hr.cases_head
      · exact .inl (Reaches.here.next h)
      · rw [h] at hfirst
        cases hfirst
        exact .inr hr

/-- What a run leaves to be done at a turn that it comes to. -/
theorem Reaches.runs (h : Reaches body b s b' s') (hr : Runs body b s c s₁) :
    Runs body b' s' c s₁ := by
  induction h with
  | here => exact hr
  | next _ h ih =>
    cases ih with
    | done h' =>
      rw [h] at h'
      cases h'
    | next h' hr' =>
      rw [h] at h'
      cases h'
      exact hr'

/-- A loop whose turns lead to a last one returns, if it has turns enough. -/
theorem Reaches.loop (h : Reaches body b s b' s') (hdone : body b' s' = .ok (.inr c) s₁) :
    ∃ n, loop out body n b s = .ok c s₁ := by
  have hback : ∀ {b' : β} {s' : σ}, Reaches body b s b' s' →
      ∀ n, Act.loop out body n b' s' = .ok c s₁ → ∃ n, Act.loop out body n b s = .ok c s₁ := by
    intro b' s' h
    induction h with
    | here => exact fun n hn => ⟨n, hn⟩
    | next _ h ih => exact fun n hn => ih (n + 1) ((loop_next h).trans hn)
  exact hback h 1 (loop_done hdone)

/-- The last turn of a run. -/
theorem runs_reaches (h : Runs body b s c s') :
    ∃ b₁ s₁, Reaches body b s b₁ s₁ ∧ body b₁ s₁ = .ok (.inr c) s' := by
  induction h with
  | done h => exact ⟨_, _, .here, h⟩
  | next h _ ih =>
    obtain ⟨b₁, s₁, hr, hlast⟩ := ih
    exact ⟨b₁, s₁, hr.head h, hlast⟩

/-- What follows a turn that has delivered `r`. -/
def Onward (body : β → Act σ ε (β ⊕ γ)) : β ⊕ γ → σ → γ → σ → Prop
  | .inl b, s, c, s' => Runs body b s c s'
  | .inr c₁, s, c, s' => c₁ = c ∧ s = s'

/-- The first turn of a run. -/
theorem Runs.onward (h : Runs body b s c s') :
    ∃ r s₁, body b s = .ok r s₁ ∧ Onward body r s₁ c s' := by
  cases h with
  | done h => exact ⟨_, _, h, rfl, rfl⟩
  | next h hr => exact ⟨_, _, h, hr⟩

end Loop

end Lib.Act
