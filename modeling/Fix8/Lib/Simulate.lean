import Fix8.Lib.Loop

/-!
# Comparing actions

Ways in which an action does what another does.

* `Res.Like f R`: ends with values related by `R`, the second state that of the first changed by `f`;
* `Commutes f m`: from a state changed by `f`, `m` does the same and leaves the change in place;
* `Extends out m m'`: `m'` does what `m` does unless `m` runs out, so that a bound that was enough
  stays enough (`extends_loop`);
* **`loop_mirrored`**: a loop that returns, turn by turn in step with another;
* `Passes body b s r`: a turn that the loop comes to from `b` and `s` ends in `r`. A loop each of
  whose turns is passed by another loop ends as that one does, up to what their cursors and
  results have in common (**`loop_passed`**, **`loop_passes`**).
-/

namespace Lib

variable {σ τ ε α β γ : Type}

/-- The end of an action with its state changed by `f`. -/
def Res.mapState (f : σ → σ) : Res σ ε α → Res σ ε α
  | .ok a s => .ok a (f s)
  | .throw e s => .throw e (f s)

@[simp] theorem Res.mapState_ok {f : σ → σ} (a : α) (s : σ) :
    (.ok a s : Res σ ε α).mapState f = .ok a (f s) := rfl
@[simp] theorem Res.mapState_throw {f : σ → σ} (e : ε) (s : σ) :
    (.throw e s : Res σ ε α).mapState f = .throw e (f s) := rfl

/-- The second end is like the first: the values are related, the state is changed by `f`, and an
exception is the same. -/
inductive Res.Like (f : σ → σ) (R : σ → α → β → Prop) : Res σ ε α → Res σ ε β → Prop where
  | ok {a : α} {b : β} {s : σ} (h : R s a b) : Like f R (.ok a s) (.ok b (f s))
  | throw {e : ε} {s : σ} : Like f R (.throw e s) (.throw e (f s))

section
variable {f : σ → σ} {R R' : σ → α → β → Prop} {r : Res σ ε α} {r' : Res σ ε β}

theorem Res.Like.mono (h : Res.Like f R r r') (hR : ∀ s a b, R s a b → R' s a b) :
    Res.Like f R' r r' := by
  cases h with
  | ok h => exact .ok (hR _ _ _ h)
  | throw => exact .throw

theorem Res.Like.mapState (h : Res.Like id R r r') : Res.Like f R r (r'.mapState f) := by
  cases h with
  | ok h => exact .ok h
  | throw => exact .throw

end

namespace Act

/-! ## Changes that an action does not see -/

/-- `m` does the same from a state changed by `f`, and leaves the change in place. -/
def Commutes (f : σ → σ) (m : Act σ ε α) : Prop := ∀ s, m (f s) = (m s).mapState f

section Commutes
variable {f : σ → σ} {m m' : Act σ ε α}

theorem commutes_pure (a : α) : Commutes f (pure a : Act σ ε α) := fun _ => rfl

theorem commutes_throw (e : ε) : Commutes f (throw e : Act σ ε α) := fun _ => rfl

theorem commutes_modify {g : σ → σ} (h : ∀ s, g (f s) = f (g s)) :
    Commutes f (modify g : Act σ ε Unit) := fun s => congrArg (Res.ok ()) (h s)

theorem commutes_bind {k : α → Act σ ε β} (hm : Commutes f m) (hk : ∀ a, Commutes f (k a)) :
    Commutes f (m >>= k) := by
  intro s
  rw [bind_apply, bind_apply, hm s]
  cases m s with
  | ok a s' => exact hk a s'
  | throw e s' => rfl

theorem commutes_ite {p : Prop} [Decidable p] (h : Commutes f m) (h' : Commutes f m') :
    Commutes f (if p then m else m') := by
  split
  · exact h
  · exact h'

theorem commutes_onLocal {init : τ} {m : Act τ ε α} :
    Commutes f (onLocal init m : Act σ ε (α × τ)) := by
  intro s
  unfold onLocal
  cases m init <;> rfl

theorem commutes_loop {out : ε} {body : β → Act σ ε (β ⊕ γ)} (h : ∀ b, Commutes f (body b)) :
    ∀ n b, Commutes f (loop out body n b) := by
  intro n
  induction n with
  | zero => exact fun b => commutes_throw out
  | succ n ih =>
    intro b
    refine commutes_bind (h b) fun r => ?_
    cases r with
    | inl b' => exact ih b'
    | inr c => exact commutes_pure c

end Commutes

/-! ## More fuel -/

/-- The end is not that of an action that has run out. -/
def InTime (out : ε) (r : Res σ ε α) : Prop := ∀ s, r ≠ .throw out s

theorem inTime_ok {out : ε} {a : α} {s : σ} : InTime out (.ok a s : Res σ ε α) :=
  fun _ h => nomatch h

theorem InTime.mapState {out : ε} {r : Res σ ε α} {f : σ → σ} (h : InTime out r) :
    InTime out (r.mapState f) := by
  cases r with
  | ok a s => exact inTime_ok
  | throw e s =>
    intro s' he
    cases he
    exact h s rfl

theorem InTime.of_mapState {out : ε} {r : Res σ ε α} {f : σ → σ} (h : InTime out (r.mapState f)) :
    InTime out r := by
  intro s he
  rw [he] at h
  exact h _ rfl

/-- `m'` does what `m` does, unless `m` runs out. -/
def Extends (out : ε) (m m' : Act σ ε α) : Prop := ∀ s, InTime out (m s) → m' s = m s

section Extends
variable {out : ε} {m m' : Act σ ε α}

theorem extends_refl (m : Act σ ε α) : Extends out m m := fun _ _ => rfl

theorem extends_throw (m' : Act σ ε α) : Extends out (throw out) m' :=
  fun s h => absurd rfl (h s)

theorem extends_bind {k k' : α → Act σ ε β} (hm : Extends out m m')
    (hk : ∀ a, Extends out (k a) (k' a)) : Extends out (m >>= k) (m' >>= k') := by
  intro s h
  rw [bind_apply] at h ⊢
  rw [bind_apply]
  cases hs : m s with
  | ok a s' =>
    rw [hs] at h
    rw [hm s (hs ▸ inTime_ok), hs]
    exact hk a s' h
  | throw e s' =>
    rw [hs] at h
    have hin : InTime out (m s) := by
      rw [hs]
      intro s'' he
      cases he
      exact h s' rfl
    rw [hm s hin, hs]

theorem extends_get {k k' : σ → Act σ ε β} (hk : ∀ s, Extends out (k s) (k' s)) :
    Extends out (get >>= k) (get >>= k') := fun s h => hk s s h

theorem extends_ite {p : Prop} [Decidable p] {l l' : Act σ ε α} (h : Extends out m m')
    (h' : Extends out l l') : Extends out (if p then m else l) (if p then m' else l') := by
  split
  · exact h
  · exact h'

theorem extends_onLocal {init : τ} {m m' : Act τ ε α} (h : Extends out m m') :
    Extends out (onLocal init m : Act σ ε (α × τ)) (onLocal init m') := by
  intro s hin
  have hm : InTime out (m init) := by
    intro t he
    rw [onLocal, he] at hin
    exact hin s rfl
  unfold onLocal
  rw [h init hm]

theorem extends_loop {body body' : β → Act σ ε (β ⊕ γ)}
    (h : ∀ b, Extends out (body b) (body' b)) : ∀ {n n' : Nat} (_ : n ≤ n') (b : β),
    Extends out (loop out body n b) (loop out body' n' b) := by
  intro n
  induction n with
  | zero => exact fun _ b => extends_throw _
  | succ n ih =>
    intro n' hle b
    obtain ⟨n', rfl⟩ : ∃ k, n' = k + 1 := ⟨n' - 1, by omega⟩
    refine extends_bind (h b) fun r => ?_
    cases r with
    | inl b' => exact ih (Nat.le_of_succ_le_succ hle) b'
    | inr c => exact extends_refl _

end Extends

/-- The turns that a loop comes to are those of a loop that does the same. -/
theorem Reaches.extend {out : ε} {body body' : β → Act σ ε (β ⊕ γ)} {b b' : β} {s s' : σ}
    (h : Reaches body b s b' s') (hext : ∀ b, Extends out (body b) (body' b)) :
    Reaches body' b s b' s' := by
  induction h with
  | here => exact .here
  | next _ h ih => exact ih.next ((hext _ _ (h ▸ inTime_ok)).trans h)

theorem Runs.extend {out : ε} {body body' : β → Act σ ε (β ⊕ γ)} {b : β} {c : γ} {s s' : σ}
    (h : Runs body b s c s') (hext : ∀ b, Extends out (body b) (body' b)) : Runs body' b s c s' := by
  induction h with
  | done h => exact .done ((hext _ _ (h ▸ inTime_ok)).trans h)
  | next h _ ih => exact .next ((hext _ _ (h ▸ inTime_ok)).trans h) ih

/-! ## Loops in step -/

/-- **A loop that returns is mirrored** by one that mirrors each of its turns, with as many turns.
What is left of the run is known at each of them. -/
theorem loop_mirrored {τ β' γ' : Type} {out : ε} {body : β → Act σ ε (β ⊕ γ)}
    {body' : β' → Act τ ε (β' ⊕ γ')} {I : β → σ → β' → τ → Prop} {J : γ' → τ → Prop} {c : γ} {s₁ : σ}
    (hnext : ∀ b s b₁ s₂ b' t, I b s b' t → body b s = .ok (.inl b₁) s₂ → Runs body b₁ s₂ c s₁ →
      ∃ b₁' t', body' b' t = .ok (.inl b₁') t' ∧ I b₁ s₂ b₁' t')
    (hdone : ∀ b s b' t, I b s b' t → body b s = .ok (.inr c) s₁ →
      ∃ c' t', body' b' t = .ok (.inr c') t' ∧ J c' t') :
    ∀ {n : Nat} {b : β} {s : σ} {b' : β'} {t : τ}, I b s b' t → loop out body n b s = .ok c s₁ →
      ∃ c' t', loop out body' n b' t = .ok c' t' ∧ J c' t' := by
  intro n
  induction n with
  | zero =>
    intro b s b' t hI h
    cases h
  | succ n ih =>
    intro b s b' t hI h
    rw [loop] at h
    obtain ⟨r, s₂, hturn, h⟩ := bind_eq_ok h
    cases r with
    | inl b₁ =>
      obtain ⟨b₁', t', hturn', hI'⟩ := hnext _ _ _ _ _ _ hI hturn (runs_of_loop h)
      rw [loop_next hturn']
      exact ih hI' h
    | inr c₁ =>
      cases h
      obtain ⟨c', t', hturn', hJ⟩ := hdone _ _ _ _ hI hturn
      exact ⟨c', t', loop_done hturn', hJ⟩

/-! ## Loops that pass through the turns of another -/

section Like
variable {f : σ → σ} {R : σ → α → β → Prop} {r : Res σ ε α} {r' : Res σ ε β}

/-- Neither has run out if the other has not. -/
theorem inTime_like {out : ε} (h : Res.Like f R r r') : InTime out r ↔ InTime out r' := by
  cases h with
  | ok => exact iff_of_true inTime_ok inTime_ok
  | throw =>
    refine ⟨fun h s he => ?_, fun h s he => ?_⟩ <;>
    · cases he
      exact h _ rfl

/-- What goes on from ends that are alike. -/
theorem like_bind {γ δ : Type} {m : Act σ ε α} {m' : Act σ ε β} {k : α → Act σ ε γ}
    {k' : β → Act σ ε δ} {Q : σ → γ → δ → Prop} {s s' : σ} (h : Res.Like f R (m s) (m' s'))
    (hk : ∀ s a b, R s a b → Res.Like f Q (k a s) (k' b (f s))) :
    Res.Like f Q ((m >>= k) s) ((m' >>= k') s') := by
  rw [bind_apply, bind_apply]
  generalize m s = r at h
  generalize m' s' = r' at h
  cases h with
  | ok h => exact hk _ _ _ h
  | throw => exact .throw

end Like

/-- A turn that the loop comes to from `b` and `s` ends in `r`. -/
inductive Passes (body : β → Act σ ε (β ⊕ γ)) : β → σ → Res σ ε (β ⊕ γ) → Prop where
  | turn {b : β} {s : σ} {r : Res σ ε (β ⊕ γ)} (h : body b s = r) : Passes body b s r
  | next {b : β} {s : σ} {b₁ : β} {s₁ : σ} {r : Res σ ε (β ⊕ γ)}
      (h : body b s = .ok (.inl b₁) s₁) (hp : Passes body b₁ s₁ r) : Passes body b s r

/-- What a loop with `n` turns left makes of the end of a turn. -/
def goOn (out : ε) (body : β → Act σ ε (β ⊕ γ)) (n : Nat) : Res σ ε (β ⊕ γ) → Res σ ε γ
  | .ok (.inl b) s => loop out body n b s
  | .ok (.inr c) s => .ok c s
  | .throw e s => .throw e s

section Passes
variable {out : ε} {body body' : β → Act σ ε (β ⊕ γ)} {b : β} {s : σ} {r : Res σ ε (β ⊕ γ)}
  {n : Nat}

theorem loop_succ : loop out body (n + 1) b s = goOn out body n (body b s) := by
  rw [loop, bind_apply]
  rcases body b s with ⟨r, s'⟩ | ⟨e, s'⟩
  · cases r <;> rfl
  · rfl

/-- From a turn that it passes, a loop can go on. -/
theorem Passes.goes_on (h : Passes body b s r) (n : Nat) :
    ∃ n', loop out body n' b s = goOn out body n r := by
  induction h with
  | turn h => exact ⟨n + 1, by rw [loop_succ, h]⟩
  | next h _ ih =>
    obtain ⟨n', hn'⟩ := ih
    exact ⟨n' + 1, by rw [loop_next h, hn']⟩

/-- A loop that ends has gone on from the turns that it passed. -/
theorem Passes.of_loop (h : Passes body b s r) : ∀ {n : Nat},
    InTime out (loop out body n b s) → ∃ n' < n, goOn out body n' r = loop out body n b s := by
  induction h with
  | turn h =>
    intro n hin
    cases n with
    | zero => exact absurd rfl (hin _)
    | succ n => exact ⟨n, Nat.lt_succ_self n, by rw [loop_succ, h]⟩
  | next h _ ih =>
    intro n hin
    cases n with
    | zero => exact absurd rfl (hin _)
    | succ n =>
      rw [loop_next h] at hin ⊢
      obtain ⟨n', hlt, hn'⟩ := ih hin
      exact ⟨n', Nat.lt_succ_of_lt hlt, hn'⟩

/-- The loop comes to where the turn that it passes goes on. -/
theorem Passes.reaches {b₀ b₁ : β} {s₀ s₁ : σ} (h : Passes body b s r) (hr : r = .ok (.inl b₁) s₁)
    (hreach : Reaches body b₀ s₀ b s) : Reaches body b₀ s₀ b₁ s₁ := by
  induction h with
  | turn h =>
    subst hr
    exact hreach.next h
  | next h _ ih => exact ih hr (hreach.next h)

/-- `body'` passes through every turn of `body`: what the cursors have in common is `I`, what the
results have is `J`, and the state is changed by `f`. -/
def PassedBy (f : σ → σ) (I : σ → β → β → Prop) (J : γ → γ → Prop)
    (body body' : β → Act σ ε (β ⊕ γ)) : Prop :=
  ∀ b b' s, I s b b' →
    ∃ r, Passes body' b' (f s) r ∧ Res.Like f (fun s => Sum.LiftRel (I s) J) (body b s) r

variable {f : σ → σ} {I : σ → β → β → Prop} {J : γ → γ → Prop} {b' : β}

/-- How the loop ends, the one that passes through its turns ends too. -/
theorem loop_passed (h : PassedBy f I J body body') : ∀ {n : Nat} {b b' : β} {s : σ}, I s b b' →
    InTime out (loop out body n b s) →
    ∃ n', Res.Like f (fun _ => J) (loop out body n b s) (loop out body' n' b' (f s)) := by
  intro n
  induction n with
  | zero => exact fun _ hin => absurd rfl (hin _)
  | succ n ih =>
    intro b b' s hI hin
    rw [loop_succ] at hin ⊢
    obtain ⟨r, hp, hlike⟩ := h b b' s hI
    generalize body b s = r₀ at hlike hin
    cases hlike with
    | throw =>
      obtain ⟨n', hn'⟩ := hp.goes_on 0
      exact ⟨n', by rw [hn']; exact .throw⟩
    | ok hrel =>
      cases hrel with
      | inl hI' =>
        obtain ⟨n₁, hn₁⟩ := ih hI' hin
        obtain ⟨n', hn'⟩ := hp.goes_on n₁
        exact ⟨n', by rw [hn']; exact hn₁⟩
      | inr hJ =>
        obtain ⟨n', hn'⟩ := hp.goes_on 0
        exact ⟨n', by rw [hn']; exact .ok hJ⟩

/-- And it ends no other way. -/
theorem loop_passes (h : PassedBy f I J body body') {n : Nat} : ∀ {b b' : β} {s : σ}, I s b b' →
    InTime out (loop out body' n b' (f s)) →
    ∃ n', Res.Like f (fun _ => J) (loop out body n' b s) (loop out body' n b' (f s)) := by
  induction n using Nat.strongRecOn with
  | ind n ih =>
    intro b b' s hI hin
    obtain ⟨r, hp, hlike⟩ := h b b' s hI
    obtain ⟨n₁, hlt, hn₁⟩ := hp.of_loop hin
    rw [← hn₁] at hin ⊢
    generalize hb : body b s = r₀ at hlike
    cases hlike with
    | throw => exact ⟨1, by rw [loop_throw hb]; exact .throw⟩
    | ok hrel =>
      cases hrel with
      | inl hI' =>
        obtain ⟨n', hn'⟩ := ih n₁ hlt hI' hin
        exact ⟨n' + 1, by rw [loop_next hb]; exact hn'⟩
      | inr hJ => exact ⟨1, by rw [loop_done hb]; exact .ok hJ⟩

end Passes

end Act

end Lib
