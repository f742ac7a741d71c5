import Fix8.Compiler.Proof.Parse

/-!
# A newline for a space

The loop drops the newlines of a document before it looks at its state. In front of the place the
two documents are read alike.

* **`reaches_replaced`**: the state that the other document leads to.
-/

namespace Fix8.Compiler

open Lib Codec Machine

/-! ## In front of the place -/

namespace Parser

/-- The same state in front of a document with a newline for the space. -/
def Replaces (post : F8String) (p q : Parser) : Prop :=
  ∃ u, p.doc = ⟨u ++ 32 :: post, true⟩ ∧ q = { p with doc := ⟨u ++ 10 :: post, true⟩ }

section
variable {env : XmlSetting} {post : F8String} {p p' q : Parser} {c : UInt8}

theorem Replaces.input_head (h : Replaces post p q) {x : UInt8} (hx : x = 62 ∨ x = 47) :
    p.input.rest.head? = some x ↔ q.input.rest.head? = some x := by
  obtain ⟨u, hdoc, rfl⟩ := h
  cases hfiles : p.files with
  | cons i is => simp [input, hfiles]
  | nil =>
    cases u with
    | cons a u => simp [input, hfiles, hdoc]
    | nil => rcases hx with rfl | rfl <;> simp [input, hfiles, hdoc]

theorem Replaces.peeked (h : Replaces post p q) :
    Replaces post (p.withInput p.input.peeked) (q.withInput q.input.peeked) := by
  obtain ⟨u, hdoc, rfl⟩ := h
  cases hfiles : p.files with
  | cons i is =>
    exact ⟨u, by simpa [withInput, hfiles] using hdoc, by simp [withInput, input, hfiles]⟩
  | nil =>
    exact ⟨u, by simp [withInput, input, XmlInput.peeked, hfiles, hdoc],
      by simp [withInput, input, XmlInput.peeked, hfiles, hdoc]⟩

theorem Replaces.putback (h : Replaces post p q) (c : UInt8) :
    Replaces post (p.withInput (p.input.putback c)) (q.withInput (q.input.putback c)) := by
  obtain ⟨u, hdoc, rfl⟩ := h
  cases hfiles : p.files with
  | cons i is =>
    exact ⟨u, by simpa [withInput, hfiles] using hdoc, by simp [withInput, input, hfiles]⟩
  | nil =>
    exact ⟨c :: u, by simp [withInput, input, XmlInput.putback, hfiles, hdoc],
      by simp [withInput, input, XmlInput.putback, hfiles, hdoc]⟩

theorem Replaces.received (h : Replaces post p q) (hreceived : Received env p c p') :
    ∃ q', Received env q c q' ∧ Replaces post p' q' := by
  have hgt := h.input_head (.inl rfl)
  have hslash := h.input_head (.inr rfl)
  have hpeeked := h.peeked
  have hputback := h.putback c
  obtain ⟨u, hdoc, rfl⟩ := h
  cases hreceived with
  | newline hc => exact ⟨_, .newline hc, u, hdoc, rfl⟩
  | cr hc => exact ⟨_, .cr hc, u, hdoc, rfl⟩
  | on hc hread =>
    rw [XmlFrame.read_peek hgt hslash] at hread
    refine ⟨_, .on hc hread, ?_⟩
    dsimp only
    split
    · obtain ⟨u', hdoc', heq⟩ := hpeeked
      exact ⟨u', hdoc', by rw [heq]⟩
    · exact ⟨u, hdoc, rfl⟩
  | child hc hstate hpeek hdepth =>
    refine ⟨_, .child hc hstate (fun hq => hpeek (hslash.2 hq)) hdepth, ?_⟩
    obtain ⟨u', hdoc', heq⟩ := hputback
    exact ⟨u', hdoc', by rw [heq]⟩
  | inclusion hc hstate htags htag hname hopen =>
    exact ⟨_, .inclusion hc hstate htags htag hname hopen, u, hdoc, rfl⟩

/-- A character is put back where it has been read, and no other one. -/
theorem Received.doc (h : Received env p c p') : p'.doc.rest = p.doc.rest ∨
    c = 60 ∧ p.files = [] ∧ p.doc.good = true ∧ p'.doc.rest = c :: p.doc.rest := by
  cases h with
  | newline => exact .inl rfl
  | cr => exact .inl rfl
  | on =>
    left
    dsimp only
    split
    · unfold withInput
      split
      · next hfiles => simp [input, hfiles, XmlInput.peeked]
      · rfl
    · rfl
  | child hc =>
    dsimp only
    unfold withInput
    split
    · next hfiles =>
      unfold XmlInput.putback
      split
      · next hgood =>
        right
        simp_all [input]
      · simp [input, hfiles]
    · exact .inl rfl
  | inclusion => exact .inl rfl

theorem doc_step (hstep : p.step env = .ok (.more p')) :
    p'.doc.rest.length ≤ p.doc.rest.length := by
  rcases step_more.1 hstep with ⟨-, htake⟩ | ⟨-, hleave⟩
  · cases hfiles : p.files with
    | cons i is =>
      have hdoc : ∀ j c, Received env (p.withInput j) c p' → p'.doc.rest = p.doc.rest := by
        intro j c hr
        rcases hr.doc with h | ⟨-, h, -⟩
        · simpa [withInput, hfiles] using h
        · simp [withInput, hfiles] at h
      cases hrest : p.input.rest with
      | nil =>
        rw [take_nil hrest] at htake
        exact Nat.le_of_eq (congrArg List.length (hdoc _ _ (receive_iff.1 htake)))
      | cons c rest =>
        rw [take_cons hrest] at htake
        exact Nat.le_of_eq (congrArg List.length (hdoc _ _ (receive_iff.1 htake)))
    | nil =>
      have hinput : p.input = p.doc := by simp [input, hfiles]
      cases hrest : p.input.rest with
      | nil =>
        rw [take_nil hrest] at htake
        have hdoc := (receive_iff.1 htake).doc
        simp only [withInput, hfiles, Bool.false_eq_true, false_and, and_false, or_false] at hdoc
        rw [hdoc]
        exact Nat.zero_le _
      | cons c rest =>
        rw [take_cons hrest] at htake
        have hdoc := (receive_iff.1 htake).doc
        simp only [withInput, hfiles] at hdoc
        rw [hinput] at hrest
        rw [hrest]
        rcases hdoc with h | ⟨-, -, -, h⟩
        · simp [h]
        · simp [h]
  · obtain ⟨_, _, _, -, -, rfl⟩ := leave_more.1 hleave
    exact Nat.le_refl _

/-- A round that does not read the space. -/
theorem Replaces.take (h : Replaces post p q) (hbefore : p.files = [] → p.doc.rest ≠ 32 :: post)
    (htake : p.take env = .ok p') : ∃ q', q.take env = .ok q' ∧ Replaces post p' q' := by
  have hround : ∀ {p₁ q₁ : Parser} {c : UInt8}, Replaces post p₁ q₁ → p₁.receive env c = .ok p' →
      ∃ q', q₁.receive env c = .ok q' ∧ Replaces post p' q' := by
    intro p₁ q₁ c h hreceive
    obtain ⟨q', hreceived, hq'⟩ := h.received (receive_iff.1 hreceive)
    exact ⟨q', receive_iff.2 hreceived, hq'⟩
  obtain ⟨u, hdoc, rfl⟩ := h
  by_cases hfiles : p.files = []
  · have hbefore := hbefore hfiles
    cases u with
    | nil => exact absurd (congrArg XmlInput.rest hdoc) hbefore
    | cons c u =>
      have hp : p.input.rest = c :: (u ++ 32 :: post) := by simp [input, hfiles, hdoc]
      have hq : ({ p with doc := ⟨c :: u ++ 10 :: post, true⟩ } : Parser).input.rest =
          c :: (u ++ 10 :: post) := by simp [input, hfiles]
      rw [take_cons hp] at htake
      rw [take_cons hq]
      exact hround ⟨u, by simp [withInput, hfiles], by simp [withInput, hfiles]⟩ htake
  · obtain ⟨i, is, hfiles⟩ := List.exists_cons_of_ne_nil hfiles
    have hinput : ({ p with doc := ⟨u ++ 10 :: post, true⟩ } : Parser).input = p.input := by
      simp [input, hfiles]
    have hsame : ∀ j, Replaces post (p.withInput j)
        (({ p with doc := ⟨u ++ 10 :: post, true⟩ } : Parser).withInput j) :=
      fun j => ⟨u, by simp [withInput, hfiles, hdoc], by simp [withInput, hfiles]⟩
    cases hrest : p.input.rest with
    | nil =>
      rw [take_nil hrest] at htake
      rw [take_nil ((congrArg XmlInput.rest hinput).trans hrest)]
      exact hround (hsame _) htake
    | cons c rest =>
      rw [take_cons hrest] at htake
      rw [take_cons ((congrArg XmlInput.rest hinput).trans hrest)]
      exact hround (hsame _) htake

/-- A step is the same, or it reads the space. -/
theorem Replaces.step (h : Replaces post p q) (hstep : p.step env = .ok (.more p')) :
    (∃ q', q.step env = .ok (.more q') ∧ Replaces post p' q') ∨
      p'.doc.rest.length ≤ post.length := by
  have hgood : q.input.good = p.input.good := by
    obtain ⟨u, hdoc, rfl⟩ := h
    cases hfiles : p.files <;> simp [input, hfiles, hdoc]
  have hstate : q.frame.state = p.frame.state := by
    obtain ⟨u, hdoc, rfl⟩ := h
    rfl
  rcases step_more.1 hstep with ⟨hopen, htake⟩ | ⟨hclosed, hleave⟩
  · by_cases hat : p.files = [] ∧ p.doc.rest = 32 :: post
    · -- the space is not put back
      right
      obtain ⟨hfiles, hrest⟩ := hat
      rw [take_cons (by simpa [input, hfiles] using hrest)] at htake
      rcases (receive_iff.1 htake).doc with hdoc | ⟨hc, -⟩
      · rw [hdoc]
        simp [withInput, hfiles]
      · cases hc
    · obtain ⟨q', hq, hq'⟩ := h.take (fun hfiles hrest => hat ⟨hfiles, hrest⟩) htake
      refine .inl ⟨q', step_more.2 (.inl ⟨?_, hq⟩), hq'⟩
      rwa [hgood, hstate]
  · obtain ⟨u, hdoc, rfl⟩ := h
    obtain ⟨attrs, parent, parents, hattrs, hparents, rfl⟩ := leave_more.1 hleave
    refine .inl ⟨_, step_more.2 (.inr ⟨?_, leave_more.2 ⟨attrs, parent, parents, hattrs, hparents,
      rfl⟩⟩), u, hdoc, rfl⟩
    rw [hgood]
    exact hclosed

/-- **In front of the space** the other document leads to the same state. -/
theorem reaches_replaced {pre : F8String}
    (h : Machine.Reaches (Parser.step env) (start (pre ++ 32 :: post)) p)
    (hdoc : p.doc = ⟨32 :: post, true⟩) :
    Machine.Reaches (Parser.step env) (start (pre ++ 10 :: post))
      { p with doc := ⟨10 :: post, true⟩ } := by
  let P : Parser → Prop := fun p =>
    (∃ q, Machine.Reaches (Parser.step env) (start (pre ++ 10 :: post)) q ∧ Replaces post p q) ∨
      p.doc.rest.length ≤ post.length
  have hstart : P (start (pre ++ 32 :: post)) := .inl ⟨_, .here, pre, rfl, rfl⟩
  have hrun : P p := by
    refine h.invariant hstart ?_
    rintro s s' (⟨q, hq, hreplaces⟩ | hpast) hstep
    · rcases hreplaces.step hstep with ⟨q', hq', hreplaces'⟩ | hpast
      · exact .inl ⟨q', hq.next hq', hreplaces'⟩
      · exact .inr hpast
    · exact .inr ((doc_step hstep).trans hpast)
  rcases hrun with ⟨q, hq, u, hu, rfl⟩ | hpast
  · rw [hdoc] at hu
    have hnil : u = [] := by
      have hlen := congrArg (fun i : XmlInput => i.rest.length) hu
      simp only [List.length_append, List.length_cons] at hlen
      exact List.length_eq_zero_iff.1 (by omega)
    rw [hnil] at hq
    exact hq
  · rw [hdoc] at hpast
    exact absurd hpast (by simp)

end

end Parser

end Fix8.Compiler
