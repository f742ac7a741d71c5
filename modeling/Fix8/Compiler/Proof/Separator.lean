import Fix8.Compiler.Proof.Newline
import Fix8.Compiler.Proof.Path
import Fix8.Compiler.Proof.Attrs

/-!
# The space between two attributes

Behind a space that is no longer there the parser is in the same state but for the numbers of lines
and the text of the attributes of one call, which has the space or not. Where the name of a tag has
not ended it goes on with what follows, and the element has another name.

* `Gap.closeAttrs`: the attributes are read alike;
* **`Shadows.step`**, `Shadows.yields`: the documents are read alike behind the space;
* `Separator.yields`, `Separator.harmless`: the two directions of **`newline_iff`**.
-/

namespace Fix8.Compiler

open Lib Codec Machine

/-! ## The text of the attributes -/

section
variable {root root' : XmlRoot} {sur : Surroundings} {noextensions : Bool}

/-- The reader names its place in an error, and nowhere else. -/
theorem AttrReader.next_root {p p' : AttrReader} {c : UInt8}
    (h : p.next root sur noextensions c = .ok p') : p.next root' sur noextensions c = .ok p' := by
  have htag : ∀ {q : AttrReader}, q.inTag root c = .ok p' → q.inTag root' c = .ok p' := by
    intro q h
    unfold inTag illegalChar at h ⊢
    split_ifs at h ⊢ <;> exact h
  unfold next illegalChar at h ⊢
  cases hstate : p.state with
  | value =>
    simp only [hstate] at h ⊢
    unfold endValue illegalChar at h ⊢
    split_ifs at h ⊢ <;> exact h
  | tag =>
    simp only [hstate] at h ⊢
    exact htag h
  | oc0 =>
    simp only [hstate] at h ⊢
    split_ifs at h ⊢
    · exact h
    · exact htag h
  | ews => simpa only [hstate] using h
  | comment => simpa only [hstate] using h
  | cc0 => simpa only [hstate] using h
  | es =>
    simp only [hstate] at h ⊢
    split_ifs at h ⊢ <;> exact h
  | oq =>
    simp only [hstate] at h ⊢
    split_ifs at h ⊢ <;> exact h

theorem AttrReader.run_root {p p' : AttrReader} {text : F8String}
    (h : p.run root sur noextensions text = .ok p') :
    p.run root' sur noextensions text = .ok p' := by
  induction text generalizing p with
  | nil => exact h
  | cons c text ih =>
    rw [run_cons] at h ⊢
    cases hnext : p.next root sur noextensions c with
    | error err =>
      rw [hnext] at h
      cases h
    | ok q =>
      rw [hnext] at h
      rw [next_root hnext]
      exact ih h

theorem ne_of_isspace {c x : UInt8} (hc : isspace c = true) (hx : isspace x = false) : c ≠ x := by
  rintro rfl
  exact Bool.false_ne_true (hx.symm.trans hc)

/-- Between two attributes a space is not read. -/
theorem AttrReader.next_space {p : AttrReader} {c : UInt8} (hstate : p.state = .ews)
    (hspace : isspace c = true) : p.next root sur noextensions c = .ok p := by
  have hslash : c ≠ 47 := ne_of_isspace hspace (by decide)
  simp [next, hstate, hspace, hslash]

/-- Nor does one character more make an attribute. -/
theorem AttrReader.next_outside {p : AttrReader} (hstate : p.state = .ews) (c : UInt8) :
    ∃ p', p.next root sur noextensions c = .ok p' ∧ p'.attrs = p.attrs := by
  simp only [next, hstate]
  split
  · exact ⟨_, rfl, rfl⟩
  split
  · exact ⟨_, rfl, rfl⟩
  · exact ⟨_, rfl, rfl⟩

end

section
variable {env : XmlSetting} {root root' : XmlRoot} {tag a b : F8String} {attrs : XmlAttrs}

/-- The text ends between two attributes. -/
def Between (env : XmlSetting) (text : F8String) : Prop :=
  ∃ root p, AttrReader.start.run root env.sur env.noextensions text = .ok p ∧ p.state = .ews

/-- A text of attributes with a space between two of them, and without it. -/
def Gap (env : XmlSetting) (tag a b : F8String) : Prop :=
  ∃ pre w rest, a = pre ++ w :: rest ∧ b = pre ++ rest ∧ isspace w = true ∧ Between env pre ∧
    (tag = ascii "xi:include" → ∀ rest, includeName (pre ++ w :: rest) = includeName (pre ++ rest))

theorem Gap.append (h : Gap env tag a b) (c : UInt8) : Gap env tag (a ++ [c]) (b ++ [c]) := by
  obtain ⟨pre, w, rest, rfl, rfl, hspace, hbetween, hname⟩ := h
  exact ⟨pre, w, rest ++ [c], by simp, by simp, hspace, hbetween, hname⟩

theorem Gap.includeName (h : Gap env tag a b) (htag : tag = ascii "xi:include") :
    includeName a = includeName b := by
  obtain ⟨pre, w, rest, rfl, rfl, -, -, hname⟩ := h
  exact hname htag rest

/-- The attributes of a text. -/
theorem parseAttrs_ok {stale : UInt8} {text : F8String} :
    XmlElement.parseAttrs root env.sur env.noextensions stale text = .ok attrs ↔
      ∃ p, AttrReader.start.run root env.sur env.noextensions (text ++ [stale]) = .ok p ∧
        p.attrs = attrs := by
  unfold XmlElement.parseAttrs
  cases AttrReader.start.run root env.sur env.noextensions (text ++ [stale]) with
  | error e => simp [Except.map]
  | ok p => simp [Except.map]

/-- What is read behind two attributes. -/
theorem run_between {pre rest : F8String} {p : AttrReader}
    (hpre : AttrReader.start.run root env.sur env.noextensions pre = .ok p) :
    AttrReader.start.run root env.sur env.noextensions (pre ++ rest) =
      p.run root env.sur env.noextensions rest := by
  rw [AttrReader.run_append, hpre]
  rfl

/-- **The attributes** are the same without the space. -/
theorem Gap.closeAttrs {f g : XmlFrame} (h : Gap env tag f.tmpattr g.tmpattr)
    (hattrs : f.closeAttrs env root = .ok attrs) : g.closeAttrs env root' = .ok attrs := by
  obtain ⟨pre, w, rest, hf, hg, hspace, ⟨root₀, p, hpre, hstate⟩, -⟩ := h
  have hpre : ∀ {r}, AttrReader.start.run r env.sur env.noextensions pre = .ok p :=
    AttrReader.run_root hpre
  have hw : ∀ {r text}, p.run r env.sur env.noextensions (w :: text) =
      p.run r env.sur env.noextensions text := by
    intro r text
    rw [AttrReader.run_cons, AttrReader.next_space hstate hspace]
    rfl
  have hone : ∀ {r} (c : UInt8), ∃ q, p.run r env.sur env.noextensions [c] = .ok q ∧
      q.attrs = p.attrs := by
    intro r c
    obtain ⟨q, hnext, hq⟩ := AttrReader.next_outside hstate c
    refine ⟨q, ?_, hq⟩
    rw [AttrReader.run_cons, hnext]
    rfl
  unfold XmlFrame.closeAttrs at hattrs ⊢
  rw [if_neg (by simp [hf])] at hattrs
  obtain ⟨p', hrun, rfl⟩ := parseAttrs_ok.1 hattrs
  rw [hf, List.append_assoc, run_between hpre, List.cons_append, hw] at hrun
  cases rest with
  | nil =>
    -- the space was the end of the text
    have hattrs' : p'.attrs = p.attrs := by
      obtain ⟨q, hq, hattrs⟩ := hone (r := root) (env.stale ((pre ++ [w]).getLast?.getD 0))
      rw [List.nil_append, hq] at hrun
      cases hrun
      exact hattrs
    rw [List.append_nil] at hg
    split
    · next hnil =>
      rw [hg] at hnil
      subst hnil
      cases hpre (r := root)
      rw [hattrs']
      rfl
    · obtain ⟨q, hq, hattrs⟩ := hone (r := root') (env.stale (g.tmpattr.getLast?.getD 0))
      refine parseAttrs_ok.2 ⟨q, ?_, hattrs.trans hattrs'.symm⟩
      rw [hg, run_between hpre, ← hg]
      exact hq
  | cons c rest =>
    have hlast : (pre ++ w :: c :: rest).getLast? = g.tmpattr.getLast? := by
      rw [hg, List.getLast?_append, List.getLast?_append]
      simp
    rw [if_neg (by simp [hg])]
    refine parseAttrs_ok.2 ⟨p', ?_, rfl⟩
    rw [← hlast, hg, List.append_assoc, run_between hpre]
    exact AttrReader.run_root hrun

end

/-! ## The call that reads the tag -/

namespace XmlFrame

/-- The same call, with another line, another text of attributes and another last character. -/
def alter (f : XmlFrame) (n : Nat) (b : F8String) (l : UInt8) : XmlFrame :=
  { f with starttmpotag := n, tmpattr := b, last := l }

/-- The text of the attributes is the same, or it has a space less. -/
def Spaced (env : XmlSetting) (f : XmlFrame) (b : F8String) : Prop :=
  f.tmpattr = b ∨ f.state.late = true ∧ Gap env f.tmpotag f.tmpattr b

section
variable {env : XmlSetting} {root root' : XmlRoot} {depth : Nat} {f f' : XmlFrame} {c : UInt8}
  {peek : Option UInt8} {n : Nat} {b : F8String} {l : UInt8}

@[simp] theorem alter_state : (f.alter n b l).state = f.state := rfl
@[simp] theorem alter_last : (f.alter n b l).last = l := rfl

theorem inOtag_alter (hread : f.inOtag root c peek = .ok (.on f')) :
    f'.tmpattr = f.tmpattr ∧
      ∃ n', (f.alter n b l).inOtag root' c peek = .ok (.on (f'.alter n' b l)) := by
  unfold inOtag illegalTag at hread
  split at hread
  · next h₁ =>
    cases hread
    exact ⟨rfl, n, by simp [inOtag, h₁, alter]⟩
  next h₁ =>
  split at hread
  · next h₂ =>
    cases hread
    exact ⟨rfl, n, by simp [inOtag, h₂, alter]⟩
  next h₂ =>
  split at hread
  · next h₃ =>
    cases hread
    exact ⟨rfl, n, by simp [inOtag, h₁, h₂, h₃, alter]⟩
  next h₃ =>
  split at hread
  · next h₄ =>
    cases hread
    exact ⟨rfl, n, by simp [inOtag, h₄, alter]⟩
  next h₄ =>
  split at hread
  · next h₅ =>
    cases hread
    exact ⟨rfl, n, by simp [inOtag, h₅, alter]⟩
  next h₅ =>
  split at hread
  · cases hread
  next h₆ =>
  split at hread
  · next h₇ =>
    cases hread
    have hname : f.tmpotag = [] := by simpa [h₇] using h₃
    exact ⟨rfl, n, by simp_all [inOtag, alter]⟩
  · next h₇ =>
    cases hread
    refine ⟨rfl, if n = 0 then root'.line else n, ?_⟩
    by_cases hn : n = 0 <;> simp [inOtag, h₁, h₂, h₄, h₅, h₆, h₇, alter, hn]

theorem inCtag_alter (hread : f.inCtag env root c = .ok (.on f')) :
    f'.tmpattr = f.tmpattr ∧
      (f.alter n b l).inCtag env root' c = .ok (.on (f'.alter n b l)) := by
  unfold inCtag illegalTag at hread
  split at hread
  · next hc =>
    split at hread
    · cases hread
    next htags =>
    split at hread
    · split at hread <;> cases hread
    next htag =>
    cases hread
    exact ⟨rfl, by simp_all [inCtag, alter]⟩
  · next hc =>
    split at hread
    · next hspace =>
      cases hread
      exact ⟨rfl, by simp [inCtag, hc, hspace, alter]⟩
    · next hspace =>
      cases hread
      exact ⟨rfl, by simp [inCtag, hc, hspace, alter]⟩

theorem read_alter (root' : XmlRoot) (n : Nat) (b : F8String) (l : UInt8)
    (hread : f.read env root depth c peek = .ok (.on f')) : ∃ n' b',
    (f.alter n b l).read env root' depth c peek = .ok (.on (f'.alter n' b' l)) ∧
      (b' = b ∧ f'.tmpattr = f.tmpattr ∨ b' = b ++ [c] ∧ f'.tmpattr = f.tmpattr ++ [c]) := by
  unfold read at hread ⊢
  rw [alter_state]
  cases hstate : f.state with
  | otag =>
    simp only [hstate] at hread ⊢
    obtain ⟨hattr, n', h⟩ := inOtag_alter hread
    exact ⟨n', b, h, .inl ⟨rfl, hattr⟩⟩
  | oattr =>
    simp only [hstate] at hread ⊢
    unfold inOattr at hread ⊢
    split_ifs at hread ⊢ <;> cases hread
    · exact ⟨n, b, rfl, .inl ⟨rfl, rfl⟩⟩
    · exact ⟨n, b, rfl, .inl ⟨rfl, rfl⟩⟩
    · exact ⟨n, b ++ [c], rfl, .inr ⟨rfl, rfl⟩⟩
  | ctag =>
    simp only [hstate] at hread ⊢
    obtain ⟨hattr, h⟩ := inCtag_alter hread
    exact ⟨n, b, h, .inl ⟨rfl, hattr⟩⟩
  | finished =>
    simp only [hstate] at hread ⊢
    cases hread
    exact ⟨n, b, rfl, .inl ⟨rfl, rfl⟩⟩
  | odec =>
    simp only [hstate] at hread ⊢
    split at hread
    · next h =>
      cases hread
      exact ⟨n, b, congrArg _ (congrArg _ (if_pos h)), .inl ⟨rfl, rfl⟩⟩
    · next h =>
      cases hread
      exact ⟨n, b, congrArg _ (congrArg _ (if_neg h)), .inl ⟨rfl, rfl⟩⟩
  | _ =>
    simp only [hstate] at hread ⊢
    split_ifs at hread ⊢ <;> cases hread <;> exact ⟨n, b, rfl, .inl ⟨rfl, rfl⟩⟩

theorem Spaced.read (h : f.Spaced env b) (hopen : f.state ≠ .finished)
    (hread : f.read env root depth c peek = .ok (.on f')) : ∃ n' b',
    (f.alter n b l).read env root' depth c peek = .ok (.on (f'.alter n' b' l)) ∧
      f'.Spaced env b' := by
  obtain ⟨n', b', hread', htext⟩ := read_alter root' n b l hread
  refine ⟨n', b', hread', ?_⟩
  rcases h with hsame | ⟨hlate, hgap⟩
  · left
    rcases htext with ⟨rfl, hattr⟩ | ⟨rfl, hattr⟩
    · rw [hattr, hsame]
    · rw [hattr, hsame]
  · right
    obtain ⟨hlate', htag, -⟩ := read_late hlate hopen hread
    refine ⟨hlate', ?_⟩
    rw [htag]
    rcases htext with ⟨rfl, hattr⟩ | ⟨rfl, hattr⟩
    · rw [hattr]
      exact hgap
    · rw [hattr]
      exact hgap.append c

theorem Spaced.closeAttrs {attrs : XmlAttrs} (h : f.Spaced env b)
    (hattrs : f.closeAttrs env root = .ok attrs) :
    (f.alter n b l).closeAttrs env root' = .ok attrs := by
  rcases h with rfl | ⟨-, hgap⟩
  · unfold XmlFrame.closeAttrs at hattrs ⊢
    split at hattrs
    · next hnil => exact (if_pos hnil).trans hattrs
    · next hne =>
      obtain ⟨p, hrun, hp⟩ := parseAttrs_ok.1 hattrs
      exact (if_neg hne).trans (parseAttrs_ok.2 ⟨p, AttrReader.run_root hrun, hp⟩)
  · exact hgap.closeAttrs hattrs

end

end XmlFrame

/-! ## Behind the space -/

namespace Parser

/-- The same state but for the numbers of lines and a space in the text of attributes. -/
structure Alike (env : XmlSetting) (p q : Parser) : Prop where
  frame : ∃ n b l, q.frame = p.frame.alter n b l ∧ p.frame.Spaced env b
  parents : List.Forall₂ (fun f g => ∃ n b, g = f.alter n b f.last ∧ f.Spaced env b) p.parents
    q.parents
  doc : q.doc = p.doc
  files : q.files = p.files

section
variable {env : XmlSetting} {p p' q : Parser} {c : UInt8}

theorem Alike.input (h : Alike env p q) : q.input = p.input := by
  rw [Parser.input, Parser.input, h.doc, h.files]

theorem Alike.withInput (h : Alike env p q) (i : XmlInput) :
    Alike env (p.withInput i) (q.withInput i) := by
  refine ⟨by simpa using h.frame, by simpa using h.parents, ?_, ?_⟩
  · unfold Parser.withInput
    rw [h.files]
    split <;> simp [h.doc]
  · unfold Parser.withInput
    rw [h.files]
    split <;> simp_all

theorem Alike.received (h : Alike env p q) (hopen : p.frame.state ≠ .finished)
    (hreceived : Received env p c p') :
    ∃ q', Received env q c q' ∧ Alike env p' q' ∧ q'.frame.last = p'.frame.last := by
  obtain ⟨n, b, l, hframe, hspaced⟩ := h.frame
  have hlast : q.frame.withLast c = (p.frame.withLast c).alter n b c := by rw [hframe]; rfl
  have hspaced' : (p.frame.withLast c).Spaced env b := hspaced
  have hlength : q.parents.length = p.parents.length := h.parents.length_eq.symm
  cases hreceived with
  | newline hc =>
    exact ⟨_, .newline hc, ⟨⟨n, b, c, hlast, hspaced'⟩, h.parents, h.doc, h.files⟩, rfl⟩
  | cr hc =>
    exact ⟨_, .cr hc, ⟨⟨n, b, c, hlast, hspaced'⟩, h.parents, h.doc, h.files⟩, rfl⟩
  | @on f hc hread =>
    obtain ⟨n', b', hread', hspaced'⟩ := hspaced'.read hopen hread
    rw [← hlast, ← hlength, ← h.input] at hread'
    have hpeeks : q.frame.peeks c = p.frame.peeks c := by rw [hframe]; rfl
    have hlook : Alike env (if p.frame.peeks c then p.withInput p.input.peeked else p)
        (if q.frame.peeks c then q.withInput q.input.peeked else q) := by
      rw [hpeeks, h.input]
      split
      · exact h.withInput _
      · exact h
    refine ⟨_, .on hc hread', ⟨⟨n', b', c, rfl, hspaced'⟩, ?_, hlook.doc, hlook.files⟩,
      (XmlFrame.read_on hread).2.2.symm⟩
    exact hlook.parents
  | child hc hstate hpeek hdepth =>
    have hstate' : q.frame.state = .value := by rw [hframe]; exact hstate
    have hback := h.withInput (p.input.putback c)
    rw [← h.input] at hpeek hback
    refine ⟨_, .child hc hstate' hpeek (by rwa [hlength]), ⟨⟨0, [], 0, rfl, .inl rfl⟩, ?_, ?_, ?_⟩,
      rfl⟩
    · exact .cons ⟨n, b, hlast, hspaced'⟩ h.parents
    · rw [h.input] at hback ⊢
      exact hback.doc
    · rw [h.input] at hback ⊢
      exact hback.files
  | @inclusion whatv content hc hstate htags htag hname hopen =>
    have hname' : includeName q.frame.tmpattr = some whatv := by
      rw [hframe, ← hname]
      rcases hspaced with hsame | ⟨-, hgap⟩
      · exact congrArg includeName hsame.symm
      · exact (hgap.includeName htag).symm
    have hq : Received env q c _ := .inclusion hc (by rw [hframe]; exact hstate)
      (by rw [hframe]; exact htags) (by rw [hframe]; exact htag) hname' hopen
    refine ⟨_, hq, ⟨⟨n, [], c, by rw [hframe]; rfl, .inl rfl⟩, h.parents, h.doc, ?_⟩, rfl⟩
    dsimp only
    rw [h.files, hframe]
    rfl

/-- What the variable of the loop holds matters only where nothing more can be read. -/
structure Shadows (env : XmlSetting) (p q : Parser) : Prop extends Alike env p q where
  last : q.frame.last = p.frame.last ∨ p.input.rest ≠ []

theorem Shadows.take (h : Shadows env p q) (hopen : p.frame.state ≠ .finished)
    (htake : p.take env = .ok p') : ∃ q', q.take env = .ok q' ∧ Shadows env p' q' := by
  have hround : ∀ {i : XmlInput} {c : UInt8}, (p.withInput i).receive env c = .ok p' →
      ∃ q', (q.withInput i).receive env c = .ok q' ∧ Shadows env p' q' := by
    intro i c hreceive
    obtain ⟨q', hq, halike, hlast⟩ := (h.toAlike.withInput i).received (by simpa using hopen)
      (receive_iff.1 hreceive)
    exact ⟨q', receive_iff.2 hq, halike, .inl hlast⟩
  cases hrest : p.input.rest with
  | nil =>
    rw [take_nil hrest] at htake
    rw [take_nil (by rw [h.input, hrest]), h.last.resolve_right (fun hne => hne hrest)]
    exact hround htake
  | cons c rest =>
    rw [take_cons hrest] at htake
    rw [take_cons (show q.input.rest = c :: rest by rw [h.input, hrest])]
    exact hround htake

theorem Shadows.step {o : Progress Parser XmlTree} (h : Shadows env p q)
    (hstep : p.step env = .ok o) :
    ∃ o', q.step env = .ok o' ∧ Machine.Follows (Shadows env) Eq o o' := by
  obtain ⟨n, b, l, hframe, hspaced⟩ := h.frame
  have hstate : q.frame.state = p.frame.state := by rw [hframe]; rfl
  have hinclude : q.frame.wasInclude = p.frame.wasInclude := by rw [hframe]; rfl
  have htree : ∀ attrs, q.frame.toTree attrs = p.frame.toTree attrs := fun attrs => by
    rw [hframe]
    rfl
  have hattrs : ∀ {attrs}, p.frame.closeAttrs env p.root = .ok attrs →
      q.frame.closeAttrs env q.root = .ok attrs := by
    intro attrs hclose
    rw [hframe]
    exact hspaced.closeAttrs hclose
  cases o with
  | more p' =>
    rcases step_more.1 hstep with ⟨hopen, htake⟩ | ⟨hclosed, hleave⟩
    · obtain ⟨q', hq, hshadows⟩ := h.take hopen.2 htake
      refine ⟨.more q', step_more.2 (.inl ⟨?_, hq⟩), hshadows⟩
      rwa [h.input, hstate]
    · obtain ⟨attrs, parent, parents, hclose, hparents, rfl⟩ := leave_more.1 hleave
      have hall := h.parents
      rw [hparents] at hall
      generalize hq : q.parents = qs at hall
      cases hall with
      | @cons _ g _ gs hparent hrest =>
        obtain ⟨n', b', rfl, hspaced'⟩ := hparent
        have hnot : ¬(q.input.good = true ∧ q.frame.state ≠ .finished) := by
          rwa [h.input, hstate]
        refine ⟨_, step_more.2 (.inr ⟨hnot, leave_more.2 ⟨attrs, _, gs, hattrs hclose, hq, rfl⟩⟩),
          ⟨⟨n', b', parent.last, ?_, hspaced'⟩, hrest, h.doc, ?_⟩, .inl rfl⟩
        · dsimp only
          rw [htree, hinclude]
          rfl
        · dsimp only
          rw [hinclude, h.files]
  | done t =>
    obtain ⟨hclosed, hleave⟩ := step_done.1 hstep
    obtain ⟨attrs, hclose, hparents, rfl⟩ := leave_done.1 hleave
    have hq : q.parents = [] := by
      have hlength := h.parents.length_eq
      rw [hparents] at hlength
      exact List.length_eq_zero_iff.1 hlength.symm
    have hnot : ¬(q.input.good = true ∧ q.frame.state ≠ .finished) := by rwa [h.input, hstate]
    refine ⟨_, step_done.2 ⟨hnot, leave_done.2 ⟨attrs, hattrs hclose, hq, rfl⟩⟩, ?_⟩
    exact (htree _).symm

/-- **Behind the space** the two documents have the same tree. -/
theorem Shadows.yields {t : XmlTree} (h : Shadows env p q) (hp : Yields (Parser.step env) p t) :
    Yields (Parser.step env) q t := by
  obtain ⟨t', hq, rfl⟩ := hp.simulate (fun _ _ _ hs hstep => hs.step hstep) h
  exact hq

end

/-! ## At the space -/

section
variable {env : XmlSetting} {p p' q : Parser} {c : UInt8} {pre post rest : F8String}

/-- A character of the document. -/
theorem step_read {f : XmlFrame} (hfiles : p.files = []) (hdoc : p.doc = ⟨c :: rest, true⟩)
    (hopen : p.frame.state ≠ .finished) (hc : c ≠ 10 ∧ c ≠ 13) (hrest : c = 47 → rest ≠ [])
    (hread : (p.frame.withLast c).read env p.root p.parents.length c rest.head? = .ok (.on f)) :
    p.step env = .ok (.more { p with frame := f, doc := ⟨rest, true⟩ }) := by
  have hinput : p.input = ⟨c :: rest, true⟩ := by simp [input, hfiles, hdoc]
  refine step_more.2 (.inl ⟨⟨by rw [hinput], hopen⟩, ?_⟩)
  rw [take_cons (congrArg XmlInput.rest hinput), receive_iff]
  have hon : Received env (p.withInput ⟨rest, true⟩) c _ := .on hc (f := f) (by simpa using hread)
  cases hpeeks : p.frame.peeks c with
  | true =>
    have hslash : c = 47 := by
      unfold XmlFrame.peeks at hpeeks
      simp_all
    simpa [withInput, hfiles, input, XmlInput.peeked, hpeeks, hrest hslash] using hon
  | false => simpa [withInput, hfiles, hpeeks] using hon

/-- A newline of the document. -/
theorem step_newline (env : XmlSetting) (hfiles : p.files = []) (hdoc : p.doc = ⟨c :: rest, true⟩)
    (hopen : p.frame.state ≠ .finished) (hc : c = 10 ∨ c = 13) : ∃ root,
    p.step env = .ok (.more { p with root, frame := p.frame.withLast c, doc := ⟨rest, true⟩ }) := by
  have hinput : p.input = ⟨c :: rest, true⟩ := by simp [input, hfiles, hdoc]
  have hstep : ∀ {p'}, Received env (p.withInput ⟨rest, true⟩) c p' →
      p.step env = .ok (.more p') := by
    intro p' hreceived
    refine step_more.2 (.inl ⟨⟨by rw [hinput], hopen⟩, ?_⟩)
    rw [take_cons (congrArg XmlInput.rest hinput), receive_iff]
    exact hreceived
  rcases hc with hc | hc
  · exact ⟨p.root.newline, by simpa [withInput, hfiles] using hstep (.newline hc)⟩
  · exact ⟨p.root, by simpa [withInput, hfiles] using hstep (.cr hc)⟩

def isNewline (c : UInt8) : Bool := c = 10 || c = 13

/-- The newlines in front of what follows them. -/
theorem reaches_lines (env : XmlSetting) (hfiles : p.files = []) (hdoc : p.doc = ⟨rest, true⟩)
    (hopen : p.frame.state ≠ .finished) : ∃ root l, Machine.Reaches (Parser.step env) p
      { p with root, frame := p.frame.withLast l, doc := ⟨rest.dropWhile isNewline, true⟩ } := by
  induction rest generalizing p with
  | nil =>
    refine ⟨p.root, p.frame.last, ?_⟩
    rw [List.dropWhile_nil, ← hdoc]
    exact .here
  | cons c rest ih =>
    cases hc : isNewline c with
    | true =>
      obtain ⟨root, hstep⟩ := step_newline env hfiles hdoc hopen
        (by simpa [isNewline] using hc)
      obtain ⟨root', l, hreaches⟩ := ih
        (p := { p with root, frame := p.frame.withLast c, doc := ⟨rest, true⟩ }) hfiles rfl hopen
      refine ⟨root', l, ?_⟩
      rw [List.dropWhile_cons_of_pos hc]
      exact (Machine.Reaches.here.next hstep).trans hreaches
    | false =>
      refine ⟨p.root, p.frame.last, ?_⟩
      rw [List.dropWhile_cons_of_neg (by simp [hc]), ← hdoc]
      exact .here

/-- A space of the document between the name of a tag and an attribute, or between two
attributes: the parser has come to it in the state `p`. -/
structure Separator (env : XmlSetting) (pre post : F8String) (p : Parser) : Prop where
  reached : Machine.Reaches (Parser.step env) (start (pre ++ 32 :: post)) p
  doc : p.doc = ⟨32 :: post, true⟩
  files : p.files = []
  within : p.frame.state = .otag ∧ p.frame.tmpotag ≠ [] ∨
    p.frame.state = .oattr ∧ Between env p.frame.tmpattr
  follows : post.dropWhile isNewline ≠ []

/-- What ends the name of a tag without the space. -/
def EndsName : F8String → Prop
  | [] => False
  | c :: rest => isspace c = true ∨ c = 62 ∨ c = 47 ∧ rest.head? = some 62

/-- Another character ends the name, or the name has ended and the file that an `xi:include` names
does not depend on the space. -/
def Harmless (p : Parser) (post : F8String) : Prop :=
  if p.frame.state = .otag then EndsName (post.dropWhile isNewline)
  else p.frame.tmpotag = ascii "xi:include" → ∀ rest,
    includeName (p.frame.tmpattr ++ 32 :: rest) = includeName (p.frame.tmpattr ++ rest)

/-- What an `xi:include` names does not begin with a space. -/
theorem includeName_space {w : UInt8} {rest : F8String} (hw : isspace w = true) :
    includeName (w :: rest) = includeName rest := by
  have hzero : w ≠ 0 := ne_of_isspace hw (by decide)
  have hletter : w ≠ 104 := ne_of_isspace hw (by decide)
  have hcstr : cstr (w :: rest) = w :: cstr rest :=
    List.takeWhile_cons_of_pos (by simpa using hzero)
  have hnone : Pattern.firstAt rIn (w :: cstr rest) = none := by
    obtain ⟨ps, hps⟩ : ∃ ps, rIn = [.char 104 :: ps] := ⟨_, rfl⟩
    rw [hps, Pattern.firstAt]
    simp [Pattern.matchAt, hletter]
  unfold includeName
  rw [hcstr, Pattern.search, hnone, Option.map_map]
  rfl

/-- Two calls that differ in a space. -/
theorem shadows_frame (hfiles : p.files = []) (f : XmlFrame) (root : XmlRoot) (n : Nat)
    (b : F8String) (l : UInt8) (hspaced : f.Spaced env b) (hlast : l = f.last ∨ rest ≠ []) :
    Shadows env { p with frame := f, doc := ⟨rest, true⟩ }
      { p with root, frame := f.alter n b l, doc := ⟨rest, true⟩ } := by
  refine ⟨⟨⟨n, b, l, rfl, hspaced⟩, ?_, rfl, rfl⟩, ?_⟩
  · exact List.forall₂_same.2 fun f _ => ⟨f.starttmpotag, f.tmpattr, rfl, .inl rfl⟩
  · simpa [input, hfiles] using hlast

/-- The end of the name of a tag, with and without the space in front of it. -/
theorem yields_end {t : XmlTree} {f : XmlFrame} {root root' : XmlRoot} {l l' : UInt8}
    (hfiles : p.files = []) (hstate : f.state = .otag) (hname : f.tmpotag ≠ [])
    (hattr : f.tmpattr = []) (hc : c ≠ 10 ∧ c ≠ 13) (hends : EndsName (c :: rest))
    (hp : Yields (Parser.step env) { p with
      root, frame := { f.withLast l with state := .oattr }, doc := ⟨c :: rest, true⟩ } t) :
    Yields (Parser.step env)
      { p with root := root', frame := f.withLast l', doc := ⟨c :: rest, true⟩ } t := by
  have hopen : (f.withLast l').state ≠ .finished := by
    rw [XmlFrame.withLast_state, hstate]
    decide
  have hread : ∀ (g : XmlFrame) (b : F8String), (c = 47 → rest ≠ []) →
      ({ f.withLast c with state := .oattr } : XmlFrame).read env root p.parents.length c
        rest.head? = .ok (.on g) →
      (f.withLast c).read env root' p.parents.length c rest.head? =
        .ok (.on (g.alter g.starttmpotag b c)) → g.Spaced env b → g.last = c →
      Yields (Parser.step env)
        { p with root := root', frame := f.withLast l', doc := ⟨c :: rest, true⟩ } t := by
    intro g b hrest hread hread' hspaced hlast
    have hstep := step_read (p := { p with
      root, frame := { f.withLast l with state := .oattr }, doc := ⟨c :: rest, true⟩ }) hfiles rfl
      XmlState.noConfusion hc hrest hread
    have hstep' := step_read (p := { p with
      root := root', frame := f.withLast l', doc := ⟨c :: rest, true⟩ }) hfiles rfl hopen hc hrest
      hread'
    rw [yields_of_more hstep] at hp
    rw [yields_of_more hstep']
    exact (shadows_frame (p := { p with root, doc := ⟨rest, true⟩ }) hfiles g root'
      g.starttmpotag b c hspaced (.inl hlast.symm)).yields hp
  rcases hends with hspace | rfl | ⟨rfl, hgt⟩
  · -- the other space ends the name, and stands in the text of the attributes instead
    have hslash : c ≠ 47 := ne_of_isspace hspace (by decide)
    have hgt : c ≠ 62 := ne_of_isspace hspace (by decide)
    refine hread { f.withLast c with state := .oattr, tmpattr := f.tmpattr ++ [c] } f.tmpattr
      (fun h => absurd h hslash) ?_ ?_ (.inr ⟨rfl, f.tmpattr, c, [], rfl, by simp, hspace, ?_, ?_⟩)
      rfl
    · simp [XmlFrame.read, XmlFrame.inOattr, hslash, hgt]
    · simp [XmlFrame.read, XmlFrame.inOtag, XmlFrame.alter, hstate, hslash, hgt, hspace, hname]
    · rw [hattr]
      exact ⟨root, AttrReader.start, rfl, rfl⟩
    · intro _ text
      rw [hattr]
      exact includeName_space hspace
  · refine hread { f.withLast 62 with state := .value } f.tmpattr (fun h => absurd h (by decide)) ?_ ?_
      (.inl rfl) rfl
    · simp [XmlFrame.read, XmlFrame.inOattr]
    · simp [XmlFrame.read, XmlFrame.inOtag, XmlFrame.alter, hstate]
  · refine hread { f.withLast 47 with state := .ctag, tmpctag := f.tmpotag } f.tmpattr ?_ ?_ ?_
      (.inl rfl) rfl
    · rintro - rfl
      cases hgt
    · simp [XmlFrame.read, XmlFrame.inOattr, hgt]
    · simp [XmlFrame.read, XmlFrame.inOtag, XmlFrame.alter, hstate, hgt]

/-- Behind the name of a tag. -/
theorem yields_name {t : XmlTree} (hsound : p.frame.Sound) (hfiles : p.files = [])
    (hstate : p.frame.state = .otag) (hname : p.frame.tmpotag ≠ [])
    (hends : EndsName (rest.dropWhile isNewline)) {root root' : XmlRoot} {l l' : UInt8}
    (hp : Yields (Parser.step env) { p with
      root, frame := { p.frame.withLast l with state := .oattr }, doc := ⟨rest, true⟩ } t) :
    Yields (Parser.step env)
      { p with root := root', frame := p.frame.withLast l', doc := ⟨rest, true⟩ } t := by
  obtain ⟨root₁, l₁, hreaches⟩ := reaches_lines env (p := { p with
    root, frame := { p.frame.withLast l with state := .oattr }, doc := ⟨rest, true⟩ })
    hfiles rfl XmlState.noConfusion
  obtain ⟨root₂, l₂, hreaches'⟩ := reaches_lines env (p := { p with
    root := root', frame := p.frame.withLast l', doc := ⟨rest, true⟩ })
    hfiles rfl (by rw [XmlFrame.withLast_state, hstate]; decide)
  rw [hreaches.yields_iff] at hp
  rw [hreaches'.yields_iff]
  have hattr : p.frame.tmpattr = [] := hsound.early (by rw [hstate]; rfl)
  have hhead := List.head?_dropWhile_not isNewline rest
  generalize rest.dropWhile isNewline = s at hends hhead hp ⊢
  cases s with
  | nil => exact hends.elim
  | cons c s =>
    exact yields_end hfiles hstate hname hattr (by simpa [isNewline] using hhead) hends hp

theorem Separator.ne_nil (h : Separator env pre post p) : post ≠ [] := by
  rintro rfl
  exact h.follows rfl

/-- The space behind the name of a tag. -/
theorem Separator.step_space (h : Separator env pre post p) (hstate : p.frame.state = .otag)
    (hname : p.frame.tmpotag ≠ []) : p.step env = .ok (.more { p with
      frame := { p.frame.withLast 32 with state := .oattr }, doc := ⟨post, true⟩ }) := by
  have hread : (p.frame.withLast 32).read env p.root p.parents.length 32 post.head? =
      .ok (.on { p.frame.withLast 32 with state := .oattr }) := by
    unfold XmlFrame.read
    rw [XmlFrame.withLast_state, hstate]
    simp [XmlFrame.inOtag, hname, show isspace 32 = true by decide]
  exact step_read h.files h.doc (by rw [hstate]; decide) (by decide) (fun _ => h.ne_nil) hread

theorem Separator.yields {t : XmlTree} (h : Separator env pre post p) (hharmless : p.Harmless post)
    (hp : Yields (Parser.step env) p t) :
    Yields (Parser.step env) { p with doc := ⟨10 :: post, true⟩ } t := by
  have hne := h.ne_nil
  have hspace : isspace 32 = true := by decide
  have hopen : p.frame.state ≠ .finished := by
    rcases h.within with ⟨hstate, -⟩ | ⟨hstate, -⟩ <;> rw [hstate] <;> decide
  obtain ⟨root, hline⟩ := step_newline env (p := { p with doc := ⟨10 :: post, true⟩ })
    h.files rfl hopen (.inl rfl)
  rw [yields_of_more hline]
  rcases h.within with ⟨hstate, hname⟩ | ⟨hstate, hbetween⟩
  · rw [Harmless, if_pos hstate] at hharmless
    rw [yields_of_more (h.step_space hstate hname)] at hp
    exact yields_name (reaches_sound h.reached).frame h.files hstate hname hharmless hp
  · rw [Harmless, if_neg (by rw [hstate]; decide)] at hharmless
    have hread : (p.frame.withLast 32).read env p.root p.parents.length 32 post.head? =
        .ok (.on { p.frame.withLast 32 with tmpattr := p.frame.tmpattr ++ [32] }) := by
      unfold XmlFrame.read
      rw [XmlFrame.withLast_state, hstate]
      rfl
    rw [yields_of_more (step_read h.files h.doc hopen (by decide) (fun _ => hne) hread)] at hp
    have hgap : Gap env p.frame.tmpotag (p.frame.tmpattr ++ [32]) p.frame.tmpattr :=
      ⟨p.frame.tmpattr, 32, [], rfl, (List.append_nil _).symm, hspace, hbetween, hharmless⟩
    have hshadows := shadows_frame h.files
      { p.frame.withLast 32 with tmpattr := p.frame.tmpattr ++ [32] } root p.frame.starttmpotag
      p.frame.tmpattr 10 (.inr ⟨by rw [XmlFrame.withLast_state, hstate]; rfl, hgap⟩) (.inr hne)
    exact hshadows.yields hp

/-- The calls around the space are kept, whatever is added to the name of the innermost one. -/
structure Kept (p : Parser) : Prop where
  parents : ∀ f ∈ p.parents, Proper f.tmpotag
  frame : ¬p.frame.tmpotag <+: ascii "xi:include"

theorem Separator.waiting (h : Separator env pre post p) (hkept : p.Kept) :
    Waiting p.parents ∧ p.frame.wasInclude = false := by
  have hsound := reaches_sound h.reached
  have hcount : (p.frame :: p.parents).countP XmlFrame.wasInclude = 0 := by
    rw [← hsound.files, h.files]
    rfl
  rw [List.countP_eq_zero] at hcount
  have hinclude : ∀ f ∈ p.frame :: p.parents, f.wasInclude = false := fun f hf =>
    Bool.eq_false_iff.2 (hcount f hf)
  refine ⟨fun f hf => ?_, hinclude _ List.mem_cons_self⟩
  obtain ⟨hf', hstate⟩ := hsound.parents f hf
  have hf'' := hinclude f (List.mem_cons_of_mem _ hf)
  exact ⟨hstate, hf'.untagged (by rw [hstate]; decide) hf'', hf'', hkept.parents f hf⟩

/-- Behind the space the element has its name. -/
theorem Separator.path {t : XmlTree} (h : Separator env pre post p) (hkept : p.Kept)
    (hstate : p.frame.state = .otag) (hname : p.frame.tmpotag ≠ []) (htag : t.tag ≠ [])
    (hp : Yields (Parser.step env) p t) :
    Path p.parents (fun t => t.tag = p.frame.tmpotag ∧ True) t := by
  have hopen : p.frame.state ≠ .finished := by rw [hstate]; decide
  have hsound := reaches_sound h.reached
  obtain ⟨hwaiting, hinclude⟩ := h.waiting hkept
  have hstep := h.step_space hstate hname
  have hholds : { p.frame.withLast 32 with state := .oattr }.Holds (· = p.frame.tmpotag)
      fun _ => True :=
    ⟨.inr rfl, rfl, XmlState.noConfusion, trivial, hsound.frame.untagged hopen hinclude, hinclude⟩
  have hlasting : Lasting (· = p.frame.tmpotag) fun _ => True := by
    refine ⟨?_, fun _ _ _ => trivial⟩
    rintro s rfl
    exact ⟨hname, fun heq => hkept.frame (heq ▸ List.prefix_rfl)⟩
  exact Tracks.path ((yields_of_more hstep).1 hp) htag (hsound.step hstep) hwaiting hlasting
    ⟨[], _, rfl, hholds⟩

/-- Without it the element has a longer one. -/
theorem path_longer {t : XmlTree} (hsound : p.Sound) (hwaiting : Waiting p.parents)
    (hinclude : p.frame.wasInclude = false) (hlong : ¬p.frame.tmpotag <+: ascii "xi:include")
    (hstate : p.frame.state = .otag) (hname : p.frame.tmpotag ≠ []) (hfiles : p.files = [])
    (hdoc : p.doc = ⟨c :: rest, true⟩) (hc : c ≠ 10 ∧ c ≠ 13) (hends : ¬EndsName (c :: rest))
    (htag : t.tag ≠ []) (hp : Yields (Parser.step env) p t) :
    Path p.parents (fun t => p.frame.tmpotag ++ [c] <+: t.tag ∧ True) t := by
  have hopen : p.frame.state ≠ .finished := by rw [hstate]; decide
  have hinput : p.input = ⟨c :: rest, true⟩ := by simp [input, hfiles, hdoc]
  have hgood : p.input.good = true ∧ p.frame.state ≠ .finished := ⟨by rw [hinput], hopen⟩
  have hlasting : Lasting (p.frame.tmpotag ++ [c] <+: ·) fun _ => True := by
    refine ⟨fun s hs => ⟨?_, ?_⟩, fun _ _ _ => trivial⟩
    · rintro rfl
      simp at hs
    · rintro rfl
      exact hlong ((List.prefix_append _ _).trans hs)
  cases hp with
  | done hstep => exact absurd hgood (step_done.1 hstep).1
  | @more _ p' _ hstep hp' =>
    have htake := ((step_more.1 hstep).resolve_right fun h => h.1 hgood).2
    rw [take_cons (congrArg XmlInput.rest hinput)] at htake
    have hparents : ∀ f : XmlFrame, f.Holds (p.frame.tmpotag ++ [c] <+: ·) (fun _ => True) →
        p'.frame = f → p'.parents = p.parents →
          Path p.parents (fun t => p.frame.tmpotag ++ [c] <+: t.tag ∧ True) t := by
      rintro f hf rfl hparents
      rw [← hparents] at hwaiting ⊢
      exact Tracks.path hp' htag (hsound.step hstep) hwaiting hlasting ⟨[], _, rfl, hf⟩
    cases receive_iff.1 htake with
    | newline h => exact absurd h hc.1
    | cr h => exact absurd h hc.2
    | @on f _ hread =>
      rw [withInput_frame, withInput_root, withInput_parents, input_withInput] at hread
      obtain ⟨⟨-, -, -, hend⟩ | ⟨hstate', hname'⟩, htag'⟩ :=
        XmlFrame.read_name (f := p.frame.withLast c) hstate hname hread
      · refine absurd ?_ hends
        rcases hend with h | h | h
        · exact .inr (.inl h)
        · exact .inr (.inr h)
        · exact .inl h
      · refine hparents f ⟨.inl hstate', ?_, ?_, trivial, ?_, ?_⟩ rfl ?_
        · exact hname' ▸ List.prefix_rfl
        · exact fun _ s c hs => hs.trans (List.prefix_append s [c])
        · rw [hstate', htag']
          exact hsound.frame.untagged hopen hinclude
        · exact (XmlFrame.read_on hread).1.trans hinclude
        · dsimp only
          split <;> simp
    | child _ hstate' =>
      rw [withInput_frame, hstate] at hstate'
      cases hstate'
    | inclusion _ hstate' =>
      rw [withInput_frame, hstate] at hstate'
      cases hstate'

/-- The element that is kept shows whether the space is needed. -/
theorem Separator.harmless {t : XmlTree} (h : Separator env pre post p) (hkept : p.Kept)
    (htag : t.tag ≠ []) (hp : Yields (Parser.step env) p t)
    (hq : Yields (Parser.step env) { p with doc := ⟨10 :: post, true⟩ } t) : p.Harmless post := by
  unfold Harmless
  split
  · next hstate =>
    by_contra hends
    have hname : p.frame.tmpotag ≠ [] := by
      rcases h.within with ⟨-, hname⟩ | ⟨hstate', -⟩
      · exact hname
      · rw [hstate] at hstate'
        cases hstate'
    have hopen : p.frame.state ≠ .finished := by rw [hstate]; decide
    obtain ⟨hwaiting, hinclude⟩ := h.waiting hkept
    have hsound := reaches_sound h.reached
    -- the newlines behind the name are read in its state
    obtain ⟨root, hline⟩ := step_newline env (p := { p with doc := ⟨10 :: post, true⟩ }) h.files
      rfl hopen (.inl rfl)
    rw [yields_of_more hline] at hq
    obtain ⟨root', l, hlines⟩ := reaches_lines env
      (p := { p with root, frame := p.frame.withLast 10, doc := ⟨post, true⟩ }) h.files rfl hopen
    rw [hlines.yields_iff] at hq
    have hhead := List.head?_dropWhile_not isNewline post
    obtain ⟨c, rest, hpost⟩ := List.exists_cons_of_ne_nil h.follows
    rw [hpost] at hends hhead hq
    have hlonger := path_longer
      (p := { p with
        root := root', frame := (p.frame.withLast 10).withLast l, doc := ⟨c :: rest, true⟩ })
      ⟨(hsound.frame.withLast 10).withLast l, hsound.parents, hsound.files⟩ hwaiting hinclude
      hkept.frame hstate hname h.files rfl (by simpa [isNewline] using hhead) hends htag hq
    obtain ⟨t', ⟨hsame, -⟩, hlong, -⟩ := (h.path hkept hstate hname htag hp).and hlonger
    rw [hsame] at hlong
    have hlength := hlong.length_le
    simp at hlength
  · exact fun hname => absurd (hname ▸ List.prefix_rfl) hkept.frame

/-- **A newline for a space** leaves the tree of a document as it is where it is harmless, and
changes that of a document whose root is closed where it is not, unless the element is not kept. -/
theorem newline_iff {t : XmlTree} (h : Separator env pre post p)
    (ht : Parses env (pre ++ 32 :: post) t) :
    (p.Harmless post → Parses env (pre ++ 10 :: post) t) ∧
      (t.tag ≠ [] → p.Kept → (Parses env (pre ++ 10 :: post) t ↔ p.Harmless post)) := by
  have hp : Yields (Parser.step env) p t := h.reached.yields_iff.1 (yields_iff_run.2 ht)
  have hreplaced := reaches_replaced h.reached h.doc
  have hharmless : p.Harmless post → Parses env (pre ++ 10 :: post) t := fun hharmless =>
    yields_iff_run.1 (hreplaced.yields_iff.2 (h.yields hharmless hp))
  refine ⟨hharmless, fun htag hkept => ⟨fun hq => ?_, hharmless⟩⟩
  exact h.harmless hkept htag hp (hreplaced.yields_iff.1 (yields_iff_run.2 hq))

/-- A run that has been made. -/
theorem parses_of_run {doc : F8String} (fuel : Nat) (h : ((Machine.run (step env) fuel
    (start doc)).any fun r => r.toOption.any fun t => t.tag ≠ []) = true) :
    ∃ t, Parses env doc t ∧ t.tag ≠ [] := by
  cases hrun : Machine.run (step env) fuel (start doc) with
  | none => simp [hrun] at h
  | some r =>
    cases r with
    | error e => simp [hrun, Except.toOption] at h
    | ok t => exact ⟨t, ⟨fuel, hrun⟩, by simpa [hrun, Except.toOption] using h⟩

/-- A run that has failed. -/
theorem not_parses_of_run {doc : F8String} (fuel : Nat) (h : ((Machine.run (step env) fuel
    (start doc)).any fun r => r.toOption.isNone) = true) (t : XmlTree) : ¬Parses env doc t := by
  cases hrun : Machine.run (step env) fuel (start doc) with
  | none => simp [hrun] at h
  | some r =>
    cases r with
    | error e => exact fun ht => not_yields_of_run hrun (yields_iff_run.2 ht)
    | ok t => simp [hrun, Except.toOption] at h

/-- The text of the attributes has been read. -/
theorem between_of_run {text : F8String} (root : XmlRoot) (h : ((AttrReader.start.run root env.sur
    env.noextensions text).toOption.any fun p => p.state = .ews) = true) : Between env text := by
  cases hrun : AttrReader.start.run root env.sur env.noextensions text with
  | error e => simp [hrun, Except.toOption] at h
  | ok p => exact ⟨root, p, hrun, by simpa [hrun, Except.toOption] using h⟩

end

/-- A parser with nothing around it. -/
def bareSetting : XmlSetting := ⟨bare, false, fun _ => none, id, none⟩

/-- A newline between two attributes, and not behind the name of the tag. -/
theorem newline_attributes : ∃ t, Parses bareSetting (ascii "<a b=\"1\" c=\"2\"/>") t ∧
    Parses bareSetting (ascii "<a b=\"1\"" ++ 10 :: ascii "c=\"2\"/>") t ∧
      ¬Parses bareSetting (ascii "<a" ++ 10 :: ascii "b=\"1\" c=\"2\"/>") t := by
  obtain ⟨t, ht, htag⟩ : ∃ t, Parses bareSetting (ascii "<a b=\"1\" c=\"2\"/>") t ∧ t.tag ≠ [] :=
    parses_of_run 30 (by decide +kernel)
  refine ⟨t, ht, ?_, ?_⟩
  · have hdoc : ascii "<a b=\"1\" c=\"2\"/>" = ascii "<a b=\"1\"" ++ 32 :: ascii "c=\"2\"/>" := by
      decide +kernel
    rw [hdoc] at ht
    have hseparator : Separator bareSetting (ascii "<a b=\"1\"") (ascii "c=\"2\"/>")
        (Machine.after (step bareSetting) 8
          (start (ascii "<a b=\"1\"" ++ 32 :: ascii "c=\"2\"/>"))) :=
      ⟨reaches_after 8, by decide +kernel, List.isEmpty_iff.1 (by decide +kernel),
        .inr ⟨by decide +kernel, between_of_run ⟨1, [], 1⟩ (by decide +kernel)⟩, by decide +kernel⟩
    refine (newline_iff hseparator ht).1 ?_
    unfold Harmless
    rw [if_neg (by decide +kernel)]
    exact fun h => absurd h (by decide +kernel)
  · have hdoc : ascii "<a b=\"1\" c=\"2\"/>" = ascii "<a" ++ 32 :: ascii "b=\"1\" c=\"2\"/>" := by
      decide +kernel
    rw [hdoc] at ht
    have hseparator : Separator bareSetting (ascii "<a") (ascii "b=\"1\" c=\"2\"/>")
        (Machine.after (step bareSetting) 2
          (start (ascii "<a" ++ 32 :: ascii "b=\"1\" c=\"2\"/>"))) :=
      ⟨reaches_after 2, by decide +kernel, List.isEmpty_iff.1 (by decide +kernel),
        .inl ⟨by decide +kernel, by decide +kernel⟩, by decide +kernel⟩
    have hroot : (Machine.after (step bareSetting) 2
        (start (ascii "<a" ++ 32 :: ascii "b=\"1\" c=\"2\"/>"))).parents = [] :=
      List.isEmpty_iff.1 (by decide +kernel)
    refine fun hnewline => absurd (((newline_iff hseparator ht).2 htag ⟨?_, ?_⟩).1 hnewline) ?_
    · rw [hroot]
      exact fun f hf => absurd hf List.not_mem_nil
    · decide +kernel
    · have hpost : (ascii "b=\"1\" c=\"2\"/>").dropWhile isNewline =
          98 :: ascii "=\"1\" c=\"2\"/>" := by decide +kernel
      unfold Harmless
      rw [if_pos (by decide +kernel), hpost]
      rintro (h | h | ⟨h, -⟩)
      · exact absurd h (by decide)
      · exact absurd h (by decide)
      · exact absurd h (by decide)

/-- The newline behind the name of a tag joins the two. -/
theorem newline_joined : ¬∀ env pre post p, Separator env pre post p → ∀ t,
    Parses env (pre ++ 32 :: post) t → Parses env (pre ++ 10 :: post) t := by
  intro h
  have hseparator : Separator bareSetting (ascii "<a") (ascii "b=\"1\"/>")
      (Machine.after (step bareSetting) 2 (start (ascii "<a" ++ 32 :: ascii "b=\"1\"/>"))) :=
    ⟨reaches_after 2, by decide +kernel, List.isEmpty_iff.1 (by decide +kernel),
      .inl ⟨by decide +kernel, by decide +kernel⟩, by decide +kernel⟩
  obtain ⟨t, ht, -⟩ : ∃ t, Parses bareSetting (ascii "<a" ++ 32 :: ascii "b=\"1\"/>") t ∧
      t.tag ≠ [] := parses_of_run 30 (by decide +kernel)
  exact not_parses_of_run 30 (by decide +kernel) t (h _ _ _ _ hseparator t ht)

end Parser

end Fix8.Compiler
