import Fix8.Compiler.Proof.Parse

/-!
# What becomes of an element

An element that is being read stands, when the document ends, where its calls put it: behind the
children that its parent had, and so on up to the root. The calls around it must be no inclusions
and have names, and the root must have been closed.

* `Holds`: what is known of a call, from the name of its tag on;
* `Path`: what is known of the element at that place of a tree;
* **`Tracks.path`**.
-/

namespace Fix8.Compiler

open Lib Codec Machine

/-- A name that an element keeps: the others make it an inclusion, or are dropped. -/
def Proper (name : F8String) : Prop := name ≠ [] ∧ name ≠ ascii "xi:include"

/-- A call whose name has `P` and whose children have `C`. -/
structure XmlFrame.Holds (P : F8String → Prop) (C : List XmlTree → Prop) (f : XmlFrame) :
    Prop where
  state : f.state = .otag ∨ f.state.late = true
  name : P f.tmpotag
  grows : f.state = .otag → ∀ s c, P s → P (s ++ [c])
  children : C f.children
  tag : f.tag = if f.state = .finished then f.tmpotag else []
  wasInclude : f.wasInclude = false

/-- Names that are kept, and children to which others may be added. -/
structure Lasting (P : F8String → Prop) (C : List XmlTree → Prop) : Prop where
  proper : ∀ s, P s → Proper s
  append : ∀ l l', C l → C (l ++ l')

namespace XmlFrame

section
variable {env : XmlSetting} {root : XmlRoot} {depth : Nat} {f f' : XmlFrame} {c : UInt8}
  {peek : Option UInt8} {P : F8String → Prop} {C : List XmlTree → Prop}

theorem Holds.withLast (h : f.Holds P C) (c : UInt8) : (f.withLast c).Holds P C :=
  ⟨h.state, h.name, h.grows, h.children, h.tag, h.wasInclude⟩

theorem Holds.adopt (h : f.Holds P C) (hlast : Lasting P C) (child : XmlTree) (b : Bool) :
    (f.adopt child b).Holds P C :=
  ⟨h.state, h.name, h.grows, hlast.append _ _ h.children, h.tag, h.wasInclude⟩

theorem Holds.read (h : f.Holds P C) (hlast : Lasting P C) (hopen : f.state ≠ .finished)
    (hread : f.read env root depth c peek = .ok (.on f')) : f'.Holds P C := by
  obtain ⟨hinclude, hchildren, -⟩ := read_on hread
  have htag : f.tag = [] := h.tag.trans (if_neg hopen)
  have hchildren' : C f'.children := hchildren ▸ h.children
  have hinclude' : f'.wasInclude = false := hinclude.trans h.wasInclude
  rcases h.state with hstate | hlate
  · obtain ⟨hname | hname, htag'⟩ := read_name hstate (hlast.proper _ h.name).1 hread
    · obtain ⟨hlate, hopen', hsame, -⟩ := hname
      refine ⟨.inr hlate, hsame ▸ h.name, fun h => ?_, hchildren', ?_, hinclude'⟩
      · rw [h] at hlate
        cases hlate
      · rw [if_neg hopen', htag', htag]
    · obtain ⟨hstate', hmore⟩ := hname
      refine ⟨.inl hstate', ?_, fun _ => h.grows hstate, hchildren', ?_, hinclude'⟩
      · rw [hmore]
        exact h.grows hstate _ _ h.name
      · rw [hstate', htag', htag]
        rfl
  · obtain ⟨hlate', hsame, htag'⟩ := read_late hlate hopen hread
    refine ⟨.inr hlate', hsame ▸ h.name, fun h => ?_, hchildren', ?_, hinclude'⟩
    · rw [h] at hlate'
      cases hlate'
    · rw [htag', hsame, htag]

end

end XmlFrame

/-! ## Up to the root -/

/-- The call around it has its element behind the children that it had. -/
def Behind (a : XmlFrame) (R : XmlTree → Prop) (children : List XmlTree) : Prop :=
  ∃ t, children[a.children.length]? = some t ∧ R t

/-- The element at the place that the calls `A` give it, from the innermost one outwards. -/
def Path : List XmlFrame → (XmlTree → Prop) → XmlTree → Prop
  | [], R, t => R t
  | a :: A, R, t => Path A (fun t => Proper t.tag ∧ Behind a R t.children) t

/-- There is one element at a place. -/
theorem Path.and : ∀ {A : List XmlFrame} {R S : XmlTree → Prop} {t : XmlTree}, Path A R t →
    Path A S t → ∃ t, R t ∧ S t
  | [], _, _, t, hR, hS => ⟨t, hR, hS⟩
  | a :: A, R, S, t, hR, hS => by
    obtain ⟨t, ⟨-, c, hc, hR⟩, -, c', hc', hS⟩ := Path.and (A := A) hR hS
    rw [hc] at hc'
    cases hc'
    exact ⟨c, hR, hS⟩

namespace Parser

/-- The calls around an element that is kept. -/
def Waiting (A : List XmlFrame) : Prop :=
  ∀ a ∈ A, a.state = .value ∧ a.tag = [] ∧ a.wasInclude = false ∧ Proper a.tmpotag

/-- One of the calls that are open is that of the element. -/
def Tracks (A : List XmlFrame) (P : F8String → Prop) (C : List XmlTree → Prop) (p : Parser) :
    Prop :=
  ∃ inner f, p.frame :: p.parents = inner ++ f :: A ∧ f.Holds P C

section
variable {env : XmlSetting} {p p' : Parser} {c : UInt8} {A : List XmlFrame}
  {P : F8String → Prop} {C : List XmlTree → Prop} {t : XmlTree}

theorem Tracks.received (h : Tracks A P C p) (hlast : Lasting P C)
    (hopen : p.frame.state ≠ .finished) (hreceived : Received env p c p') :
    Tracks A P C p' := by
  obtain ⟨inner, f, hstack, hf⟩ := h
  cases inner with
  | nil =>
    obtain ⟨hframe, hparents⟩ := List.cons.inj hstack
    subst hframe
    cases hreceived with
    | newline => exact ⟨[], p.frame.withLast c, congrArg _ hparents, hf.withLast c⟩
    | cr => exact ⟨[], p.frame.withLast c, congrArg _ hparents, hf.withLast c⟩
    | @on f' hc hread =>
      refine ⟨[], f', ?_, (hf.withLast c).read hlast hopen hread⟩
      dsimp only
      split <;> simp [hparents]
    | child => exact ⟨[.start], p.frame.withLast c, by simp [hparents], hf.withLast c⟩
    | inclusion hc hstate htags htag => exact absurd htag (hlast.proper _ hf.name).2
  | cons g inner =>
    obtain ⟨-, hparents⟩ := List.cons.inj hstack
    cases hreceived with
    | newline => exact ⟨_ :: inner, f, congrArg _ hparents, hf⟩
    | cr => exact ⟨_ :: inner, f, congrArg _ hparents, hf⟩
    | @on f' hc hread =>
      refine ⟨f' :: inner, f, ?_, hf⟩
      dsimp only
      split <;> simp [hparents]
    | child => exact ⟨.start :: p.frame.withLast c :: inner, f, by simp [hparents], hf⟩
    | inclusion => exact ⟨_ :: inner, f, congrArg _ hparents, hf⟩

theorem Tracks.take (h : Tracks A P C p) (hlast : Lasting P C) (hopen : p.frame.state ≠ .finished)
    (htake : p.take env = .ok p') : Tracks A P C p' := by
  obtain ⟨i, c, hreceived⟩ := take_received htake
  have hinput : Tracks A P C (p.withInput i) := by
    unfold Tracks
    rw [withInput_frame, withInput_parents]
    exact h
  exact hinput.received hlast (by simpa using hopen) hreceived

/-- Nothing more can be read, and no call has found its end. -/
structure Lost (p : Parser) : Prop where
  files : p.files = []
  good : p.doc.good = false
  tags : ∀ f ∈ p.frame :: p.parents, f.tag = [] ∧ f.wasInclude = false

/-- Then the root has no tag. -/
theorem Lost.tag (h : Lost p) (hp : Yields (Parser.step env) p t) : t.tag = [] := by
  refine Yields.invariant (Q := fun t => t.tag = []) hp h ?_ ?_
  · intro s s' hs hstep
    have hgood : ¬(s.input.good = true ∧ s.frame.state ≠ .finished) := by
      simp [input, hs.files, hs.good]
    obtain ⟨attrs, parent, parents, -, hparents, rfl⟩ :=
      leave_more.1 ((step_more.1 hstep).resolve_left fun h => hgood h.1).2
    have htags := hs.tags
    rw [hparents] at htags
    refine ⟨?_, hs.good, ?_⟩
    · dsimp only
      rw [if_neg (by simp [(htags _ List.mem_cons_self).2]), hs.files]
    · intro f hf
      rcases List.mem_cons.1 hf with rfl | hf
      · exact htags parent (by simp)
      · exact htags f (by simp [hf])
  · intro s t hs hstep
    obtain ⟨attrs, -, -, rfl⟩ := leave_done.1 (step_done.1 hstep).2
    exact (hs.tags _ List.mem_cons_self).1

/-- A call that is not closed has come to the end of the document. -/
theorem lost_of_open {f : XmlFrame} (hsound : p.Sound) (hwaiting : Waiting A)
    (hstack : p.frame :: p.parents = f :: A) (hf : f.Holds P C) (hopen : f.state ≠ .finished)
    (hend : p.input.good = false) : Lost p := by
  have htags : ∀ g ∈ p.frame :: p.parents, g.tag = [] ∧ g.wasInclude = false := by
    intro g hg
    rw [hstack] at hg
    rcases List.mem_cons.1 hg with rfl | hg
    · exact ⟨hf.tag.trans (if_neg hopen), hf.wasInclude⟩
    · exact ⟨(hwaiting g hg).2.1, (hwaiting g hg).2.2.1⟩
  have hfiles : p.files = [] := by
    refine List.length_eq_zero_iff.1 (hsound.files.trans ?_)
    rw [List.countP_eq_zero]
    intro g hg
    rw [(htags g hg).2]
    exact Bool.false_ne_true
  refine ⟨hfiles, ?_, htags⟩
  simpa [input, hfiles] using hend

/-- The call of the element ends, and the element stands with its parent. -/
theorem holds_parent {f a : XmlFrame} (hf : f.Holds P C) (hlast : Lasting P C)
    (hclosed : f.state = .finished)
    (ha : a.state = .value ∧ a.tag = [] ∧ a.wasInclude = false ∧ Proper a.tmpotag)
    (attrs : XmlAttrs) : (a.adopt (f.toTree attrs) f.wasInclude).Holds Proper
      (Behind a fun t => P t.tag ∧ C t.children) := by
  obtain ⟨hstate, htag, hinclude, hname⟩ := ha
  have htag' : (f.toTree attrs).tag = f.tmpotag := hf.tag.trans (if_pos hclosed)
  have hadopted : (f.toTree attrs).adopted f.wasInclude = [f.toTree attrs] := by
    rw [XmlTree.adopted, htag', if_neg (hlast.proper _ hf.name).1, hf.wasInclude]
    rfl
  refine ⟨.inr (by rw [XmlFrame.adopt, hstate]; rfl), hname, fun h => ?_, ?_, ?_, hinclude⟩
  · rw [XmlFrame.adopt, hstate] at h
    cases h
  · refine ⟨f.toTree attrs, ?_, ?_⟩
    · rw [XmlFrame.adopt, hadopted]
      exact List.getElem?_concat_length
    · exact ⟨by rw [htag']; exact hf.name, hf.children⟩
  · rw [if_neg (by rw [XmlFrame.adopt, hstate]; decide)]
    exact htag

theorem lasting_behind (a : XmlFrame) (R : XmlTree → Prop) : Lasting Proper (Behind a R) := by
  refine ⟨fun _ h => h, ?_⟩
  rintro l l' ⟨t, ht, hR⟩
  refine ⟨t, ?_, hR⟩
  obtain ⟨hlt, -⟩ := List.getElem?_eq_some_iff.1 ht
  rw [List.getElem?_append_left hlt, ht]

/-- **The element** that is tracked stands at its place. -/
theorem Tracks.path (hp : Yields (Parser.step env) p t) (htag : t.tag ≠ []) (hsound : p.Sound)
    (hwaiting : Waiting A) (hlast : Lasting P C) (h : Tracks A P C p) :
    Path A (fun t => P t.tag ∧ C t.children) t := by
  induction hp generalizing A P C with
  | @done p t hstep =>
    obtain ⟨hend, hleave⟩ := step_done.1 hstep
    obtain ⟨attrs, -, hparents, rfl⟩ := leave_done.1 hleave
    obtain ⟨inner, f, hstack, hf⟩ := h
    rw [hparents] at hstack
    cases inner with
    | nil =>
      obtain ⟨rfl, rfl⟩ := List.cons.inj hstack
      have hclosed : p.frame.state = .finished := by
        by_contra hopen
        exact htag (hf.tag.trans (if_neg hopen))
      have htag' : p.frame.tag = p.frame.tmpotag := hf.tag.trans (if_pos hclosed)
      exact ⟨(congrArg P htag').mpr hf.name, hf.children⟩
    | cons g inner => simp at hstack
  | @more p p' t hstep hp ih =>
    have hsound' := hsound.step hstep
    rcases step_more.1 hstep with ⟨⟨-, hopen⟩, htake⟩ | ⟨hend, hleave⟩
    · exact ih htag hsound' hwaiting hlast (h.take hlast hopen htake)
    · have hyields := Yields.more hstep hp
      obtain ⟨attrs, parent, parents, -, hparents, rfl⟩ := leave_more.1 hleave
      obtain ⟨inner, f, hstack, hf⟩ := h
      rw [hparents] at hstack
      cases inner with
      | nil =>
        obtain ⟨rfl, hA⟩ := List.cons.inj hstack
        subst hA
        by_cases hclosed : p.frame.state = .finished
        · have hparent := holds_parent hf hlast hclosed (hwaiting parent List.mem_cons_self) attrs
          refine ih (A := parents) (P := Proper)
            (C := Behind parent fun t => P t.tag ∧ C t.children) htag hsound'
            (fun a ha => hwaiting a (List.mem_cons_of_mem _ ha)) (lasting_behind _ _)
            ⟨[], _, rfl, hparent⟩
        · have hend : p.input.good = false := by simpa [hclosed] using hend
          have hlost := lost_of_open hsound hwaiting (by rw [hparents]) hf hclosed hend
          exact absurd (hlost.tag hyields) htag
      | cons g inner =>
        obtain ⟨-, hrest⟩ := List.cons.inj hstack
        refine ih htag hsound' hwaiting hlast ?_
        cases inner with
        | nil =>
          obtain ⟨rfl, rfl⟩ := List.cons.inj hrest
          exact ⟨[], _, rfl, hf.adopt hlast _ _⟩
        | cons g' inner =>
          obtain ⟨rfl, rfl⟩ := List.cons.inj hrest
          exact ⟨_ :: inner, f, rfl, hf⟩

end

end Parser

end Fix8.Compiler
