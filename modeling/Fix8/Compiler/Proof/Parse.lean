import Fix8.Compiler.Parse

/-!
# What a round of the parser can do

* `XmlFrame.read_on`, `read_early`, `read_late`, `read_child`, `read_inclusion`: what a character
  comes to in a call;
* `receive_iff`, `step_more`, `step_done`: what a step of the parser can do;
* **`reaches_sound`**: what holds of the calls that are open.
-/

namespace Fix8.Compiler

open Lib Codec Machine

/-! ## A character in a call -/

/-- The states behind the name of a tag. -/
def XmlState.late : XmlState → Bool
  | .oattr | .value | .cls | .ctag | .finished => true
  | _ => false

namespace XmlFrame

section
variable {env : XmlSetting} {root : XmlRoot} {depth : Nat} {f f' : XmlFrame} {c : UInt8}
  {peek peek' : Option UInt8} {o : Outcome}

@[simp] theorem withLast_state : (f.withLast c).state = f.state := rfl
@[simp] theorem withLast_tmpotag : (f.withLast c).tmpotag = f.tmpotag := rfl
@[simp] theorem withLast_tmpctag : (f.withLast c).tmpctag = f.tmpctag := rfl
@[simp] theorem withLast_tmpattr : (f.withLast c).tmpattr = f.tmpattr := rfl
@[simp] theorem withLast_tag : (f.withLast c).tag = f.tag := rfl
@[simp] theorem withLast_wasInclude : (f.withLast c).wasInclude = f.wasInclude := rfl
@[simp] theorem withLast_last : (f.withLast c).last = c := rfl
@[simp] theorem withLast_children : (f.withLast c).children = f.children := rfl

/-- A call looks ahead for the end of a tag, and for the beginning of a closing one. -/
theorem read_peek (hgt : peek = some 62 ↔ peek' = some 62)
    (hslash : peek = some 47 ↔ peek' = some 47) :
    f.read env root depth c peek = f.read env root depth c peek' := by
  simp only [read, inOtag, inOattr, hgt, hslash]

/-- What no character changes. -/
theorem read_on (h : f.read env root depth c peek = .ok (.on f')) :
    f'.wasInclude = f.wasInclude ∧ f'.children = f.children ∧ f'.last = f.last := by
  unfold read at h
  split at h
  case h_2 =>
    unfold inOtag illegalTag at h
    split_ifs at h <;> cases h <;> exact ⟨rfl, rfl, rfl⟩
  case h_6 =>
    unfold inOattr at h
    split_ifs at h <;> cases h <;> exact ⟨rfl, rfl, rfl⟩
  case h_13 =>
    unfold inCtag illegalTag at h
    grind
  case h_14 =>
    cases h
    exact ⟨rfl, rfl, rfl⟩
  all_goals split_ifs at h <;> cases h <;> exact ⟨rfl, rfl, rfl⟩

/-- Before the attributes there is neither a text of them nor a tag. -/
theorem read_early (hearly : f.state.late = false)
    (h : f.read env root depth c peek = .ok (.on f')) :
    f'.tmpattr = f.tmpattr ∧ f'.tag = f.tag := by
  unfold read at h
  split at h
  case h_2 =>
    unfold inOtag illegalTag at h
    split_ifs at h <;> cases h <;> exact ⟨rfl, rfl⟩
  all_goals
    first
    | split_ifs at h <;> cases h <;> exact ⟨rfl, rfl⟩
    | simp_all [XmlState.late]

/-- In the name of a tag. -/
theorem read_name (hstate : f.state = .otag) (hname : f.tmpotag ≠ [])
    (h : f.read env root depth c peek = .ok (.on f')) :
    (f'.state.late = true ∧ f'.state ≠ .finished ∧ f'.tmpotag = f.tmpotag ∧
        (c = 62 ∨ c = 47 ∧ peek = some 62 ∨ isspace c = true) ∨
      f'.state = .otag ∧ f'.tmpotag = f.tmpotag ++ [c]) ∧ f'.tag = f.tag := by
  unfold read at h
  rw [hstate] at h
  dsimp only at h
  unfold inOtag illegalTag at h
  split_ifs at h <;> cases h <;> simp_all [XmlState.late]

/-- Behind the name of a tag. -/
theorem read_late (hlate : f.state.late = true) (hopen : f.state ≠ .finished)
    (h : f.read env root depth c peek = .ok (.on f')) :
    f'.state.late = true ∧ f'.tmpotag = f.tmpotag ∧
      f'.tag = if f'.state = .finished then f.tmpotag else f.tag := by
  unfold read at h
  split at h
  case h_6 =>
    unfold inOattr at h
    split_ifs at h <;> cases h <;> simp_all [XmlState.late]
  case h_11 => split_ifs at h <;> cases h <;> simp_all [XmlState.late]
  case h_12 => split_ifs at h <;> cases h <;> simp_all [XmlState.late]
  case h_13 =>
    unfold inCtag illegalTag at h
    split_ifs at h
    case pos =>
      split at h <;> cases h
    all_goals
      cases h
      simp_all [XmlState.late]
  all_goals simp_all [XmlState.late]

theorem read_child : f.read env root depth c peek = .ok (.child f') ↔
    c = 60 ∧ f.state = .value ∧ peek ≠ some 47 ∧ f' = f := by
  constructor
  · intro h
    unfold read at h
    split at h
    case h_2 =>
      unfold inOtag illegalTag at h
      split_ifs at h <;> cases h
    case h_11 hstate =>
      split_ifs at h with hlt hpeek
      all_goals cases h
      exact ⟨hlt, hstate, hpeek, rfl⟩
    case h_13 =>
      unfold inCtag illegalTag at h
      grind
    all_goals cases h
  · rintro ⟨rfl, hstate, hpeek, rfl⟩
    unfold read
    rw [hstate]
    simp [hpeek]

theorem read_inclusion {whatv : F8String} :
    f.read env root depth c peek = .ok (.inclusion f' whatv) ↔
      c = 62 ∧ f.state = .ctag ∧ f.tmpctag = f.tmpotag ∧ f.tmpotag = ascii "xi:include" ∧
        includeName f.tmpattr = some whatv ∧ f' = { f with tag := f.tmpotag } := by
  constructor
  · intro h
    unfold read at h
    split at h
    case h_2 =>
      unfold inOtag illegalTag at h
      split_ifs at h <;> cases h
    case h_11 => split_ifs at h <;> cases h
    case h_13 hstate =>
      unfold inCtag illegalTag at h
      grind
    all_goals cases h
  · rintro ⟨rfl, hstate, htags, htag, hname, rfl⟩
    unfold read
    rw [hstate]
    simp [inCtag, htags, htag, hname, hstate]

end

end XmlFrame

namespace Parser

section
variable {env : XmlSetting} {p p' : Parser} {c : UInt8}

/-! ## The input -/

@[simp] theorem withInput_root (i : XmlInput) : (p.withInput i).root = p.root := by
  unfold withInput
  split <;> rfl
@[simp] theorem withInput_frame (i : XmlInput) : (p.withInput i).frame = p.frame := by
  unfold withInput
  split <;> rfl
@[simp] theorem withInput_parents (i : XmlInput) : (p.withInput i).parents = p.parents := by
  unfold withInput
  split <;> rfl
@[simp] theorem input_withInput (i : XmlInput) : (p.withInput i).input = i := by
  unfold withInput
  split <;> simp_all [input]
@[simp] theorem length_withInput (i : XmlInput) :
    (p.withInput i).files.length = p.files.length := by
  unfold withInput
  split <;> simp_all

/-! ## Rounds -/

/-- A character that has been read, and what it comes to. -/
inductive Received (env : XmlSetting) (p : Parser) (c : UInt8) : Parser → Prop
  | newline (hc : c = 10) :
    Received env p c { p with root := p.root.newline, frame := p.frame.withLast c }
  | cr (hc : c = 13) : Received env p c { p with frame := p.frame.withLast c }
  | on {f : XmlFrame} (hc : c ≠ 10 ∧ c ≠ 13)
    (hread : (p.frame.withLast c).read env p.root p.parents.length c p.input.rest.head? =
      .ok (.on f)) :
    Received env p c
      { if p.frame.peeks c then p.withInput p.input.peeked else p with frame := f }
  | child (hc : c = 60) (hstate : p.frame.state = .value)
    (hpeek : p.input.rest.head? ≠ some 47) (hdepth : p.parents.length < maxDepth) :
    Received env p c
      { p.withInput (p.input.putback c) with
        frame := .start, parents := p.frame.withLast c :: p.parents }
  | inclusion {whatv content : F8String} (hc : c = 62) (hstate : p.frame.state = .ctag)
    (htags : p.frame.tmpctag = p.frame.tmpotag) (htag : p.frame.tmpotag = ascii "xi:include")
    (hname : includeName p.frame.tmpattr = some whatv)
    (hopen : env.openFile (cstr (XmlElement.inplaceXlate env.sur env.noextensions whatv)) =
      some content) :
    Received env p c
      { p with
        root :=
          { p.root with
            inclusion := XmlElement.inplaceXlate env.sur env.noextensions whatv, incline := 1 }
        frame := { p.frame.withLast c with tag := p.frame.tmpotag }.enter
        files := ⟨content, true⟩ :: if p.frame.wasInclude then p.files.tail else p.files }

theorem receive_iff : p.receive env c = .ok p' ↔ Received env p c p' := by
  constructor
  · intro h
    unfold receive at h
    dsimp only at h
    split at h
    · next hc =>
      cases h
      exact .newline hc
    split at h
    · next hc =>
      cases h
      exact .cr hc
    next hnl hcr =>
    split at h
    · cases h
    · next hread =>
      cases h
      exact .on ⟨hnl, hcr⟩ hread
    · next hread =>
      obtain ⟨hc, hstate, hpeek, rfl⟩ := XmlFrame.read_child.1 hread
      unfold descend at h
      split at h
      · cases h
      · next hdepth =>
        cases h
        exact .child hc hstate hpeek (by omega)
    · next hread =>
      obtain ⟨hc, hstate, htags, htag, hname, rfl⟩ := XmlFrame.read_inclusion.1 hread
      unfold inclusion at h
      dsimp only at h
      split at h
      · cases h
      · next hopen =>
        cases h
        exact .inclusion hc hstate htags htag hname hopen
  · intro h
    unfold receive
    cases h with
    | newline hc => rw [if_pos hc]
    | cr hc => simp [hc]
    | on hc hread => rw [if_neg hc.1, if_neg hc.2, hread]; rfl
    | child hc hstate hpeek hdepth =>
      subst hc
      have hread : (p.frame.withLast 60).read env p.root p.parents.length 60
          p.input.rest.head? = .ok (.child (p.frame.withLast 60)) :=
        XmlFrame.read_child.2 ⟨rfl, hstate, hpeek, rfl⟩
      rw [if_neg (by decide), if_neg (by decide), hread]
      simp [descend, Nat.not_lt.2 hdepth]
    | @inclusion whatv content hc hstate htags htag hname hopen =>
      subst hc
      have hread : (p.frame.withLast 62).read env p.root p.parents.length 62
          p.input.rest.head? =
            .ok (.inclusion { p.frame.withLast 62 with tag := p.frame.tmpotag } whatv) :=
        XmlFrame.read_inclusion.2 ⟨rfl, hstate, htags, htag, hname, rfl⟩
      rw [if_neg (by decide), if_neg (by decide), hread]
      unfold inclusion
      dsimp only
      rw [hopen]
      rfl

/-- **The steps** that go on. -/
theorem step_more : p.step env = .ok (.more p') ↔
    (p.input.good = true ∧ p.frame.state ≠ .finished) ∧ p.take env = .ok p' ∨
    ¬(p.input.good = true ∧ p.frame.state ≠ .finished) ∧ p.leave env = .ok (.more p') := by
  unfold step
  split
  · next h =>
    cases htake : p.take env with
    | error e => simp [Except.map, h]
    | ok q => simp [Except.map, h]
  · next h => simp [h]

theorem step_done {t : XmlTree} : p.step env = .ok (.done t) ↔
    ¬(p.input.good = true ∧ p.frame.state ≠ .finished) ∧ p.leave env = .ok (.done t) := by
  unfold step
  split
  · next h =>
    cases htake : p.take env with
    | error e => simp [Except.map, h]
    | ok q => simp [Except.map, h]
  · next h => simp [h]

theorem take_nil (h : p.input.rest = []) : p.take env =
    (p.withInput ⟨[], false⟩).receive env (env.stale p.frame.last) := by
  rw [take, h]

theorem take_cons {rest : F8String} (h : p.input.rest = c :: rest) : p.take env =
    (p.withInput ⟨rest, true⟩).receive env c := by
  rw [take, h]

/-- A round receives a character. -/
theorem take_received (h : p.take env = .ok p') : ∃ i c, Received env (p.withInput i) c p' := by
  cases hrest : p.input.rest with
  | nil =>
    rw [take_nil hrest] at h
    exact ⟨_, _, receive_iff.1 h⟩
  | cons c rest =>
    rw [take_cons hrest] at h
    exact ⟨_, _, receive_iff.1 h⟩

/-- The end of a call that has been made by another one. -/
theorem leave_more : p.leave env = .ok (.more p') ↔
    ∃ attrs parent parents, p.frame.closeAttrs env p.root = .ok attrs ∧
      p.parents = parent :: parents ∧
      p' =
        { root :=
            if p.frame.wasInclude ∧ (p.frame.toTree attrs).adopted true ≠ [] then
              { p.root with inclusion := [] }
            else p.root
          frame := parent.adopt (p.frame.toTree attrs) p.frame.wasInclude
          parents := parents
          doc := p.doc
          files := if p.frame.wasInclude then p.files.tail else p.files } := by
  unfold leave
  cases hattrs : p.frame.closeAttrs env p.root with
  | error e => simp
  | ok attrs =>
    cases hparents : p.parents with
    | nil => simp
    | cons parent parents =>
      constructor
      · intro h
        cases h
        exact ⟨attrs, parent, parents, rfl, rfl, rfl⟩
      · rintro ⟨_, _, _, hok, hcons, rfl⟩
        cases hok
        cases hcons
        rfl

theorem leave_done {t : XmlTree} : p.leave env = .ok (.done t) ↔
    ∃ attrs, p.frame.closeAttrs env p.root = .ok attrs ∧ p.parents = [] ∧
      t = p.frame.toTree (env.rootAttr.elim attrs (attrs.insert (ascii "docpath"))) := by
  unfold leave
  cases hattrs : p.frame.closeAttrs env p.root with
  | error e => simp
  | ok attrs =>
    cases hparents : p.parents with
    | nil => simp [eq_comm]
    | cons parent parents => simp

end

end Parser

/-! ## What holds of the calls that are open -/

/-- The text of the attributes begins behind the name, and the tag is known at the end. -/
structure XmlFrame.Sound (f : XmlFrame) : Prop where
  early : f.state.late = false → f.tmpattr = []
  untagged : f.state ≠ .finished → f.wasInclude = false → f.tag = []

theorem XmlFrame.Sound.read {env : XmlSetting} {root : XmlRoot} {depth : Nat} {f f' : XmlFrame}
    {c : UInt8} {peek : Option UInt8} (h : f.Sound) (hopen : f.state ≠ .finished)
    (hread : f.read env root depth c peek = .ok (.on f')) : f'.Sound := by
  cases hlate : f.state.late with
  | true =>
    obtain ⟨hlate', -, htag⟩ := XmlFrame.read_late hlate hopen hread
    refine ⟨fun hearly => absurd hearly (by simp [hlate']), fun hopen' hinclude => ?_⟩
    rw [htag, if_neg hopen']
    exact h.untagged hopen ((XmlFrame.read_on hread).1.symm.trans hinclude)
  | false =>
    obtain ⟨hattr, htag⟩ := XmlFrame.read_early hlate hread
    refine ⟨fun _ => hattr.trans (h.early hlate), fun _ hinclude => ?_⟩
    rw [htag]
    exact h.untagged hopen ((XmlFrame.read_on hread).1.symm.trans hinclude)

theorem XmlFrame.Sound.withLast {f : XmlFrame} (h : f.Sound) (c : UInt8) : (f.withLast c).Sound :=
  ⟨h.early, h.untagged⟩

namespace Parser

/-- The calls around the innermost one wait for a child, and each file belongs to a call. -/
structure Sound (p : Parser) : Prop where
  frame : p.frame.Sound
  parents : ∀ f ∈ p.parents, f.Sound ∧ f.state = .value
  files : p.files.length = (p.frame :: p.parents).countP XmlFrame.wasInclude

variable {env : XmlSetting} {p p' : Parser} {c : UInt8}

theorem sound_start (doc : F8String) : (start doc).Sound :=
  ⟨⟨fun _ => rfl, fun _ _ => rfl⟩, fun _ hf => absurd hf List.not_mem_nil, rfl⟩

theorem Sound.received (h : p.Sound) (hopen : p.frame.state ≠ .finished)
    (hreceived : Received env p c p') : p'.Sound := by
  cases hreceived with
  | newline => exact ⟨h.frame.withLast c, h.parents, h.files⟩
  | cr => exact ⟨h.frame.withLast c, h.parents, h.files⟩
  | @on f hc hread =>
    have hfiles : p.files.length = (f :: p.parents).countP XmlFrame.wasInclude := by
      rw [h.files, List.countP_cons, List.countP_cons, (XmlFrame.read_on hread).1]
      rfl
    have hframe : f.Sound := (h.frame.withLast c).read hopen hread
    split
    · exact ⟨hframe, by simpa using h.parents, by simpa using hfiles⟩
    · exact ⟨hframe, h.parents, hfiles⟩
  | child hc hstate =>
    refine ⟨⟨fun _ => rfl, fun _ _ => rfl⟩, ?_, ?_⟩
    · intro f hf
      rcases List.mem_cons.1 hf with rfl | hf
      · exact ⟨h.frame.withLast c, hstate⟩
      · exact h.parents f hf
    · have hstart : ¬XmlFrame.start.wasInclude = true := Bool.false_ne_true
      dsimp only
      rw [length_withInput, h.files, List.countP_cons_of_neg hstart, List.countP_cons,
        List.countP_cons]
      rfl
  | inclusion =>
    refine ⟨⟨fun _ => rfl, fun _ hinclude => nomatch hinclude⟩, h.parents, ?_⟩
    have hfiles := h.files
    rw [List.countP_cons] at hfiles ⊢
    simp only [List.length_cons, XmlFrame.enter, if_true]
    split at hfiles
    · next hinclude =>
      rw [if_pos hinclude, List.length_tail]
      omega
    · next hinclude =>
      rw [if_neg hinclude]
      omega

theorem Sound.leave (h : p.Sound) (hleave : p.leave env = .ok (.more p')) : p'.Sound := by
  obtain ⟨attrs, parent, parents, -, hparents, rfl⟩ := leave_more.1 hleave
  have hall := h.parents
  have hfiles := h.files
  rw [hparents] at hall hfiles
  obtain ⟨hparent, hstate⟩ := hall parent List.mem_cons_self
  refine ⟨⟨hparent.early, hparent.untagged⟩, fun f hf => hall f (List.mem_cons_of_mem _ hf), ?_⟩
  rw [List.countP_cons] at hfiles
  have hcount : (parent.adopt (p.frame.toTree attrs) p.frame.wasInclude :: parents).countP
      XmlFrame.wasInclude = (parent :: parents).countP XmlFrame.wasInclude := by
    rw [List.countP_cons, List.countP_cons]
    rfl
  rw [hcount]
  dsimp only
  split at hfiles
  · next hinclude =>
    rw [if_pos hinclude, List.length_tail]
    omega
  · next hinclude =>
    rw [if_neg hinclude]
    omega

theorem Sound.take (h : p.Sound) (hopen : p.frame.state ≠ .finished)
    (htake : p.take env = .ok p') : p'.Sound := by
  obtain ⟨i, c, hreceived⟩ := take_received htake
  have hinput : (p.withInput i).Sound := by
    refine ⟨?_, ?_, ?_⟩
    · simpa using h.frame
    · simpa using h.parents
    · simpa using h.files
  exact hinput.received (by simpa using hopen) hreceived

theorem Sound.step (h : p.Sound) (hstep : p.step env = .ok (.more p')) : p'.Sound := by
  rcases step_more.1 hstep with ⟨⟨-, hopen⟩, htake⟩ | ⟨-, hleave⟩
  · exact h.take hopen htake
  · exact h.leave hleave

/-- **The calls that are open** in any state that a document leads to. -/
theorem reaches_sound {doc : F8String} (h : Machine.Reaches (Parser.step env) (start doc) p) :
    p.Sound :=
  h.invariant (sound_start doc) fun _ _ hs => hs.step

end Parser

end Fix8.Compiler
