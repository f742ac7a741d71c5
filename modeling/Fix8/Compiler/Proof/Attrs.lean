import Fix8.Compiler.Attrs
import Fix8.Compiler.Proof.Xlate
import Fix8.Codec.Proof.Numeral
import Mathlib.Algebra.Order.BigOperators.Group.List
import Mathlib.Algebra.Order.Group.Nat

/-!
# Attributes that are written and read again

A name that has been read contains no separator, so it is read as it was, unless it begins with a
`/`: the reader takes the character behind that twice. A value ends at the first `'`, and what is
before that is decoded once more.

* `parseAttrs_names`: the names that the reader accepts;
* `run_entries`: what it makes of attributes whose values have no `'`;
* **`attributes_reread_iff`**.
-/

namespace Fix8.Compiler

open Lib Codec

/-! ## Names -/

/-- A name as it is read up to its end: the character behind a `/` stands in it twice. -/
def Spelled (noextensions : Bool) (name : F8String) : Prop :=
  (∀ c ∈ name, isspace c = false) ∧ ∃ c rest, name = c :: rest ∧ c ≠ 47 ∨
    name = 47 :: c :: c :: rest ∧ (c = 42 → noextensions = true)

/-- A name that the reader accepts. -/
structure AttrName (noextensions : Bool) (name : F8String) : Prop where
  spelled : Spelled noextensions name ∨ ∃ c, name = [47, c] ∧ isspace c = true
  legal : ∀ c ∈ name, c ∉ ascii "\\'\"="
  ne_docpath : name ≠ ascii "docpath"

/-- The name is read with its second character twice. -/
def Slashed : F8String → Prop
  | 47 :: c :: _ => isspace c = false
  | _ => False

/-- What the reader makes of a name. -/
def readName : F8String → F8String
  | 47 :: c :: rest => if isspace c then 47 :: c :: rest else 47 :: c :: c :: rest
  | name => name

theorem readName_of_not_slashed {name : F8String} (h : ¬Slashed name) : readName name = name := by
  unfold readName
  split
  · next c rest =>
    cases hc : isspace c with
    | true => rfl
    | false => exact absurd hc h
  · rfl

theorem readName_length_of_slashed {name : F8String} (h : Slashed name) :
    (readName name).length = name.length + 1 := by
  unfold Slashed at h
  split at h
  · next c rest => simp [readName, h]
  · cases h

theorem mem_readName {name : F8String} {c : UInt8} (h : c ∈ readName name) : c ∈ name := by
  unfold readName at h
  split at h
  · split at h
    · exact h
    · simpa using h
  · exact h

theorem readName_ne_docpath {name : F8String} (h : name ≠ ascii "docpath") :
    readName name ≠ ascii "docpath" := by
  unfold readName
  split
  · split <;> exact fun heq => absurd (List.cons.inj heq).1 (by decide)
  · exact h

/-! ## The names that are read -/

section
variable {root : XmlRoot} {sur : Surroundings} {noextensions : Bool}

/-- The reader has accepted its names, and has begun one that it may accept. -/
structure AttrReader.Good (noextensions : Bool) (p : AttrReader) : Prop where
  names : ∀ e ∈ p.attrs.entries, AttrName noextensions e.1
  outside : p.state = .ews ∨ p.state = .oc0 ∨ p.state = .comment ∨ p.state = .cc0 → p.tmptag = []
  inside : p.state = .tag → Spelled noextensions p.tmptag
  behind : p.state = .es ∨ p.state = .oq ∨ p.state = .value →
    Spelled noextensions p.tmptag ∨ ∃ c, p.tmptag = [47, c] ∧ (isspace c = true ∨ c = 61)

theorem Spelled.append {name : F8String} {c : UInt8} (h : Spelled noextensions name)
    (hc : isspace c = false) : Spelled noextensions (name ++ [c]) := by
  obtain ⟨hspace, d, rest, hname⟩ := h
  refine ⟨fun x hx => ?_, d, rest ++ [c], ?_⟩
  · rcases List.mem_append.1 hx with hmem | hmem
    · exact hspace x hmem
    · exact List.mem_singleton.1 hmem ▸ hc
  · rcases hname with ⟨rfl, hne⟩ | ⟨rfl, hstar⟩
    · exact .inl ⟨rfl, hne⟩
    · exact .inr ⟨rfl, hstar⟩

namespace AttrReader

section
variable {state : AttrState} {tmptag tmpval : F8String} {comchar c : UInt8} {attrs : XmlAttrs}
  {p p' : AttrReader}

theorem good_outside (hnames : ∀ e ∈ attrs.entries, AttrName noextensions e.1)
    (hstate : state = .ews ∨ state = .oc0 ∨ state = .comment ∨ state = .cc0) :
    Good noextensions ⟨state, [], tmpval, comchar, attrs⟩ := by
  refine ⟨hnames, fun _ => rfl, ?_, ?_⟩
  · rintro rfl
    rcases hstate with h | h | h | h <;> cases h
  · rintro (rfl | rfl | rfl) <;> rcases hstate with h | h | h | h <;> cases h

theorem good_tag (hnames : ∀ e ∈ attrs.entries, AttrName noextensions e.1)
    (htag : Spelled noextensions tmptag) :
    Good noextensions ⟨.tag, tmptag, tmpval, comchar, attrs⟩ := by
  refine ⟨hnames, ?_, fun _ => htag, ?_⟩
  · rintro (h | h | h | h) <;> cases h
  · rintro (h | h | h) <;> cases h

theorem good_behind (hnames : ∀ e ∈ attrs.entries, AttrName noextensions e.1)
    (hstate : state = .es ∨ state = .oq ∨ state = .value)
    (htag : Spelled noextensions tmptag ∨ ∃ c, tmptag = [47, c] ∧ (isspace c = true ∨ c = 61)) :
    Good noextensions ⟨state, tmptag, tmpval, comchar, attrs⟩ := by
  refine ⟨hnames, ?_, ?_, fun _ => htag⟩
  · rintro (rfl | rfl | rfl | rfl) <;> rcases hstate with h | h | h <;> cases h
  · rintro rfl
    rcases hstate with h | h | h <;> cases h

/-- What state `tag` does with a character. -/
theorem inTag_ok (h : p.inTag root c = .ok p') :
    isspace c = true ∧ p' = { p with state := .es } ∨ c = 61 ∧ p' = { p with state := .oq } ∨
      isspace c = false ∧ p' = { p with tmptag := p.tmptag ++ [c] } := by
  unfold inTag at h
  split at h
  · next hspace =>
    cases h
    exact .inl ⟨hspace, rfl⟩
  · next hspace =>
    split at h
    · next heq =>
      cases h
      exact .inr (.inl ⟨heq, rfl⟩)
    · split at h <;> cases h
      exact .inr (.inr ⟨Bool.eq_false_iff.2 hspace, rfl⟩)

theorem Good.endValue (h : p.Good noextensions) (hstate : p.state = .value)
    (hend : p.endValue root sur noextensions = .ok p') : p'.Good noextensions := by
  unfold AttrReader.endValue at hend
  split at hend
  · cases hend
  · next hlegal =>
    split at hend
    · next hdoc =>
      split at hend
      · cases hend
        refine good_outside (fun e he => ?_) (.inl rfl)
        obtain ⟨k, v⟩ := e
        rcases mem_insertKey he with ⟨rfl, -⟩ | hmem
        · refine ⟨?_, fun c hc hbad => hlegal ⟨c, hc, hbad⟩, hdoc⟩
          refine (h.behind (.inr (.inr hstate))).imp_right ?_
          rintro ⟨c, hname, hspace | rfl⟩
          · exact ⟨c, hname, hspace⟩
          · exact absurd ⟨61, by rw [hname]; decide, by decide⟩ hlegal
        · exact h.names _ hmem
      · cases hend
    · cases hend
      exact good_outside h.names (.inl rfl)

/-- **One character** keeps the names as they may be. -/
theorem Good.next (h : p.Good noextensions) (hnext : p.next root sur noextensions c = .ok p') :
    p'.Good noextensions := by
  obtain ⟨state, tmptag, tmpval, comchar, attrs⟩ := p
  unfold AttrReader.next at hnext
  cases state with
  | comment =>
    obtain rfl : tmptag = [] := h.outside (.inr (.inr (.inl rfl)))
    dsimp only at hnext
    split at hnext <;> cases hnext
    · exact good_outside h.names (.inr (.inr (.inr rfl)))
    · exact h
  | cc0 =>
    obtain rfl : tmptag = [] := h.outside (.inr (.inr (.inr rfl)))
    cases hnext
    refine good_outside h.names ?_
    split
    · exact .inl rfl
    · exact .inr (.inr (.inl rfl))
  | ews =>
    obtain rfl : tmptag = [] := h.outside (.inl rfl)
    dsimp only at hnext
    split at hnext
    · cases hnext
      exact good_outside h.names (.inr (.inl rfl))
    · next hslash =>
      split at hnext <;> cases hnext
      · exact h
      · next hspace =>
        refine good_tag h.names ⟨fun x hx => ?_, c, [], .inl ⟨rfl, hslash⟩⟩
        rw [List.mem_singleton.1 hx]
        exact Bool.eq_false_iff.2 hspace
  | oc0 =>
    obtain rfl : tmptag = [] := h.outside (.inr (.inl rfl))
    dsimp only at hnext
    split at hnext
    · cases hnext
      exact good_outside h.names (.inr (.inr (.inl rfl)))
    · next hstar =>
      rcases inTag_ok hnext with ⟨hspace, rfl⟩ | ⟨rfl, rfl⟩ | ⟨hspace, rfl⟩
      · exact good_behind h.names (.inl rfl) (.inr ⟨c, rfl, .inl hspace⟩)
      · exact good_behind h.names (.inr (.inl rfl)) (.inr ⟨61, rfl, .inr rfl⟩)
      · refine good_tag h.names ⟨?_, c, [], .inr ⟨rfl, fun hc => ?_⟩⟩
        · intro x hx
          have hx : x = 47 ∨ x = c := by simpa using hx
          rcases hx with rfl | rfl
          · rfl
          · exact hspace
        · exact Bool.eq_true_of_not_eq_false fun hno => hstar ⟨hc, hno⟩
  | tag =>
    have htag := h.inside rfl
    rcases inTag_ok hnext with ⟨-, rfl⟩ | ⟨-, rfl⟩ | ⟨hspace, rfl⟩
    · exact good_behind h.names (.inl rfl) (.inl htag)
    · exact good_behind h.names (.inr (.inl rfl)) (.inl htag)
    · exact good_tag h.names (htag.append hspace)
  | es =>
    have htag := h.behind (.inl rfl)
    dsimp only at hnext
    split at hnext
    · cases hnext
      exact good_behind h.names (.inr (.inl rfl)) htag
    · split at hnext <;> cases hnext
      exact h
  | oq =>
    have htag := h.behind (.inr (.inl rfl))
    dsimp only at hnext
    split at hnext
    · cases hnext
      exact good_behind h.names (.inr (.inr rfl)) htag
    · split at hnext <;> cases hnext
      exact h
  | value =>
    have htag := h.behind (.inr (.inr rfl))
    dsimp only at hnext
    split at hnext
    · cases hnext
      exact good_behind h.names (.inr (.inr rfl)) htag
    · exact h.endValue rfl hnext

theorem run_cons {text : F8String} : p.run root sur noextensions (c :: text) =
    (p.next root sur noextensions c).bind fun p' => p'.run root sur noextensions text := rfl

theorem run_append {s t : F8String} : p.run root sur noextensions (s ++ t) =
    (p.run root sur noextensions s).bind fun p' => p'.run root sur noextensions t :=
  List.foldlM_append

theorem Good.run {text : F8String} (h : p.Good noextensions)
    (hrun : p.run root sur noextensions text = .ok p') : p'.Good noextensions := by
  induction text generalizing p with
  | nil =>
    cases hrun
    exact h
  | cons c text ih =>
    rw [run_cons] at hrun
    cases hnext : p.next root sur noextensions c with
    | error err =>
      rw [hnext] at hrun
      cases hrun
    | ok q =>
      rw [hnext] at hrun
      exact ih (h.next hnext) hrun

end

end AttrReader

/-- **The names** of the attributes that have been read. -/
theorem parseAttrs_names {stale : UInt8} {attlst : F8String} {attrs : XmlAttrs}
    (h : XmlElement.parseAttrs root sur noextensions stale attlst = .ok attrs) :
    ∀ e ∈ attrs.entries, AttrName noextensions e.1 := by
  have hstart : AttrReader.start.Good noextensions :=
    AttrReader.good_outside (fun e he => absurd he List.not_mem_nil) (.inl rfl)
  unfold XmlElement.parseAttrs at h
  cases hrun : AttrReader.start.run root sur noextensions (attlst ++ [stale]) with
  | error err =>
    rw [hrun] at h
    cases h
  | ok p =>
    rw [hrun] at h
    cases h
    exact (hstart.run hrun).names

/-! ## What is read of an attribute that is written -/

namespace AttrReader

section
variable {name val r t w : F8String} {attrs : XmlAttrs}

/-- Characters that may stand in a name. -/
theorem run_tag (hspace : ∀ c ∈ r, isspace c = false) (hlegal : ∀ c ∈ r, c ∉ ascii "\\'\"=") :
    run root sur noextensions ⟨.tag, t, w, 0, attrs⟩ r = .ok ⟨.tag, t ++ r, w, 0, attrs⟩ := by
  induction r generalizing t with
  | nil => rw [List.append_nil]; rfl
  | cons c r ih =>
    have hc := hlegal c List.mem_cons_self
    have hequals : c ≠ 61 := by
      rintro rfl
      exact hc (by decide)
    have hquote : ¬(c = 34 ∨ c = 39) := by
      rintro (rfl | rfl) <;> exact hc (by decide)
    have hnext : next root sur noextensions ⟨.tag, t, w, 0, attrs⟩ c =
        .ok ⟨.tag, t ++ [c], w, 0, attrs⟩ := by
      have hsp := hspace c List.mem_cons_self
      simp only [next, inTag, hsp, hequals, hquote, if_false, Bool.false_eq_true]
    rw [run_cons, hnext, List.append_cons t c r]
    exact ih (fun x hx => hspace x (List.mem_cons_of_mem _ hx))
      fun x hx => hlegal x (List.mem_cons_of_mem _ hx)

/-- **A name** and what separates it from its value. -/
theorem run_name (hname : AttrName noextensions name) :
    run root sur noextensions ⟨.ews, [], [], 0, attrs⟩ (name ++ [61]) =
      .ok ⟨.oq, readName name, [], 0, attrs⟩ := by
  have hequals : ∀ t : F8String, run root sur noextensions ⟨.tag, t, [], 0, attrs⟩ [61] =
      .ok ⟨.oq, t, [], 0, attrs⟩ := fun t => rfl
  have hlegal := hname.legal
  rcases hname.spelled with ⟨hspace, c, rest, ⟨rfl, hslash⟩ | ⟨rfl, hstar⟩⟩ | ⟨c, rfl, hspace⟩
  · have hc := hspace c List.mem_cons_self
    have hfirst : next root sur noextensions ⟨.ews, [], [], 0, attrs⟩ c =
        .ok ⟨.tag, [c], [], 0, attrs⟩ := by
      simp only [next, hslash, hc, if_false, Bool.false_eq_true, List.nil_append]
    have hread : readName (c :: rest) = c :: rest :=
      readName_of_not_slashed fun h => by
        unfold Slashed at h
        split at h
        · next heq => exact hslash (List.cons.inj heq).1
        · exact h
    rw [List.cons_append, run_cons, hfirst, Except.bind, run_append,
      run_tag (fun x hx => hspace x (List.mem_cons_of_mem _ hx))
        fun x hx => hlegal x (List.mem_cons_of_mem _ hx), hread]
    exact hequals _
  · have hc := hspace c (List.mem_cons_of_mem _ List.mem_cons_self)
    have hbad := hlegal c (List.mem_cons_of_mem _ List.mem_cons_self)
    have hne : c ≠ 61 ∧ ¬(c = 34 ∨ c = 39) := by
      constructor
      · rintro rfl
        exact hbad (by decide)
      · rintro (rfl | rfl) <;> exact hbad (by decide)
    have hcomment : ¬(c = 42 ∧ noextensions = false) := by
      rintro ⟨heq, hext⟩
      exact absurd (hstar heq) (by rw [hext]; decide)
    have hfirst : next root sur noextensions ⟨.ews, [], [], 0, attrs⟩ 47 =
        .ok ⟨.oc0, [], [], 0, attrs⟩ := rfl
    have hsecond : next root sur noextensions ⟨.oc0, [], [], 0, attrs⟩ c =
        .ok ⟨.tag, [47, c, c], [], 0, attrs⟩ := by
      simp only [next, inTag, hcomment, hc, hne, if_false, Bool.false_eq_true, List.nil_append,
        List.cons_append]
    have hread : readName (47 :: c :: c :: rest) = [47, c, c] ++ (c :: rest) := by
      simp [readName, hc]
    rw [List.cons_append, List.cons_append, run_cons, hfirst, Except.bind, run_cons, hsecond,
      Except.bind, run_append, run_tag
        (fun x hx => hspace x (List.mem_cons_of_mem _ (List.mem_cons_of_mem _ hx)))
        fun x hx => hlegal x (List.mem_cons_of_mem _ (List.mem_cons_of_mem _ hx)), hread]
    exact hequals _
  · have hcomment : ¬(c = 42 ∧ noextensions = false) := by
      rintro ⟨rfl, -⟩
      exact absurd hspace (by decide)
    have hfirst : next root sur noextensions ⟨.ews, [], [], 0, attrs⟩ 47 =
        .ok ⟨.oc0, [], [], 0, attrs⟩ := rfl
    have hsecond : next root sur noextensions ⟨.oc0, [], [], 0, attrs⟩ c =
        .ok ⟨.es, [47, c], [], 0, attrs⟩ := by
      simp only [next, inTag, hcomment, hspace, if_false, if_true, List.nil_append]
    have hread : readName [47, c] = [47, c] := by simp [readName, hspace]
    rw [List.cons_append, List.cons_append, run_cons, hfirst, Except.bind, run_cons, hsecond,
      hread]
    rfl

/-- What stands before the end of a value. -/
theorem run_value (hval : 39 ∉ val) :
    run root sur noextensions ⟨.value, t, w, 39, attrs⟩ val =
      .ok ⟨.value, t, w ++ val, 39, attrs⟩ := by
  induction val generalizing w with
  | nil => rw [List.append_nil]; rfl
  | cons c val ih =>
    obtain ⟨hc, hval⟩ := not_or.1 fun h => hval (List.mem_cons.2 h)
    have hnext : next root sur noextensions ⟨.value, t, w, 39, attrs⟩ c =
        .ok ⟨.value, t, w ++ [c], 39, attrs⟩ := by
      simp only [next, ne_eq, Ne.symm hc, not_false_eq_true, if_true]
    rw [run_cons, hnext, List.append_cons w c val]
    exact ih hval

end

end AttrReader

section
variable (root : XmlRoot) (sur : Surroundings) (noextensions : Bool)

/-- An attribute that is read: another one with its name is an error. -/
def addEntry (attrs : XmlAttrs) (e : F8String × F8String) : Except F8String XmlAttrs :=
  if attrs.get? (readName e.1) = none then
    .ok (attrs.insert (readName e.1) (XmlElement.inplaceXlate sur noextensions e.2))
  else .error (root.attrError (readName e.1) (ascii "already defined"))

end

/-- **An attribute** whose value has no `'`. -/
theorem AttrReader.run_attrText {name val : F8String} {attrs : XmlAttrs}
    (hname : AttrName noextensions name) (hval : 39 ∉ val) :
    run root sur noextensions ⟨.ews, [], [], 0, attrs⟩ (attrText name val) =
      (addEntry root sur noextensions attrs (name, val)).map fun attrs => ⟨.ews, [], [], 0, attrs⟩ := by
  have htext : attrText name val = 32 :: ((name ++ [61]) ++ (39 :: (val ++ [39]))) := by
    have hequals : ascii "='" = [61, 39] := rfl
    have hspace : ascii " " = [32] := rfl
    have hquote : ascii "'" = [39] := rfl
    simp [attrText, hequals, hspace, hquote]
  have hlegal : ¬∃ c ∈ readName name, c ∈ ascii "\\'\"=" := fun ⟨c, hc, hbad⟩ =>
    hname.legal c (mem_readName hc) hbad
  have hopen : next root sur noextensions ⟨.oq, readName name, [], 0, attrs⟩ 39 =
      .ok ⟨.value, readName name, [], 39, attrs⟩ := rfl
  have hend : run root sur noextensions ⟨.value, readName name, val, 39, attrs⟩ [39] =
      (addEntry root sur noextensions attrs (name, val)).map
        fun attrs => ⟨.ews, [], [], 0, attrs⟩ := by
    rw [run_cons, next]
    dsimp only
    rw [if_neg (by simp), AttrReader.endValue, if_neg hlegal,
      if_pos (readName_ne_docpath hname.ne_docpath), addEntry]
    split <;> rfl
  have hfirst : next root sur noextensions ⟨.ews, [], [], 0, attrs⟩ 32 =
      .ok ⟨.ews, [], [], 0, attrs⟩ := rfl
  rw [htext, run_cons, hfirst, Except.bind, run_append, run_name hname, Except.bind, run_cons, hopen,
    Except.bind, run_append, run_value hval, Except.bind, List.nil_append, hend]

/-- **Attributes** whose values have no `'`. -/
theorem AttrReader.run_entries {es : List (F8String × F8String)} {attrs : XmlAttrs}
    (hes : ∀ e ∈ es, AttrName noextensions e.1 ∧ 39 ∉ e.2) :
    run root sur noextensions ⟨.ews, [], [], 0, attrs⟩ (es.flatMap fun e => attrText e.1 e.2) =
      (es.foldlM (addEntry root sur noextensions) attrs).map fun attrs => ⟨.ews, [], [], 0, attrs⟩ := by
  induction es generalizing attrs with
  | nil => rfl
  | cons e es ih =>
    obtain ⟨hname, hval⟩ := hes e List.mem_cons_self
    rw [List.flatMap_cons, run_append, run_attrText hname hval, List.foldlM_cons]
    cases hadd : addEntry root sur noextensions attrs e with
    | error err => rfl
    | ok attrs' => exact ih fun e' he' => hes e' (List.mem_cons_of_mem _ he')

theorem addEntry_ok {attrs attrs' : XmlAttrs} {e : F8String × F8String}
    (h : addEntry root sur noextensions attrs e = .ok attrs') :
    attrs.get? (readName e.1) = none ∧
      attrs' = attrs.insert (readName e.1) (XmlElement.inplaceXlate sur noextensions e.2) := by
  unfold addEntry at h
  split at h
  · next hnone =>
    cases h
    exact ⟨hnone, rfl⟩
  · cases h

/-- What has been read of attributes, in some order. -/
theorem addEntries_perm {es : List (F8String × F8String)} {attrs attrs' : XmlAttrs}
    (h : es.foldlM (addEntry root sur noextensions) attrs = .ok attrs') :
    attrs'.entries.Perm (attrs.entries ++
      es.map fun e => (readName e.1, XmlElement.inplaceXlate sur noextensions e.2)) := by
  induction es generalizing attrs with
  | nil =>
    cases h
    rw [List.map_nil, List.append_nil]
  | cons e es ih =>
    rw [List.foldlM_cons] at h
    cases hadd : addEntry root sur noextensions attrs e with
    | error err =>
      rw [hadd] at h
      cases h
    | ok next =>
      rw [hadd] at h
      obtain ⟨hnone, rfl⟩ := addEntry_ok hadd
      refine (ih h).trans ?_
      rw [List.map_cons]
      exact ((insertKey_perm hnone).append_right _).trans List.perm_middle.symm

/-- Attributes with different names that are not there can be added. -/
theorem addEntries_ok {es : List (F8String × F8String)} {attrs : XmlAttrs}
    (hnew : ∀ e ∈ es, attrs.get? (readName e.1) = none)
    (hnodup : (es.map fun e => readName e.1).Nodup) :
    ∃ attrs', es.foldlM (addEntry root sur noextensions) attrs = .ok attrs' := by
  induction es generalizing attrs with
  | nil => exact ⟨attrs, rfl⟩
  | cons e es ih =>
    rw [List.map_cons, List.nodup_cons] at hnodup
    rw [List.foldlM_cons, addEntry, if_pos (hnew e List.mem_cons_self)]
    refine ih (fun e' he' => ?_) hnodup.2
    rw [OrdMap.get?_insert_of_ne, hnew e' (List.mem_cons_of_mem _ he')]
    exact fun heq => hnodup.1 (heq ▸ List.mem_map_of_mem he')

theorem AttrReader.get?_next {p p' : AttrReader} {c : UInt8} {k v : F8String}
    (hget : p.attrs.get? k = some v) (hnext : p.next root sur noextensions c = .ok p') :
    p'.attrs.get? k = some v := by
  have hinTag : ∀ q : AttrReader, q.attrs.get? k = some v → q.inTag root c = .ok p' →
      p'.attrs.get? k = some v := by
    intro q hq h
    rcases inTag_ok h with ⟨-, rfl⟩ | ⟨-, rfl⟩ | ⟨-, rfl⟩ <;> exact hq
  unfold AttrReader.next at hnext
  split at hnext
  · cases hnext
    split <;> exact hget
  · cases hnext
    exact hget
  · split at hnext
    · cases hnext
      exact hget
    · split at hnext <;> cases hnext <;> exact hget
  · split at hnext
    · cases hnext
      exact hget
    · exact hinTag { p with state := .tag, tmptag := p.tmptag ++ [47, c] } hget hnext
  · exact hinTag _ hget hnext
  · split at hnext
    · cases hnext
      exact hget
    · split at hnext <;> cases hnext
      exact hget
  · split at hnext
    · cases hnext
      exact hget
    · split at hnext <;> cases hnext
      exact hget
  · split at hnext
    · cases hnext
      exact hget
    · unfold AttrReader.endValue at hnext
      split at hnext
      · cases hnext
      · split at hnext
        · split at hnext <;> cases hnext
          next hnone =>
          show (p.attrs.insert _ _).get? k = some v
          rw [OrdMap.get?_insert_of_ne, hget]
          rintro rfl
          rw [hnone] at hget
          cases hget
        · cases hnext
          exact hget

/-- **What has been read stays.** -/
theorem AttrReader.get?_run {p p' : AttrReader} {text k v : F8String}
    (hget : p.attrs.get? k = some v) (hrun : p.run root sur noextensions text = .ok p') :
    p'.attrs.get? k = some v := by
  induction text generalizing p with
  | nil =>
    cases hrun
    exact hget
  | cons c text ih =>
    rw [run_cons] at hrun
    cases hnext : p.next root sur noextensions c with
    | error err =>
      rw [hnext] at hrun
      cases hrun
    | ok q =>
      rw [hnext] at hrun
      exact ih (p := q) (get?_next hget hnext) hrun

end

/-! ## There and back -/

section
variable (noextensions : Bool) (attrs : XmlAttrs) (line : Nat) (required : Bool)

/-- What is written of an element: its attributes, with the value that `required` gets on purpose,
and the line. -/
def writtenEntries : List (F8String × F8String) :=
  (attrs.mapVal (writtenValue required)).entries ++
    if line ≠ 0 then [(ascii "line", itoa line)] else []

def writtenAttrs : XmlAttrs :=
  if line ≠ 0 then (attrs.mapVal (writtenValue required)).insert (ascii "line") (itoa line)
  else attrs.mapVal (writtenValue required)

/-- The attributes come back, wherever and in whatever surroundings they are read. -/
def Reread : Prop :=
  ∀ root sur stale, XmlElement.parseAttrs root sur noextensions stale
    (XmlAttrs.outputAttributes attrs line required) = .ok (writtenAttrs attrs line required)

/-- A value that the reader leaves as it is. -/
structure Kept (val : F8String) : Prop where
  quote : 39 ∉ val
  named : ¬Pattern.Occurs rCX (cstr val)
  numeric : ¬Pattern.Occurs rCE (cstr val)
  extensions : noextensions = false →
    ¬Pattern.Occurs rEn (cstr val) ∧ ¬Pattern.Occurs rEv (cstr val)

/-- Attributes that are read as they are written. -/
structure Plain : Prop where
  line : line ≠ 0 → attrs.get? (ascii "line") = none
  names : ∀ e ∈ attrs.entries, ¬Slashed e.1
  values : ∀ e ∈ attrs.entries, Kept noextensions (writtenValue required e.1 e.2)

end

section
variable {root : XmlRoot} {sur : Surroundings} {noextensions : Bool} {attrs : XmlAttrs} {line : Nat}
  {required : Bool}

theorem outputAttributes_eq : XmlAttrs.outputAttributes attrs line required =
    (writtenEntries attrs line required).flatMap fun e => attrText e.1 e.2 := by
  have hmap : (attrs.mapVal (writtenValue required)).entries =
      attrs.entries.map fun e => (e.1, writtenValue required e.1 e.2) := rfl
  rw [XmlAttrs.outputAttributes, writtenEntries, hmap, List.flatMap_append, List.flatMap_map]
  split <;> simp

theorem mem_writtenEntries {e : F8String × F8String} : e ∈ writtenEntries attrs line required ↔
    (∃ e' ∈ attrs.entries, e = (e'.1, writtenValue required e'.1 e'.2)) ∨
      line ≠ 0 ∧ e = (ascii "line", itoa line) := by
  have hmap : (attrs.mapVal (writtenValue required)).entries =
      attrs.entries.map fun e => (e.1, writtenValue required e.1 e.2) := rfl
  rw [writtenEntries, hmap, List.mem_append, List.mem_map]
  constructor
  · rintro (⟨e', he', rfl⟩ | hline)
    · exact .inl ⟨e', he', rfl⟩
    · split at hline
      · next hne => exact .inr ⟨hne, List.mem_singleton.1 hline⟩
      · cases hline
  · rintro (⟨e', he', rfl⟩ | ⟨hne, rfl⟩)
    · exact .inl ⟨e', he', rfl⟩
    · rw [if_pos hne]
      exact .inr List.mem_cons_self

/-- The last round of the loop changes nothing behind an attribute. -/
theorem parseAttrs_entries {stale : UInt8} {es : List (F8String × F8String)}
    (hes : ∀ e ∈ es, AttrName noextensions e.1 ∧ 39 ∉ e.2) :
    XmlElement.parseAttrs root sur noextensions stale (es.flatMap fun e => attrText e.1 e.2) =
      es.foldlM (addEntry root sur noextensions) OrdMap.empty := by
  have hstart : AttrReader.start = ⟨.ews, [], [], 0, OrdMap.empty⟩ := rfl
  rw [XmlElement.parseAttrs, AttrReader.run_append, hstart, AttrReader.run_entries hes]
  cases es.foldlM (addEntry root sur noextensions) OrdMap.empty with
  | error err => rfl
  | ok attrs =>
    show Except.map _ (AttrReader.run root sur noextensions ⟨.ews, [], [], 0, attrs⟩ [stale]) = _
    rw [AttrReader.run_cons, AttrReader.next]
    dsimp only
    split
    · rfl
    · split <;> rfl

theorem itoa_kept (n : Nat) : Kept noextensions (itoa n) := by
  have hdigit : ∀ c, isdigit c = false → c ∉ cstr (itoa n) := by
    intro c hc hmem
    have hyes := isdigit_itoa c (List.IsPrefix.subset (cstr_begins _) hmem)
    rw [hc] at hyes
    cases hyes
  have hnone : ∀ alts c, isdigit c = false → (∀ ps ∈ alts, ∃ rest, ps = .char c :: rest) →
      ¬Pattern.Occurs alts (cstr (itoa n)) := by
    rintro alts c hc halts ⟨ps, hps, pre, parts, post, hmatch, heq⟩
    obtain ⟨rest, rfl⟩ := halts ps hps
    obtain ⟨parts, rfl, -⟩ := Pattern.matches_char.1 hmatch
    exact hdigit c hc (heq ▸ by simp)
  refine ⟨fun hmem => absurd (isdigit_itoa 39 hmem) (by decide), hnone rCX 38 (by decide) ?_,
    hnone rCE 38 (by decide) ?_, fun _ => ⟨hnone rEn 36 (by decide) ?_, hnone rEv 33 (by decide) ?_⟩⟩
    <;> simp [rCX, rCE, rEn, rEv]

theorem line_name : AttrName noextensions (ascii "line") :=
  ⟨.inl ⟨by decide +kernel, 108, ascii "ine", .inl ⟨rfl, by decide⟩⟩, by decide +kernel, by decide⟩

theorem line_not_slashed : ¬Slashed (ascii "line") := id

theorem writtenAttrs_perm (hline : line ≠ 0 → attrs.get? (ascii "line") = none) :
    (writtenAttrs attrs line required).entries.Perm (writtenEntries attrs line required) := by
  rw [writtenAttrs, writtenEntries]
  split
  · next hne =>
    have hnone : (attrs.mapVal (writtenValue required)).get? (ascii "line") = none := by
      rw [OrdMap.get?_mapVal, hline hne, Option.map_none]
    exact (insertKey_perm hnone).trans (List.perm_append_singleton _ _).symm
  · rw [List.append_nil]

theorem writtenEntries_nodup (hline : line ≠ 0 → attrs.get? (ascii "line") = none) :
    ((writtenEntries attrs line required).map Prod.fst).Nodup := by
  refine ((writtenAttrs_perm hline).map Prod.fst).nodup_iff.1 ?_
  exact (OrdMap.keys_sorted (m := writtenAttrs attrs line required)).imp ne_of_lt

theorem get?_writtenAttrs {e : F8String × F8String} (he : e ∈ attrs.entries) :
    (writtenAttrs attrs line required).get? e.1 = some (writtenValue required e.1 e.2) := by
  have hget : (attrs.mapVal (writtenValue required)).get? e.1 =
      some (writtenValue required e.1 e.2) := by
    rw [OrdMap.get?_mapVal, OrdMap.get?_eq_some.2 he, Option.map_some]
  rw [writtenAttrs]
  split
  · rw [OrdMap.get?_insert]
    split
    · next heq => rw [← heq, hget, Option.getD_some]
    · exact hget
  · exact hget

theorem written_names (hnames : ∀ e ∈ attrs.entries, AttrName noextensions e.1) :
    ∀ e ∈ writtenEntries attrs line required, AttrName noextensions e.1 := by
  intro e he
  rcases mem_writtenEntries.1 he with ⟨e', he', rfl⟩ | ⟨-, rfl⟩
  · exact hnames e' he'
  · exact line_name

/-- **Plain attributes** come back. -/
theorem Plain.reread (hnames : ∀ e ∈ attrs.entries, AttrName noextensions e.1)
    (h : Plain noextensions attrs line required) : Reread noextensions attrs line required := by
  intro root sur stale
  have hkept : ∀ e ∈ writtenEntries attrs line required, ¬Slashed e.1 ∧ Kept noextensions e.2 := by
    intro e he
    rcases mem_writtenEntries.1 he with ⟨e', he', rfl⟩ | ⟨-, rfl⟩
    · exact ⟨h.names e' he', h.values e' he'⟩
    · exact ⟨line_not_slashed, itoa_kept _⟩
  have hname : ∀ e ∈ writtenEntries attrs line required, readName e.1 = e.1 := fun e he =>
    readName_of_not_slashed (hkept e he).1
  have hread : (writtenEntries attrs line required).map
      (fun e => (readName e.1, XmlElement.inplaceXlate sur noextensions e.2)) =
      writtenEntries attrs line required := by
    refine (List.map_congr_left fun e he => ?_).trans (List.map_id _)
    have hval := (hkept e he).2
    rw [hname e he, inplaceXlate_eq_self_iff.2 ⟨hval.named, hval.numeric, hval.extensions⟩ sur]
    rfl
  have hnodup : ((writtenEntries attrs line required).map fun e => readName e.1).Nodup := by
    rw [List.map_congr_left hname]
    exact writtenEntries_nodup h.line
  obtain ⟨attrs', hattrs'⟩ : ∃ attrs', (writtenEntries attrs line required).foldlM
      (addEntry root sur noextensions) OrdMap.empty = .ok attrs' :=
    addEntries_ok (fun _ _ => rfl) hnodup
  have hperm := addEntries_perm hattrs'
  rw [hread] at hperm
  rw [outputAttributes_eq, parseAttrs_entries fun e he =>
    ⟨written_names hnames e he, (hkept e he).2.quote⟩, hattrs']
  exact congrArg Except.ok (OrdMap.eq_of_perm (hperm.trans (writtenAttrs_perm h.line).symm))

/-- What stands before the first `'` of a list of written attributes. -/
theorem split_quote {es : List (F8String × F8String)} (h : ∃ e ∈ es, 39 ∈ e.2) :
    ∃ es₁ name val rest es₂, es = es₁ ++ (name, val ++ 39 :: rest) :: es₂ ∧
      (∀ e ∈ es₁, 39 ∉ e.2) ∧ 39 ∉ val := by
  induction es with
  | nil =>
    obtain ⟨e, he, -⟩ := h
    cases he
  | cons e es ih =>
    obtain ⟨name, v⟩ := e
    by_cases hmem : 39 ∈ v
    · obtain ⟨val, rest, rfl, hval⟩ := List.eq_append_cons_of_mem hmem
      exact ⟨[], name, val, rest, es, rfl, by simp, hval⟩
    · obtain ⟨e, he, hquote⟩ := h
      have htail : e ∈ es := by
        rcases List.mem_cons.1 he with rfl | he
        · exact absurd hquote hmem
        · exact he
      obtain ⟨es₁, name', val, rest, es₂, rfl, hes₁, hval⟩ := ih ⟨e, htail, hquote⟩
      refine ⟨(name, v) :: es₁, name', val, rest, es₂, rfl, ?_, hval⟩
      intro e he
      rcases List.mem_cons.1 he with rfl | he
      · exact hmem
      · exact hes₁ e he

/-- What has been read of an attribute, whatever follows. -/
theorem AttrReader.get?_entry {es : List (F8String × F8String)} {e : F8String × F8String}
    {tail : F8String} {p : AttrReader} (hes : ∀ e ∈ es, AttrName noextensions e.1 ∧ 39 ∉ e.2)
    (he : e ∈ es)
    (hrun : run root sur noextensions start ((es.flatMap fun e => attrText e.1 e.2) ++ tail) =
      .ok p) : p.attrs.get? (readName e.1) = some (XmlElement.inplaceXlate sur noextensions e.2) := by
  have hstart : start = ⟨.ews, [], [], 0, OrdMap.empty⟩ := rfl
  rw [run_append, hstart, run_entries hes] at hrun
  cases hadd : es.foldlM (addEntry root sur noextensions) OrdMap.empty with
  | error err =>
    rw [hadd] at hrun
    cases hrun
  | ok attrs =>
    rw [hadd] at hrun
    refine get?_run (p := ⟨.ews, [], [], 0, attrs⟩) ?_ hrun
    refine OrdMap.get?_eq_some.2 ((addEntries_perm hadd).mem_iff.2 ?_)
    exact List.mem_append_right _ (List.mem_map_of_mem he)

/-- A value with a `'` does not come back under a name that does. -/
theorem Reread.quotes (hnames : ∀ e ∈ attrs.entries, AttrName noextensions e.1)
    (h : Reread noextensions attrs line required)
    (hslashed : ∀ e ∈ attrs.entries, Slashed e.1 → 39 ∉ writtenValue required e.1 e.2) :
    ∀ e ∈ writtenEntries attrs line required, 39 ∉ e.2 := by
  by_contra hquotes
  push Not at hquotes
  obtain ⟨es₁, name, val, rest, es₂, hes, hes₁, hval⟩ := split_quote hquotes
  have hwritten : ∀ e ∈ writtenEntries attrs line required, AttrName noextensions e.1 :=
    written_names hnames
  have hmem : (name, val ++ 39 :: rest) ∈ writtenEntries attrs line required := by
    rw [hes]
    exact List.mem_append_right _ List.mem_cons_self
  -- it is one of the attributes, and its name is read as it is
  obtain ⟨e, he, heq⟩ : ∃ e ∈ attrs.entries,
      (name, val ++ 39 :: rest) = (e.1, writtenValue required e.1 e.2) := by
    rcases mem_writtenEntries.1 hmem with hattr | ⟨-, heq⟩
    · exact hattr
    · have hdigits := isdigit_itoa (n := line) 39 ((Prod.mk.inj heq).2 ▸ by simp)
      exact absurd hdigits (by decide)
  obtain ⟨rfl, hvalue⟩ := Prod.mk.inj heq
  have hname : readName e.1 = e.1 := readName_of_not_slashed fun hs =>
    hslashed e he hs (hvalue ▸ by simp)
  -- the value ends at the first `'`
  have htext : XmlAttrs.outputAttributes attrs line required ++ [0] =
      ((es₁ ++ [(e.1, val)]).flatMap fun e => attrText e.1 e.2) ++ (rest ++ (ascii "'" ++
        ((es₂.flatMap fun e => attrText e.1 e.2) ++ [0]))) := by
    have hquote : ascii "'" = [39] := rfl
    rw [outputAttributes_eq, hes, List.flatMap_append, List.flatMap_append, List.flatMap_cons]
    simp [attrText, hquote]
  have hread : ∀ e' ∈ es₁ ++ [(e.1, val)], AttrName noextensions e'.1 ∧ 39 ∉ e'.2 := by
    intro e' he'
    rcases List.mem_append.1 he' with hbefore | hthis
    · exact ⟨hwritten e' (hes ▸ List.mem_append_left _ hbefore), hes₁ e' hbefore⟩
    · obtain rfl := List.mem_singleton.1 hthis
      exact ⟨hnames e he, hval⟩
  have hback := h ⟨0, [], 0⟩ bare 0
  rw [XmlElement.parseAttrs, htext] at hback
  cases hrun : AttrReader.run ⟨0, [], 0⟩ bare noextensions AttrReader.start
      (((es₁ ++ [(e.1, val)]).flatMap fun e => attrText e.1 e.2) ++ (rest ++ (ascii "'" ++
        ((es₂.flatMap fun e => attrText e.1 e.2) ++ [0])))) with
  | error err =>
    rw [hrun] at hback
    cases hback
  | ok p =>
    rw [hrun] at hback
    have hattrs : p.attrs = writtenAttrs attrs line required := Except.ok.inj hback
    have hget := AttrReader.get?_entry hread (List.mem_append_right _ List.mem_cons_self) hrun
    rw [hattrs] at hget
    dsimp only at hget
    rw [hname, get?_writtenAttrs he, inplaceXlate_bare] at hget
    -- and what is made of it is shorter than the value was
    have hlen := congrArg List.length (Option.some.inj hget)
    have hshort : (XmlElement.xlateRefs val).length ≤ val.length := by
      rcases XmlElement.xlateRefs_or val with ⟨-, -, hsame⟩ | hlt
      · rw [hsame]
      · exact hlt.le
    rw [← hvalue, List.length_append, List.length_cons] at hlen
    omega

/-- **What comes back** is plain, where no value with a `'` stands under a name that does not. -/
theorem Reread.plain (hnames : ∀ e ∈ attrs.entries, AttrName noextensions e.1)
    (h : Reread noextensions attrs line required)
    (hslashed : ∀ e ∈ attrs.entries, Slashed e.1 → 39 ∉ writtenValue required e.1 e.2) :
    Plain noextensions attrs line required := by
  have hquotes := h.quotes hnames hslashed
  have hperm : ∀ sur, (writtenAttrs attrs line required).entries.Perm
      ((writtenEntries attrs line required).map fun e =>
        (readName e.1, XmlElement.inplaceXlate sur noextensions e.2)) := by
    intro sur
    have hback := h ⟨0, [], 0⟩ sur 0
    rw [outputAttributes_eq, parseAttrs_entries fun e he =>
      ⟨written_names hnames e he, hquotes e he⟩] at hback
    exact addEntries_perm hback
  -- two attributes with one name would not have been read
  have hline : line ≠ 0 → attrs.get? (ascii "line") = none := by
    intro hne
    rw [← Option.not_isSome_iff_eq_none, OrdMap.get?_isSome]
    rintro ⟨e, he, hkey⟩
    have hkeys : ((writtenEntries attrs line required).map fun e => readName e.1).Nodup := by
      have hsorted := (OrdMap.keys_sorted (m := writtenAttrs attrs line required)).imp ne_of_lt
      have hnodup := ((hperm bare).map Prod.fst).nodup_iff.1 hsorted
      rwa [List.map_map] at hnodup
    rw [writtenEntries, if_pos hne, List.map_append, List.nodup_append] at hkeys
    refine hkeys.2.2 _ (List.mem_map_of_mem (List.mem_map_of_mem he)) _ List.mem_cons_self ?_
    exact congrArg readName hkey
  -- the names are as long as they were
  have hplain : ∀ e ∈ writtenEntries attrs line required, ¬Slashed e.1 := by
    intro e he hs
    have hsame := ((writtenAttrs_perm hline).symm.trans (hperm bare)).map fun e => e.1.length
    have hsum := hsame.sum_eq
    rw [List.map_map] at hsum
    have hlt : ((writtenEntries attrs line required).map fun e => e.1.length).sum <
        ((writtenEntries attrs line required).map fun e => (readName e.1).length).sum := by
      refine List.sum_lt_sum _ _ (fun e' _ => ?_) ⟨e, he, ?_⟩
      · by_cases hs' : Slashed e'.1
        · rw [readName_length_of_slashed hs']
          exact Nat.le_succ _
        · rw [readName_of_not_slashed hs']
      · rw [readName_length_of_slashed hs]
        exact Nat.lt_succ_self _
    exact absurd hsum (Nat.ne_of_lt hlt)
  have hmem : ∀ e ∈ attrs.entries, (e.1, writtenValue required e.1 e.2) ∈
      writtenEntries attrs line required := fun e he =>
    mem_writtenEntries.2 (.inl ⟨e, he, rfl⟩)
  have hname : ∀ e ∈ attrs.entries, ¬Slashed e.1 := fun e he =>
    hplain (e.1, writtenValue required e.1 e.2) (hmem e he)
  refine ⟨hline, hname, fun e he => ?_⟩
  have hstays : ∀ sur, XmlElement.inplaceXlate sur noextensions (writtenValue required e.1 e.2) =
      writtenValue required e.1 e.2 := by
    intro sur
    have hentry := (hperm sur).mem_iff.2 (List.mem_map_of_mem (hmem e he))
    dsimp only at hentry
    rw [readName_of_not_slashed (hname e he), ← OrdMap.get?_eq_some,
      get?_writtenAttrs he] at hentry
    exact (Option.some.inj hentry).symm
  obtain ⟨hnamed, hnumeric, hext⟩ := inplaceXlate_eq_self_iff.1 hstays
  exact ⟨hquotes _ (hmem e he), hnamed, hnumeric, hext⟩

/-- **Attributes that have been read** come back from what is written of them, and no value with a
`'` stands under a name that does not, exactly when they are plain. -/
theorem attributes_reread_iff {stale : UInt8} {attlst : F8String}
    (h : XmlElement.parseAttrs root sur noextensions stale attlst = .ok attrs) (line : Nat)
    (required : Bool) :
    (Reread noextensions attrs line required ∧
      ∀ e ∈ attrs.entries, Slashed e.1 → 39 ∉ writtenValue required e.1 e.2) ↔
      Plain noextensions attrs line required := by
  have hnames := parseAttrs_names h
  constructor
  · rintro ⟨hreread, hslashed⟩
    exact hreread.plain hnames hslashed
  · intro hplain
    exact ⟨hplain.reread hnames, fun e he hs => absurd hs (hplain.names e he)⟩

end

theorem attributes_reread_field : Reread false
    ((OrdMap.empty.insert (ascii "name") (ascii "A&B")).insert (ascii "required") (ascii "Y")) 7
      false := by
  have hparse : XmlElement.parseAttrs ⟨7, [], 0⟩ bare false 39
      (ascii "name='A&amp;B' required='Y'") = .ok
        ((OrdMap.empty.insert (ascii "name") (ascii "A&B")).insert (ascii "required")
          (ascii "Y")) := by decide +kernel
  refine ((attributes_reread_iff hparse 7 false).2 ⟨fun _ => by decide +kernel, ?_, ?_⟩).1
  · intro e he
    have he : e = (ascii "name", ascii "A&B") ∨ e = (ascii "required", ascii "Y") := by
      simpa using (show e ∈ [(ascii "name", ascii "A&B"), (ascii "required", ascii "Y")] from he)
    rcases he with rfl | rfl <;> exact id
  · intro e he
    have hkept : ∀ val ∈ [ascii "A&B", ascii "N"], Kept false val := by
      intro val hval
      refine ⟨?_, not_occurs rCX_separated ?_, not_occurs rCE_separated ?_, fun _ =>
        ⟨not_occurs rEn_separated ?_, not_occurs rEv_separated ?_⟩⟩ <;> revert val <;>
        decide +kernel
    have hvalue : ∀ e ∈ [(ascii "name", ascii "A&B"), (ascii "required", ascii "Y")],
        writtenValue false e.1 e.2 ∈ [ascii "A&B", ascii "N"] := by decide +kernel
    exact hkept _ (hvalue e he)

/-- A value with a `'`, which has been read between double quotes. -/
theorem attributes_quote : ¬∀ root sur noextensions stale attlst attrs,
    XmlElement.parseAttrs root sur noextensions stale attlst = .ok attrs → ∀ line required,
      Reread noextensions attrs line required := by
  intro h
  have hparse : XmlElement.parseAttrs ⟨7, [], 0⟩ bare false 39 (ascii "name=\"Trader's id\"") =
      .ok (OrdMap.empty.insert (ascii "name") (ascii "Trader's id")) := by decide +kernel
  exact absurd (h _ _ _ _ _ _ hparse 0 true ⟨1, [], 0⟩ bare 39) (by decide +kernel)

end Fix8.Compiler
