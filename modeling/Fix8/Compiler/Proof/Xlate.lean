import Fix8.Compiler.Xlate
import Fix8.Codec.Proof.CStr
import Mathlib.Tactic.Common

/-!
# References through their text

Every replacement makes the text shorter. In an escaped text the leftmost named reference is one
that has come out of the replacements before it, or else the first that has been escaped: a
reference has no `&` in it. So an escaped text comes back where neither the text itself nor what a
pass leaves of it has a reference in it.

* `xlateRefs_or`: both loops leave a text alone, or make it shorter;
* `xlateNamed_escape`: the first loop on an escaped text;
* **`xlate_escape_iff`**.
-/

namespace Fix8.Compiler

open Lib Codec

/-! ## Matches -/

theorem rCX_separated : ∀ ps ∈ rCX, Pattern.Separated ps := by
  intro ps hps
  obtain rfl := List.mem_singleton.1 hps
  refine ⟨.inr ⟨rfl, fun c hc => ?_⟩, .inr (Pattern.ends_before rfl), trivial⟩
  simp only [Bool.and_eq_true, decide_eq_true_eq, UInt8.le_iff_toNat_le, UInt8.toNat_ofNat] at hc
  simp only [Pattern.starts, Bool.or_eq_false_iff, Bool.and_eq_false_iff, decide_eq_false_iff_not,
    UInt8.le_iff_toNat_le, ← UInt8.toNat_inj, UInt8.toNat_ofNat]
  omega

theorem rCE_separated : ∀ ps ∈ rCE, Pattern.Separated ps := by
  intro ps hps
  obtain rfl | hps := List.mem_cons.1 hps
  · exact ⟨.inr (Pattern.ends_before rfl), trivial⟩
  · obtain rfl := List.mem_singleton.1 hps
    exact ⟨.inr (Pattern.ends_before rfl), trivial⟩

theorem rEn_separated : ∀ ps ∈ rEn, Pattern.Separated ps := by
  intro ps hps
  obtain rfl := List.mem_singleton.1 hps
  exact ⟨.inr (Pattern.ends_before rfl), trivial⟩

theorem rEv_separated : ∀ ps ∈ rEv, Pattern.Separated ps := by
  intro ps hps
  obtain rfl := List.mem_singleton.1 hps
  exact ⟨.inr (Pattern.ends_before rfl), trivial⟩

/-- A named reference: `&`, letters, digits and `;`. -/
theorem matches_rCX {ps : Pattern UInt8} {parts : List F8String} (hps : ps ∈ rCX)
    (h : Pattern.Matches ps parts) : ∃ name digits : F8String,
      parts = [[38], name, digits, [59]] ∧ 2 ≤ name.length ∧ ∀ c ∈ name ++ digits, c ≠ 38 ∧ c ≠ 0 := by
  obtain rfl := List.mem_singleton.1 hps
  obtain ⟨_, rfl, hname⟩ := Pattern.matches_char.1 h
  obtain ⟨name, _, rfl, hletters, hlen, hdigits⟩ := Pattern.matches_run.1 hname
  obtain ⟨digits, _, rfl, hnumbers, -, hend⟩ := Pattern.matches_run.1 hdigits
  obtain ⟨_, rfl, hnil⟩ := Pattern.matches_char.1 hend
  obtain rfl := Pattern.matches_nil.1 hnil
  refine ⟨name, digits, rfl, hlen, fun c hc => ?_⟩
  rcases List.mem_append.1 hc with hmem | hmem
  · have hletter := hletters c hmem
    constructor
    · rintro rfl
      exact absurd hletter (by decide)
    · rintro rfl
      exact absurd hletter (by decide)
  · have hnumber := hnumbers c hmem
    constructor
    · rintro rfl
      exact absurd hnumber (by decide)
    · rintro rfl
      exact absurd hnumber (by decide)

theorem rCX_length {ps : Pattern UInt8} {parts : List F8String} (hps : ps ∈ rCX)
    (h : Pattern.Matches ps parts) : (named parts).length < parts.flatten.length := by
  obtain ⟨name, digits, rfl, hlen, -⟩ := matches_rCX hps h
  show 1 < _
  simp only [List.flatten_cons, List.flatten_nil, List.length_append, List.length_cons,
    List.length_nil]
  omega

theorem codeBytes_length (value : Nat) : (codeBytes value).length ≤ 2 := by
  rw [codeBytes, List.length_append]
  split <;> simp

theorem rCE_length {ps : Pattern UInt8} {parts : List F8String} (hps : ps ∈ rCE)
    (h : Pattern.Matches ps parts) : (numeric parts).length < parts.flatten.length := by
  obtain rfl | hps := List.mem_cons.1 hps
  · obtain ⟨_, rfl, hhash⟩ := Pattern.matches_char.1 h
    obtain ⟨_, rfl, hx⟩ := Pattern.matches_char.1 hhash
    obtain ⟨_, rfl, hrun⟩ := Pattern.matches_char.1 hx
    obtain ⟨digits, _, rfl, -, -, hend⟩ := Pattern.matches_run.1 hrun
    obtain ⟨_, rfl, hnil⟩ := Pattern.matches_char.1 hend
    obtain rfl := Pattern.matches_nil.1 hnil
    have hcode := codeBytes_length (readInt 16 digits)
    simp only [numeric, List.flatten_cons, List.flatten_nil, List.length_append, List.length_cons,
      List.length_nil]
    omega
  · obtain rfl := List.mem_singleton.1 hps
    obtain ⟨_, rfl, hhash⟩ := Pattern.matches_char.1 h
    obtain ⟨_, rfl, hrun⟩ := Pattern.matches_char.1 hhash
    obtain ⟨digits, _, rfl, -, hlen, hend⟩ := Pattern.matches_run.1 hrun
    obtain ⟨_, rfl, hnil⟩ := Pattern.matches_char.1 hend
    obtain rfl := Pattern.matches_nil.1 hnil
    have hcode := codeBytes_length (readInt 10 digits)
    simp only [numeric, List.flatten_cons, List.flatten_nil, List.length_append, List.length_cons,
      List.length_nil, List.getD_cons_succ, List.getD_cons_zero]
    omega

/-! ## Replacing -/

section
variable {alts : List (Pattern UInt8)} {f : List F8String → F8String} {x y v : F8String}

/-- A replacement, by the parts of the text. -/
theorem replaceMatch_some (h : replaceMatch alts f x = some y) :
    ∃ before parts after, x = before ++ (parts.flatten ++ after) ∧ y = before ++ f parts ++ after ∧
      ∃ ps ∈ alts, Pattern.Matches ps parts := by
  obtain ⟨found, hfound, rfl⟩ := Option.map_eq_some_iff.1 h
  obtain ⟨heq, hmatch, -⟩ := Pattern.search_sound hfound
  obtain ⟨rest, hrest⟩ := cstr_begins x
  rw [heq] at hrest
  have hx : x = found.before ++ found.parts.flatten ++ (found.after ++ rest) := by
    rw [← hrest]
    simp only [List.append_assoc]
  refine ⟨found.before, found.parts, found.after ++ rest, ?_, ?_, hmatch⟩
  · rw [hx, List.append_assoc]
  · rw [← List.length_append, hx, List.drop_left]

theorem replaceMatch_length (hf : ∀ ps ∈ alts, ∀ parts, Pattern.Matches ps parts →
    (f parts).length < parts.flatten.length) (x y : F8String) (h : replaceMatch alts f x = some y) :
    y.length < x.length := by
  obtain ⟨before, parts, after, rfl, rfl, ps, hps, hmatch⟩ := replaceMatch_some h
  have hlt := hf ps hps parts hmatch
  simp only [List.length_append]
  omega

theorem replaceMatch_append (hv : v = [] ∨ v.head? = some 0) (x : F8String) :
    replaceMatch alts f (x ++ v) = (replaceMatch alts f x).map (· ++ v) := by
  unfold replaceMatch
  rw [cstr_append hv]
  cases hfound : Pattern.search alts (cstr x) with
  | none => rfl
  | some found =>
    obtain ⟨heq, -⟩ := Pattern.search_sound hfound
    have hle := (cstr_begins x).length_le
    have hlen := congrArg List.length heq
    simp only [List.length_append] at hlen
    have hdrop : (x ++ v).drop (found.before.length + found.parts.flatten.length) =
        x.drop (found.before.length + found.parts.flatten.length) ++ v :=
      List.drop_append_of_le_length (by omega)
    simp only [Option.map_some, hdrop, List.append_assoc]

theorem replaceMatch_none (hsep : ∀ ps ∈ alts, Pattern.Separated ps) :
    replaceMatch alts f x = none ↔ ¬Pattern.Occurs alts (cstr x) := by
  rw [replaceMatch, Option.map_eq_none_iff, Pattern.search_eq_none_iff hsep]

section
variable (hf : ∀ ps ∈ alts, ∀ parts, Pattern.Matches ps parts →
  (f parts).length < parts.flatten.length)
include hf

/-- Replacing to the end does not look behind a NUL. -/
theorem exhaust_replaceMatch_append (hv : v = [] ∨ v.head? = some 0) :
    exhaust (replaceMatch alts f) (x ++ v).length (x ++ v) =
      exhaust (replaceMatch alts f) x.length x ++ v := by
  rw [exhaust_map (f := (· ++ v)) (replaceMatch_append hv), List.length_append,
    exhaust_add (replaceMatch_length hf) (Nat.le_refl _)]

/-- It leaves a text alone that has no match, and makes any other shorter. -/
theorem exhaust_replaceMatch_or (hsep : ∀ ps ∈ alts, Pattern.Separated ps) (x : F8String) :
    ¬Pattern.Occurs alts (cstr x) ∧ exhaust (replaceMatch alts f) x.length x = x ∨
      (exhaust (replaceMatch alts f) x.length x).length < x.length := by
  rw [← replaceMatch_none (f := f) hsep]
  exact exhaust_or (replaceMatch_length hf) (Nat.le_refl _)

end

end

namespace XmlElement

variable {x v : F8String}

theorem xlateNamed_append (hv : v = [] ∨ v.head? = some 0) :
    xlateNamed (x ++ v) = xlateNamed x ++ v :=
  exhaust_replaceMatch_append (fun _ hps _ => rCX_length hps) hv

theorem xlateNumeric_append (hv : v = [] ∨ v.head? = some 0) :
    xlateNumeric (x ++ v) = xlateNumeric x ++ v :=
  exhaust_replaceMatch_append (fun _ hps _ => rCE_length hps) hv

theorem xlateNamed_or (x : F8String) :
    ¬Pattern.Occurs rCX (cstr x) ∧ xlateNamed x = x ∨ (xlateNamed x).length < x.length :=
  exhaust_replaceMatch_or (fun _ hps _ => rCX_length hps) rCX_separated x

theorem xlateNumeric_or (x : F8String) :
    ¬Pattern.Occurs rCE (cstr x) ∧ xlateNumeric x = x ∨ (xlateNumeric x).length < x.length :=
  exhaust_replaceMatch_or (fun _ hps _ => rCE_length hps) rCE_separated x

/-- Both loops. -/
def xlateRefs (x : F8String) : F8String := xlateNumeric (xlateNamed x)

/-- **A text without references** is left alone, any other is made shorter. -/
theorem xlateRefs_or (x : F8String) :
    ¬Pattern.Occurs rCX (cstr x) ∧ ¬Pattern.Occurs rCE (cstr x) ∧ xlateRefs x = x ∨
      (xlateRefs x).length < x.length := by
  rcases xlateNumeric_or (xlateNamed x) with ⟨hnumeric, heq⟩ | hlt
  · rcases xlateNamed_or x with ⟨hnamed, hsame⟩ | hlt
    · rw [hsame] at hnumeric heq
      exact .inl ⟨hnamed, hnumeric, by rw [xlateRefs, hsame, heq]⟩
    · exact .inr (by rwa [xlateRefs, heq])
  · rcases xlateNamed_or x with ⟨-, hsame⟩ | hlt'
    · exact .inr (by rw [hsame] at hlt; rwa [xlateRefs, hsame])
    · exact .inr (hlt.trans hlt')

theorem xlateRefs_none (hnamed : ¬Pattern.Occurs rCX (cstr x))
    (hnumeric : ¬Pattern.Occurs rCE (cstr x)) : xlateRefs x = x := by
  rw [← replaceMatch_none (f := named) rCX_separated] at hnamed
  rw [← replaceMatch_none (f := numeric) rCE_separated] at hnumeric
  rw [xlateRefs, xlateNamed, exhaust_of_none hnamed, xlateNumeric, exhaust_of_none hnumeric]

end XmlElement

/-! ## Escaped texts -/

/-- The name of a character that is escaped. -/
def escapeName (c : UInt8) : Option F8String :=
  if c = 38 then some (ascii "amp") else if c = 60 then some (ascii "lt")
  else if c = 62 then some (ascii "gt") else if c = 39 then some (ascii "apos")
  else if c = 34 then some (ascii "quot") else none

def escapeChar (c : UInt8) : F8String :=
  match escapeName c with
  | some name => 38 :: (name ++ [59])
  | none => [c]

/-- `&`, `<`, `>`, `'` and `"` by their named references. -/
def escape (s : F8String) : F8String := s.flatMap escapeChar

/-- A character that is escaped. -/
def Special (c : UInt8) : Prop := escapeName c ≠ none

instance (c : UInt8) : Decidable (Special c) := inferInstanceAs (Decidable (_ ≠ none))

theorem escapeChar_of_not_special {c : UInt8} (h : ¬Special c) : escapeChar c = [c] := by
  rw [escapeChar, not_not.1 h]

theorem special_cases {c : UInt8} (h : Special c) :
    c = 38 ∨ c = 60 ∨ c = 62 ∨ c = 39 ∨ c = 34 := by
  unfold Special escapeName at h
  grind

/-- The reference of a character is found where it stands, and stands for it. -/
theorem firstAt_escapeChar {c : UInt8} (h : Special c) (rest : F8String) :
    ∃ parts, Pattern.firstAt rCX (escapeChar c ++ rest) = some parts ∧
      parts.flatten = escapeChar c ∧ named parts = [c] ∧ c ≠ 0 := by
  obtain rfl | rfl | rfl | rfl | rfl := special_cases h
  · exact ⟨[[38], ascii "amp", [], [59]], rfl, rfl, rfl, by decide⟩
  · exact ⟨[[38], ascii "lt", [], [59]], rfl, rfl, rfl, by decide⟩
  · exact ⟨[[38], ascii "gt", [], [59]], rfl, rfl, rfl, by decide⟩
  · exact ⟨[[38], ascii "apos", [], [59]], rfl, rfl, rfl, by decide⟩
  · exact ⟨[[38], ascii "quot", [], [59]], rfl, rfl, rfl, by decide⟩

theorem escape_cons (c : UInt8) (s : F8String) : escape (c :: s) = escapeChar c ++ escape s := rfl

theorem escape_append (s t : F8String) : escape (s ++ t) = escape s ++ escape t :=
  List.flatMap_append

/-- What is escaped begins after a text that is not. -/
theorem escape_split (s : F8String) : ∃ plain rest, s = plain ++ rest ∧
    escape s = plain ++ escape rest ∧ ∀ c ∈ rest.head?, Special c := by
  induction s with
  | nil => exact ⟨[], [], rfl, rfl, by simp⟩
  | cons c s ih =>
    by_cases hc : Special c
    · exact ⟨[], c :: s, rfl, rfl, by simpa using hc⟩
    · obtain ⟨plain, rest, rfl, hescape, hhead⟩ := ih
      refine ⟨c :: plain, rest, rfl, ?_, hhead⟩
      rw [escape_cons, escapeChar_of_not_special hc, hescape]
      rfl

theorem namedChar_ne_zero (name : F8String) : namedChar name ≠ 0 := by
  have htable : ∀ entry ∈ stringtochar, entry.2 ≠ 0 := by decide
  unfold namedChar
  cases hfind : stringtochar.find? fun entry => ascii entry.1 = name with
  | none => decide
  | some entry => exact htable entry (List.mem_of_find?_eq_some hfind)

/-- A reference that begins in `w` ends in it, where an escaped text follows. -/
theorem reference_prefix {w m after e : F8String} (hw : w ≠ []) (he : ∀ c ∈ e.head?, c = 38)
    (hm : ∃ tail : F8String, m = 38 :: tail ∧ 38 ∉ tail) (heq : m ++ after = w ++ e) : m <+: w := by
  obtain ⟨tail, rfl, htail⟩ := hm
  rcases List.append_eq_append_iff.1 heq with ⟨z, hz, -⟩ | ⟨z, hz, hafter⟩
  · exact ⟨z, hz.symm⟩
  · cases z with
    | nil => exact ⟨[], by rw [hz, List.append_nil, List.append_nil]⟩
    | cons c z =>
      obtain rfl : c = 38 := he c (by rw [hafter]; rfl)
      cases w with
      | nil => exact absurd rfl hw
      | cons d w =>
        obtain ⟨-, rfl⟩ := List.cons.inj hz
        exact absurd (List.mem_append_right w List.mem_cons_self) htail

/-- The text that the first loop has reached: `w` has been decoded, `rest` has not. Either nothing
but the references of the escaping has been decoded, or some reference of `u`. -/
def Reached (u x : F8String) : Prop :=
  ∃ w rest : F8String, x = w ++ escape rest ∧ (∀ c ∈ rest.head?, Special c) ∧ 0 ∉ w ∧ 0 ∉ rest ∧
    (w ++ rest = u ∨ w.length + rest.length < u.length ∧ Pattern.Occurs rCX u)

section
variable {u x y : F8String}

theorem escape_head {rest : F8String} (hrest : ∀ c ∈ rest.head?, Special c) :
    ∀ c ∈ (escape rest).head?, c = 38 := by
  intro c hc
  cases rest with
  | nil => cases hc
  | cons d rest =>
    obtain ⟨name, hname⟩ := Option.ne_none_iff_exists'.1 (hrest d rfl)
    rw [escape_cons, escapeChar, hname] at hc
    exact (Option.some.inj hc).symm

theorem not_mem_escape {s : F8String} (h : 0 ∉ s) : 0 ∉ escape s := by
  intro hmem
  obtain ⟨c, hc, hzero⟩ := List.mem_flatMap.1 hmem
  by_cases hs : Special c
  · obtain rfl | rfl | rfl | rfl | rfl := special_cases hs <;> exact absurd hzero (by decide)
  · rw [escapeChar_of_not_special hs] at hzero
    exact h (List.mem_singleton.1 hzero ▸ hc)

theorem reached_escape (hu : 0 ∉ u) : Reached u (escape u) := by
  obtain ⟨plain, rest, rfl, hescape, hhead⟩ := escape_split u
  exact ⟨plain, rest, hescape, hhead, fun hmem => hu (List.mem_append_left _ hmem),
    fun hmem => hu (List.mem_append_right _ hmem), .inl rfl⟩

/-- The leftmost reference is in `w`, or it is the first that has been escaped behind it. -/
theorem search_escape {w rest : F8String} {found : Found UInt8}
    (hhead : ∀ c ∈ rest.head?, Special c)
    (hfound : Pattern.search rCX (w ++ escape rest) = some found) :
    (∃ post, w = found.before ++ (found.parts.flatten ++ post)) ∨
      ∃ d tail, rest = d :: tail ∧ found.before = w ∧ found.parts.flatten = escapeChar d ∧
        named found.parts = [d] := by
  by_cases hplace : ∀ suf, suf ≠ [] → suf <:+ w → Pattern.firstAt rCX (suf ++ escape rest) = none
  · right
    rw [Pattern.search_append hplace] at hfound
    obtain ⟨first, hfirst, rfl⟩ := Option.map_eq_some_iff.1 hfound
    cases rest with
    | nil => exact absurd hfirst (by simp [escape, Pattern.search, Pattern.firstAt, rCX,
        Pattern.matchAt])
    | cons d tail =>
      obtain ⟨parts, hparts, hflat, hnamed, -⟩ := firstAt_escapeChar (hhead d rfl) (escape tail)
      rw [escape_cons, Pattern.search_of_firstAt hparts] at hfirst
      obtain rfl := Option.some.inj hfirst
      exact ⟨d, tail, rfl, List.append_nil w, hflat, hnamed⟩
  · left
    obtain ⟨heq, ⟨ps, hps, hmatch⟩, hleft⟩ := Pattern.search_sound hfound
    have hbefore : found.before <+: w ++ escape rest := ⟨_, heq.symm⟩
    -- it begins in `w`: no place before it has a match
    have hlt : found.before.length < w.length := by
      by_contra hle
      refine hplace fun suf hne hsuf => ?_
      obtain ⟨z, hz⟩ : w <+: found.before :=
        List.prefix_of_prefix_length_le (List.prefix_append _ _) hbefore (by omega)
      obtain ⟨pre, rfl⟩ := hsuf
      have hrest : escape rest = z ++ (found.parts.flatten ++ found.after) := by
        rw [← hz, List.append_assoc _ z] at heq
        exact List.append_cancel_left heq
      rw [hrest, ← List.append_assoc]
      exact hleft (suf ++ z) (by simp [hne]) ⟨pre, by rw [← hz, List.append_assoc]⟩
    obtain ⟨suf, rfl⟩ : found.before <+: w :=
      List.prefix_of_prefix_length_le hbefore (List.prefix_append _ _) hlt.le
    have hne : suf ≠ [] := by
      rintro rfl
      simp at hlt
    -- and so it ends there
    obtain ⟨name, digits, hparts, -, hchars⟩ := matches_rCX hps hmatch
    have hshape : ∃ tail : F8String, found.parts.flatten = 38 :: tail ∧ 38 ∉ tail := by
      refine ⟨name ++ (digits ++ [59]), by rw [hparts]; simp, ?_⟩
      simp only [List.mem_append, List.mem_singleton]
      rintro (hmem | hmem | hmem)
      · exact (hchars 38 (List.mem_append_left _ hmem)).1 rfl
      · exact (hchars 38 (List.mem_append_right _ hmem)).1 rfl
      · exact absurd hmem (by decide)
    have hsuf : found.parts.flatten ++ found.after = suf ++ escape rest := by
      rw [List.append_assoc] at heq
      exact (List.append_cancel_left heq).symm
    obtain ⟨post, rfl⟩ := reference_prefix hne (escape_head hhead) hshape hsuf
    exact ⟨post, rfl⟩

/-- **One round** of the first loop. -/
theorem Reached.step (h : Reached u x) (hstep : replaceMatch rCX named x = some y) :
    Reached u y := by
  obtain ⟨w, rest, rfl, hhead, hw, hrest, hu⟩ := h
  have hcstr : cstr (w ++ escape rest) = w ++ escape rest :=
    cstr_of_not_mem fun hmem => (List.mem_append.1 hmem).elim hw (not_mem_escape hrest)
  obtain ⟨found, hfound, rfl⟩ := Option.map_eq_some_iff.1 hstep
  rw [hcstr] at hfound
  rcases search_escape hhead hfound with ⟨post, rfl⟩ | ⟨d, tail, rfl, rfl, hflat, hnamed⟩
  · -- a reference of what has been decoded is decoded again
    obtain ⟨-, ⟨ps, hps, hmatch⟩, -⟩ := Pattern.search_sound hfound
    have hlength := rCX_length hps hmatch
    have hdrop : (found.before ++ (found.parts.flatten ++ post) ++ escape rest).drop
        (found.before.length + found.parts.flatten.length) = post ++ escape rest := by
      rw [← List.length_append, ← List.append_assoc found.before, List.append_assoc, List.drop_left]
    rw [hdrop]
    refine ⟨found.before ++ named found.parts ++ post, rest, by simp only [List.append_assoc],
      hhead, ?_, hrest, .inr ?_⟩
    · have hone : 0 ∉ named found.parts := fun hmem =>
        namedChar_ne_zero _ (List.mem_singleton.1 hmem).symm
      simp only [List.mem_append, not_or] at hw ⊢
      exact ⟨⟨hw.1, hone⟩, hw.2.2⟩
    · have hoccurs : Pattern.Occurs rCX (found.before ++ (found.parts.flatten ++ post)) :=
        ⟨ps, hps, _, _, _, hmatch, rfl⟩
      simp only [List.length_append] at hu hlength ⊢
      rcases hu with rfl | ⟨hlt, hocc⟩
      · refine ⟨?_, hoccurs.append⟩
        simp only [List.length_append]
        omega
      · exact ⟨by omega, hocc⟩
  · -- the next character is decoded, and what follows it up to the next that was escaped
    obtain ⟨plain, tail, rfl, hescape, hhead'⟩ := escape_split tail
    have hdrop : (found.before ++ escape (d :: (plain ++ tail))).drop
        (found.before.length + found.parts.flatten.length) = plain ++ escape tail := by
      rw [hflat, ← List.length_append, escape_cons, ← List.append_assoc, List.drop_left, hescape]
    have hdone : (found.before ++ d :: plain) ++ tail = found.before ++ (d :: (plain ++ tail)) := by
      simp
    rw [hdrop, hnamed]
    refine ⟨found.before ++ d :: plain, tail, by simp, hhead', ?_, ?_, ?_⟩
    · rw [List.mem_append, List.mem_cons]
      rintro (hmem | hmem | hmem)
      · exact hw hmem
      · exact hrest (hmem ▸ List.mem_cons_self)
      · exact hrest (List.mem_cons_of_mem _ (List.mem_append_left _ hmem))
    · exact fun hmem => hrest (List.mem_cons_of_mem _ (List.mem_append_right _ hmem))
    · rw [hdone, ← List.length_append, hdone, List.length_append]
      exact hu

/-- Where there is no reference any more, nothing is left to decode. -/
theorem Reached.done (h : Reached u x) (hnone : replaceMatch rCX named x = none) :
    x = u ∧ ¬Pattern.Occurs rCX u ∨ x.length < u.length ∧ Pattern.Occurs rCX u := by
  obtain ⟨w, rest, rfl, hhead, hw, hrest, hu⟩ := h
  have hcstr : cstr (w ++ escape rest) = w ++ escape rest :=
    cstr_of_not_mem fun hmem => (List.mem_append.1 hmem).elim hw (not_mem_escape hrest)
  rw [replaceMatch_none rCX_separated, hcstr] at hnone
  cases rest with
  | cons d tail =>
    obtain ⟨parts, hparts, hflat, -⟩ := firstAt_escapeChar (hhead d rfl) (escape tail)
    obtain ⟨⟨ps, hps, hmatch⟩, heq⟩ := Pattern.firstAt_sound hparts
    have hocc : Pattern.Occurs rCX (w ++ escape (d :: tail)) :=
      ⟨ps, hps, w, parts, _, hmatch, congrArg (w ++ ·) heq⟩
    exact absurd hocc hnone
  | nil =>
    have hnil : w ++ escape [] = w := List.append_nil w
    rw [hnil] at hnone ⊢
    rcases hu with rfl | hlt
    · rw [List.append_nil]
      exact .inl ⟨rfl, hnone⟩
    · exact .inr hlt

/-- **The first loop** on an escaped text gives the text, unless there is a reference in that. -/
theorem xlateNamed_escape (hu : 0 ∉ u) :
    XmlElement.xlateNamed (escape u) = u ∧ ¬Pattern.Occurs rCX u ∨
      (XmlElement.xlateNamed (escape u)).length < u.length ∧ Pattern.Occurs rCX u := by
  have hlength := replaceMatch_length fun ps hps parts hmatch => rCX_length hps hmatch
  have hreached : Reached u (XmlElement.xlateNamed (escape u)) :=
    exhaust_invariant (fun x y hx hstep => hx.step hstep) (reached_escape hu)
  exact hreached.done (exhaust_done hlength (Nat.le_refl _))

end

/-! ## One pass -/

/-- One pass over a text: each reference is decoded, and what comes out is not looked at again. -/
def decodeOnceAux : Nat → F8String → F8String
  | 0, x => x
  | _ + 1, [] => []
  | n + 1, c :: x =>
    match Pattern.firstAt rCX (c :: x) with
    | some parts => named parts ++ decodeOnceAux n ((c :: x).drop parts.flatten.length)
    | none =>
      match Pattern.firstAt rCE (c :: x) with
      | some parts => numeric parts ++ decodeOnceAux n ((c :: x).drop parts.flatten.length)
      | none => c :: decodeOnceAux n x

def decodeOnce (x : F8String) : F8String := decodeOnceAux x.length x

theorem firstAt_other {c : UInt8} (hc : c ≠ 38) (x : F8String) :
    Pattern.firstAt rCX (c :: x) = none ∧ Pattern.firstAt rCE (c :: x) = none := by
  simp [Pattern.firstAt, rCX, rCE, Pattern.matchAt, hc]

theorem decodeOnceAux_escape {n : Nat} {s : F8String} (hn : (escape s).length ≤ n) :
    decodeOnceAux n (escape s) = s := by
  induction s generalizing n with
  | nil => cases n <;> rfl
  | cons c s ih =>
    rw [escape_cons, List.length_append] at hn
    by_cases hc : Special c
    · obtain ⟨parts, hparts, hflat, hnamed, -⟩ := firstAt_escapeChar hc (escape s)
      obtain ⟨name, hname⟩ := Option.ne_none_iff_exists'.1 hc
      have hamp : escapeChar c = 38 :: (name ++ [59]) := by rw [escapeChar, hname]
      obtain ⟨n, rfl⟩ : ∃ k, n = k + 1 := ⟨n - 1, by rw [hamp, List.length_cons] at hn; omega⟩
      have hdrop : (escapeChar c ++ escape s).drop parts.flatten.length = escape s := by
        rw [hflat, List.drop_left]
      rw [escape_cons]
      rw [hamp, List.cons_append] at hparts hdrop ⊢
      rw [decodeOnceAux, hparts]
      dsimp only
      rw [hdrop, hnamed, ih (by rw [hamp, List.length_cons] at hn; omega)]
      rfl
    · rw [escapeChar_of_not_special hc, List.length_singleton] at hn
      obtain ⟨n, rfl⟩ : ∃ k, n = k + 1 := ⟨n - 1, by omega⟩
      have hamp : c ≠ 38 := by
        rintro rfl
        exact hc (by decide)
      obtain ⟨hnamed, hnumeric⟩ := firstAt_other hamp (escape s)
      rw [escape_cons, escapeChar_of_not_special hc, List.singleton_append, decodeOnceAux, hnamed,
        hnumeric, ih (by omega)]

/-- One pass over an escaped text gives the text. -/
theorem decodeOnce_escape (s : F8String) : decodeOnce (escape s) = s :=
  decodeOnceAux_escape (Nat.le_refl _)

/-! ## There and back -/

/-- What has no extension in it is not changed by them, whatever the surroundings. -/
theorem inplaceXlate_of_refs {sur : Surroundings} {noextensions : Bool} {x s : F8String}
    (hrefs : XmlElement.xlateRefs x = s)
    (hext : noextensions = false → ¬Pattern.Occurs rEn (cstr s) ∧ ¬Pattern.Occurs rEv (cstr s)) :
    XmlElement.inplaceXlate sur noextensions x = s := by
  have honce : ∀ alts, (∀ ps ∈ alts, Pattern.Separated ps) → ¬Pattern.Occurs alts (cstr s) →
      ∀ value, XmlElement.xlateOnce alts value s = s := by
    intro alts hsep hnot value
    rw [XmlElement.xlateOnce, (Pattern.search_eq_none_iff hsep).2 hnot]
  unfold XmlElement.xlateRefs at hrefs
  unfold XmlElement.inplaceXlate
  split
  · exact hrefs
  · next hno =>
    obtain ⟨henv, hcmd⟩ := hext (Bool.eq_false_iff.2 hno)
    rw [hrefs, honce rEn rEn_separated henv, honce rEv rEv_separated hcmd]

/-- Nothing is defined, and every command fails. -/
def bare : Surroundings := ⟨fun _ => none, fun _ => []⟩

theorem xlateOnce_empty {alts : List (Pattern UInt8)} {value : F8String → F8String} {x : F8String}
    (hvalue : ∀ name, value name = []) : XmlElement.xlateOnce alts value x = x := by
  unfold XmlElement.xlateOnce
  split
  · rw [if_pos (hvalue _)]
  · rfl

theorem inplaceXlate_bare {noextensions : Bool} {x : F8String} :
    XmlElement.inplaceXlate bare noextensions x = XmlElement.xlateRefs x := by
  have hcmd : ∀ name, bare.execCmd name = [] := fun _ => rfl
  have henv : ∀ name, (bare.getenv name).getD [] = [] := fun _ => rfl
  unfold XmlElement.inplaceXlate XmlElement.xlateRefs
  split
  · rfl
  · rw [xlateOnce_empty hcmd, xlateOnce_empty henv]

/-- A variable or a command is replaced by its value. -/
theorem xlateOnce_length {alts : List (Pattern UInt8)} {value : F8String → F8String} {x : F8String}
    (hsep : ∀ ps ∈ alts, Pattern.Separated ps) (hocc : Pattern.Occurs alts (cstr x))
    (hvalue : ∀ name, x.length < (value name).length) :
    x.length < (XmlElement.xlateOnce alts value x).length := by
  cases hfound : Pattern.search alts (cstr x) with
  | none => exact absurd hocc ((Pattern.search_eq_none_iff hsep).1 hfound)
  | some found =>
    have hlong := hvalue (found.parts.getD 2 [])
    have hne : value (found.parts.getD 2 []) ≠ [] := by
      rintro hnil
      rw [hnil] at hlong
      cases hlong
    rw [XmlElement.xlateOnce, hfound]
    dsimp only
    rw [if_neg hne, replaceMatch, hfound, Option.map_some, Option.getD_some, List.length_append,
      List.length_append]
    omega

/-- **A text stays as it is** in all surroundings when there is no reference in it, and no
extension. -/
theorem inplaceXlate_eq_self_iff {noextensions : Bool} {x : F8String} :
    (∀ sur, XmlElement.inplaceXlate sur noextensions x = x) ↔
      ¬Pattern.Occurs rCX (cstr x) ∧ ¬Pattern.Occurs rCE (cstr x) ∧
        (noextensions = false → ¬Pattern.Occurs rEn (cstr x) ∧ ¬Pattern.Occurs rEv (cstr x)) := by
  constructor
  · intro h
    have hrefs : XmlElement.xlateRefs x = x := inplaceXlate_bare.symm.trans (h bare)
    rcases XmlElement.xlateRefs_or x with ⟨hnamed, hnumeric, -⟩ | hlt
    · refine ⟨hnamed, hnumeric, fun hext => ⟨fun hocc => ?_, fun hocc => ?_⟩⟩
      · -- a variable whose value is longer than the text, and no command
        have hself := h ⟨fun _ => some (x ++ [0]), fun _ => []⟩
        unfold XmlElement.xlateRefs at hrefs
        rw [XmlElement.inplaceXlate, hext, hrefs, if_neg Bool.false_ne_true] at hself
        dsimp only [Option.getD_some] at hself
        rw [xlateOnce_empty fun _ => rfl] at hself
        have hlong : x.length < (XmlElement.xlateOnce rEn (fun _ => x ++ [0]) x).length :=
          xlateOnce_length rEn_separated hocc fun _ => by simp
        exact absurd (congrArg List.length hself) (Nat.ne_of_gt hlong)
      · have hself := h ⟨fun _ => none, fun _ => x ++ [0]⟩
        unfold XmlElement.xlateRefs at hrefs
        rw [XmlElement.inplaceXlate, hext, hrefs, if_neg Bool.false_ne_true] at hself
        dsimp only [Option.getD_none] at hself
        have hnone : XmlElement.xlateOnce rEn (fun _ => []) x = x := xlateOnce_empty fun _ => rfl
        rw [hnone] at hself
        have hlong : x.length < (XmlElement.xlateOnce rEv (fun _ => x ++ [0]) x).length :=
          xlateOnce_length rEv_separated hocc fun _ => by simp
        exact absurd (congrArg List.length hself) (Nat.ne_of_gt hlong)
    · rw [hrefs] at hlt
      exact absurd hlt (Nat.lt_irrefl _)
  · rintro ⟨hnamed, hnumeric, hext⟩ sur
    exact inplaceXlate_of_refs (XmlElement.xlateRefs_none hnamed hnumeric) hext

/-- The escaped text comes back, as from one pass. -/
def ComesBack (s : F8String) : Prop :=
  ∀ sur noextensions, XmlElement.inplaceXlate sur noextensions (escape s) = s ∧
    XmlElement.inplaceXlate sur noextensions (escape s) = decodeOnce (escape s)

theorem escape_length (s : F8String) : s.length ≤ (escape s).length := by
  induction s with
  | nil => exact Nat.le_refl _
  | cons c s ih =>
    have hone : 1 ≤ (escapeChar c).length := by
      unfold escapeChar
      split <;> simp
    rw [escape_cons, List.length_append, List.length_cons]
    omega

theorem escape_eq_self {s : F8String} : escape s = s ↔ ∀ c ∈ s, ¬Special c := by
  induction s with
  | nil => simp [escape]
  | cons c s ih =>
    rw [List.forall_mem_cons, ← ih, escape_cons]
    constructor
    · intro h
      by_cases hc : Special c
      · obtain ⟨name, hname⟩ := Option.ne_none_iff_exists'.1 hc
        have hle := escape_length s
        have hlen := congrArg List.length h
        rw [escapeChar, hname] at hlen
        simp only [List.length_append, List.length_cons, List.length_nil] at hlen
        omega
      · rw [escapeChar_of_not_special hc] at h
        exact ⟨hc, (List.cons.inj h).2⟩
    · rintro ⟨hc, hs⟩
      rw [escapeChar_of_not_special hc, hs]
      rfl

/-- **An escaped text comes back** exactly when there is no reference in what stands before its
first NUL, and no character to escape behind it. -/
theorem xlate_escape_iff {s : F8String} (henv : ¬Pattern.Occurs rEn s)
    (hcmd : ¬Pattern.Occurs rEv s) :
    ComesBack s ↔ ¬Pattern.Occurs rCX (cstr s) ∧ ¬Pattern.Occurs rCE (cstr s) ∧
      ∀ c ∈ s.dropWhile (· ≠ 0), ¬Special c := by
  have hsplit : cstr s ++ s.dropWhile (· ≠ 0) = s := List.takeWhile_append_dropWhile
  have hu : 0 ∉ cstr s := not_mem_cstr
  have hescape : escape s = escape (cstr s) ++ escape (s.dropWhile (· ≠ 0)) := by
    rw [← escape_append, hsplit]
  have hzero : escape (s.dropWhile (· ≠ 0)) = [] ∨
      (escape (s.dropWhile (· ≠ 0))).head? = some 0 := by
    rcases dropWhile_nul s with hnil | hnul
    · rw [hnil]
      exact .inl rfl
    · obtain ⟨rest, hrest⟩ := List.head?_eq_some_iff.1 hnul
      rw [hrest]
      exact .inr rfl
  have hrefs : XmlElement.xlateRefs (escape s) =
      XmlElement.xlateRefs (escape (cstr s)) ++ escape (s.dropWhile (· ≠ 0)) := by
    rw [XmlElement.xlateRefs, hescape, XmlElement.xlateNamed_append hzero,
      XmlElement.xlateNumeric_append hzero]
    rfl
  generalize cstr s = u at *
  generalize s.dropWhile (· ≠ 0) = v at *
  subst hsplit
  rw [← escape_eq_self]
  constructor
  · intro h
    have hback := (h bare true).1
    rw [inplaceXlate_bare, hrefs, XmlElement.xlateRefs] at hback
    have hnamed := xlateNamed_escape hu
    have hnumeric := XmlElement.xlateNumeric_or (XmlElement.xlateNamed (escape u))
    -- what comes out of `u` is no longer than it, and nothing but a NUL can follow
    have hprefix : XmlElement.xlateNumeric (XmlElement.xlateNamed (escape u)) <+: u := by
      refine List.prefix_of_prefix_length_le ⟨_, hback⟩ (List.prefix_append _ _) ?_
      rcases hnamed with ⟨heq, -⟩ | ⟨hlt, -⟩ <;> rcases hnumeric with ⟨-, hsame⟩ | hlt'
      · rw [hsame, heq]
      · rw [heq] at hlt' ⊢
        exact hlt'.le
      · rw [hsame]
        exact hlt.le
      · exact (hlt'.trans hlt).le
    obtain ⟨z, hz⟩ := hprefix
    have hrest : escape v = z ++ v :=
      List.append_cancel_left (hback.trans (by rw [← List.append_assoc, hz]))
    obtain rfl : z = [] := by
      cases z with
      | nil => rfl
      | cons c z =>
        rw [hrest] at hzero
        obtain hzero | hzero := hzero
        · cases hzero
        · obtain rfl : c = 0 := Option.some.inj hzero
          exact absurd (hz ▸ List.mem_append_right _ List.mem_cons_self) hu
    rw [List.append_nil] at hz
    -- so both loops leave it alone
    rcases hnamed with ⟨heq, hnot⟩ | ⟨hlt, -⟩
    · rcases hnumeric with ⟨hnot', -⟩ | hlt'
      · rw [heq, cstr_of_not_mem hu] at hnot'
        exact ⟨hnot, hnot', hrest⟩
      · rw [hz, heq] at hlt'
        exact absurd hlt' (Nat.lt_irrefl _)
    · rcases hnumeric with ⟨-, hsame⟩ | hlt'
      · rw [← hsame, hz] at hlt
        exact absurd hlt (Nat.lt_irrefl _)
      · rw [hz] at hlt'
        exact absurd (hlt'.trans hlt) (Nat.lt_irrefl _)
  · rintro ⟨hnamed, hnumeric, hplain⟩
    have hfirst : XmlElement.xlateNamed (escape u) = u := by
      rcases xlateNamed_escape hu with ⟨heq, -⟩ | ⟨-, hocc⟩
      · exact heq
      · exact absurd hocc hnamed
    have hsecond : XmlElement.xlateNumeric u = u := by
      rw [← cstr_of_not_mem hu] at hnumeric
      rw [← replaceMatch_none (f := numeric) rCE_separated] at hnumeric
      exact exhaust_of_none hnumeric
    have hback : XmlElement.xlateRefs (escape (u ++ v)) = u ++ v := by
      rw [hrefs, XmlElement.xlateRefs, hfirst, hsecond, hplain]
    intro sur noextensions
    have hsame : XmlElement.inplaceXlate sur noextensions (escape (u ++ v)) = u ++ v :=
      inplaceXlate_of_refs hback fun _ => ⟨fun hocc => henv (hocc.mono (cstr_begins _)),
        fun hocc => hcmd (hocc.mono (cstr_begins _))⟩
    exact ⟨hsame, by rw [hsame, decodeOnce_escape]⟩

theorem not_occurs {alts : List (Pattern UInt8)} {s : F8String}
    (hsep : ∀ ps ∈ alts, Pattern.Separated ps) (h : (Pattern.search alts s).isNone = true) :
    ¬Pattern.Occurs alts s :=
  (Pattern.search_eq_none_iff hsep).1 (Option.isNone_iff_eq_none.1 h)

theorem xlate_escape_text : ComesBack (ascii "a < b && c; 'd'") :=
  (xlate_escape_iff (not_occurs rEn_separated (by decide +kernel))
    (not_occurs rEv_separated (by decide +kernel))).2
    ⟨not_occurs rCX_separated (by decide +kernel), not_occurs rCE_separated (by decide +kernel),
      by decide +kernel⟩

/-- `&lt;` is escaped to `&amp;lt;`, which is decoded twice. -/
theorem xlate_escape_twice : ¬∀ s, ¬Pattern.Occurs rEn s → ¬Pattern.Occurs rEv s → ComesBack s := by
  intro h
  have hback := h (ascii "&lt;") (not_occurs rEn_separated (by decide +kernel))
    (not_occurs rEv_separated (by decide +kernel))
  exact absurd (hback bare false).1 (by decide +kernel)

end Fix8.Compiler
