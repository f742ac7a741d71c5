import Fix8.Codec.Scan
import Fix8.Codec.Proof.Element

/-!
# The two scanners

Both overloads of `extract_element` accept the same language, with the same tag and value; the
decoders' `extractElement` is what they compute on the bytes they are given.

* **`extractElementStr_eq`**: the string overload computes `extractElement`;
* **`extractElementPtr_eq`**: the pointer overload leaves what the other does, and two NULs;
* **`extract_element_iff`**: the grammar.
-/

namespace Fix8.Codec

variable {src s tag val rest : F8String} {sz n : Nat}

/-! ## One loop after the other -/

/-- What the pointer overload leaves where the other leaves `r`. -/
def Scanned.terminated (r : Scanned) : Scanned := ⟨r.result, r.tag ++ [0], r.val ++ [0]⟩

theorem extractElementPtrLoop_eq (left : Nat) : ∀ (ii : Nat) (state : ScanState)
    (tag val : F8String), extractElementPtrLoop src left ii state tag val =
      (extractElementStrLoop src left ii state tag val).map Scanned.terminated := by
  induction left with
  | zero => exact fun _ _ _ _ => rfl
  | succ left ih =>
    intro ii state tag val
    unfold extractElementPtrLoop extractElementStrLoop
    cases src[ii]? with
    | none => rfl
    | some c =>
      cases state with
      | getTag => simp only [ih]; split <;> [split; skip] <;> rfl
      | getValue => simp only [ih]; split <;> rfl

/-- The pointer overload does what the other does, and ends both texts with a NUL. -/
theorem extractElementPtr_eq :
    extractElementPtr src sz = (extractElementStr src sz).map Scanned.terminated :=
  extractElementPtrLoop_eq sz 0 .getTag [] []

/-! ## The loop and the recursion -/

/-- A byte of the part of the buffer that the loop has before it. -/
theorem window_cons {left ii : Nat} (h : ii + (left + 1) ≤ src.length) :
    ∃ c, src[ii]? = some c ∧
      (src.drop ii).take (left + 1) = c :: (src.drop (ii + 1)).take left := by
  have hii : ii < src.length := by omega
  refine ⟨src[ii], List.getElem?_eq_getElem hii, ?_⟩
  rw [List.drop_eq_getElem_cons hii, List.take_succ_cons]

theorem getValue_loop (src : F8String) (left : Nat) : ∀ (ii : Nat) (tag val : F8String),
    ii + left ≤ src.length →
    ∃ r, extractElementStrLoop src left ii .getValue tag val = .ok r ∧
      match extractValue ((src.drop ii).take left) with
      | some (v, n) => r = ⟨ii + n, tag, val ++ v⟩
      | none => r.result = 0 := by
  induction left with
  | zero => exact fun ii tag val _ => ⟨_, rfl, rfl⟩
  | succ left ih =>
    intro ii tag val hle
    obtain ⟨c, hc, hwin⟩ := window_cons hle
    unfold extractElementStrLoop
    rw [hc, hwin]
    simp only
    by_cases hsep : c = fieldSeparator
    · rw [if_pos hsep, extractValue, if_pos hsep]
      exact ⟨_, rfl, by simp⟩
    · rw [if_neg hsep, extractValue, if_neg hsep]
      obtain ⟨r, hr, hres⟩ := ih (ii + 1) tag (val ++ [c]) (by omega)
      refine ⟨r, hr, ?_⟩
      cases hval : extractValue ((src.drop (ii + 1)).take left) with
      | none => simpa [hval] using hres
      | some p =>
        obtain ⟨v, n⟩ := p
        rw [hval] at hres
        simpa [Nat.add_comm, Nat.add_left_comm] using hres

theorem getTag_loop (src : F8String) (left : Nat) : ∀ (ii : Nat) (tag : F8String),
    ii + left ≤ src.length →
    ∃ r, extractElementStrLoop src left ii .getTag tag [] = .ok r ∧
      match extractElement ((src.drop ii).take left) with
      | some e => r = ⟨ii + e.result, tag ++ e.tag, e.val⟩
      | none => r.result = 0 := by
  induction left with
  | zero => exact fun ii tag _ => ⟨_, rfl, rfl⟩
  | succ left ih =>
    intro ii tag hle
    obtain ⟨c, hc, hwin⟩ := window_cons hle
    unfold extractElementStrLoop
    rw [hc, hwin]
    simp only
    by_cases hdigit : isdigit c = true
    · rw [if_neg (by simpa using hdigit), extractElement, if_pos hdigit]
      obtain ⟨r, hr, hres⟩ := ih (ii + 1) (tag ++ [c]) (by omega)
      refine ⟨r, hr, ?_⟩
      cases helem : extractElement ((src.drop (ii + 1)).take left) with
      | none => simpa [helem] using hres
      | some e =>
        rw [helem] at hres
        simpa [Nat.add_comm, Nat.add_left_comm] using hres
    · rw [if_pos (by simpa using hdigit), extractElement, if_neg hdigit]
      by_cases hassign : c = assignmentSeparator
      · rw [if_neg (by simpa using hassign), if_pos hassign]
        obtain ⟨r, hr, hres⟩ := getValue_loop src left (ii + 1) tag [] (by omega)
        refine ⟨r, hr, ?_⟩
        cases hval : extractValue ((src.drop (ii + 1)).take left) with
        | none => simpa [hval] using hres
        | some p =>
          obtain ⟨v, n⟩ := p
          rw [hval] at hres
          simpa [Nat.add_comm, Nat.add_left_comm] using hres
      · rw [if_pos hassign, if_neg hassign]
        exact ⟨_, rfl, rfl⟩

/-- The string overload computes `extractElement`, and 0 where that finds nothing. -/
theorem extractElementStr_eq (h : sz ≤ src.length) :
    ∃ r, extractElementStr src sz = .ok r ∧
      match extractElement (src.take sz) with
      | some e => r = ⟨e.result, e.tag, e.val⟩
      | none => r.result = 0 := by
  obtain ⟨r, hr, hres⟩ := getTag_loop src sz 0 [] (by omega)
  refine ⟨r, hr, ?_⟩
  simpa using hres

/-! ## The grammar -/

/-- An element and the text behind it. -/
theorem isElement_iff : IsElement s n tag val ↔ extractElement s = some ⟨tag, val, n⟩ := by
  constructor
  · rintro ⟨hle, htext, hdigits, hval⟩
    have hlen := congrArg List.length htext
    rw [List.length_take, Nat.min_eq_left hle] at hlen
    rw [← List.take_append_drop n s, htext]
    simp only [List.append_assoc, List.cons_append, List.nil_append]
    rw [extractElement_append hdigits hval, hlen]
    simp only [List.length_append, List.length_cons, List.length_nil]
    congr 2
  · intro h
    obtain ⟨hdigits, hval, hresult, rest, hs⟩ := extractElement_some h
    simp only at hdigits hval hresult hs
    have hsplit : s = (tag ++ assignmentSeparator :: (val ++ [fieldSeparator])) ++ rest := by
      simp [hs]
    have hlen : (tag ++ assignmentSeparator :: (val ++ [fieldSeparator])).length = n := by
      simp only [List.length_append, List.length_cons, List.length_nil]
      omega
    refine ⟨?_, ?_, hdigits, hval⟩
    · rw [hsplit, List.length_append, hlen]
      omega
    · rw [hsplit, ← hlen, List.take_left]

/-- Where there is no element, the scanner returns 0; where there is one, its length. -/
theorem extractElement_result_pos {e : Element} (h : extractElement s = some e) :
    0 < e.result := by
  obtain ⟨-, -, hresult, -⟩ := extractElement_some h
  omega

/-- On a buffer of at least `sz` bytes both overloads return. The one that writes through pointers
returns a positive `n`, and has written `tag` and `val` with a NUL behind each, exactly where the
first `n` of the `sz` bytes are an element with this tag and value; the other returns the same
number, tag and value; and where no prefix is an element, both return 0. -/
theorem extract_element_iff (src : F8String) (sz : Nat) (h : sz ≤ src.length) :
    ∃ p q, extractElementPtr src sz = .ok p ∧ extractElementStr src sz = .ok q ∧
      (∀ n tag val, IsElement (src.take sz) n tag val ↔
        0 < n ∧ p = ⟨n, tag ++ [0], val ++ [0]⟩) ∧
      (∀ n tag val, IsElement (src.take sz) n tag val ↔ 0 < n ∧ q = ⟨n, tag, val⟩) ∧
      ((∀ n tag val, ¬IsElement (src.take sz) n tag val) → p.result = 0 ∧ q.result = 0) := by
  obtain ⟨q, hq, hres⟩ := extractElementStr_eq h
  have hp : extractElementPtr src sz = .ok q.terminated := by rw [extractElementPtr_eq, hq]; rfl
  have hstr : ∀ n tag val, IsElement (src.take sz) n tag val ↔ 0 < n ∧ q = ⟨n, tag, val⟩ := by
    intro n tag val
    rw [isElement_iff]
    cases helem : extractElement (src.take sz) with
    | none =>
      rw [helem] at hres
      simp only at hres
      refine ⟨(by simp), ?_⟩
      rintro ⟨hn, rfl⟩
      exact absurd hres (by simp only; omega)
    | some e =>
      rw [helem] at hres
      have hpos := extractElement_result_pos helem
      obtain rfl := hres
      obtain ⟨t, v, r⟩ := e
      simp only [Option.some.injEq, Element.mk.injEq, Scanned.mk.injEq]
      exact ⟨fun ⟨ht, hv, hr⟩ => ⟨hr ▸ hpos, hr, ht, hv⟩, fun ⟨_, hr, ht, hv⟩ => ⟨ht, hv, hr⟩⟩
  have hterm : ∀ n tag val, q.terminated = ⟨n, tag ++ [0], val ++ [0]⟩ ↔ q = ⟨n, tag, val⟩ := by
    intro n tag val
    obtain ⟨r, t, v⟩ := q
    simp [Scanned.terminated]
  refine ⟨q.terminated, q, hp, hq, fun n tag val => ?_, hstr, fun hnone => ?_⟩
  · rw [hstr, hterm]
  · have hzero : q.result = 0 := by
      rcases Nat.eq_zero_or_pos q.result with hz | hpos
      · exact hz
      · exact absurd ((hstr q.result q.tag q.val).2 ⟨hpos, rfl⟩) (hnone _ _ _)
    exact ⟨hzero, hzero⟩

theorem extract_element_iff_begin :
    (4 : Nat) ≤ (ascii "8=F\x01rest").length ∧
      ∃ p q, extractElementPtr (ascii "8=F\x01rest") 4 = .ok p ∧
        extractElementStr (ascii "8=F\x01rest") 4 = .ok q ∧ p.result = 4 ∧ q.result = 4 := by
  have hlen : (4 : Nat) ≤ (ascii "8=F\x01rest").length := by decide +kernel
  obtain ⟨p, q, hp, hq, hptr, hstr, -⟩ := extract_element_iff (ascii "8=F\x01rest") 4 hlen
  have helem : IsElement ((ascii "8=F\x01rest").take 4) 4 (ascii "8") (ascii "F") :=
    ⟨by decide +kernel, by decide +kernel, by decide +kernel, by decide +kernel⟩
  obtain ⟨-, rfl⟩ := (hptr _ _ _).1 helem
  obtain ⟨-, rfl⟩ := (hstr _ _ _).1 helem
  exact ⟨hlen, _, _, hp, hq, rfl, rfl⟩

end Fix8.Codec
