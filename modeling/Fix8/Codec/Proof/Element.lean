import Fix8.Codec.Decode

/-!
# Elements

What `extract_element` and `extract_element_fixed_width` accept: digits, `=` and a value, which for
the first of them ends at the first separator and for the second has a given length.

* **`extractElement_some`**, **`extractElement_append`**: exactly these, with their length;
* **`extractElementFixedWidth_some`**, **`extractElementFixedWidth_append`**;
* `extractElement_prefix`, `extractElementFixedWidth_prefix`: what is read depends on the bytes that
  are read alone.
-/

namespace Fix8.Codec

variable {s s' tag val rest : F8String} {e : Element} {n valSz : Nat}

/-! ## Values -/

theorem extractValue_append (h : fieldSeparator ∉ val) :
    extractValue (val ++ fieldSeparator :: rest) = some (val, val.length + 1) := by
  induction val with
  | nil => rfl
  | cons c val ih =>
    obtain ⟨hc, hval⟩ := not_or.1 fun hmem => h (List.mem_cons.2 hmem)
    rw [List.cons_append, extractValue, if_neg fun heq => hc heq.symm, ih hval]
    rfl

theorem extractValue_some (h : extractValue s = some (val, n)) :
    fieldSeparator ∉ val ∧ n = val.length + 1 ∧ ∃ rest, s = val ++ fieldSeparator :: rest := by
  induction s generalizing val n with
  | nil => exact absurd h (by simp [extractValue])
  | cons c cs ih =>
    unfold extractValue at h
    split at h
    · rename_i hc
      subst hc
      obtain ⟨rfl, rfl⟩ := Prod.mk.inj (Option.some.inj h)
      exact ⟨by simp, rfl, cs, rfl⟩
    · rename_i hc
      obtain ⟨⟨val', n'⟩, h', heq⟩ := Option.map_eq_some_iff.1 h
      obtain ⟨rfl, rfl⟩ := Prod.mk.inj heq
      obtain ⟨hval, rfl, rest, rfl⟩ := ih h'
      refine ⟨?_, rfl, rest, rfl⟩
      intro hmem
      obtain heq | hmem := List.mem_cons.1 hmem
      · exact hc heq.symm
      · exact hval hmem

/-! ## `extract_element` -/

theorem extractElement_append (htag : ∀ c ∈ tag, isdigit c = true) (hval : fieldSeparator ∉ val) :
    extractElement (tag ++ assignmentSeparator :: (val ++ fieldSeparator :: rest)) =
      some ⟨tag, val, tag.length + val.length + 2⟩ := by
  induction tag with
  | nil =>
    rw [List.nil_append, extractElement, if_neg (by decide), if_pos rfl, extractValue_append hval]
    simp
  | cons c tag ih =>
    rw [List.cons_append, extractElement, if_pos (htag c (List.mem_cons_self ..)),
      ih fun c' hc' => htag c' (List.mem_cons_of_mem _ hc')]
    simp only [Option.map_some, List.length_cons]
    congr 2
    omega

theorem extractElement_some (h : extractElement s = some e) :
    (∀ c ∈ e.tag, isdigit c = true) ∧ fieldSeparator ∉ e.val ∧
      e.result = e.tag.length + e.val.length + 2 ∧
      ∃ rest, s = e.tag ++ assignmentSeparator :: (e.val ++ fieldSeparator :: rest) := by
  induction s generalizing e with
  | nil => exact absurd h (by simp [extractElement])
  | cons c cs ih =>
    unfold extractElement at h
    split at h
    · rename_i hdigit
      obtain ⟨e', h', rfl⟩ := Option.map_eq_some_iff.1 h
      obtain ⟨htag, hval, hlen, rest, rfl⟩ := ih h'
      refine ⟨?_, hval, ?_, rest, rfl⟩
      · intro c' hc'
        obtain rfl | hc' := List.mem_cons.1 hc'
        · exact hdigit
        · exact htag c' hc'
      · show e'.result + 1 = (c :: e'.tag).length + e'.val.length + 2
        rw [hlen, List.length_cons]
        omega
    · split at h
      · rename_i hc
        subst hc
        obtain ⟨⟨val, n⟩, h', rfl⟩ := Option.map_eq_some_iff.1 h
        obtain ⟨hval, rfl, rest, rfl⟩ := extractValue_some h'
        exact ⟨by simp, hval, by simp, rest, rfl⟩
      · exact absurd h (by simp)

theorem drop_element_le (h : extractElement (s.drop n) = some e) : n + e.result ≤ s.length := by
  obtain ⟨-, -, hlen, rest, hrest⟩ := extractElement_some h
  have hlength := congrArg List.length hrest
  simp only [List.length_drop, List.length_append, List.length_cons] at hlength
  omega

/-- Another text that begins with the same bytes. -/
theorem extractElement_prefix (he : extractElement s = some e)
    (h : s'.take e.result = s.take e.result) : extractElement s' = some e := by
  obtain ⟨htag, hval, hlen, rest, hrest⟩ := extractElement_some he
  have hread : s.take e.result =
      e.tag ++ assignmentSeparator :: (e.val ++ [fieldSeparator]) := by
    have hsplit : s = (e.tag ++ assignmentSeparator :: (e.val ++ [fieldSeparator])) ++ rest := by
      simpa using hrest
    rw [hsplit]
    refine List.take_left' ?_
    simp only [List.length_append, List.length_cons, List.length_nil]
    omega
  rw [← List.take_append_drop e.result s', h, hread]
  simp only [List.append_assoc, List.cons_append, List.nil_append]
  rw [extractElement_append htag hval, ← hlen]

theorem extractElement_of_take (he : extractElement (s.take n) = some e) :
    extractElement s = some e := by
  obtain ⟨-, -, hlen, rest, hrest⟩ := extractElement_some he
  have hlength := congrArg List.length hrest
  simp only [List.length_take, List.length_append, List.length_cons] at hlength
  refine extractElement_prefix he ?_
  rw [List.take_take, Nat.min_eq_left (by omega)]

/-! ## `extract_element_fixed_width` -/

theorem extractElementFixedWidth_append (htag : ∀ c ∈ tag, isdigit c = true)
    (hval : val.length = valSz) :
    extractElementFixedWidth valSz (tag ++ assignmentSeparator :: (val ++ rest)) =
      some ⟨tag, val, tag.length + valSz + 2⟩ := by
  subst hval
  induction tag with
  | nil =>
    rw [List.nil_append, extractElementFixedWidth, if_neg (by decide), if_neg (by simp)]
    simp
  | cons c tag ih =>
    rw [List.cons_append, extractElementFixedWidth, if_pos (htag c (List.mem_cons_self ..)),
      ih fun c' hc' => htag c' (List.mem_cons_of_mem _ hc')]
    simp only [Option.map_some, List.length_cons]
    congr 2
    omega

theorem extractElementFixedWidth_some (h : extractElementFixedWidth valSz s = some e) :
    (∀ c ∈ e.tag, isdigit c = true) ∧ e.val.length = valSz ∧
      e.result = e.tag.length + valSz + 2 ∧
      ∃ rest, s = e.tag ++ assignmentSeparator :: (e.val ++ rest) := by
  induction s generalizing e with
  | nil => exact absurd h (by simp [extractElementFixedWidth])
  | cons c cs ih =>
    unfold extractElementFixedWidth at h
    split at h
    · rename_i hdigit
      obtain ⟨e', h', rfl⟩ := Option.map_eq_some_iff.1 h
      obtain ⟨htag, hval, hlen, rest, rfl⟩ := ih h'
      refine ⟨?_, hval, ?_, rest, rfl⟩
      · intro c' hc'
        obtain rfl | hc' := List.mem_cons.1 hc'
        · exact hdigit
        · exact htag c' hc'
      · show e'.result + 1 = (c :: e'.tag).length + valSz + 2
        rw [hlen, List.length_cons]
        omega
    · split at h
      · exact absurd h (by simp)
      · rename_i hc
        obtain ⟨hc, hlen⟩ := not_or.1 hc
        obtain rfl := not_not.1 hc
        obtain rfl := Option.some.inj h
        refine ⟨by simp, ?_, by simp, cs.drop valSz, ?_⟩
        · show (cs.take valSz).length = valSz
          rw [List.length_take]
          omega
        · show assignmentSeparator :: cs = assignmentSeparator :: (cs.take valSz ++ cs.drop valSz)
          rw [List.take_append_drop]

/-- Another text that begins with the same bytes, but for the separator, which is not read. -/
theorem extractElementFixedWidth_prefix (he : extractElementFixedWidth valSz s = some e)
    (h : s'.take (e.result - 1) = s.take (e.result - 1)) :
    extractElementFixedWidth valSz s' = some e := by
  obtain ⟨htag, hval, hlen, rest, hrest⟩ := extractElementFixedWidth_some he
  have hread : s.take (e.result - 1) = e.tag ++ assignmentSeparator :: e.val := by
    have hsplit : s = (e.tag ++ assignmentSeparator :: e.val) ++ rest := by simpa using hrest
    rw [hsplit]
    refine List.take_left' ?_
    simp only [List.length_append, List.length_cons]
    omega
  rw [← List.take_append_drop (e.result - 1) s', h, hread]
  simp only [List.append_assoc, List.cons_append]
  rw [extractElementFixedWidth_append htag hval, ← hlen]

/-- Another text with the same tag, and as long. -/
theorem extractElementFixedWidth_tag (he : extractElementFixedWidth valSz s = some e)
    (h : s'.take (e.tag.length + 1) = s.take (e.tag.length + 1)) (hlength : s.length ≤ s'.length) :
    ∃ e', extractElementFixedWidth valSz s' = some e' ∧ e'.tag = e.tag := by
  obtain ⟨htag, hval, hlen, rest, hrest⟩ := extractElementFixedWidth_some he
  have hread : s.take (e.tag.length + 1) = e.tag ++ [assignmentSeparator] := by
    have hsplit : s = (e.tag ++ [assignmentSeparator]) ++ (e.val ++ rest) := by simpa using hrest
    rw [hsplit]
    exact List.take_left' (by simp)
  obtain ⟨rest', hrest'⟩ : ∃ rest', s' = e.tag ++ assignmentSeparator :: rest' := by
    refine ⟨s'.drop (e.tag.length + 1), ?_⟩
    conv_lhs => rw [← List.take_append_drop (e.tag.length + 1) s', h, hread]
    simp
  have hroom : valSz ≤ rest'.length := by
    have hl := congrArg List.length hrest
    have hl' := congrArg List.length hrest'
    simp only [List.length_append, List.length_cons] at hl hl'
    omega
  refine ⟨⟨e.tag, rest'.take valSz, e.tag.length + valSz + 2⟩, ?_, rfl⟩
  rw [hrest', ← List.take_append_drop valSz rest']
  exact (extractElementFixedWidth_append htag (by rw [List.length_take]; omega)).trans
    (by rw [List.take_append_drop])

/-! ## Tags -/

/-- The tag of an element ends at the first byte that is no digit. -/
theorem tag_eq {t t' r r' : F8String} (ht : ∀ c ∈ t, isdigit c = true)
    (ht' : ∀ c ∈ t', isdigit c = true)
    (h : t ++ assignmentSeparator :: r = t' ++ assignmentSeparator :: r') : t = t' := by
  have htake : ∀ {t r : F8String}, (∀ c ∈ t, isdigit c = true) →
      (t ++ assignmentSeparator :: r).takeWhile isdigit = t := by
    intro t r ht
    rw [List.takeWhile_append_of_pos ht, List.takeWhile_cons_of_neg (by decide), List.append_nil]
  rw [← htake ht (r := r), h, htake ht']

end Fix8.Codec
