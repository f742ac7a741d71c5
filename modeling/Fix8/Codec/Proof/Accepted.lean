import Fix8.Codec.Proof.Checksum
import Fix8.Codec.Proof.Lockstep
import Fix8.Codec.Proof.Numeral
import Fix8.Codec.Proof.Seqnum

/-!
# Framing

The factory knows the header by the first characters of three tags and the trailer by seven bytes
at the end of the string, of which it looks at two and at the number behind the third.

* `ElementAt`: where the elements of a text begin, with the payload of a data field as long as the
  element before it says;
* `WellFramed`: what a message on the wire looks like;
* `LeftOpen`: what an accepted text can still get wrong;
* **`accepted_framed_iff`**: an accepted text is framed iff it gets that right.
-/

namespace Fix8.Codec

open Lib

/-! ## The elements of a text -/

/-- An element of the text ends before this place; `last` is that element. A tag is that of a data
field if `pairs` has it with the tag of the element before. -/
inductive ElementAt (pairs : Nat → Nat → Prop) (text : F8String) : Nat → Option Element → Prop where
  | start : ElementAt pairs text 0 none
  | element (o : Nat) (last : Option Element) (e : Element) (h : ElementAt pairs text o last)
      (he : extractElement (text.drop o) = some e)
      (hplain : ∀ l ∈ last, ¬ pairs (decimal l.tag) (decimal e.tag)) :
      ElementAt pairs text (o + e.result) (some e)
  | data (o : Nat) (last e : Element) (h : ElementAt pairs text o (some last))
      (he : extractElementFixedWidth (decimal last.val) (text.drop o) = some e)
      (hpair : pairs (decimal last.tag) (decimal e.tag))
      (hsep : text[o + e.result - 1]? = some fieldSeparator) :
      ElementAt pairs text (o + e.result) (some e)

/-- The first three elements of the text. -/
structure FirstThree (text : F8String) (e₁ e₂ e₃ : Element) : Prop where
  first : extractElement text = some e₁
  second : extractElement (text.drop e₁.result) = some e₂
  third : extractElement (text.drop (e₁.result + e₂.result)) = some e₃

/-- Where the trailer begins. -/
def trailerStart (text : F8String) : Nat := text.length - 7

/-- The last seven bytes are an element with these as its tag and value. -/
structure LastElement (text tag val : F8String) : Prop where
  bytes : text.drop (trailerStart text) = tag ++ assignmentSeparator :: (val ++ [fieldSeparator])
  tagLength : tag.length = 2
  valLength : val.length = 3
  digits : ∀ c ∈ val, isdigit c = true

/-- A message on the wire: it begins with BeginString, BodyLength and MsgType, and ends with a
CheckSum behind another element. -/
structure WellFramed (pairs : Nat → Nat → Prop) (text : F8String) : Prop where
  header : ∃ e₁ e₂ e₃, FirstThree text e₁ e₂ e₃ ∧
    e₁.tag = ascii "8" ∧ e₂.tag = ascii "9" ∧ e₃.tag = ascii "35"
  trailer : ∃ val, LastElement text (ascii "10") val ∧
    decimal val = byteSum (text.take (trailerStart text)) % 256
  linked : ∃ last, ElementAt pairs text (trailerStart text) (some last)

/-- What the factory does not look at: that there are three elements with tags no longer than
expected, the shape of the last seven bytes, whether they follow an element, and whether the
word-parallel sum is that of the bytes. -/
structure LeftOpen (pairs : Nat → Nat → Prop) (text : F8String) : Prop where
  header : ∃ e₁ e₂ e₃, FirstThree text e₁ e₂ e₃ ∧
    e₁.tag.length = 1 ∧ e₂.tag.length = 1 ∧ e₃.tag.length = 2
  trailer : ∃ tag val, LastElement text tag val
  linked : ∃ last, ElementAt pairs text (trailerStart text) (some last)
  lanes : LanesHold (text.take (trailerStart text))

/-! ## What the factory looks at -/

section
variable {text tag val : F8String} {e₁ e₂ e₃ : Element}

theorem extractHeader_tags (hthree : FirstThree text e₁ e₂ e₃) (h : (extractHeader text).1 ≠ 0) :
    e₁.tag.head? = some 56 ∧ e₂.tag.head? = some 57 ∧ e₃.tag.take 2 = ascii "35" := by
  unfold extractHeader at h
  simp only [hthree.first, hthree.second, hthree.third] at h
  split at h
  · simp at h
  rename_i h₁
  split at h
  · simp at h
  rename_i h₂
  split at h
  · simp at h
  rename_i h₃
  exact ⟨not_not.1 h₁, not_not.1 h₂, not_not.1 h₃⟩

theorem eq_singleton {c : UInt8} (h : tag.head? = some c) (hlen : tag.length = 1) : tag = [c] := by
  obtain ⟨c', rfl⟩ := List.length_eq_one_iff.1 hlen
  simpa using h

variable {D : Type} [FpType D] {cx : F8MetaCntx} {now : Ticks} {call fuel : Nat}
  {permissive : Bool} {msg : Message D}

/-- The two bytes and the number at the end of an accepted text. -/
theorem factory_trailer (h : factory cx now call fuel text false permissive = .ok msg) :
    (text.drop (trailerStart text)).take 2 = ascii "10" ∧
      fastAtoiU32 (((text.drop (trailerStart text)).drop 3).take 3) =
        calcChksum (text.take (trailerStart text)) := by
  unfold factory at h
  rcases hext : extractHeader text with ⟨hlen, len, mtype⟩
  rw [hext] at h
  dsimp only at h
  split at h
  · cases h
  split at h
  · cases h
  split at h
  · cases h
  rename_i bme hbme
  cases hmsg : (cx.newMessage (D := D) (cstr mtype) bme false).decode cx now call fuel text hlen 7
      permissive with
  | error e =>
    rw [hmsg] at h
    cases h
  | ok msg₀ =>
    rw [hmsg] at h
    simp only [bind, Except.bind] at h
    split at h
    · cases h
    rename_i htag
    rw [if_neg Bool.false_ne_true] at h
    split at h
    · cases h
    rename_i hsum
    exact ⟨not_not.1 htag, not_not.1 hsum⟩

theorem LastElement.take_tag (h : LastElement text tag val) :
    (text.drop (trailerStart text)).take 2 = tag := by
  rw [h.bytes, ← h.tagLength, List.take_left]

theorem LastElement.take_val (h : LastElement text tag val) :
    ((text.drop (trailerStart text)).drop 3).take 3 = val := by
  have hsplit : tag ++ assignmentSeparator :: (val ++ [fieldSeparator]) =
      (tag ++ [assignmentSeparator]) ++ (val ++ [fieldSeparator]) := by
    simp
  have hlen : (tag ++ [assignmentSeparator]).length = 3 := by
    simp [h.tagLength]
  rw [h.bytes, hsplit, ← hlen, List.drop_left, hlen, ← h.valLength, List.take_left]

theorem decimal_lt : ∀ {s : F8String}, (∀ c ∈ s, isdigit c = true) → decimal s < 10 ^ s.length := by
  intro s
  induction s using List.reverseRecOn with
  | nil => intro _; decide
  | append_singleton s c ih =>
    intro h
    have hs := ih fun c' hc => h c' (List.mem_append_left _ hc)
    have hc := (isdigit_iff.1 (h c (List.mem_append_right _ (List.mem_singleton_self c)))).2
    rw [decimal_append_singleton, List.length_append, List.length_singleton, Nat.pow_succ]
    omega

/-- The number that the factory compares is that of the three digits. -/
theorem LastElement.checksum (h : LastElement text tag val)
    (hok : factory cx now call fuel text false permissive = .ok msg) :
    decimal val = calcChksum (text.take (trailerStart text)) := by
  obtain ⟨-, hsum⟩ := factory_trailer hok
  have hlt : decimal val < 10 ^ 3 := h.valLength ▸ decimal_lt h.digits
  rw [h.take_val, fastAtoiU32_digits h.digits, Nat.mod_eq_of_lt (by omega)] at hsum
  exact hsum

/-- **When an accepted text is framed**: when what the factory does not look at is as it should
be. -/
theorem accepted_framed_iff {pairs : Nat → Nat → Prop}
    (h : factory cx now call fuel text false permissive = .ok msg) :
    WellFramed pairs text ↔ LeftOpen pairs text := by
  constructor
  · rintro ⟨⟨e₁, e₂, e₃, hthree, h₁, h₂, h₃⟩, ⟨val, hlast, hval⟩, hlinked⟩
    refine ⟨⟨e₁, e₂, e₃, hthree, ?_, ?_, ?_⟩, ⟨_, val, hlast⟩, hlinked, ?_⟩
    · rw [h₁]
      rfl
    · rw [h₂]
      rfl
    · rw [h₃]
      rfl
    · rw [← calcChksum_eq_iff, ← hlast.checksum h, hval]
  · rintro ⟨⟨e₁, e₂, e₃, hthree, h₁, h₂, h₃⟩, ⟨tag, val, hlast⟩, hlinked, hlanes⟩
    obtain ⟨hhead₁, hhead₂, htag₃⟩ := extractHeader_tags hthree (factory_hlen h)
    obtain ⟨htag, -⟩ := factory_trailer h
    rw [hlast.take_tag] at htag
    subst htag
    refine ⟨⟨e₁, e₂, e₃, hthree, ?_, ?_, ?_⟩, ⟨val, hlast, ?_⟩, hlinked⟩
    · exact eq_singleton hhead₁ h₁
    · exact eq_singleton hhead₂ h₂
    · rw [← htag₃, ← h₃, List.take_length]
    · rw [hlast.checksum h, (calcChksum_eq_iff _).2 hlanes]

end

/-! ## A heartbeat -/

/-- A heartbeat that begins with this tag. -/
def demoBegin (tag sum : String) : F8String :=
  demoElement tag "FIX.4.2" ++ demoElement "9" "20" ++ demoElement "35" "0" ++
    demoElement "49" "A" ++ demoElement "34" "5" ++ demoElement "10" sum

/-- What the factory makes of it. -/
def demoAccepted (tag sum : String) : Except Stop (Message Unit) :=
  factory demoCntx 0 1 30 (demoBegin tag sum) false false

theorem accepted_framed_demo : ∃ msg, demoAccepted "8" "148" = .ok msg ∧
    (WellFramed (fun _ _ => False) (demoBegin "8" "148") ↔
      LeftOpen (fun _ _ => False) (demoBegin "8" "148")) := by
  have hsome : (demoAccepted "8" "148").toOption.isSome = true := by decide +kernel
  obtain ⟨msg, hmsg⟩ := Option.isSome_iff_exists.1 hsome
  have hmsg := toOption_eq_some hmsg
  exact ⟨msg, hmsg, accepted_framed_iff hmsg⟩

/-- A message that begins with tag 80 is accepted. -/
theorem begin_not_checked : ¬ ∃ pairs : Nat → Nat → Prop, ∀ (cx : F8MetaCntx) (now : Ticks)
    (call fuel : Nat) (text : F8String) (permissive : Bool) (msg : Message Unit),
    factory cx now call fuel text false permissive = .ok msg → WellFramed pairs text := by
  rintro ⟨pairs, h⟩
  have hsome : (demoAccepted "80" "196").toOption.isSome = true := by decide +kernel
  obtain ⟨msg, hmsg⟩ := Option.isSome_iff_exists.1 hsome
  obtain ⟨e₁, e₂, e₃, hthree, htag, -⟩ := (h _ _ _ _ _ _ msg (toOption_eq_some hmsg)).header
  have hread : (extractElement (demoBegin "80" "196")).map (·.tag) = some (ascii "80") := by
    decide +kernel
  rw [hthree.first, Option.map_some, htag] at hread
  exact absurd hread (by decide)

end Fix8.Codec
