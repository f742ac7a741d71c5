import Fix8.Codec.Proof.Element
import Fix8.Codec.Proof.Numeral
import Fix8.Codec.Proof.Seqnum
import Fix8.Connection.Proof.Buffered
import Fix8.Connection.Reader
import Mathlib.Data.List.Basic
import Mathlib.Data.List.TakeWhile

/-!
# Framing

What `FIXReader::read` takes for a message. The first bytes are read without a look at them, up to
where the first digit of the body length should stand, and the two elements of the header line are
then extracted from the text, so that there is room for one byte more: a second digit of a tag, or a
NUL behind the begin string. The body length wraps, and a long one does not fit the array for it.

* `Accepts`: the header lines that `read` accepts; `accepts_of_headerLine`;
* `read_delivers`, `read_ok`: what is delivered are the messages with such a header line;
* **`read_framed_iff`**: the condition for `read` to deliver exactly the frames.
-/

namespace Fix8.Connection

open Lib Lib.Act Codec

/-! ## Frames -/

section
variable {cx : F8MetaCntx} {s h h' v body tail rest : F8String}

/-- The beginning of a message, up to the body length. -/
def preamble (cx : F8MetaCntx) : F8String :=
  56 :: assignmentSeparator :: (cx.beginStr ++ fieldSeparator :: [57, assignmentSeparator])

/-- A message with the header line `h ++ v`. -/
def message (h v body tail : F8String) : F8String := h ++ (v ++ fieldSeparator :: (body ++ tail))

/-- A complete message, with a body that is not empty and within the limit. -/
def Complete (cx : F8MetaCntx) (body tail : F8String) : Prop :=
  0 < body.length ∧ body.length ≤ bodyLimit cx ∧ tail.length = chksumSz

/-- `8=<beginStr> SOH 9=<digits> SOH body` with seven bytes behind it, where the digits are the
length of the body. -/
def IsFrame (cx : F8MetaCntx) (s : F8String) : Prop :=
  ∃ digits body tail, s = message (preamble cx) digits body tail ∧
    (∀ c ∈ digits, isdigit c = true) ∧ decimal digits = body.length ∧ Complete cx body tail

/-- What `read` makes of the stream are its frames, however it comes in. -/
structure Framed (cx : F8MetaCntx) (stream : F8String) : Prop where
  sound : ∀ splits s sock, read cx ⟨stream, splits⟩ = .ok (some s) sock →
    IsFrame cx s ∧ stream = s ++ sock.stream
  complete : ∀ splits s, IsFrame cx s → s <+: stream →
    ∃ sock, read cx ⟨stream, splits⟩ = .ok (some s) sock

/-- The messages in a row are read one by one. -/
def SplitInto (cx : F8MetaCntx) (messages : List F8String) : Prop :=
  ∀ splits rest, ∃ sock,
    readMessages cx messages.length ⟨messages.flatten ++ rest, splits⟩ =
      .ok (messages.map some) sock ∧ sock.stream = rest

/-- The header lines that are taken for what they are not, and those that are too long. -/
inductive Irregular (cx : F8MetaCntx) : F8String → F8String → Prop where
  /-- `8d=` for `8=`. -/
  | tag8 (d : UInt8) (digits : F8String) (hd : isdigit d = true)
      (hdigits : ∀ c ∈ digits, isdigit c = true) (hlen : digits.length < maxFldLength) :
      Irregular cx (56 :: d :: assignmentSeparator ::
        (cx.beginStr ++ fieldSeparator :: [57, assignmentSeparator])) digits
  /-- A NUL behind the begin string. -/
  | nul (digits : F8String) (hdigits : ∀ c ∈ digits, isdigit c = true)
      (hlen : digits.length < maxFldLength) :
      Irregular cx (56 :: assignmentSeparator ::
        (cx.beginStr ++ 0 :: fieldSeparator :: [57, assignmentSeparator])) digits
  /-- `9d=` for `9=`. -/
  | tag9 (d : UInt8) (digits : F8String) (hd : isdigit d = true)
      (hdigits : ∀ c ∈ digits, isdigit c = true) (hlen : digits.length < maxFldLength) :
      Irregular cx (56 :: assignmentSeparator ::
        (cx.beginStr ++ fieldSeparator :: [57, d, assignmentSeparator])) digits
  /-- The first byte of the body length is no digit. -/
  | first (x : UInt8) (digits : F8String) (hx : isdigit x = false) (hsep : x ≠ fieldSeparator)
      (hdigits : ∀ c ∈ digits, isdigit c = true) (hlen : digits.length + 1 < maxFldLength) :
      Irregular cx (preamble cx) (x :: digits)
  /-- The body length wraps. -/
  | wraps (digits : F8String) (hdigits : ∀ c ∈ digits, isdigit c = true)
      (hlen : digits.length < maxFldLength) (hwraps : 4294967296 ≤ decimal digits) :
      Irregular cx (preamble cx) digits
  /-- The body length overruns its array. -/
  | long (digits : F8String) (hdigits : ∀ c ∈ digits, isdigit c = true)
      (hlen : maxFldLength ≤ digits.length) (hwraps : decimal digits < 4294967296) :
      Irregular cx (preamble cx) digits

/-- A complete message with an irregular header line, for the body length that the code computes. -/
def IrregularMessage (cx : F8MetaCntx) (s : F8String) : Prop :=
  ∃ h v body tail, s = message h v body tail ∧ Irregular cx h v ∧
    fastAtoiU32 v = body.length ∧ Complete cx body tail

/-! ## The header line -/

/-- What `read` accepts in front of the body; `v` is the body length. -/
inductive HeaderLine (cx : F8MetaCntx) : F8String → F8String → Prop where
  | mk (t₁ val t₂ v rest : F8String) (ht₁ : ∀ c ∈ t₁, isdigit c = true)
      (h8 : t₁.head? = some 56) (hval : fieldSeparator ∉ val) (hbegin : cstr val = cx.beginStr)
      (ht₂ : ∀ c ∈ t₂, isdigit c = true) (h9 : t₂.head? = some 57) (hv : fieldSeparator ∉ v)
      (ht₁' : t₁.length < maxMsgtypeFieldLen) (ht₂' : t₂.length < maxMsgtypeFieldLen)
      (hval' : val.length < maxFldLength) (hv' : v.length < maxFldLength) :
      HeaderLine cx (t₁ ++ assignmentSeparator :: (val ++ fieldSeparator ::
        (t₂ ++ assignmentSeparator :: (v ++ fieldSeparator :: rest)))) v

theorem copied_append {tag val rest : F8String} (htag : ∀ c ∈ tag, isdigit c = true)
    (hval : fieldSeparator ∉ val) :
    copied (tag ++ assignmentSeparator :: (val ++ fieldSeparator :: rest)) = (tag, val) := by
  have hne : ∀ c ∈ val, decide (c ≠ fieldSeparator) = true := by
    intro c hc
    rw [decide_eq_true_eq]
    rintro rfl
    exact hval hc
  unfold copied unfinishedValue
  rw [List.takeWhile_append_of_pos htag, List.takeWhile_cons_of_neg (by decide),
    List.dropWhile_append_of_pos htag, List.dropWhile_cons_of_neg (by decide)]
  dsimp only
  rw [if_pos rfl, List.takeWhile_append_of_pos hne, List.takeWhile_cons_of_neg (by simp)]
  simp

theorem extractWithin_append {tag val rest : F8String} {s : Socket}
    (htag : ∀ c ∈ tag, isdigit c = true) (hval : fieldSeparator ∉ val)
    (htag' : tag.length < maxMsgtypeFieldLen) (hval' : val.length < maxFldLength) :
    extractWithin (tag ++ assignmentSeparator :: (val ++ fieldSeparator :: rest)) s =
      .ok (some ⟨tag, val, tag.length + val.length + 2⟩) s := by
  unfold extractWithin
  rw [if_pos, extractElement_append htag hval]
  · rfl
  · unfold Fits
    rw [copied_append htag hval]
    exact ⟨htag', hval'⟩

/-- An element that is extracted has the text that it is extracted from. -/
theorem extractWithin_some {s sock : Socket} {line : F8String} {e : Element}
    (h : extractWithin line s = .ok (some e) sock) :
    sock = s ∧ ∃ rest, line = e.tag ++ assignmentSeparator :: (e.val ++ fieldSeparator :: rest) ∧
      (∀ c ∈ e.tag, isdigit c = true) ∧ fieldSeparator ∉ e.val ∧
      e.result = e.tag.length + e.val.length + 2 ∧
      e.tag.length < maxMsgtypeFieldLen ∧ e.val.length < maxFldLength := by
  unfold extractWithin at h
  split at h
  · rename_i hfits
    simp only [pure_apply, Res.ok.injEq] at h
    obtain ⟨h, rfl⟩ := h
    obtain ⟨htag, hval, hresult, rest, hline⟩ := extractElement_some h
    rw [hline] at hfits
    unfold Fits at hfits
    rw [copied_append htag hval] at hfits
    exact ⟨rfl, rest, hline, htag, hval, hresult, hfits.1, hfits.2⟩
  · cases h

theorem drop_element {tag val rest : F8String} :
    (tag ++ assignmentSeparator :: (val ++ fieldSeparator :: rest)).drop
      (tag.length + val.length + 2) = rest := by
  have hlen : tag.length + val.length + 2 =
      (tag ++ assignmentSeparator :: (val ++ [fieldSeparator])).length := by
    simp only [List.length_append, List.length_cons, List.length_nil]
    omega
  rw [hlen, show tag ++ assignmentSeparator :: (val ++ fieldSeparator :: rest) =
    (tag ++ assignmentSeparator :: (val ++ [fieldSeparator])) ++ rest by simp, List.drop_left]

theorem HeaderLine.readRest {line : F8String} {s : Socket} (hline : HeaderLine cx line v) :
    readRest cx line s = readBody cx line (fastAtoiU32 v) s := by
  obtain ⟨t₁, val, t₂, _, rest, ht₁, h8, hval, hbegin, ht₂, h9, hv, ht₁', ht₂', hval', hv'⟩ := hline
  unfold Connection.readRest
  rw [bind_ok (extractWithin_append ht₁ hval ht₁' hval')]
  dsimp only
  unfold readLength
  rw [if_neg (not_not.2 h8), if_neg (not_not.2 hbegin.symm), drop_element,
    bind_ok (extractWithin_append ht₂ hv ht₂' hv')]
  dsimp only
  rw [if_neg (not_not.2 h9)]

/-- The elements of a header line from which the body is read. -/
theorem readLength_ok {line m : F8String} {e₁ : Element} {s sock : Socket}
    (h : readLength cx line e₁ s = .ok (some m) sock) :
    e₁.tag.head? = some 56 ∧ cx.beginStr = cstr e₁.val ∧
      ∃ e₂ s₂, extractWithin (line.drop e₁.result) s = .ok (some e₂) s₂ ∧
        e₂.tag.head? = some 57 ∧ readBody cx line (fastAtoiU32 e₂.val) s₂ = .ok (some m) sock := by
  unfold readLength at h
  by_cases h8 : e₁.tag.head? = some 56
  · rw [if_neg (not_not.2 h8)] at h
    by_cases hbegin : cx.beginStr = cstr e₁.val
    · rw [if_neg (not_not.2 hbegin)] at h
      obtain ⟨r₂, s₂, h₂, hrest⟩ := bind_eq_ok h
      cases r₂ with
      | none => cases hrest
      | some e₂ =>
        have hbody : (if e₂.tag.head? ≠ some 57 then Act.throw (.illegalMessage line)
            else readBody cx line (fastAtoiU32 e₂.val) : Act Socket ReadStop (Option F8String)) s₂ =
            .ok (some m) sock := hrest
        by_cases h9 : e₂.tag.head? = some 57
        · rw [if_neg (not_not.2 h9)] at hbody
          exact ⟨h8, hbegin, e₂, s₂, h₂, h9, hbody⟩
        · rw [if_pos h9] at hbody
          cases hbody
    · rw [if_pos hbegin] at h
      cases h
  · rw [if_pos h8] at h
    cases h

theorem readRest_ok {line m : F8String} {s sock : Socket}
    (h : readRest cx line s = .ok (some m) sock) :
    ∃ v, HeaderLine cx line v ∧ readBody cx line (fastAtoiU32 v) s = .ok (some m) sock := by
  obtain ⟨r₁, s₁, h₁, hrest⟩ := bind_eq_ok h
  cases r₁ with
  | none => cases hrest
  | some e₁ =>
    obtain ⟨h8, hbegin, e₂, s₂, h₂, h9, hbody⟩ := readLength_ok hrest
    obtain ⟨rfl, rest₁, rfl, ht₁, hval, hresult₁, ht₁', hval'⟩ := extractWithin_some h₁
    obtain ⟨rfl, rest₂, hline₂, ht₂, hv, -, ht₂', hv'⟩ := extractWithin_some h₂
    rw [hresult₁, drop_element] at hline₂
    subst hline₂
    exact ⟨e₂.val, .mk _ _ _ _ _ ht₁ h8 hval hbegin.symm ht₂ h9 hv ht₁' ht₂' hval' hv', hbody⟩

/-! ## What is read -/

theorem sockRead_ok (sock : Socket) (n : Nat) (h : n ≤ sock.stream.length) :
    ∃ sock', sockRead n sock = .ok (sock.stream.take n) sock' ∧
      sock'.stream = sock.stream.drop n := by
  rcases sockRead_eq sock n with ⟨sock', hread, hstream, -⟩ | ⟨-, -, hlt⟩
  · exact ⟨sock', hread, hstream⟩
  · omega

/-- Reading what stands in front. -/
theorem sockRead_append (bytes : F8String) {sock : Socket} (h : sock.stream = bytes ++ rest) :
    ∃ sock', sockRead bytes.length sock = .ok bytes sock' ∧ sock'.stream = rest := by
  obtain ⟨sock', hread, hstream⟩ := sockRead_ok sock bytes.length (by simp [h])
  rw [h, List.take_left] at hread
  rw [h, List.drop_left] at hstream
  exact ⟨sock', hread, hstream⟩

theorem eq_of_sockRead {sock sock' : Socket} {n : Nat} {bytes : F8String}
    (h : sockRead n sock = .ok bytes sock') :
    bytes.length = n ∧ sock.stream = bytes ++ sock'.stream := by
  rcases sockRead_eq sock n with ⟨s', hread, hstream, hle⟩ | ⟨s', hread, -⟩
  · rw [h] at hread
    obtain ⟨rfl, rfl⟩ := Res.ok.inj hread
    refine ⟨by simpa using hle, ?_⟩
    rw [hstream, List.take_append_drop]
  · rw [h] at hread
    cases hread

/-! ## The body -/

theorem readBody_delivers (cx : F8MetaCntx) (line : F8String) {body tail rest : F8String}
    {sock : Socket} {mlen : Nat} (hmlen : mlen = body.length) (hcomplete : Complete cx body tail)
    (hmax : body.length + chksumSz ≤ maxMsgLen) (hstream : sock.stream = body ++ (tail ++ rest)) :
    ∃ sock', readBody cx line mlen sock = .ok (some (line ++ (body ++ tail))) sock' ∧
      sock'.stream = rest := by
  obtain ⟨hpos, hle, htail⟩ := hcomplete
  obtain ⟨s₁, h₁, hs₁⟩ := sockRead_append body hstream
  obtain ⟨s₂, h₂, hs₂⟩ := sockRead_append tail hs₁
  refine ⟨s₂, ?_, hs₂⟩
  subst hmlen
  unfold readBody
  rw [if_neg (by omega), if_neg (by omega), bind_ok h₁, if_neg (by simp), ← htail, bind_ok h₂,
    if_neg (by simp)]
  rfl

theorem readBody_ok {line m : F8String} {sock sock' : Socket} {mlen : Nat}
    (h : readBody cx line mlen sock = .ok (some m) sock') :
    ∃ body tail, m = line ++ (body ++ tail) ∧ mlen = body.length ∧ Complete cx body tail ∧
      sock.stream = body ++ (tail ++ sock'.stream) := by
  unfold readBody at h
  split at h
  · cases h
  · rename_i hmlen
    split at h
    · cases h
    · obtain ⟨body, s₁, h₁, h⟩ := bind_eq_ok h
      obtain ⟨hbody, hs₁⟩ := eq_of_sockRead h₁
      rw [if_neg (not_not.2 hbody)] at h
      obtain ⟨tail, s₂, h₂, h⟩ := bind_eq_ok h
      obtain ⟨htail, hs₂⟩ := eq_of_sockRead h₂
      rw [if_neg (not_not.2 htail)] at h
      cases h
      refine ⟨body, tail, rfl, hbody.symm, ⟨by omega, by omega, htail⟩, ?_⟩
      rw [hs₁, hs₂]

/-! ## The body length -/

/-- What a turn does with the next byte. -/
theorem lengthTurn_byte (msgBuf : F8String) {c : UInt8} {sock : Socket}
    (hstream : sock.stream = c :: rest) : ∃ sock', sock'.stream = rest ∧ lengthTurn msgBuf sock =
      if isdigit c = false ∧ c ≠ fieldSeparator then .throw (.illegalMessage (cstr msgBuf)) sock'
      else if maxMsgLen ≤ msgBuf.length then .throw .undefined sock'
      else if c ≠ fieldSeparator ∧ msgBuf.length + 1 < maxMsgLen then
        .ok (.inl (msgBuf ++ [c])) sock'
      else .ok (.inr (some (msgBuf ++ [c]))) sock' := by
  have hread : ∃ sock', sockRead 1 sock = .ok [c] sock' ∧ sock'.stream = rest :=
    sockRead_append [c] hstream
  obtain ⟨s₁, h₁, hs₁⟩ := hread
  refine ⟨s₁, hs₁, ?_⟩
  unfold lengthTurn
  rw [bind_ok h₁]
  by_cases hillegal : isdigit c = false ∧ c ≠ fieldSeparator
  · rw [if_pos hillegal]
    exact congrFun (if_pos hillegal) s₁
  · rw [if_neg hillegal]
    refine (congrFun (if_neg hillegal) s₁).trans ?_
    split_ifs <;> rfl

/-- The loop goes on with a digit. -/
theorem lengthTurn_digit (msgBuf : F8String) {c : UInt8} {sock : Socket}
    (hstream : sock.stream = c :: rest) (hc : isdigit c = true)
    (hlen : msgBuf.length + 1 < maxMsgLen) :
    ∃ sock', lengthTurn msgBuf sock = .ok (.inl (msgBuf ++ [c])) sock' ∧ sock'.stream = rest := by
  obtain ⟨s₁, hs₁, hturn⟩ := lengthTurn_byte msgBuf hstream
  have hne : c ≠ fieldSeparator := by
    rintro rfl
    cases hc
  refine ⟨s₁, ?_, hs₁⟩
  rw [hturn, if_neg (by simp [hc]), if_neg (by omega), if_pos ⟨hne, hlen⟩]

/-- It ends with the separator. -/
theorem lengthTurn_separator (msgBuf : F8String) {sock : Socket}
    (hstream : sock.stream = fieldSeparator :: rest) (hlen : msgBuf.length < maxMsgLen) :
    ∃ sock', lengthTurn msgBuf sock = .ok (.inr (some (msgBuf ++ [fieldSeparator]))) sock' ∧
      sock'.stream = rest := by
  obtain ⟨s₁, hs₁, hturn⟩ := lengthTurn_byte msgBuf hstream
  refine ⟨s₁, ?_, hs₁⟩
  rw [hturn, if_neg (by simp), if_neg (by omega), if_neg (by simp)]

theorem lengthLoop_delivers : ∀ {digits : F8String} (msgBuf : F8String) {sock : Socket} {n : Nat},
    (∀ c ∈ digits, isdigit c = true) → sock.stream = digits ++ fieldSeparator :: rest →
    msgBuf.length + digits.length < maxMsgLen → digits.length < n →
    ∃ sock', Act.loop .fuel lengthTurn n msgBuf sock =
      .ok (some (msgBuf ++ (digits ++ [fieldSeparator]))) sock' ∧ sock'.stream = rest
  | _, _, _, 0, _, _, _, hn => absurd hn (Nat.not_lt_zero _)
  | [], msgBuf, sock, n + 1, _, hstream, hlen, _ => by
    obtain ⟨s₁, h₁, hs₁⟩ := lengthTurn_separator msgBuf hstream hlen
    exact ⟨s₁, loop_done h₁, hs₁⟩
  | c :: digits, msgBuf, sock, n + 1, hdigits, hstream, hlen, hn => by
    obtain ⟨hc, hdigits⟩ := List.forall_mem_cons.1 hdigits
    rw [List.length_cons] at hlen hn
    obtain ⟨s₁, h₁, hs₁⟩ := lengthTurn_digit msgBuf hstream hc (by omega)
    obtain ⟨s₂, h₂, hs₂⟩ := lengthLoop_delivers (msgBuf ++ [c]) (n := n) hdigits hs₁
      (by rw [List.length_append, List.length_singleton]; omega) (by omega)
    refine ⟨s₂, ?_, hs₂⟩
    rw [loop_next h₁, h₂]
    simp

/-- What a turn reads is a digit or the separator. -/
theorem lengthTurn_ok {msgBuf : F8String} {sock sock' : Socket}
    {r : F8String ⊕ Option F8String} (h : lengthTurn msgBuf sock = .ok r sock') :
    (∃ c, isdigit c = true ∧ sock.stream = c :: sock'.stream ∧
      (r = .inl (msgBuf ++ [c]) ∨ r = .inr (some (msgBuf ++ [c])))) ∨
    (sock.stream = fieldSeparator :: sock'.stream ∧
      r = .inr (some (msgBuf ++ [fieldSeparator]))) := by
  cases hstream : sock.stream with
  | nil =>
    unfold lengthTurn at h
    obtain ⟨bytes, s₁, h₁, -⟩ := bind_eq_ok h
    obtain ⟨hlen, hs₁⟩ := eq_of_sockRead h₁
    rw [hstream] at hs₁
    rw [(List.append_eq_nil_iff.1 hs₁.symm).1] at hlen
    cases hlen
  | cons c rest =>
    obtain ⟨s₁, rfl, hturn⟩ := lengthTurn_byte msgBuf hstream
    rw [hturn] at h
    split at h
    · cases h
    · rename_i hc
      split at h
      · cases h
      · by_cases hsep : c = fieldSeparator
        · subst hsep
          rw [if_neg (by simp)] at h
          cases h
          exact .inr ⟨rfl, rfl⟩
        · have hdigit : isdigit c = true := by simpa [hsep] using hc
          split at h <;> cases h
          · exact .inl ⟨c, hdigit, rfl, .inl rfl⟩
          · exact .inl ⟨c, hdigit, rfl, .inr rfl⟩

/-- The loop reads digits, and the separator unless the array is full. -/
theorem lengthLoop_ok : ∀ {n : Nat} {msgBuf line : F8String} {sock sock' : Socket},
    Act.loop .fuel lengthTurn n msgBuf sock = .ok (some line) sock' →
    ∃ digits last, line = msgBuf ++ (digits ++ last) ∧
      sock.stream = digits ++ (last ++ sock'.stream) ∧ (∀ c ∈ digits, isdigit c = true) ∧ (last = [] ∨ last = [fieldSeparator])
  | 0, _, _, _, _, h => by cases h
  | n + 1, msgBuf, line, sock, sock', h => by
    rw [Act.loop] at h
    obtain ⟨r, s₁, hturn, h⟩ := bind_eq_ok h
    rcases lengthTurn_ok hturn with ⟨c, hc, hs₁, rfl | rfl⟩ | ⟨hs₁, rfl⟩
    · obtain ⟨digits, last, hline, hstream, hdigits, hlast⟩ := lengthLoop_ok h
      refine ⟨c :: digits, last, ?_, ?_, List.forall_mem_cons.2 ⟨hc, hdigits⟩, hlast⟩
      · rw [hline]
        simp
      · rw [hs₁, hstream]
        rfl
    · cases h
      exact ⟨[c], [], rfl, hs₁, by simpa using hc, .inl rfl⟩
    · cases h
      exact ⟨[], [fieldSeparator], rfl, hs₁, by simp, .inr rfl⟩

/-! ## What is accepted -/

/-- The header lines that `read` accepts: there is room for one byte more than in a frame, which is
in the tags, behind the begin string or in front of the digits. -/
inductive Accepts (cx : F8MetaCntx) : F8String → F8String → Prop where
  | plain (x : UInt8) (digits : F8String) (hsep : x ≠ fieldSeparator)
      (hdigits : ∀ c ∈ digits, isdigit c = true) : Accepts cx (preamble cx) (x :: digits)
  | tag8 (d : UInt8) (digits : F8String) (hd : isdigit d = true)
      (hdigits : ∀ c ∈ digits, isdigit c = true) : Accepts cx (56 :: d :: assignmentSeparator ::
        (cx.beginStr ++ fieldSeparator :: [57, assignmentSeparator])) digits
  | nul (digits : F8String) (hdigits : ∀ c ∈ digits, isdigit c = true) :
      Accepts cx (56 :: assignmentSeparator ::
        (cx.beginStr ++ 0 :: fieldSeparator :: [57, assignmentSeparator])) digits
  | tag9 (d : UInt8) (digits : F8String) (hd : isdigit d = true)
      (hdigits : ∀ c ∈ digits, isdigit c = true) : Accepts cx (56 :: assignmentSeparator ::
        (cx.beginStr ++ fieldSeparator :: [57, d, assignmentSeparator])) digits

/-- A text in front of the begin string's terminator, and the rest. -/
theorem eq_of_cstr {val b : F8String} (h : cstr val = b) :
    val = b ∨ ∃ w, val = b ++ 0 :: w := by
  have hval := List.takeWhile_append_dropWhile (p := fun c : UInt8 => decide (c ≠ 0)) (l := val)
  unfold cstr at h
  rw [h] at hval
  cases hdrop : val.dropWhile fun c => decide (c ≠ 0) with
  | nil => exact .inl (by rw [← hval, hdrop, List.append_nil])
  | cons c w =>
    have hc : c = 0 := by
      have hhead := List.head?_dropWhile_not (fun c : UInt8 => decide (c ≠ 0)) val
      rw [hdrop] at hhead
      simpa using hhead
    exact .inr ⟨w, by rw [← hval, hdrop, hc]⟩

/-- A tag that begins with a digit, and what is behind the digit. -/
theorem eq_of_head? {t : F8String} {c : UInt8} (h : t.head? = some c) : ∃ t', t = c :: t' := by
  cases t with
  | nil => cases h
  | cons c' t' =>
    cases h
    exact ⟨t', rfl⟩

/-- Behind the second tag stand the bytes in front of the digits that the first ones leave, the
digits and the separator. -/
theorem bodyLength_eq {front digits last v rest : F8String}
    (hdigits : ∀ c ∈ digits, isdigit c = true) (hlast : last = [] ∨ last = [fieldSeparator])
    (hv : fastAtoiU32 v ≠ 0) (hsep : fieldSeparator ∉ v) (hfront : front.length ≤ 1)
    (h : front ++ (digits ++ last) = v ++ fieldSeparator :: rest) :
    v = front ++ digits ∧ last = [fieldSeparator] := by
  have hnone : fieldSeparator ∉ digits := fun hmem => by cases hdigits _ hmem
  have hempty : v ≠ [] := by
    rintro rfl
    exact hv rfl
  have hfront' : fieldSeparator ∉ front := by
    cases front with
    | nil => exact List.not_mem_nil
    | cons x front =>
      obtain rfl : front = [] := List.length_eq_zero_iff.1 (by simpa using hfront)
      cases v with
      | nil => exact absurd rfl hempty
      | cons y v =>
        obtain ⟨rfl, -⟩ := List.cons.inj h
        exact fun hmem => hsep (List.mem_cons.2 (.inl (List.mem_singleton.1 hmem)))
  have hbefore : fieldSeparator ∉ front ++ digits := by
    rw [List.mem_append]
    exact not_or.2 ⟨hfront', hnone⟩
  rw [← List.append_assoc] at h
  rcases hlast with rfl | rfl
  · rw [List.append_nil] at h
    exact absurd (h ▸ List.mem_append_right v List.mem_cons_self) hbefore
  · exact ⟨((List.append_cons_inj_of_notMem hbefore List.not_mem_nil).1 h).1.symm, rfl⟩

/-- **A header line with digits behind its first bytes** has room for one byte more. -/
theorem accepts_of_headerLine {msgBuf digits last : F8String}
    (hmsgBuf : msgBuf.length = cx.preambleSz) (hdigits : ∀ c ∈ digits, isdigit c = true)
    (hlast : last = [] ∨ last = [fieldSeparator]) (hv : fastAtoiU32 v ≠ 0)
    (h : HeaderLine cx (msgBuf ++ (digits ++ last)) v) :
    v.length < maxFldLength ∧ ∃ h', msgBuf ++ (digits ++ last) = h' ++ (v ++ [fieldSeparator]) ∧
      Accepts cx h' v := by
  generalize hline : msgBuf ++ (digits ++ last) = line at h
  obtain ⟨t₁, val, t₂, _, rest, ht₁, h8, hval, hbegin, ht₂, h9, hsep, -, -, -, hv'⟩ := h
  obtain ⟨t₁, rfl⟩ := eq_of_head? h8
  obtain ⟨t₂, rfl⟩ := eq_of_head? h9
  have hnone : assignmentSeparator ∉ digits ++ last := by
    rw [List.mem_append]
    rintro (hmem | hmem)
    · cases hdigits _ hmem
    · rcases hlast with rfl | rfl
      · cases hmem
      · cases List.mem_singleton.1 hmem
  -- the second `=` is one of the first bytes
  obtain ⟨front, hfirst, hbehind⟩ : ∃ front,
      msgBuf = (56 :: t₁) ++ assignmentSeparator :: (val ++ fieldSeparator ::
        ((57 :: t₂) ++ assignmentSeparator :: front)) ∧
      front ++ (digits ++ last) = v ++ fieldSeparator :: rest := by
    have hline' : msgBuf ++ (digits ++ last) = ((56 :: t₁) ++ assignmentSeparator ::
        (val ++ fieldSeparator :: (57 :: t₂))) ++ (assignmentSeparator ::
          (v ++ fieldSeparator :: rest)) := by
      rw [hline]
      simp
    rcases List.append_eq_append_iff.1 hline' with ⟨a, -, ha⟩ | ⟨a, ha, hb⟩
    · exact absurd (ha ▸ List.mem_append_right a List.mem_cons_self) hnone
    · cases a with
      | nil => exact absurd (hb ▸ List.mem_cons_self) hnone
      | cons c front =>
        rw [List.cons_append, List.cons.injEq] at hb
        obtain ⟨rfl, hb⟩ := hb
        exact ⟨front, by rw [ha]; simp, hb.symm⟩
  have hlen : t₁.length + val.length + t₂.length + front.length = cx.beginStr.length + 1 := by
    rw [hfirst] at hmsgBuf
    simp only [List.length_append, List.length_cons, F8MetaCntx.preambleSz] at hmsgBuf
    omega
  have hvalLen : cx.beginStr.length ≤ val.length := by
    rw [← hbegin]
    exact (List.takeWhile_prefix _).length_le
  obtain ⟨rfl, rfl⟩ := bodyLength_eq hdigits hlast hv hsep (by omega) hbehind
  refine ⟨hv', (56 :: t₁) ++ assignmentSeparator :: (val ++ fieldSeparator ::
    ((57 :: t₂) ++ [assignmentSeparator])), ?_, ?_⟩
  · rw [← hline, hfirst]
    simp
  rcases eq_of_cstr hbegin with rfl | ⟨w, rfl⟩
  · cases front with
    | cons x front =>
      rw [List.length_cons] at hlen
      obtain rfl : front = [] := List.length_eq_zero_iff.1 (by omega)
      obtain rfl : t₁ = [] := List.length_eq_zero_iff.1 (by omega)
      obtain rfl : t₂ = [] := List.length_eq_zero_iff.1 (by omega)
      exact .plain x digits (fun hx => hsep (hx ▸ List.mem_cons_self)) hdigits
    | nil =>
      rw [List.length_nil] at hlen
      cases t₁ with
      | cons d t₁ =>
        rw [List.length_cons] at hlen
        obtain rfl : t₁ = [] := List.length_eq_zero_iff.1 (by omega)
        obtain rfl : t₂ = [] := List.length_eq_zero_iff.1 (by omega)
        exact .tag8 d _ (ht₁ d (by simp)) hdigits
      | nil =>
        rw [List.length_nil] at hlen
        obtain ⟨d, rfl⟩ := List.length_eq_one_iff.1 (show t₂.length = 1 by omega)
        exact .tag9 d _ (ht₂ d (by simp)) hdigits
  · rw [List.length_append, List.length_cons] at hlen
    obtain rfl : w = [] := List.length_eq_zero_iff.1 (by omega)
    obtain rfl : t₁ = [] := List.length_eq_zero_iff.1 (by omega)
    obtain rfl : t₂ = [] := List.length_eq_zero_iff.1 (by omega)
    obtain rfl : front = [] := List.length_eq_zero_iff.1 (by omega)
    have haccepts : Accepts cx _ digits := .nul digits hdigits
    simpa using haccepts

section
variable (hbegin : ∀ c ∈ cx.beginStr, c ≠ 0 ∧ c ≠ fieldSeparator)
include hbegin

/-- A begin string is what it is extracted as. -/
theorem cstr_beginStr : cstr cx.beginStr = cx.beginStr := by
  unfold cstr
  rw [List.takeWhile_eq_self_iff]
  intro c hc
  simpa using (hbegin c hc).1

theorem cstr_beginStr_nul : cstr (cx.beginStr ++ [0]) = cx.beginStr := by
  have hnul : ∀ c ∈ cx.beginStr, decide (c ≠ 0) = true := by
    intro c hc
    simpa using (hbegin c hc).1
  unfold cstr
  rw [List.takeWhile_append_of_pos hnul, List.takeWhile_cons_of_neg (by simp), List.append_nil]

theorem not_mem_beginStr : fieldSeparator ∉ cx.beginStr := fun hmem => (hbegin _ hmem).2 rfl

theorem Accepts.headerLine (hlen : cx.beginStr.length + 1 < maxFldLength)
    (hv : v.length < maxFldLength) (h : Accepts cx h' v) :
    HeaderLine cx (h' ++ (v ++ [fieldSeparator])) v := by
  have hsep := not_mem_beginStr hbegin
  have hdigit : ∀ {digits : F8String}, (∀ c ∈ digits, isdigit c = true) →
      fieldSeparator ∉ digits := fun hdigits hmem => by cases hdigits _ hmem
  cases h with
  | plain x digits hx hdigits =>
    have hline := HeaderLine.mk [56] cx.beginStr [57] (x :: digits) [] (by decide +kernel) rfl hsep
      (cstr_beginStr hbegin) (by decide +kernel) rfl
      (by simpa [hdigit hdigits] using Ne.symm hx) (by decide +kernel) (by decide +kernel) (by omega) hv
    simpa [preamble] using hline
  | tag8 d _ hd hdigits =>
    have hline := HeaderLine.mk [56, d] cx.beginStr [57] v [] (by simpa using ⟨by decide +kernel, hd⟩) rfl
      hsep (cstr_beginStr hbegin) (by decide +kernel) rfl (hdigit hdigits) (by simp [maxMsgtypeFieldLen])
      (by decide +kernel) (by omega) hv
    simpa using hline
  | nul _ hdigits =>
    have hline := HeaderLine.mk [56] (cx.beginStr ++ [0]) [57] v [] (by decide +kernel) rfl
      (by simpa using ⟨hsep, by decide +kernel⟩) (cstr_beginStr_nul hbegin) (by decide +kernel) rfl (hdigit hdigits)
      (by decide +kernel) (by decide +kernel) (by simpa using hlen) hv
    simpa using hline
  | tag9 d _ hd hdigits =>
    have hline := HeaderLine.mk [56] cx.beginStr [57, d] v [] (by decide +kernel) rfl hsep
      (cstr_beginStr hbegin) (by simpa using ⟨by decide +kernel, hd⟩) rfl (hdigit hdigits) (by decide +kernel)
      (by simp [maxMsgtypeFieldLen]) (by omega) hv
    simpa using hline

end

/-- The first bytes that are read, with digits behind them. -/
theorem Accepts.split (h : Accepts cx h' v) : ∃ msgBuf digits, h' ++ v = msgBuf ++ digits ∧
    msgBuf.length = cx.preambleSz ∧ digits.length ≤ v.length ∧ ∀ c ∈ digits, isdigit c = true := by
  unfold F8MetaCntx.preambleSz
  cases h with
  | plain x digits hx hdigits =>
    refine ⟨preamble cx ++ [x], digits, by simp, ?_, by simp, hdigits⟩
    simp only [preamble, List.length_append, List.length_cons, List.length_nil]
    omega
  | tag8 d _ hd hdigits =>
    refine ⟨_, v, rfl, ?_, Nat.le_refl _, hdigits⟩
    simp only [List.length_append, List.length_cons, List.length_nil]
    omega
  | nul _ hdigits =>
    refine ⟨_, v, rfl, ?_, Nat.le_refl _, hdigits⟩
    simp only [List.length_append, List.length_cons, List.length_nil]
    omega
  | tag9 d _ hd hdigits =>
    refine ⟨_, v, rfl, ?_, Nat.le_refl _, hdigits⟩
    simp only [List.length_append, List.length_cons, List.length_nil]
    omega

theorem bodyLimit_eq (hlen : cx.beginStr.length + 1 < maxFldLength) :
    bodyLimit cx = maxMsgLen - (cx.preambleSz + chksumSz) := by
  unfold bodyLimit F8MetaCntx.preambleSz maxMsgLen maxMsgLength chksumSz
  unfold maxFldLength at hlen
  omega

/-- **What `read` delivers**: a complete message with a header line that is accepted. -/
theorem read_delivers (hbegin : ∀ c ∈ cx.beginStr, c ≠ 0 ∧ c ≠ fieldSeparator)
    (hlen : cx.beginStr.length + 1 < maxFldLength) {sock : Socket} (h : Accepts cx h' v)
    (hv : v.length < maxFldLength) (hvalue : fastAtoiU32 v = body.length)
    (hcomplete : Complete cx body tail) (hstream : sock.stream = message h' v body tail ++ rest) :
    ∃ sock', read cx sock = .ok (some (message h' v body tail)) sock' ∧ sock'.stream = rest := by
  obtain ⟨msgBuf, digits, hsplit, hmsgBuf, hle, hdigits⟩ := h.split
  have hsz : cx.preambleSz + chksumSz + maxFldLength < maxMsgLen := by
    unfold F8MetaCntx.preambleSz maxMsgLen maxMsgLength chksumSz
    unfold maxFldLength at hlen ⊢
    omega
  have hmessage : message h' v body tail =
      msgBuf ++ (digits ++ fieldSeparator :: (body ++ tail)) := by
    unfold message
    rw [← List.append_assoc, hsplit, List.append_assoc]
  have hline : msgBuf ++ (digits ++ [fieldSeparator]) = h' ++ (v ++ [fieldSeparator]) := by
    rw [← List.append_assoc, ← hsplit, List.append_assoc]
  have hstream' : sock.stream =
      msgBuf ++ (digits ++ fieldSeparator :: (body ++ (tail ++ rest))) := by
    rw [hstream, hmessage]
    simp
  obtain ⟨s₁, h₁, hs₁⟩ := sockRead_append msgBuf hstream'
  obtain ⟨s₂, h₂, hs₂⟩ := lengthLoop_delivers msgBuf (n := maxMsgLen + 1) hdigits hs₁ (by omega)
    (by omega)
  have hlimit := hcomplete.2.1
  rw [bodyLimit_eq hlen] at hlimit
  obtain ⟨s₃, h₃, hs₃⟩ := readBody_delivers cx (h' ++ (v ++ [fieldSeparator])) hvalue hcomplete
    (by omega) hs₂
  refine ⟨s₃, ?_, hs₃⟩
  unfold Connection.read
  rw [if_neg (by omega), ← hmsgBuf, bind_ok h₁, if_neg (not_not.2 rfl), bind_ok h₂, hline]
  refine ((h.headerLine hbegin hlen hv).readRest).trans (h₃.trans ?_)
  simp [message]

/-- Nothing else is delivered. -/
theorem read_ok {m : F8String} {sock sock' : Socket} (h : read cx sock = .ok (some m) sock') :
    ∃ h' v body tail, m = message h' v body tail ∧ Accepts cx h' v ∧ v.length < maxFldLength ∧
      fastAtoiU32 v = body.length ∧ Complete cx body tail ∧ sock.stream = m ++ sock'.stream := by
  unfold Connection.read at h
  split at h
  · cases h
  · obtain ⟨msgBuf, s₁, h₁, h⟩ := bind_eq_ok h
    obtain ⟨hmsgBuf, hs₁⟩ := eq_of_sockRead h₁
    rw [if_neg (not_not.2 hmsgBuf)] at h
    obtain ⟨r, s₂, h₂, h⟩ := bind_eq_ok h
    cases r with
    | none => cases h
    | some line =>
      obtain ⟨digits, last, rfl, hs₂, hdigits, hlast⟩ := lengthLoop_ok h₂
      obtain ⟨v, hline, h₃⟩ := readRest_ok h
      obtain ⟨body, tail, rfl, hvalue, hcomplete, hs₃⟩ := readBody_ok h₃
      obtain ⟨hv, h', hsplit, haccepts⟩ := accepts_of_headerLine hmsgBuf hdigits hlast
        (by have := hcomplete.1; omega) hline
      refine ⟨h', v, body, tail, ?_, haccepts, hv, hvalue, hcomplete, ?_⟩
      · rw [hsplit]
        simp [message]
      · rw [hs₁, hs₂, hs₃]
        simp

/-! ## Frames and irregular messages -/

/-- A value ends at the first separator. -/
theorem value_eq {v v' r r' : F8String} (hv : fieldSeparator ∉ v) (hv' : fieldSeparator ∉ v')
    (h : v ++ fieldSeparator :: r = v' ++ fieldSeparator :: r') : v = v' ∧ r = r' := by
  have hextract : extractValue (v ++ fieldSeparator :: r) = _ := extractValue_append hv
  rw [h, extractValue_append hv'] at hextract
  obtain rfl : v' = v := (Prod.mk.inj (Option.some.inj hextract)).1
  exact ⟨rfl, (List.cons.inj (List.append_cancel_left h)).2⟩

theorem not_mem_digits {digits : F8String} (hdigits : ∀ c ∈ digits, isdigit c = true) :
    fieldSeparator ∉ digits := fun hmem => by cases hdigits _ hmem

theorem ne_assignmentSeparator {d : UInt8} (hd : isdigit d = true) : d ≠ assignmentSeparator := by
  rintro rfl
  cases hd

theorem Accepts.not_mem (h : Accepts cx h' v) : fieldSeparator ∉ v := by
  cases h with
  | plain x digits hx hdigits =>
    rw [List.mem_cons]
    exact not_or.2 ⟨Ne.symm hx, not_mem_digits hdigits⟩
  | tag8 d _ hd hdigits => exact not_mem_digits hdigits
  | nul _ hdigits => exact not_mem_digits hdigits
  | tag9 d _ hd hdigits => exact not_mem_digits hdigits

/-- A frame has one header line. -/
theorem Accepts.eq_of_frame {digits r r' : F8String} (h : Accepts cx h' v)
    (hdigits : ∀ c ∈ digits, isdigit c = true)
    (heq : h' ++ (v ++ fieldSeparator :: r) = preamble cx ++ (digits ++ fieldSeparator :: r')) :
    h' = preamble cx ∧ v = digits ∧ r = r' := by
  have hsep := h.not_mem
  cases h with
  | plain x ds hx hds =>
    obtain ⟨hv, hr⟩ := value_eq hsep (not_mem_digits hdigits) (List.append_cancel_left heq)
    exact ⟨rfl, hv, hr⟩
  | tag8 d _ hd _ =>
    simp only [preamble, List.cons_append, List.cons.injEq] at heq
    exact absurd heq.2.1 (ne_assignmentSeparator hd)
  | nul _ _ =>
    simp only [preamble, List.cons_append, List.append_assoc, List.cons.injEq,
      List.append_cancel_left_eq] at heq
    exact absurd heq.2.2.1 (by decide)
  | tag9 d _ hd _ =>
    simp only [preamble, List.cons_append, List.append_assoc, List.cons.injEq,
      List.append_cancel_left_eq] at heq
    exact absurd heq.2.2.2.2.1 (ne_assignmentSeparator hd)

/-- The kinds of irregular messages but the last are accepted. -/
theorem Irregular.accepts (h : Irregular cx h' v) :
    (Accepts cx h' v ∧ v.length < maxFldLength ∧
      ¬ (h' = preamble cx ∧ (∀ c ∈ v, isdigit c = true) ∧ decimal v < 4294967296)) ∨
    (h' = preamble cx ∧ (∀ c ∈ v, isdigit c = true) ∧ decimal v < 4294967296 ∧
      maxFldLength ≤ v.length) := by
  cases h with
  | tag8 d _ hd hdigits hlen =>
    refine .inl ⟨.tag8 d v hd hdigits, hlen, fun h => ?_⟩
    have := congrArg List.length h.1
    simp [preamble] at this
  | nul _ hdigits hlen =>
    refine .inl ⟨.nul v hdigits, hlen, fun h => ?_⟩
    have := congrArg List.length h.1
    simp [preamble] at this
  | tag9 d _ hd hdigits hlen =>
    refine .inl ⟨.tag9 d v hd hdigits, hlen, fun h => ?_⟩
    have := congrArg List.length h.1
    simp [preamble] at this
  | first x digits hx hsep hdigits hlen =>
    refine .inl ⟨.plain x digits hsep hdigits, hlen, fun h => ?_⟩
    have := h.2.1 x List.mem_cons_self
    simp [hx] at this
  | wraps _ hdigits hlen hwraps =>
    refine .inl ⟨?_, hlen, fun h => by omega⟩
    cases v with
    | nil => cases hwraps
    | cons x ds =>
      obtain ⟨hx, hds⟩ := List.forall_mem_cons.1 hdigits
      refine .plain x ds ?_ hds
      rintro rfl
      cases hx
  | long _ hdigits hlen hwraps => exact .inr ⟨rfl, hdigits, hwraps, hlen⟩

/-- A stream that begins with the header line of a frame begins with no irregular message. -/
theorem IrregularMessage.not_prefix {m : F8String} (h : IrregularMessage cx m)
    (digits r : F8String) (hdigits : ∀ c ∈ digits, isdigit c = true)
    (hshort : digits.length < maxFldLength) (hlt : decimal digits < 4294967296) :
    ¬ m <+: preamble cx ++ (digits ++ fieldSeparator :: r) := by
  obtain ⟨h', v, body, tail, rfl, hirregular, -⟩ := h
  intro hprefix
  obtain ⟨rest, hrest⟩ := hprefix
  have heq : h' ++ (v ++ fieldSeparator :: (body ++ tail ++ rest)) =
      preamble cx ++ (digits ++ fieldSeparator :: r) := by
    rw [← hrest]
    simp [message]
  rcases hirregular.accepts with ⟨haccepts, -, hnot⟩ | ⟨rfl, hv, -, hlong⟩
  · obtain ⟨rfl, rfl, -⟩ := haccepts.eq_of_frame hdigits heq
    exact hnot ⟨rfl, hdigits, hlt⟩
  · obtain ⟨rfl, -⟩ := value_eq (not_mem_digits hv) (not_mem_digits hdigits)
      (List.append_cancel_left heq)
    exact absurd hshort (not_lt.2 hlong)

/-- What is accepted is a frame's header line or an irregular one. -/
theorem Accepts.irregular (h : Accepts cx h' v) (hv : v.length < maxFldLength)
    (hframe : ¬ (h' = preamble cx ∧ (∀ c ∈ v, isdigit c = true) ∧ decimal v < 4294967296)) :
    Irregular cx h' v := by
  cases h with
  | plain x digits hx hdigits =>
    cases hdigit : isdigit x with
    | false => exact .first x digits hdigit hx hdigits hv
    | true =>
      have hall : ∀ c ∈ x :: digits, isdigit c = true := List.forall_mem_cons.2 ⟨hdigit, hdigits⟩
      exact .wraps _ hall hv (not_lt.1 fun hlt => hframe ⟨rfl, hall, hlt⟩)
  | tag8 d _ hd hdigits => exact .tag8 d v hd hdigits hv
  | nul _ hdigits => exact .nul v hdigits hv
  | tag9 d _ hd hdigits => exact .tag9 d v hd hdigits hv

/-- What is delivered and is not irregular is a frame. -/
theorem isFrame_of_read {m : F8String} {sock sock' : Socket}
    (h : read cx sock = .ok (some m) sock') (hregular : ¬ IrregularMessage cx m) :
    IsFrame cx m := by
  obtain ⟨h', v, body, tail, rfl, haccepts, hv, hvalue, hcomplete, -⟩ := read_ok h
  by_cases hframe : h' = preamble cx ∧ (∀ c ∈ v, isdigit c = true) ∧ decimal v < 4294967296
  · obtain ⟨rfl, hdigits, hlt⟩ := hframe
    refine ⟨v, body, tail, rfl, hdigits, ?_, hcomplete⟩
    rw [← hvalue, fastAtoiU32_digits hdigits, Nat.mod_eq_of_lt hlt]
  · exact absurd ⟨h', v, body, tail, rfl, haccepts.irregular hv hframe, hvalue, hcomplete⟩ hregular

section
variable (hbegin : ∀ c ∈ cx.beginStr, c ≠ 0 ∧ c ≠ fieldSeparator)
  (hlen : cx.beginStr.length + 1 < maxFldLength)
include hlen

theorem Complete.length_lt (h : Complete cx body tail) : body.length < 4294967296 := by
  have hle := h.2.1
  rw [bodyLimit_eq hlen] at hle
  unfold maxMsgLen maxMsgLength at hle
  omega

include hbegin

/-- **A frame that is not irregular is delivered.** -/
theorem IsFrame.delivers {m : F8String} {sock : Socket} (h : IsFrame cx m)
    (hregular : ¬ IrregularMessage cx m) (hstream : sock.stream = m ++ rest) :
    ∃ sock', read cx sock = .ok (some m) sock' ∧ sock'.stream = rest := by
  obtain ⟨digits, body, tail, rfl, hdigits, hvalue, hcomplete⟩ := h
  have hlt : decimal digits < 4294967296 := by
    rw [hvalue]
    exact hcomplete.length_lt hlen
  have hvalue' : fastAtoiU32 digits = body.length := by
    rw [fastAtoiU32_digits hdigits, Nat.mod_eq_of_lt hlt, hvalue]
  have hshort : digits.length < maxFldLength := not_le.1 fun hlong =>
    hregular ⟨_, _, _, _, rfl, .long digits hdigits hlong hlt, hvalue', hcomplete⟩
  have haccepts : Accepts cx (preamble cx) digits := by
    cases digits with
    | nil => exact absurd hcomplete.1 (by rw [← hvalue]; exact Nat.lt_irrefl 0)
    | cons x ds =>
      obtain ⟨hx, hds⟩ := List.forall_mem_cons.1 hdigits
      refine .plain x ds ?_ hds
      rintro rfl
      cases hx
  exact read_delivers hbegin hlen haccepts hshort hvalue' hcomplete hstream

/-- **An irregular message** is a frame that is not delivered, or is delivered and no frame. -/
theorem IrregularMessage.fails {m : F8String} (h : IrregularMessage cx m) :
    (¬ IsFrame cx m ∧ ∀ sock rest, sock.stream = m ++ rest →
      ∃ sock', read cx sock = .ok (some m) sock') ∨
    (IsFrame cx m ∧ ∀ sock sock', read cx sock ≠ .ok (some m) sock') := by
  obtain ⟨h', v, body, tail, rfl, hirregular, hvalue, hcomplete⟩ := h
  rcases hirregular.accepts with ⟨haccepts, hv, hnot⟩ | ⟨rfl, hdigits, hlt, hlong⟩
  · refine .inl ⟨fun hframe => ?_, fun sock rest hstream => ?_⟩
    · obtain ⟨digits, body', tail', heq, hdigits, hvalue', hcomplete'⟩ := hframe
      obtain ⟨rfl, rfl, -⟩ := haccepts.eq_of_frame hdigits heq
      exact hnot ⟨rfl, hdigits, hvalue' ▸ hcomplete'.length_lt hlen⟩
    · obtain ⟨sock', hread, -⟩ := read_delivers hbegin hlen haccepts hv hvalue hcomplete hstream
      exact ⟨sock', hread⟩
  · refine .inr ⟨⟨v, body, tail, rfl, hdigits, ?_, hcomplete⟩, fun sock sock' hread => ?_⟩
    · rw [← hvalue, fastAtoiU32_digits hdigits, Nat.mod_eq_of_lt hlt]
    · obtain ⟨h'', v', body', tail', heq, haccepts, hv', -⟩ := read_ok hread
      obtain ⟨-, rfl, -⟩ := haccepts.eq_of_frame hdigits heq.symm
      exact absurd hv' (not_lt.2 hlong)

/-- **On one stream**: the reader delivers its frames unless it begins with an irregular message. -/
theorem framed_iff (stream : F8String) :
    Framed cx stream ↔ ¬ ∃ m, IrregularMessage cx m ∧ m <+: stream := by
  constructor
  · intro hframed hirregular
    obtain ⟨m, hm, hprefix⟩ := hirregular
    obtain ⟨rest, rfl⟩ := hprefix
    rcases hm.fails hbegin hlen with ⟨hnot, hread⟩ | ⟨hframe, hnot⟩
    · obtain ⟨sock', hread⟩ := hread ⟨m ++ rest, []⟩ rest rfl
      exact hnot (hframed.sound [] m sock' hread).1
    · obtain ⟨sock', hread⟩ := hframed.complete [] m hframe ⟨rest, rfl⟩
      exact hnot _ _ hread
  · intro hregular
    refine ⟨fun splits s sock hread => ?_, fun splits s hframe hprefix => ?_⟩
    · obtain ⟨-, -, -, -, -, -, -, -, -, hstream⟩ := read_ok hread
      exact ⟨isFrame_of_read hread
        fun hs => hregular ⟨s, hs, sock.stream, hstream.symm⟩, hstream⟩
    · obtain ⟨rest, rfl⟩ := hprefix
      obtain ⟨sock', hread, -⟩ := hframe.delivers hbegin hlen
        (fun hs => hregular ⟨s, hs, rest, rfl⟩)
        (show Socket.stream ⟨s ++ rest, splits⟩ = s ++ rest from rfl)
      exact ⟨sock', hread⟩

/-! ## Messages in a row -/

omit hbegin hlen in
/-- What has been read has been delivered by one of the calls. -/
theorem readMessages_ok : ∀ {n : Nat} {ms : List (Option F8String)} {sock sock' : Socket},
    readMessages cx n sock = .ok ms sock' → ∀ m ∈ ms, ∃ s s', read cx s = .ok m s'
  | 0, _, _, _, h => by
    cases h
    simp
  | n + 1, _, sock, sock', h => by
    obtain ⟨m, s₁, h₁, h⟩ := bind_eq_ok h
    obtain ⟨ms, s₂, h₂, h⟩ := bind_eq_ok h
    cases h
    intro m' hm'
    rcases List.mem_cons.1 hm' with rfl | hm'
    · exact ⟨sock, s₁, h₁⟩
    · exact readMessages_ok h₂ m' hm'

/-- Frames that are not irregular are delivered one by one. -/
theorem readMessages_frames {rest : F8String} : ∀ {frames : List F8String} {sock : Socket},
    (∀ f ∈ frames, IsFrame cx f ∧ ¬ IrregularMessage cx f) →
    sock.stream = frames.flatten ++ rest → ∃ sock',
      readMessages cx frames.length sock = .ok (frames.map some) sock' ∧ sock'.stream = rest
  | [], sock, _, hstream => ⟨sock, rfl, hstream⟩
  | f :: frames, sock, hframes, hstream => by
    obtain ⟨⟨hframe, hregular⟩, hframes⟩ := List.forall_mem_cons.1 hframes
    rw [List.flatten_cons, List.append_assoc] at hstream
    obtain ⟨s₁, h₁, hs₁⟩ := hframe.delivers hbegin hlen hregular hstream
    obtain ⟨s₂, h₂, hs₂⟩ := readMessages_frames hframes hs₁
    refine ⟨s₂, ?_, hs₂⟩
    rw [List.length_cons, readMessages, bind_ok h₁, bind_ok h₂]
    rfl

theorem splitInto_iff {frames : List F8String} (hframes : ∀ f ∈ frames, IsFrame cx f) :
    SplitInto cx frames ↔ ∀ f ∈ frames, ¬ IrregularMessage cx f := by
  constructor
  · intro hsplit f hf hirregular
    obtain ⟨sock', hread, -⟩ := hsplit [] []
    obtain ⟨s, s', hf'⟩ := readMessages_ok hread (some f) (List.mem_map_of_mem hf)
    rcases hirregular.fails hbegin hlen with ⟨hnot, -⟩ | ⟨-, hnot⟩
    · exact hnot (hframes f hf)
    · exact hnot s s' hf'
  · intro hregular splits rest
    exact readMessages_frames hbegin hlen (fun f hf => ⟨hframes f hf, hregular f hf⟩) rfl

/-- **The framing of the reader**: what `read` delivers is the frame at the front of the stream,
however it comes in, and the rest is left, unless the stream begins with an irregular message; and
frames in a row are split into these frames exactly when none of them is irregular. -/
theorem read_framed_iff :
    (∀ stream, Framed cx stream ↔ ¬ ∃ m, IrregularMessage cx m ∧ m <+: stream) ∧
    ∀ frames : List F8String, (∀ f ∈ frames, IsFrame cx f) →
      (SplitInto cx frames ↔ ∀ f ∈ frames, ¬ IrregularMessage cx f) :=
  ⟨framed_iff hbegin hlen, fun _ hframes => splitInto_iff hbegin hlen hframes⟩

end

/-- A heartbeat of five bytes. -/
def heartbeat : F8String :=
  message (preamble demoCntx) (ascii "5") (demoElement "35" "0") (demoElement "10" "161")

theorem heartbeat_isFrame : IsFrame demoCntx heartbeat :=
  ⟨_, _, _, rfl, by decide +kernel, by decide +kernel, by decide +kernel, by decide +kernel, by decide +kernel⟩

/-- On a stream of two heartbeats, each is read. -/
theorem read_framed_iff_demo :
    Framed demoCntx (heartbeat ++ heartbeat) ∧ SplitInto demoCntx [heartbeat, heartbeat] := by
  have hbegin : ∀ c ∈ demoCntx.beginStr, c ≠ 0 ∧ c ≠ fieldSeparator := by decide +kernel
  have hframed := read_framed_iff hbegin (by decide +kernel)
  have hregular : ∀ m r, IrregularMessage demoCntx m → ¬ m <+: heartbeat ++ r := fun m r hm => by
    have hnot := hm.not_prefix (ascii "5") (demoElement "35" "0" ++ demoElement "10" "161" ++ r)
      (by decide +kernel) (by decide +kernel) (by decide +kernel)
    simpa [heartbeat, message] using hnot
  refine ⟨(hframed.1 _).2 fun h => ?_, (hframed.2 _ ?_).2 ?_⟩
  · obtain ⟨m, hm, hprefix⟩ := h
    exact hregular m heartbeat hm hprefix
  · simpa using heartbeat_isFrame
  · simpa using fun h => hregular heartbeat [] h (by simp)

/-- A body length above the range of `unsigned`. -/
def wrapped : F8String :=
  message (preamble demoCntx) (ascii "4294967301") (demoElement "35" "0") (demoElement "10" "000")

theorem wrapped_irregular : IrregularMessage demoCntx wrapped :=
  ⟨_, _, _, _, rfl, .wraps _ (by decide +kernel) (by decide +kernel) (by decide +kernel), by decide +kernel,
    by decide +kernel, by decide +kernel, by decide +kernel⟩

/-- A message whose body length says 4294967301 is delivered with a body of five bytes. -/
theorem wrapped_delivered : ¬ Framed demoCntx wrapped := by
  rw [framed_iff (by decide +kernel) (by decide +kernel)]
  exact not_not.2 ⟨wrapped, wrapped_irregular, List.prefix_rfl⟩

end

end Fix8.Connection
