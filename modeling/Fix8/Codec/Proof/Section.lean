import Fix8.Codec.Proof.Buffer
import Fix8.Codec.Proof.Element

/-!
# What the decode of a section stores

`decode` changes the containers of its message in two ways: it appends the bytes of an unknown
element, and it stores a field made from an element under a tag of the trait table. The groups are
elsewhere.

* `Origin`: where the element of a stored field was read;
* `keeps_decodeGroup`: a group leaves the containers alone;
* **`triple_decode`**: what both changes keep, a decode keeps.
-/

namespace Fix8.Codec

open Lib

section
variable {D : Type} [FpType D] {d : Feed} {I : MessageBase D → Prop}
  {R : Cursor → MessageBase D → Prop}

/-! ## Groups -/

section
variable {γ : Type} {f : MessageBase D → γ} (hf : ∀ m gs, f (m.withGroups gs) = f m)
include hf

omit [FpType D] in
theorem keeps_findAddGroup {classes : List GroupClass} {fnum : Nat} :
    Act.Keeps f (MessageBase.findAddGroup classes fnum) := by
  intro m
  unfold MessageBase.findAddGroup
  cases m.findGroup fnum with
  | some g => rfl
  | none =>
    cases createNestedGroup classes fnum with
    | none => rfl
    | some c =>
      dsimp only [Res.state_ok]
      unfold MessageBase.addGroup
      split
      · rfl
      · exact hf _ _

theorem keeps_elementTurn {fuel : Nat} {nestedGroup : Nat → Nat → Act (MessageBase D) Stop Nat}
    {c : GroupClass} {fnum sOffset : Nat} :
    Act.Keeps f (elementTurn d fuel nestedGroup c fnum sOffset) := by
  unfold elementTurn
  apply Act.moves_ite
  · refine Act.moves_bind (Act.moves_onLocal _ _) fun r => ?_
    exact Act.moves_bind (Act.moves_modify fun m => hf _ _) fun _ => Act.moves_pure _
  · exact Act.moves_pure _

/-- A group changes nothing but the groups of its message. -/
theorem keeps_decodeGroup_of {fuel : Nat} {classes : List GroupClass} {fnum sOffset : Nat} :
    Act.Keeps f (decodeGroup d fuel classes fnum sOffset) := by
  cases fuel with
  | zero => exact Act.moves_throw _
  | succ fuel =>
    unfold decodeGroup
    refine Act.moves_bind (keeps_findAddGroup hf) fun c => ?_
    exact Act.moves_loop (fun _ => keeps_elementTurn hf) _ _

end

/-- A group leaves the containers of its message alone. -/
theorem keeps_decodeGroup {fuel : Nat} {classes : List GroupClass} {fnum sOffset : Nat} :
    Act.Keeps (MessageBase.own (D := D)) (decodeGroup d fuel classes fnum sOffset) :=
  keeps_decodeGroup_of fun _ _ => rfl

/-- A group does not change what its holder makes groups of. -/
theorem nested_decodeGroup {fuel : Nat} {classes : List GroupClass} {fnum sOffset : Nat} :
    Act.Keeps (MessageBase.nested (D := D)) (decodeGroup d fuel classes fnum sOffset) :=
  keeps_decodeGroup_of fun _ _ => rfl

/-! ## Fields -/

/-- What a field is stored from, its tag and its value: an element up to the separator, of a field
that is not there yet, or the data field behind a length field, in a turn from a state of `R`. -/
inductive Origin (d : Feed) (R : Cursor → MessageBase D → Prop) (itr : FieldTrait) (start : Nat) :
    Nat → F8String → Prop where
  | element (e : Element) (habsent : itr.present = false)
      (h : extractElement (d.rest start) = some e) :
      Origin d R itr start (fastAtoiU16 e.tag) e.val
  | data (c : Cursor) (m : MessageBase D) (length e : Element) (tag : F8String) (hR : R c m)
      (hlength : extractElement (d.rest c.sOffset) = some length) (htype : itr.ftype = .data)
      (h : extractElementFixedWidth (fastAtoiU32 length.val) (d.rest start) = some e)
      (htag : bufferText ((c.read length).looked e).tag = some tag) :
      Origin d R itr start (fastAtoiU16 tag) e.val

/-- The two changes and the decode of a group keep `I`; fields are stored behind the first `base`
positions, in turns from states of `R`. -/
structure Kept (d : Feed) (R : Cursor → MessageBase D → Prop) (base : Nat)
    (I : MessageBase D → Prop) : Prop where
  unknown : ∀ m u, I m → I (m.withOwn { m.own with unknown := m.own.unknown ++ u })
  store : ∀ m pos itr start be tv val, I m → base < pos → m.own.fp.find tv = some itr →
    Origin d R itr start tv val → d.cx.findBe tv = some be →
    I (m.withOwn ((m.own.addFieldDecoder tv pos (d.createField be tv start val)).setPresent tv))
  group : ∀ m fuel fnum sOffset, I m →
    Act.Triple (fun s => s = m) (decodeGroup d fuel m.nested fnum sOffset) (fun _ => I) (fun _ => I)

/-- What only looks at the containers need not look at groups. -/
theorem kept_of_own {base : Nat} {I : FieldStore D → Prop}
    (hunknown : ∀ o u, I o → I { o with unknown := o.unknown ++ u })
    (hstore : ∀ o pos itr start be tv val, I o → base < pos → o.fp.find tv = some itr →
      Origin d R itr start tv val → d.cx.findBe tv = some be →
      I ((o.addFieldDecoder tv pos (d.createField be tv start val)).setPresent tv)) :
    Kept d R base fun m : MessageBase D => I m.own where
  unknown := fun m u => hunknown m.own u
  store := fun m => hstore m.own
  group := by
    rintro m fuel fnum sOffset hm s rfl
    have hkeep : ∀ m m' : MessageBase D, m'.own = m.own → I m.own → I m'.own := by
      intro m m' hown hm
      rwa [hown]
    exact keeps_decodeGroup.triple hkeep s hm

/-- From every message that satisfies `P`, `m` ends in `I`, also when it throws, and its value
satisfies `V`. -/
abbrev Leaves {α : Type} (I P : MessageBase D → Prop) (V : α → Prop)
    (m : Act (MessageBase D) Stop α) : Prop :=
  Act.Triple P m (fun a s => V a ∧ I s) (fun _ => I)

/-- The cursor is behind the first `base` positions. -/
def Behind (base : Nat) (c : Cursor) : Prop := base ≤ c.pos

/-- What a turn of the loop delivers. -/
def TurnBehind (base : Nat) : Cursor ⊕ Cursor → Prop
  | .inl c => Behind base c
  | .inr _ => True

variable {base : Nat}

theorem leaves_unknownField (h : Kept d R base I) {permissive : Bool} {c : Cursor} {result : Nat}
    (hc : Behind base c) :
    Leaves I I (TurnBehind base) (unknownField d permissive c result) := by
  unfold unknownField
  apply Act.triple_ite
  · intro _
    refine Act.triple_bind (R := fun _ => I) (Act.triple_modify fun m hm => ?_) fun _ => ?_
    · exact h.unknown _ _ hm
    · exact Act.triple_pure fun _ hm => ⟨hc, hm⟩
  · exact fun _ => Act.triple_pure fun _ hm => ⟨trivial, hm⟩

theorem leaves_storeField (h : Kept d R base I) {fuel start tv : Nat} {itr : FieldTrait}
    {val : F8String} {c : Cursor} {m : MessageBase D} (hm : I m) (hc : Behind base c)
    (hitr : m.own.fp.find tv = some itr) (horig : Origin d R itr start tv val) :
    Leaves I (fun s => s = m) (fun c' => Behind base c' ∧ c'.tag = c.tag)
      (storeField d fuel itr tv start val c) := by
  have hnext : Behind base { c with pos := c.pos + 1 } := Nat.le_succ_of_le hc
  unfold storeField
  cases hbe : d.cx.findBe tv with
  | none =>
    apply Act.triple_throw
    rintro s rfl
    exact hm
  | some be =>
    refine Act.triple_bind (R := fun _ => I) (Act.triple_modify fun s hs => ?_) fun _ => ?_
    · subst hs
      exact h.store _ _ _ _ _ _ _ hm (Nat.lt_succ_of_le hc) hitr horig hbe
    · apply Act.triple_ite
      · intro _
        refine Act.triple_get fun s hs => ?_
        refine Act.triple_bind (h.group s fuel tv c.sOffset hs) fun sOffset => ?_
        exact Act.triple_pure fun _ hs => ⟨⟨hnext, rfl⟩, hs⟩
      · exact fun _ => Act.triple_pure fun _ hs => ⟨⟨hnext, rfl⟩, hs⟩

/-- `c` is behind the length field that a turn from `c₀` has read. -/
theorem leaves_decodeData (h : Kept d R base I) {permissive : Bool} {fuel lasttv : Nat}
    {length : Element} {c₀ c : Cursor} {m₀ : MessageBase D} (hR : R c₀ m₀)
    (hlength : extractElement (d.rest c₀.sOffset) = some length)
    (htag : c.tag = (c₀.read length).tag) (hc : Behind base c) :
    Leaves I I (TurnBehind base)
      (decodeData (D := D) d permissive fuel lasttv length.val c) := by
  unfold decodeData
  apply Act.triple_ite
  · exact fun _ => Act.triple_throw fun _ hm => hm
  · intro _
    cases he : extractElementFixedWidth (fastAtoiU32 length.val) (d.rest c.sOffset) with
    | none => exact Act.triple_throw fun _ hm => hm
    | some e =>
      dsimp only
      cases htext : bufferText (overwrite (overwrite c.tag [0]) e.tag) with
      | none => exact Act.triple_throw fun _ hm => hm
      | some tag =>
        dsimp only
        refine Act.triple_get fun m hm => ?_
        cases hitr : m.own.fp.find (fastAtoiU16 tag) with
        | none =>
          rintro s rfl
          have hlooked : Behind base (c.looked e) := hc
          exact leaves_unknownField h hlooked s hm
        | some itr =>
          dsimp only
          apply Act.triple_ite
          · rintro - s rfl
            exact ⟨hc, hm⟩
          · intro hdata
            have htype : itr.ftype = .data := not_not.1 fun hne => hdata (.inl hne)
            have horig : Origin d R itr c.sOffset (fastAtoiU16 tag) e.val :=
              .data c₀ m₀ length e tag hR hlength htype he (by
                rw [← htext]
                exact congrArg (fun buf => bufferText (overwrite (overwrite buf [0]) e.tag)) htag.symm)
            refine Act.triple_bind (leaves_storeField h hm hc hitr horig) fun c' => ?_
            exact Act.triple_pure fun _ hs => ⟨hs.1.1, hs.2⟩

theorem leaves_decodeTurn (h : Kept d R base I) {permissive : Bool} {fuel : Nat} {c : Cursor}
    (hc : Behind base c) :
    Leaves I (fun m => R c m ∧ I m) (TurnBehind base)
      (decodeTurn (D := D) d permissive fuel c) := by
  unfold decodeTurn
  cases he : extractElement (d.rest c.sOffset) with
  | none => exact Act.triple_pure fun _ hm => ⟨trivial, hm.2⟩
  | some e =>
    dsimp only
    refine Act.triple_get fun m ⟨hR, hm⟩ => ?_
    cases hitr : m.own.fp.find (fastAtoiU16 e.tag) with
    | none =>
      rintro s rfl
      have hread : Behind base (c.read e) := hc
      exact leaves_unknownField h hread s hm
    | some itr =>
      dsimp only
      split
      · split
        · rintro s rfl
          exact ⟨hc, hm⟩
        · rintro s rfl
          exact hm
      · rename_i habsent
        have horig : Origin d R itr c.sOffset (fastAtoiU16 e.tag) e.val :=
          .element e (Bool.not_eq_true _ ▸ habsent) he
        refine Act.triple_bind (leaves_storeField h hm hc hitr horig) fun c' => ?_
        refine Act.triple_ite (fun _ => Act.triple_pure fun _ hs => ⟨hs.1.1, hs.2⟩) ?_
        rintro - s ⟨⟨hc', htag⟩, hs⟩
        exact leaves_decodeData h hR he htag hc' s hs

omit [FpType D] in
theorem leaves_checkMissing {fp : FieldTraits} :
    Leaves I I (fun _ => True) (checkMissing (D := D) d.cx fp) := by
  unfold checkMissing
  dsimp only
  split
  · exact Act.triple_pure fun _ hm => ⟨trivial, hm⟩
  · split <;> exact Act.triple_throw fun _ hm => hm

/-- A decode goes on in a state of `R`. -/
def GoesOn (d : Feed) (permissive : Bool) (fuel : Nat) (R : Cursor → MessageBase D → Prop) : Prop :=
  ∀ c m c' m', R c m → decodeTurn d permissive fuel c m = .ok (.inl c') m' → R c' m'

theorem leaves_loop (h : Kept d R base I) {permissive : Bool} {fuel n : Nat} {c : Cursor}
    (hnext : GoesOn d permissive fuel R) :
    Act.Triple (fun s => Behind base c ∧ R c s ∧ I s)
      (Act.loop .fuel (decodeTurn (D := D) d permissive fuel) n c) (fun _ => I) (fun _ => I) := by
  have hturn : ∀ c : Cursor, Act.Triple (fun s => Behind base c ∧ R c s ∧ I s)
      (decodeTurn (D := D) d permissive fuel c)
      (Act.Turned (fun c s => Behind base c ∧ R c s ∧ I s) fun _ => I)
      (fun _ => I) := by
    intro c s ⟨hc, hs⟩
    have hleaves : Leaves I (fun m => R c m ∧ I m) (TurnBehind base)
        (decodeTurn (D := D) d permissive fuel c) := leaves_decodeTurn h hc
    have hleaves := hleaves s hs
    cases hres : decodeTurn d permissive fuel c s with
    | throw e s' =>
      rw [hres] at hleaves
      exact hleaves
    | ok r s' =>
      rw [hres] at hleaves
      cases r with
      | inl c' => exact ⟨hleaves.1, hnext _ _ _ _ hs.1 hres, hleaves.2⟩
      | inr c' => exact hleaves.2
  exact Act.triple_loop hturn (fun _ _ hs => hs.2.2) _ _

/-- **What both changes keep, a decode keeps**, from a message with `base` positions on. -/
theorem leaves_decode_from (h : Kept d R base I) {permissive : Bool} {fuel sOffset : Nat}
    {m : MessageBase D} (hnext : GoesOn d permissive fuel R)
    (hR : R ⟨sOffset, m.own.pos.length, none, []⟩ m) :
    Leaves I (fun s => s = m ∧ I m ∧ base ≤ m.own.pos.length) (fun _ => True)
      (decode (D := D) d permissive fuel sOffset) := by
  unfold decode
  refine Act.triple_get fun s hs => ?_
  obtain ⟨rfl, hm⟩ := hs
  refine Act.triple_bind (R := fun _ => I) ?_ fun c => ?_
  · rintro s' rfl
    exact leaves_loop h hnext s' ⟨hm.2, hR, hm.1⟩
  · refine Act.triple_get fun s hs => ?_
    refine Act.triple_bind (R := fun _ s => True ∧ I s) ?_ fun _ => ?_
    · rintro s' rfl
      exact leaves_checkMissing s' hs
    · exact Act.triple_pure fun _ hs => hs

theorem leaves_decode (h : Kept d (fun _ _ => True) base I) {permissive : Bool}
    {fuel sOffset : Nat} :
    Leaves I (fun m => I m ∧ base ≤ m.own.pos.length) (fun _ => True)
      (decode (D := D) d permissive fuel sOffset) :=
  fun m hm => leaves_decode_from h (fun _ _ _ _ _ _ => trivial) trivial m ⟨rfl, hm⟩

/-! ## Complete messages -/

/-- What `factory` has done when it returns a message. -/
structure Built (cx : F8MetaCntx) (now : Ticks) (call fuel : Nat) (text : F8String)
    (permissive : Bool) (msg : Message D) (hlen : Nat) (len mtype : F8String) (bme : MessageClass)
    (header body trailer : MessageBase D) (bodyStart trailerStart : Nat) : Prop where
  extracted : extractHeader text = (hlen, len, mtype)
  message : ¬ (cstr mtype = ascii "header" ∨ cstr mtype = ascii "trailer")
  findBme : cx.findBme (cstr mtype) = some bme
  headerDecoded : decode ⟨cx, now, call, text, 0⟩ permissive fuel hlen cx.mkHdr = .ok bodyStart header
  bodyDecoded : decode ⟨cx, now, call, text, 0⟩ permissive fuel bodyStart (bme.create false) =
    .ok trailerStart body
  trailerDecoded : ∃ n, decode ⟨cx, now, call, text, 7⟩ permissive fuel trailerStart cx.mkTrl =
    .ok n trailer
  msgType : msg.msgType = cstr mtype
  msgHeader : msg.header = (header.setPreamble commonBodyLength
    (.int ((fastAtoiU32 len : Int).bmod 4294967296))).setPreamble commonMsgType
      (.string (cstr mtype))
  msgBody : msg.body = body
  msgTrailer : msg.trailer = trailer ∨ ∃ c, msg.trailer = trailer.setPreamble commonCheckSum c
  checkSumTag : (text.drop (text.length - 7)).take 2 = ascii "10"

omit [FpType D] in
theorem partOf_ok {α : Type} {r : Res (MessageBase D) Stop α} {p : α × MessageBase D}
    (h : partOf r = .ok p) : r = .ok p.1 p.2 := by
  cases r with
  | ok a m =>
    obtain rfl := Except.ok.inj h
    rfl
  | throw e m => exact absurd h (by simp [partOf])

omit [FpType D] in
theorem partOf_bind {α β : Type} {a : α} {m : MessageBase D}
    {k : α × MessageBase D → Except Stop β} : (partOf (Res.ok a m) >>= k) = k (a, m) := rfl

theorem bind_eq_ok {ε α β : Type} {x : Except ε α} {f : α → Except ε β} {b : β}
    (h : (x >>= f) = .ok b) : ∃ a, x = .ok a ∧ f a = .ok b := by
  cases x with
  | error e => exact absurd h (by simp [bind, Except.bind])
  | ok a => exact ⟨a, rfl, h⟩

theorem factory_hlen {cx : F8MetaCntx} {now : Ticks} {call fuel : Nat} {text : F8String}
    {noChksum permissive : Bool} {msg : Message D}
    (h : factory cx now call fuel text noChksum permissive = .ok msg) :
    (extractHeader text).1 ≠ 0 := by
  unfold factory at h
  rcases hext : extractHeader text with ⟨hlen, len, mtype⟩
  rw [hext] at h
  dsimp only at h
  split at h
  · exact absurd h (by simp [throw, throwThe, MonadExceptOf.throw])
  · assumption

/-- **`factory` returns what the three decodes have made.** -/
theorem factory_ok {cx : F8MetaCntx} {now : Ticks} {call fuel : Nat} {text : F8String}
    {noChksum permissive : Bool} {msg : Message D}
    (h : factory cx now call fuel text noChksum permissive = .ok msg) :
    ∃ hlen len mtype bme header body trailer bodyStart trailerStart,
      Built cx now call fuel text permissive msg hlen len mtype bme header body trailer bodyStart
        trailerStart := by
  unfold factory at h
  rcases hext : extractHeader text with ⟨hlen, len, mtype⟩
  rw [hext] at h
  dsimp only at h
  split at h
  · exact absurd h (by simp [throw, throwThe, MonadExceptOf.throw])
  split at h
  · exact absurd h (by simp [throw, throwThe, MonadExceptOf.throw])
  rename_i hmessage
  cases hbme : cx.findBme (cstr mtype) with
  | none =>
    rw [hbme] at h
    exact absurd h (by simp [throw, throwThe, MonadExceptOf.throw])
  | some bme =>
    rw [hbme] at h
    dsimp only at h
    obtain ⟨m, hm, h⟩ := bind_eq_ok h
    unfold Message.decode at hm
    dsimp only at hm
    obtain ⟨⟨bodyStart, header⟩, hheader, hm⟩ := bind_eq_ok hm
    obtain ⟨⟨trailerStart, body⟩, hbody, hm⟩ := bind_eq_ok hm
    obtain ⟨⟨n, trailer⟩, htrailer, hm⟩ := bind_eq_ok hm
    obtain rfl := Except.ok.inj hm
    have hheader := partOf_ok hheader
    have hbody := partOf_ok hbody
    have htrailer := partOf_ok htrailer
    refine ⟨hlen, len, mtype, bme, header, body, trailer, bodyStart, trailerStart, ?_⟩
    split at h
    · exact absurd h (by simp [throw, throwThe, MonadExceptOf.throw])
    rename_i htag
    have htag := not_not.1 htag
    split at h
    · obtain rfl := Except.ok.inj h
      exact ⟨hext, hmessage, hbme, hheader, hbody, ⟨n, htrailer⟩, rfl, rfl, rfl, .inl rfl, htag⟩
    · split at h
      · exact absurd h (by simp [throw, throwThe, MonadExceptOf.throw])
      · obtain rfl := Except.ok.inj h
        exact ⟨hext, hmessage, hbme, hheader, hbody, ⟨n, htrailer⟩, rfl, rfl, rfl, .inr ⟨_, rfl⟩,
          htag⟩

/-- And it returns what it has made of three decodes, where it does not check the sum. -/
theorem factory_of {cx : F8MetaCntx} {now : Ticks} {call fuel : Nat} {text : F8String}
    {permissive : Bool} {hlen : Nat} {len mtype : F8String} {bme : MessageClass}
    {header body trailer : MessageBase D} {bodyStart trailerStart n : Nat} (h0 : hlen ≠ 0)
    (hext : extractHeader text = (hlen, len, mtype))
    (hmessage : ¬ (cstr mtype = ascii "header" ∨ cstr mtype = ascii "trailer"))
    (hbme : cx.findBme (cstr mtype) = some bme)
    (hheader : decode ⟨cx, now, call, text, 0⟩ permissive fuel hlen cx.mkHdr =
      .ok bodyStart header)
    (hbody : decode ⟨cx, now, call, text, 0⟩ permissive fuel bodyStart (bme.create false) =
      .ok trailerStart body)
    (htrailer : decode ⟨cx, now, call, text, 7⟩ permissive fuel trailerStart cx.mkTrl =
      .ok n trailer)
    (htag : (text.drop (text.length - 7)).take 2 = ascii "10") :
    factory cx now call fuel text true permissive = .ok ⟨cstr mtype,
      (header.setPreamble commonBodyLength
        (.int ((fastAtoiU32 len : Int).bmod 4294967296))).setPreamble commonMsgType
          (.string (cstr mtype)), body, trailer⟩ := by
  have hdecode : (cx.newMessage (cstr mtype) bme false).decode cx now call fuel text hlen 7
      permissive = .ok ⟨cstr mtype, header, body, trailer⟩ := by
    unfold Message.decode
    dsimp only [F8MetaCntx.newMessage]
    rw [hheader, partOf_bind, hbody, partOf_bind, htrailer, partOf_bind]
    rfl
  unfold factory
  rw [hext]
  dsimp only
  rw [if_neg h0, if_neg hmessage, hbme]
  dsimp only
  rw [hdecode]
  dsimp only [bind, Except.bind]
  rw [if_neg (not_not.2 htag)]
  rfl

end

end Fix8.Codec
