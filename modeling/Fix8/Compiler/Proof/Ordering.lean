import Fix8.Compiler.Proof.Sharing
import Fix8.Lib.Rank
import Mathlib.Data.List.Dedup

/-!
# Positions of fields

The position of a trait is at first the place of its element among the children of its parent, modulo
2^16. `process_ordering` counts those of a message from 1; the tables of the groups, which
`process_group_ordering` does not come to, keep them, and a group has the table of the first one with
the same count field and hash.

* `Places`: the traits that are made of elements; `loaded_places`, `found_places`;
* `inOrder_iff`: the traits of a message in order;
* `classAt_eq`: the table of a group class;
* **`field_order_iff`**.
-/

namespace Fix8.Compiler

open Codec (F8String ascii)
open Lib

/-! ## Elements and their traits -/

namespace GroupElement

def attrs : GroupElement → FieldElement
  | mk attrs _ _ => attrs

def groups : GroupElement → List GroupElement
  | mk _ _ groups => groups

/-- The elements for the traits of a group, in the order in which they are read. -/
def children : GroupElement → List FieldElement
  | mk _ fields groups => fields ++ groups.map attrs

end GroupElement

/-- The elements for the traits of a message, in the order in which they are read. -/
def MessageElement.children (el : MessageElement) : List FieldElement :=
  el.groups.map GroupElement.attrs ++ el.fields

theorem MessageSpec.fields_withFields {g : MessageSpec} {fields : Presence} :
    (g.withFields fields).fields = fields := by
  cases g
  rfl

theorem MessageSpec.fields_withGroups {g : MessageSpec} {groups : List (Nat × MessageSpec)} :
    (g.withGroups groups).fields = g.fields := by
  cases g
  rfl

theorem MessageSpec.groups_withGroups {g : MessageSpec} {groups : List (Nat × MessageSpec)} :
    (g.withGroups groups).groups = groups := by
  cases g
  rfl

theorem MessageSpec.fields_withHash {g : MessageSpec} {hv : UInt32} :
    (g.withHash hv).fields = g.fields := by
  cases g
  rfl

namespace Schema

/-- The number of the field that an element names. -/
def numOf (s : Schema) (el : FieldElement) : Option Nat :=
  if el.required.isSome then (el.name.bind s.findField).map (·.1) else none

/-- The tag of its trait. -/
def tagOf (s : Schema) (el : FieldElement) : Option Nat := (s.numOf el).map (· % 65536)

/-- The element that the trait with a tag is made of: the first that is read. -/
def kept (s : Schema) (els : List FieldElement) (k : Nat) : Option FieldElement :=
  els.find? fun el => s.tagOf el = some k

/-- The traits are made of these elements, and have their places as positions. -/
structure Places (s : Schema) (fields : Presence) (els : List FieldElement) : Prop where
  fnum : ∀ k t, fields.get? k = some t → t.fnum = k
  pos : ∀ k, (fields.get? k).map (·.pos) = (s.kept els k).map (·.subIdx % 65536)

variable {s : Schema} {fields : Presence} {els : List FieldElement} {el : FieldElement} {k : Nat}
  {t : FieldTrait} {st : Glob}

theorem kept_concat : s.kept (els ++ [el]) k =
    (s.kept els k).or (if s.tagOf el = some k then some el else none) := by
  unfold kept
  rw [List.find?_append, List.find?_singleton]
  simp

theorem places_empty : s.Places OrdMap.empty [] :=
  ⟨fun _ _ h => absurd h (by simp), fun _ => rfl⟩

theorem Places.get?_isSome (h : s.Places fields els) :
    (fields.get? k).isSome = (s.kept els k).isSome := by
  rw [← Option.isSome_map, h.pos, Option.isSome_map]

/-- An element that gives no trait. -/
theorem Places.skip (h : s.Places fields els)
    (hskip : ∀ k, s.tagOf el = some k → (fields.get? k).isSome) : s.Places fields (els ++ [el]) := by
  refine ⟨h.fnum, fun k => ?_⟩
  rw [h.pos, kept_concat]
  split
  · rename_i htag
    have hsome := hskip k htag
    rw [h.get?_isSome] at hsome
    obtain ⟨e, he⟩ := Option.isSome_iff_exists.1 hsome
    rw [he, Option.some_or]
  · rw [Option.or_none]

/-- An element that gives one. -/
theorem Places.add (h : s.Places fields els) (htag : s.tagOf el = some k)
    (hnew : fields.get? k = none) (hfnum : t.fnum = k) (hpos : t.pos = el.subIdx % 65536) :
    s.Places (fields.insert k t) (els ++ [el]) := by
  have hget : ∀ k', (fields.insert k t).get? k' = if k' = k then some t else fields.get? k' := by
    intro k'
    rw [OrdMap.get?_insert, hnew]
    rfl
  constructor
  · intro k' t' ht'
    rw [hget] at ht'
    split at ht'
    · rename_i hk
      obtain rfl := Option.some.inj ht'
      rw [hfnum, hk]
    · exact h.fnum k' t' ht'
  · intro k'
    rw [hget, kept_concat]
    by_cases hk : k' = k
    · subst hk
      have hnone := h.pos k'
      rw [hnew, Option.map_none, eq_comm, Option.map_eq_none_iff] at hnone
      rw [if_pos rfl, if_pos htag, hnone, Option.none_or, Option.map_some, Option.map_some, hpos]
    · rw [if_neg hk, if_neg fun heq => hk (Option.some.inj (heq.symm.trans htag)), Option.or_none,
        h.pos]

theorem Places.special (h : s.Places fields els) :
    s.Places (processSpecialTraits k fields) els := by
  have hreplace : ∀ {t t' : FieldTrait}, fields.get? k = some t → t'.fnum = t.fnum →
      t'.pos = t.pos → s.Places (fields.replace k t') els := by
    intro t t' ht hfnum hpos
    constructor
    · intro k' u hu
      rw [OrdMap.get?_replace] at hu
      split at hu
      · rename_i hk
        rw [ht, Option.map_some] at hu
        obtain rfl := Option.some.inj hu
        rw [hfnum, hk, h.fnum k t ht]
      · exact h.fnum k' u hu
    · intro k'
      rw [← h.pos, OrdMap.get?_replace]
      split
      · rename_i hk
        rw [hk, ht, Option.map_some, Option.map_some, Option.map_some, hpos]
      · rfl
  unfold processSpecialTraits
  split
  · exact h
  · rename_i t ht
    split
    · exact hreplace ht rfl rfl
    · split
      · exact hreplace ht rfl rfl
      · exact h

/-! ## Reading the elements -/

theorem tagOf_found {name required : F8String} {num : Nat} {fs : FieldSpec} (hname : el.name = some name)
    (hrequired : el.required = some required) (hfind : s.findField name = some (num, fs)) :
    s.tagOf el = some (num % 65536) := by
  rw [tagOf, numOf, hname, hrequired, Option.isSome_some, if_pos rfl, Option.bind_some, hfind]
  rfl

theorem tagOf_unknown {name required : F8String} (hname : el.name = some name)
    (hrequired : el.required = some required) (hfind : s.findField name = none) :
    s.tagOf el = none := by
  rw [tagOf, numOf, hname, hrequired, Option.isSome_some, if_pos rfl, Option.bind_some, hfind]
  rfl

theorem tagOf_missing
    (h : ∀ name required, el.name = some name → el.required = some required → False) :
    s.tagOf el = none := by
  unfold tagOf numOf
  cases hrequired : el.required with
  | none => rfl
  | some required =>
    cases hname : el.name with
    | none => rfl
    | some name => exact (h name required hname hrequired).elim

theorem Places.skip_of_none (h : s.Places fields els) (hnone : s.tagOf el = none) :
    s.Places fields (els ++ [el]) :=
  h.skip fun k htag => absurd (hnone.symm.trans htag) (by simp)

theorem Places.skip_of_some (h : s.Places fields els) (htag : s.tagOf el = some k)
    (hsome : (fields.get? k).isSome) : s.Places fields (els ++ [el]) :=
  h.skip fun _ hk => Option.some.inj (htag.symm.trans hk) ▸ hsome

theorem Places.field {r : Presence × Glob} (h : s.Places r.1 els) (el : FieldElement) :
    s.Places (processMessageField s r el).1 (els ++ [el]) := by
  unfold processMessageField
  split
  · rename_i fname required hname hrequired
    split
    · rename_i hfind
      exact h.skip_of_none (tagOf_unknown hname hrequired hfind)
    · rename_i num fs hfind
      have htag := tagOf_found hname hrequired hfind
      dsimp only
      split
      · rename_i hsome
        exact h.skip_of_some htag hsome
      · rename_i hnone
        exact (h.add htag (Option.not_isSome_iff_eq_none.1 hnone) rfl rfl).special
  · rename_i hmissing
    exact h.skip_of_none (tagOf_missing hmissing)

theorem Places.read (h : s.Places fields els) (flist : List FieldElement) (st : Glob) :
    s.Places (processMessageFields s fields st flist).1 (els ++ flist) := by
  unfold processMessageFields
  have hfold : ∀ (flist : List FieldElement) (els : List FieldElement) (r : Presence × Glob),
      s.Places r.1 els → s.Places (flist.foldl (processMessageField s) r).1 (els ++ flist) := by
    intro flist
    induction flist with
    | nil =>
      intro els r hr
      rwa [List.append_nil]
    | cons el flist ih =>
      intro els r hr
      have hrest := ih _ _ (hr.field el)
      rwa [List.append_assoc] at hrest
  exact hfold flist els (fields, st) h

/-- What `parse_groups` does to the traits of the parent. -/
theorem Places.group {ritr : MessageSpec} (h : s.Places ritr.fields els) (gel : GroupElement)
    (st : Glob) : s.Places (parseGroup s gel ritr st).1.fields (els ++ [gel.attrs]) := by
  obtain ⟨attrs, flist, groups⟩ := gel
  show s.Places _ (els ++ [attrs])
  unfold parseGroup
  split
  · rename_i gname required hname hrequired
    split
    · rename_i hfind
      exact h.skip_of_none (tagOf_unknown hname hrequired hfind)
    · rename_i num fs hfind
      have htag := tagOf_found hname hrequired hfind
      dsimp only
      split
      · rename_i hsome
        exact h.skip_of_some htag hsome
      · rename_i hnone
        have hadd := h.add (t := .create num .int attrs.subIdx (required = ascii "Y") true
          (s.compidx attrs)) htag (Option.not_isSome_iff_eq_none.1 hnone) rfl rfl
        split
        · rwa [MessageSpec.fields_withFields]
        · rwa [MessageSpec.fields_withGroups, MessageSpec.fields_withFields]
  · rename_i hmissing
    exact h.skip_of_none (tagOf_missing hmissing)

theorem Places.groups {ritr : MessageSpec} (h : s.Places ritr.fields els) (gels : List GroupElement)
    (st : Glob) :
    s.Places (parseGroupList s gels ritr st).1.fields (els ++ gels.map GroupElement.attrs) := by
  induction gels generalizing els ritr st with
  | nil =>
    rw [List.map_nil, List.append_nil]
    exact h
  | cons gel gels ih =>
    have hrest := ih (h.group gel st) (parseGroup s gel ritr st).2
    rwa [List.append_assoc] at hrest

/-! ## Where a group comes from -/

/-- The element is one of these, or inside one of them. -/
inductive HasGroup (gels : List GroupElement) : GroupElement → Prop where
  | here (gel : GroupElement) (h : gel ∈ gels) : HasGroup gels gel
  | inside (gel gel' : GroupElement) (h : HasGroup gels gel) (h' : gel' ∈ gel.groups) :
      HasGroup gels gel'

/-- A group, and each group inside it, is made of one of the elements. -/
def Made (s : Schema) (gels : List GroupElement) (x : Nat × MessageSpec) : Prop :=
  ∀ n g, Occurs [x] n g → ∃ gel, HasGroup gels gel ∧ s.Places g.fields gel.children

variable {gel : GroupElement} {gels gels' : List GroupElement} {x : Nat × MessageSpec}

theorem HasGroup.mono (h : HasGroup gels gel) (hsub : gels ⊆ gels') : HasGroup gels' gel := by
  induction h with
  | here gel h => exact .here gel (hsub h)
  | inside gel gel' _ h' ih => exact .inside gel gel' ih h'

theorem HasGroup.within {gel' : GroupElement} (h : HasGroup gel.groups gel') :
    HasGroup [gel] gel' := by
  induction h with
  | here gel' h => exact .inside gel gel' (.here gel (List.mem_singleton_self _)) h
  | inside gel₁ gel₂ _ h' ih => exact .inside gel₁ gel₂ ih h'

theorem Made.mono (h : s.Made gels x) (hsub : gels ⊆ gels') : s.Made gels' x := by
  intro n g hg
  obtain ⟨gel, hgel, hplaces⟩ := h n g hg
  exact ⟨gel, hgel.mono hsub, hplaces⟩

theorem exists_of_occurs {groups : List (Nat × MessageSpec)} {n : Nat} {g : MessageSpec}
    (h : Occurs groups n g) : ∃ x ∈ groups, Occurs [x] n g := by
  induction h with
  | here n g h => exact ⟨(n, g), h, .here n g (List.mem_singleton_self _)⟩
  | inside n m g g' _ h' ih =>
    obtain ⟨x, hx, hin⟩ := ih
    exact ⟨x, hx, .inside n m g g' hin h'⟩

/-- A group that has been read with those inside it. -/
theorem Made.group {n : Nat} {g : MessageSpec} (hplaces : s.Places g.fields gel.children)
    (hinner : ∀ x ∈ g.groups, s.Made gel.groups x) : s.Made [gel] (n, g) := by
  intro m g' hg'
  rcases occurs_singleton.1 hg' with ⟨-, rfl⟩ | hin
  · exact ⟨gel, .here gel (List.mem_singleton_self _), hplaces⟩
  · obtain ⟨x, hx, hin⟩ := exists_of_occurs hin
    obtain ⟨gel', hgel', hplaces'⟩ := hinner x hx m g' hin
    exact ⟨gel', hgel'.within, hplaces'⟩

mutual

theorem parseGroup_made (s : Schema) : ∀ (gel : GroupElement) (ritr : MessageSpec) (st : Glob),
    ∀ x ∈ (parseGroup s gel ritr st).1.groups, x ∈ ritr.groups ∨ s.Made [gel] x
  | .mk attrs fields groups, ritr, st => by
    intro x hx
    unfold parseGroup at hx
    split at hx
    · split at hx
      · exact .inl hx
      · rename_i gname _ _ _ _ num _ _
        dsimp only at hx
        split at hx
        · exact .inl hx
        · split at hx
          · exact .inl (by simpa using hx)
          · generalize hr : processMessageFields s (MessageSpec.create gname false).fields st fields = r
              at hx
            have hfields : s.Places r.1 fields := by
              rw [← hr]
              exact places_empty.read fields st
            generalize hg : parseGroupList s groups ((MessageSpec.create gname false).withFields r.1) r.2 = q
              at hx
            have hplaces : s.Places q.1.fields (fields ++ groups.map GroupElement.attrs) := by
              rw [← hg]
              exact Places.groups (by rwa [MessageSpec.fields_withFields]) groups r.2
            have hinner : ∀ x ∈ q.1.groups, s.Made groups x := by
              intro x hx
              rw [← hg] at hx
              rcases parseGroupList_made s groups _ _ x hx with hnone | hmade
              · rw [MessageSpec.groups_withFields] at hnone
                exact absurd hnone List.not_mem_nil
              · exact hmade
            obtain ⟨n, g⟩ := x
            rw [MessageSpec.groups_withGroups] at hx
            rcases mem_insertKey hx with ⟨-, rfl⟩ | hold
            · refine .inr (Made.group ?_ ?_)
              · rw [MessageSpec.fields_withHash]
                exact hplaces
              · rw [MessageSpec.groups_withHash]
                exact hinner
            · exact .inl (by simpa using hold)
    · exact .inl hx

theorem parseGroupList_made (s : Schema) : ∀ (gels : List GroupElement) (ritr : MessageSpec)
    (st : Glob), ∀ x ∈ (parseGroupList s gels ritr st).1.groups, x ∈ ritr.groups ∨ s.Made gels x
  | [], ritr, st => fun x hx => .inl hx
  | gel :: gels, ritr, st => by
    intro x hx
    unfold parseGroupList at hx
    rcases parseGroupList_made s gels _ _ x hx with hx | hmade
    · rcases parseGroup_made s gel ritr st x hx with hx | hmade
      · exact .inl hx
      · exact .inr (hmade.mono (by simp))
    · exact .inr (hmade.mono (List.subset_cons_self _ _))

end

/-! ## Messages -/

/-- The element of the message with a key, among these. -/
def elementIn (realm : List F8String) (els : List MessageElement) (k : CString) :
    Option MessageElement :=
  els.find? fun el => (el.identify realm).any fun id => id.1 = k

/-- The element of a message. -/
def element (s : Schema) (k : CString) : Option MessageElement :=
  s.realm.bind fun realm => elementIn realm s.mlist k

/-- A message is made of this element. -/
structure MessageOf (s : Schema) (el : MessageElement) (ms : MessageSpec) : Prop where
  places : s.Places ms.fields el.children
  groups : ∀ x ∈ ms.groups, s.Made el.groups x

/-- The messages that have been loaded are made of these elements. -/
structure LoadedOf (s : Schema) (realm : List F8String) (els : List MessageElement)
    (st : Loaded) : Prop where
  found : ∀ k ms, st.mspec.get? k = some ms →
    ∃ el, elementIn realm els k = some el ∧ s.MessageOf el ms
  missing : ∀ k, st.mspec.get? k = none → elementIn realm els k = none

section
variable {realm : List F8String} {mels : List MessageElement} {mel : MessageElement} {ld : Loaded}
  {key : CString}

theorem elementIn_concat : elementIn realm (mels ++ [mel]) key =
    (elementIn realm mels key).or
      (if (mel.identify realm).any (fun id => id.1 = key) then some mel else none) := by
  unfold elementIn
  rw [List.find?_append, List.find?_singleton]

/-- An element that gives no message. -/
theorem LoadedOf.skip (h : s.LoadedOf realm mels ld) {glob : Glob}
    (hskip : ∀ id, mel.identify realm = some id → (ld.mspec.get? id.1).isSome) :
    s.LoadedOf realm (mels ++ [mel]) { ld with glob := glob } := by
  constructor
  · intro k ms hms
    obtain ⟨el, hel, hof⟩ := h.found k ms hms
    exact ⟨el, by rw [elementIn_concat, hel, Option.some_or], hof⟩
  · intro k hnone
    rw [elementIn_concat, h.missing k hnone, Option.none_or, if_neg]
    intro hany
    obtain ⟨id, hid, hk⟩ := (Option.any_eq_true _ _).1 hany
    obtain rfl := of_decide_eq_true hk
    have hsome := hskip id hid
    rw [show ld.mspec.get? id.1 = none from hnone] at hsome
    cases hsome

theorem LoadedOf.add (h : s.LoadedOf realm mels ld) {glob : Glob} {id : CString × F8String × F8String}
    {ms : MessageSpec} (hid : mel.identify realm = some id) (hnew : ld.mspec.get? id.1 = none)
    (hof : s.MessageOf mel ms) :
    s.LoadedOf realm (mels ++ [mel]) ⟨ld.mspec.insert id.1 ms, glob⟩ := by
  have hget : ∀ k, (ld.mspec.insert id.1 ms).get? k =
      if k = id.1 then some ms else ld.mspec.get? k := by
    intro k
    rw [OrdMap.get?_insert, hnew]
    rfl
  constructor
  · intro k ms' hms'
    dsimp only at hms'
    rw [hget] at hms'
    split at hms'
    · rename_i hk
      obtain rfl := Option.some.inj hms'
      refine ⟨mel, ?_, hof⟩
      rw [elementIn_concat, hk, h.missing id.1 hnew, Option.none_or, hid]
      simp
    · obtain ⟨el, hel, hof'⟩ := h.found k ms' hms'
      exact ⟨el, by rw [elementIn_concat, hel, Option.some_or], hof'⟩
  · intro k hnone
    dsimp only at hnone
    rw [hget] at hnone
    split at hnone
    · cases hnone
    · rename_i hk
      rw [elementIn_concat, h.missing k hnone, Option.none_or, hid]
      simp [Ne.symm hk]

theorem LoadedOf.message (h : s.LoadedOf realm mels ld) :
    s.LoadedOf realm (mels ++ [mel]) (loadMessage s realm ld mel) := by
  unfold loadMessage
  split
  · rename_i hnone
    exact h.skip fun id hid => absurd (hnone.symm.trans hid) (by simp)
  · rename_i msgtype name msgcat hid
    split
    · rename_i hsome
      exact h.skip fun id' hid' => by
        obtain rfl := Option.some.inj (hid.symm.trans hid')
        exact hsome
    · rename_i hnew
      dsimp only
      generalize hspec : MessageSpec.create name (sameIgnoringCase msgcat (ascii "admin")) = spec
      generalize hr : (if mel.groups.isEmpty then (spec, ld.glob)
        else parseGroups s mel.groups spec ld.glob) = r
      have hstart : s.Places spec.fields [] := by
        rw [← hspec]
        exact places_empty
      -- the groups of the message come first
      have hgroups : s.Places r.1.fields (mel.groups.map GroupElement.attrs) ∧
          ∀ x ∈ r.1.groups, s.Made mel.groups x := by
        rw [← hr]
        split
        · rename_i hempty
          rw [List.isEmpty_iff] at hempty
          rw [hempty, ← hspec]
          exact ⟨places_empty, fun x hx => absurd hx List.not_mem_nil⟩
        · refine ⟨?_, fun x hx => ?_⟩
          · show s.Places ((parseGroupList s mel.groups spec ld.glob).1.withHash _).fields _
            rw [MessageSpec.fields_withHash]
            exact hstart.groups mel.groups ld.glob
          · have hx' : x ∈ (parseGroupList s mel.groups spec ld.glob).1.groups := by
              rw [← MessageSpec.groups_withHash]
              exact hx
            rcases parseGroupList_made s mel.groups spec ld.glob x hx' with hnone | hmade
            · rw [← hspec] at hnone
              exact absurd hnone List.not_mem_nil
            · exact hmade
      refine h.add hid (by simpa using hnew) ⟨?_, ?_⟩
      · rw [MessageSpec.fields_withFields]
        exact hgroups.1.read mel.fields r.2
      · rw [MessageSpec.groups_withFields]
        exact hgroups.2

theorem LoadedOf.run (h : s.LoadedOf realm mels ld) (mels' : List MessageElement) :
    s.LoadedOf realm (mels ++ mels') (mels'.foldl (loadMessage s realm) ld) := by
  induction mels' generalizing mels ld with
  | nil => rwa [List.append_nil]
  | cons mel mels' ih =>
    have hstep : s.LoadedOf realm (mels ++ [mel]) (loadMessage s realm ld mel) := h.message
    have hrest := ih hstep
    rwa [List.append_assoc] at hrest

/-- What has been loaded, unless there was an error before the first message. -/
theorem loadMessages_or : (loadMessages s).mspec = OrdMap.empty ∧ (loadMessages s).glob.errors ≠ 0 ∨
    ∃ realm, s.realm = some realm ∧ s.LoadedOf realm s.mlist (loadMessages s) := by
  unfold loadMessages
  split
  · exact .inl ⟨rfl, Nat.succ_ne_zero _⟩
  · split
    · exact .inl ⟨rfl, Nat.succ_ne_zero _⟩
    · rename_i realm hrealm
      have hempty : s.LoadedOf realm [] ⟨OrdMap.empty, Glob.empty⟩ :=
        ⟨fun k ms hms => absurd hms (by simp), fun k _ => rfl⟩
      exact .inr ⟨realm, hrealm, hempty.run s.mlist⟩

/-- A message is made of its element. -/
theorem element_of_message {ms : MessageSpec} (hms : (loadMessages s).mspec.get? key = some ms) :
    ∃ mel, s.element key = some mel ∧ s.MessageOf mel ms := by
  rcases loadMessages_or (s := s) with ⟨hempty, -⟩ | ⟨realm, hrealm, hloaded⟩
  · rw [hempty] at hms
    cases hms
  · obtain ⟨mel, hmel, hof⟩ := hloaded.found key ms hms
    exact ⟨mel, by rw [element, hrealm, Option.bind_some, hmel], hof⟩

/-- An element gives a message, where there was no error. -/
theorem message_of_element (herrors : (loadMessages s).glob.errors = 0)
    (hmel : s.element key = some mel) : ∃ ms, (loadMessages s).mspec.get? key = some ms := by
  rcases loadMessages_or (s := s) with ⟨-, herr⟩ | ⟨realm, hrealm, hloaded⟩
  · exact absurd herrors herr
  · refine Option.ne_none_iff_exists'.1 fun hnone => ?_
    rw [element, hrealm, Option.bind_some, hloaded.missing key hnone] at hmel
    cases hmel

end

/-! ## Groups of `globmap` -/

/-- A group element of one of the messages. -/
def GroupIn (s : Schema) (gel : GroupElement) : Prop := ∃ mel ∈ s.mlist, HasGroup mel.groups gel

/-- **A group of `globmap`** is made of an element of the schema. -/
theorem found_places {n : Nat} {hv : UInt32} {t : MessageSpec}
    (ht : lookupGroup (loadMessages s).glob.globmap n hv = some t) :
    ∃ gel, s.GroupIn gel ∧ s.Places t.fields gel.children := by
  obtain ⟨g, ⟨key, ms, hms, hg⟩, -, hfields, -⟩ := (closed_loaded s).stocked.origin n hv t ht
  obtain ⟨mel, hmel, hof⟩ := element_of_message hms
  obtain ⟨x, hx, hin⟩ := exists_of_occurs hg
  obtain ⟨gel, hgel, hplaces⟩ := hof.groups x hx n g hin
  obtain ⟨realm, -, hfind⟩ := Option.bind_eq_some_iff.1 hmel
  exact ⟨gel, ⟨mel, List.mem_of_find?_eq_some hfind, hgel⟩, hfields ▸ hplaces⟩

end Schema

/-! ## Positions from 1 -/

/-- The tags in the order of their positions. -/
def inPlace (fields : Presence) : List Nat :=
  (fields.entries.mergeSort fun a b => a.2.pos ≤ b.2.pos).map (·.1)

section
variable {fields : Presence} {k k' : Nat} {t t' : FieldTrait}

theorem get?_ordered : (ordered fields).get? k = (fields.get? k).map fun t =>
    { t with pos := ((inPlace fields).idxOf k + 1) % 65536 } := OrdMap.get?_mapVal

theorem inPlace_perm : (inPlace fields).Perm fields.keys :=
  (List.mergeSort_perm _ _).map _

theorem inPlace_nodup : (inPlace fields).Nodup :=
  inPlace_perm.nodup_iff.2 (OrdMap.keys_sorted.imp fun hlt => hlt.ne)

theorem mem_inPlace : k ∈ inPlace fields ↔ (fields.get? k).isSome :=
  inPlace_perm.mem_iff.trans OrdMap.mem_keys

/-- **The place of a tag** is before that of another with a higher position, and of the same position
with a higher tag. -/
theorem idxOf_inPlace_lt_iff (ht : fields.get? k = some t) (ht' : fields.get? k' = some t') :
    (inPlace fields).idxOf k < (inPlace fields).idxOf k' ↔
      t.pos < t'.pos ∨ t.pos = t'.pos ∧ k < k' := by
  have hlt : ∀ {k k' : Nat} {t t' : FieldTrait}, fields.get? k = some t → fields.get? k' = some t' →
      (t.pos < t'.pos ∨ t.pos = t'.pos ∧ k < k') →
      (inPlace fields).idxOf k < (inPlace fields).idxOf k' := by
    intro k k' t t' ht ht' h
    have hprecedes : Precedes Prod.fst (fun e : Nat × FieldTrait => e.2.pos) (k, t) (k', t') := h
    have hpair := sublist_mergeSort_of_precedes fields.sorted (OrdMap.get?_eq_some.1 ht)
      (OrdMap.get?_eq_some.1 ht') hprecedes
    exact idxOf_lt_of_sublist inPlace_nodup (hpair.map Prod.fst)
  constructor
  · intro h
    have hne : k ≠ k' := by
      rintro rfl
      exact lt_irrefl _ h
    have hkeys : (k, t).1 ≠ (k', t').1 := hne
    rcases precedes_or (fun e : Nat × FieldTrait => e.2.pos) hkeys with hbefore | hbehind
    · exact hbefore
    · exact absurd h (hlt ht' ht hbehind).asymm
  · exact hlt ht ht'

/-- **The positions** are those from 1, as long as these have 16 bits. -/
theorem positions_iff : ((ordered fields).entries.map fun e => e.2.pos).Perm
    (List.range' 1 (ordered fields).entries.length) ↔ fields.entries.length < 65536 := by
  have hlength : (inPlace fields).length = fields.entries.length := by
    rw [inPlace_perm.length_eq, OrdMap.keys, List.length_map]
  have hpositions : ((ordered fields).entries.map fun e => e.2.pos) =
      fields.keys.map fun k => ((inPlace fields).idxOf k + 1) % 65536 := by
    show (fields.entries.map _).map _ = (fields.entries.map Prod.fst).map _
    rw [List.map_map, List.map_map]
    rfl
  have hentries : (ordered fields).entries.length = fields.entries.length := List.length_map _
  rw [hpositions, hentries]
  have hperm : (fields.keys.map fun k => ((inPlace fields).idxOf k + 1) % 65536).Perm
      ((inPlace fields).map fun k => ((inPlace fields).idxOf k + 1) % 65536) :=
    inPlace_perm.symm.map _
  have hrange : (inPlace fields).map (fun k => ((inPlace fields).idxOf k + 1) % 65536) =
      (List.range fields.entries.length).map fun i => (i + 1) % 65536 := by
    rw [← hlength, ← map_idxOf inPlace_nodup, List.map_map]
    rfl
  rw [hperm.congr_left, hrange]
  constructor
  · intro h
    by_contra hge
    have hzero : 0 ∈ (List.range fields.entries.length).map fun i => (i + 1) % 65536 :=
      List.mem_map.2 ⟨65535, List.mem_range.2 (by omega), rfl⟩
    have hmem := h.mem_iff.1 hzero
    rw [List.mem_range'_1] at hmem
    omega
  · intro hlt
    refine List.Perm.of_eq ?_
    rw [List.range'_eq_map_range]
    refine List.map_congr_left fun i hi => ?_
    have hi' := List.mem_range.1 hi
    rw [Nat.mod_eq_of_lt (by omega), Nat.add_comm]

end

namespace Schema

/-- The traits of a message have the positions from 1, in the order of their elements. -/
structure InOrder (s : Schema) (els : List FieldElement) (fields : Presence) : Prop where
  positions : (fields.entries.map fun e => e.2.pos).Perm (List.range' 1 fields.entries.length)
  order : ∀ k k' e e' t t', s.kept els k = some e → s.kept els k' = some e' →
    e.subIdx < e'.subIdx → fields.get? k = some t → fields.get? k' = some t' → t.pos < t'.pos

/-- Positions of 16 bits can keep the places of the elements. -/
structure Fit (s : Schema) (els : List FieldElement) : Prop where
  count : (els.filterMap s.tagOf).dedup.length < 65536
  order : ∀ k k' e e', s.kept els k = some e → s.kept els k' = some e' → e.subIdx < e'.subIdx →
    e.subIdx % 65536 < e'.subIdx % 65536 ∨ e.subIdx % 65536 = e'.subIdx % 65536 ∧ k < k'

section
variable {s : Schema} {fields : Presence} {els : List FieldElement} {k : Nat}

/-- Elements with fewer than 2^16 brothers. -/
theorem fit_of_lt (h : ∀ e ∈ els, e.subIdx < 65536)
    (hcount : (els.filterMap s.tagOf).dedup.length < 65536) : s.Fit els := by
  refine ⟨hcount, fun k k' e e' he he' hlt => .inl ?_⟩
  rwa [Nat.mod_eq_of_lt (h e (List.mem_of_find?_eq_some he)),
    Nat.mod_eq_of_lt (h e' (List.mem_of_find?_eq_some he'))]

theorem Places.length_eq (h : s.Places fields els) :
    fields.entries.length = (els.filterMap s.tagOf).dedup.length := by
  have hkeys : fields.keys.Perm (els.filterMap s.tagOf).dedup := by
    refine (List.perm_ext_iff_of_nodup (OrdMap.keys_sorted.imp fun hlt => hlt.ne)
      (List.nodup_dedup _)).2 fun k => ?_
    rw [OrdMap.mem_keys, h.get?_isSome, List.mem_dedup, List.mem_filterMap, kept, List.find?_isSome]
    simp
  rw [← hkeys.length_eq, OrdMap.keys, List.length_map]

/-- **`process_ordering`** of one message. -/
theorem inOrder_iff (h : s.Places fields els) : s.InOrder els (ordered fields) ↔ s.Fit els := by
  have hget : ∀ {k e}, s.kept els k = some e →
      ∃ t, fields.get? k = some t ∧ t.pos = e.subIdx % 65536 := by
    intro k e he
    have hpos := h.pos k
    rw [he, Option.map_some] at hpos
    exact Option.map_eq_some_iff.1 hpos
  have hcount : fields.entries.length < 65536 ↔ (els.filterMap s.tagOf).dedup.length < 65536 := by
    rw [h.length_eq]
  -- where positions do not overflow, they are in the order of the places
  have hposition : fields.entries.length < 65536 → ∀ {k k' e e' t t'}, s.kept els k = some e →
      s.kept els k' = some e' → (ordered fields).get? k = some t →
      (ordered fields).get? k' = some t' → (t.pos < t'.pos ↔
        e.subIdx % 65536 < e'.subIdx % 65536 ∨ e.subIdx % 65536 = e'.subIdx % 65536 ∧ k < k') := by
    intro hlt k k' e e' t t' he he' ht ht'
    obtain ⟨u, hu, hpos⟩ := hget he
    obtain ⟨u', hu', hpos'⟩ := hget he'
    rw [get?_ordered, hu] at ht
    rw [get?_ordered, hu'] at ht'
    obtain rfl := Option.some.inj ht
    obtain rfl := Option.some.inj ht'
    have hbound : ∀ {k u}, fields.get? k = some u → (inPlace fields).idxOf k + 1 < 65536 := by
      intro k u hu
      have hmem : k ∈ inPlace fields := mem_inPlace.2 (by rw [hu]; rfl)
      have hidx := List.idxOf_lt_length_of_mem hmem
      rw [inPlace_perm.length_eq, OrdMap.keys, List.length_map] at hidx
      omega
    rw [← hpos, ← hpos', ← idxOf_inPlace_lt_iff hu hu']
    dsimp only
    rw [Nat.mod_eq_of_lt (hbound hu), Nat.mod_eq_of_lt (hbound hu')]
    exact Nat.succ_lt_succ_iff
  constructor
  · rintro ⟨hpositions, horder⟩
    have hlt := positions_iff.1 hpositions
    refine ⟨hcount.1 hlt, fun k k' e e' he he' hless => ?_⟩
    obtain ⟨u, hu, -⟩ := hget he
    obtain ⟨u', hu', -⟩ := hget he'
    have ht : (ordered fields).get? k = _ := get?_ordered
    have ht' : (ordered fields).get? k' = _ := get?_ordered
    rw [hu, Option.map_some] at ht
    rw [hu', Option.map_some] at ht'
    exact (hposition hlt he he' ht ht').1 (horder k k' e e' _ _ he he' hless ht ht')
  · rintro ⟨hfew, horder⟩
    have hlt := hcount.2 hfew
    refine ⟨positions_iff.2 hlt, fun k k' e e' t t' he he' hless ht ht' => ?_⟩
    exact (hposition hlt he he' ht ht').2 (horder k k' e e' he he' hless)

end

end Schema

/-! ## Tables of groups -/

namespace GroupClass

def fnum : GroupClass → Nat
  | mk fnum _ _ => fnum

def traits : GroupClass → List FieldTrait
  | mk _ traits _ => traits

def nested : GroupClass → List GroupClass
  | mk _ _ nested => nested

end GroupClass

/-- The group class on a path of count fields. -/
def classAt (classes : List GroupClass) : List Nat → Option GroupClass
  | [] => none
  | n :: path =>
    (classes.find? fun c => c.fnum = n).bind fun c =>
      if path = [] then some c else classAt c.nested path

/-- The group element on a path. -/
def Schema.groupAt (s : Schema) (gels : List GroupElement) : List Nat → Option GroupElement
  | [] => none
  | n :: path =>
    (gels.find? fun gel => s.numOf gel.attrs = some n).bind fun gel =>
      if path = [] then some gel else s.groupAt gel.groups path

/-- The group of `globmap` that stands for the one on a path: `find_group` at each step. -/
def standsAt (globmap : CommonGroupMap) (groups : List (Nat × MessageSpec)) :
    List Nat → Option MessageSpec
  | [] => none
  | n :: path =>
    ((lookupKey n groups).bind fun g => lookupGroup globmap n g.hash).bind fun t =>
      if path = [] then some t else standsAt globmap t.groups path

theorem Emits.find {globmap : CommonGroupMap} {fuel n : Nat} {groups : List (Nat × MessageSpec)}
    {classes : List GroupClass} (h : Emits globmap (fuel + 1) groups classes) :
    (classes.find? fun c => c.fnum = n) = none ∧
        ((lookupKey n groups).bind fun g => lookupGroup globmap n g.hash) = none ∨
      ∃ t nested, (classes.find? fun c => c.fnum = n) = some (.mk n t.traits nested) ∧
        ((lookupKey n groups).bind fun g => lookupGroup globmap n g.hash) = some t ∧
          Emits globmap fuel t.groups nested := by
  unfold Emits at h
  induction h with
  | nil => exact .inl ⟨rfl, rfl⟩
  | @cons x c groups classes hx _ ih =>
    obtain ⟨t, nested, ht, hnested, rfl⟩ := hx
    rw [List.find?_cons, lookupKey]
    by_cases hn : x.1 = n
    · subst hn
      refine .inr ⟨t, nested, ?_, ?_, hnested⟩
      · simp [GroupClass.fnum]
      · rw [if_pos rfl]
        exact ht
    · rw [if_neg hn]
      have hclass : decide ((GroupClass.mk x.1 t.traits nested).fnum = n) = false :=
        decide_eq_false hn
      rw [hclass]
      exact ih

/-- **The table of a group class** is that of the group that stands for it. -/
theorem classAt_eq {globmap : CommonGroupMap} (path : List Nat) : ∀ {fuel : Nat}
    {groups : List (Nat × MessageSpec)} {classes : List GroupClass},
    Emits globmap fuel groups classes →
      (classAt classes path).map GroupClass.traits =
        (standsAt globmap groups path).map MessageSpec.traits := by
  induction path with
  | nil => exact fun _ => rfl
  | cons n path ih =>
    intro fuel groups classes h
    cases fuel with
    | zero => exact h.elim
    | succ fuel =>
      rw [classAt, standsAt]
      rcases h.find (n := n) with ⟨hnone, hnone'⟩ | ⟨t, nested, hc, ht, hnested⟩
      · rw [hnone, hnone']
        rfl
      · rw [hc, ht, Option.bind_some, Option.bind_some]
        split
        · rfl
        · exact ih hnested

namespace Schema

/-- The first of the elements. -/
def First (els : List FieldElement) (e : FieldElement) : Prop :=
  e ∈ els ∧ ∀ e' ∈ els, e.subIdx ≤ e'.subIdx

/-- What `f8c` generates of a schema without errors; these are the group classes of its messages. -/
structure Generated (s : Schema) (classes : CString → List GroupClass) : Prop where
  errors : (loadMessages s).glob.errors = 0
  bodies : ∀ key ms, (processOrdering (loadMessages s).mspec).get? key = some ms →
    ∃ fuel, groupClasses (processGroupOrdering (loadMessages s).glob.globmap) fuel ms =
      some (classes key)

/-- `process_ordering` gives the traits of each message the positions from 1, in the order of the
schema. -/
def MessagesOrdered (s : Schema) : Prop :=
  ∀ key mel ms, s.element key = some mel →
    (processOrdering (loadMessages s).mspec).get? key = some ms → s.InOrder mel.children ms.fields

/-- The table of each group class gives position 1 to the first field of its group. -/
def GroupsStart (s : Schema) (classes : CString → List GroupClass) : Prop :=
  ∀ key mel path gel c e f, s.element key = some mel → s.groupAt mel.groups path = some gel →
    classAt (classes key) path = some c → First gel.children e → s.tagOf e = some f →
      ∃ t ∈ c.traits, t.fnum = f ∧ t.pos = 1

/-- The places of the fields of each message fit. -/
def MessagesFit (s : Schema) : Prop :=
  ∀ key mel, s.element key = some mel → s.Fit mel.children

/-- The element from which a group of `globmap` was made has the field at place 1. That is the first
element parsed with the count field and the hash of the group, which gives the group its order. -/
def StartsWith (s : Schema) (t : MessageSpec) (f : Nat) : Prop :=
  ∃ gel, s.GroupIn gel ∧ s.Places t.fields gel.children ∧
    ∃ e, s.kept gel.children f = some e ∧ e.subIdx % 65536 = 1

/-- The group that stands for another one begins with the same field. All groups with one count
field and one hash are shared as the first of them that was parsed, in the order of that one. -/
def GroupsFit (s : Schema) : Prop :=
  ∀ key mel ms path gel t e f, s.element key = some mel → (loadMessages s).mspec.get? key = some ms →
    s.groupAt mel.groups path = some gel →
    standsAt (loadMessages s).glob.globmap ms.groups path = some t → First gel.children e →
    s.tagOf e = some f → s.StartsWith t f

section
variable {s : Schema} {classes : CString → List GroupClass}

theorem messagesOrdered_iff (h : s.Generated classes) : s.MessagesOrdered ↔ s.MessagesFit := by
  have hordered : ∀ key, (processOrdering (loadMessages s).mspec).get? key =
      ((loadMessages s).mspec.get? key).map fun ms => ms.withFields (ordered ms.fields) :=
    fun key => OrdMap.get?_mapVal
  constructor
  · intro hall key mel hmel
    obtain ⟨ms, hms⟩ := message_of_element h.errors hmel
    obtain ⟨mel', hmel', hof⟩ := element_of_message hms
    obtain rfl := Option.some.inj (hmel.symm.trans hmel')
    have hinOrder := hall key mel _ hmel (by rw [hordered, hms, Option.map_some])
    rw [MessageSpec.fields_withFields] at hinOrder
    exact (inOrder_iff hof.places).1 hinOrder
  · intro hfit key mel ms' hmel hms'
    rw [hordered] at hms'
    obtain ⟨ms, hms, rfl⟩ := Option.map_eq_some_iff.1 hms'
    obtain ⟨mel', hmel', hof⟩ := element_of_message hms
    obtain rfl := Option.some.inj (hmel.symm.trans hmel')
    rw [MessageSpec.fields_withFields]
    exact (inOrder_iff hof.places).2 (hfit key mel hmel)

/-- The table of a group of `globmap`. -/
theorem startsWith_iff {n f : Nat} {hv : UInt32} {t : MessageSpec}
    (ht : lookupGroup (loadMessages s).glob.globmap n hv = some t) :
    (∃ u ∈ t.traits, u.fnum = f ∧ u.pos = 1) ↔ s.StartsWith t f := by
  constructor
  · rintro ⟨u, hu, rfl, hpos⟩
    obtain ⟨gel, hgel, hplaces⟩ := found_places ht
    obtain ⟨⟨k, u'⟩, hmem, rfl⟩ := List.mem_map.1 hu
    have hget : t.fields.get? k = some u' := OrdMap.get?_eq_some.2 hmem
    have hkept := hplaces.pos k
    rw [hget, Option.map_some, eq_comm] at hkept
    obtain ⟨e, he, hsub⟩ := Option.map_eq_some_iff.1 hkept
    refine ⟨gel, hgel, hplaces, e, ?_, hsub.trans hpos⟩
    rw [hplaces.fnum k u' hget]
    exact he
  · rintro ⟨gel, -, hplaces, e, he, hsub⟩
    have hget := hplaces.pos f
    rw [he, Option.map_some, hsub] at hget
    obtain ⟨u, hu, hpos⟩ := Option.map_eq_some_iff.1 hget
    exact ⟨u, List.mem_map.2 ⟨(f, u), OrdMap.get?_eq_some.1 hu, rfl⟩, hplaces.fnum f u hu, hpos⟩

theorem standsAt_found {globmap : CommonGroupMap} {groups : List (Nat × MessageSpec)}
    {path : List Nat} {t : MessageSpec} (h : standsAt globmap groups path = some t) :
    ∃ n hv, lookupGroup globmap n hv = some t := by
  induction path generalizing groups with
  | nil => cases h
  | cons n path ih =>
    obtain ⟨u, hu, h⟩ := Option.bind_eq_some_iff.1 h
    obtain ⟨g, -, hu⟩ := Option.bind_eq_some_iff.1 hu
    split at h
    · obtain rfl := Option.some.inj h
      exact ⟨n, g.hash, hu⟩
    · exact ih h

theorem Generated.emits (h : s.Generated classes) {key : CString} {ms : MessageSpec}
    (hms : (loadMessages s).mspec.get? key = some ms) :
    ∃ fuel, Emits (loadMessages s).glob.globmap fuel ms.groups (classes key) := by
  have hordered : (processOrdering (loadMessages s).mspec).get? key =
      some (ms.withFields (ordered ms.fields)) := by
    rw [processOrdering, OrdMap.get?_mapVal, hms, Option.map_some]
  obtain ⟨fuel, hfuel⟩ := h.bodies key _ hordered
  rw [groupClasses, MessageSpec.groups_withFields] at hfuel
  exact ⟨fuel, (groupClasses_iff hms).1 hfuel⟩

theorem element_mem {key : CString} {mel : MessageElement} (h : s.element key = some mel) :
    mel ∈ s.mlist := by
  obtain ⟨realm, -, hfind⟩ := Option.bind_eq_some_iff.1 h
  exact List.mem_of_find?_eq_some hfind

theorem groupAt_hasGroup {path : List Nat} {gels : List GroupElement} {gel : GroupElement}
    (h : s.groupAt gels path = some gel) : HasGroup gels gel := by
  induction path generalizing gels with
  | nil => cases h
  | cons n path ih =>
    obtain ⟨gel', hgel', h⟩ := Option.bind_eq_some_iff.1 h
    have hmem := List.mem_of_find?_eq_some hgel'
    split at h
    · obtain rfl := Option.some.inj h
      exact .here _ hmem
    · exact (ih h).within.mono (by simpa using hmem)

/-- **Group tables**, which nothing orders. -/
theorem groupsStart_iff (h : s.Generated classes) : s.GroupsStart classes ↔ s.GroupsFit := by
  constructor
  · intro hall key mel ms path gel t e f hmel hms hgel ht hfirst htag
    obtain ⟨fuel, hemits⟩ := h.emits hms
    have htable := classAt_eq path hemits
    rw [ht, Option.map_some] at htable
    obtain ⟨c, hc, htraits⟩ := Option.map_eq_some_iff.1 htable
    obtain ⟨n, hv, hfound⟩ := standsAt_found ht
    have hstart := hall key mel path gel c e f hmel hgel hc hfirst htag
    rw [htraits] at hstart
    exact (startsWith_iff hfound).1 hstart
  · intro hfit key mel path gel c e f hmel hgel hc hfirst htag
    obtain ⟨ms, hms⟩ := message_of_element h.errors hmel
    obtain ⟨fuel, hemits⟩ := h.emits hms
    have htable := classAt_eq path hemits
    rw [hc, Option.map_some, eq_comm] at htable
    obtain ⟨t, ht, htraits⟩ := Option.map_eq_some_iff.1 htable
    obtain ⟨n, hv, hfound⟩ := standsAt_found ht
    rw [← htraits]
    exact (startsWith_iff hfound).2 (hfit key mel ms path gel t e f hmel hms hgel ht hfirst htag)

/-- **Positions of fields.** The traits of every message have the positions from 1 in the order of the
schema, and every group table begins with the first field of its group, exactly when the places fit
into 16 bits, and the group that stands for another one begins with the same field. -/
theorem field_order_iff (h : s.Generated classes) :
    s.MessagesOrdered ∧ s.GroupsStart classes ↔ s.MessagesFit ∧ s.GroupsFit := by
  rw [messagesOrdered_iff h, groupsStart_iff h]

end

end Schema

/-! ## Two messages with a group of two fields -/

/-- A message with the group NoPartyIDs, which lists these fields. -/
def demoRoles (msgType : CString) (name : F8String) (flist : List F8String) : MessageElement where
  tag := .message
  msgtype := some msgType
  name := some name
  msgcat := some (ascii "app")
  groups := [.mk { name := some (ascii "NoPartyIDs"), required := some (ascii "N"), subIdx := 1 }
    (flist.zipIdx.map fun f =>
      { name := some f.1, required := some (ascii "Y"), subIdx := f.2 + 1 }) []]

theorem noNul_order : 0 ∉ ascii "D" := by decide

theorem noNul_report : 0 ∉ ascii "8" := by decide

def orderKey : CString := ⟨ascii "D", noNul_order⟩

def reportKey : CString := ⟨ascii "8", noNul_report⟩

def partyFields : List F8String := [ascii "PartyID", ascii "PartyRole"]

/-- A schema with two such messages, where PartyID is 448 and PartyRole 452. -/
def demoRoleSchema (order report : List F8String) : Schema where
  fspec := OrdMap.empty.insert 35 ⟨ascii "MsgType", .string, some [ascii "D", ascii "8"]⟩
    |>.insert 448 ⟨ascii "PartyID", .string, none⟩
    |>.insert 452 ⟨ascii "PartyRole", .int, none⟩
    |>.insert 453 ⟨ascii "NoPartyIDs", .numInGroup, none⟩
  components := []
  mlist := [{ tag := .header }, { tag := .trailer },
    demoRoles orderKey (ascii "NewOrderSingle") order,
    demoRoles reportKey (ascii "ExecutionReport") report]

/-- The group classes of the messages. -/
def Schema.demoClasses (s : Schema) (key : CString) : List GroupClass :=
  (((loadMessages s).mspec.get? key).bind
    (groupClasses (processGroupOrdering (loadMessages s).glob.globmap) 3)).getD []

/-- All of them are generated, with no errors. -/
def Schema.compiles (s : Schema) : Bool :=
  (loadMessages s).glob.errors = 0 && (loadMessages s).mspec.entries.all fun e =>
    (groupClasses (processGroupOrdering (loadMessages s).glob.globmap) 3 e.2).isSome

theorem Schema.compiles.generated {s : Schema} (h : s.compiles = true) : s.Generated s.demoClasses := by
  unfold compiles at h
  rw [Bool.and_eq_true, decide_eq_true_eq, List.all_eq_true] at h
  refine ⟨h.1, fun key ms' hms' => ⟨3, ?_⟩⟩
  rw [processOrdering, OrdMap.get?_mapVal] at hms'
  obtain ⟨ms, hms, rfl⟩ := Option.map_eq_some_iff.1 hms'
  obtain ⟨classes, hclasses⟩ := Option.isSome_iff_exists.1 (h.2 (key, ms) (OrdMap.get?_eq_some.1 hms))
  rw [groupClasses, MessageSpec.groups_withFields, Schema.demoClasses, hms, Option.bind_some]
  rw [groupClasses] at hclasses ⊢
  rw [hclasses]
  rfl

/-- The group that lists PartyID first. -/
def partyGroup : GroupElement :=
  .mk { name := some (ascii "NoPartyIDs"), required := some (ascii "N"), subIdx := 1 }
    [{ name := some (ascii "PartyID"), required := some (ascii "Y"), subIdx := 1 },
      { name := some (ascii "PartyRole"), required := some (ascii "Y"), subIdx := 2 }] []

theorem demoRoles_groups {mel : MessageElement} {gel : GroupElement}
    (hmel : mel ∈ (demoRoleSchema partyFields partyFields).mlist) (h : Schema.HasGroup mel.groups gel) :
    gel = partyGroup := by
  induction h with
  | here gel h =>
    simp only [demoRoleSchema, List.mem_cons, List.not_mem_nil, or_false] at hmel
    rcases hmel with rfl | rfl | rfl | rfl
    · cases h
    · cases h
    · exact List.mem_singleton.1 h
    · exact List.mem_singleton.1 h
  | inside gel gel' _ h' ih =>
    rw [ih] at h'
    cases h'

theorem demoRoles_fit {mel : MessageElement}
    (hmel : mel ∈ (demoRoleSchema partyFields partyFields).mlist) :
    (demoRoleSchema partyFields partyFields).Fit mel.children := by
  simp only [demoRoleSchema, List.mem_cons, List.not_mem_nil, or_false] at hmel
  rcases hmel with rfl | rfl | rfl | rfl
  all_goals exact Schema.fit_of_lt (by decide) (by decide +kernel)

/-- Both messages list PartyID first. -/
theorem field_order_roles : (demoRoleSchema partyFields partyFields).MessagesOrdered ∧
    (demoRoleSchema partyFields partyFields).GroupsStart
      (demoRoleSchema partyFields partyFields).demoClasses := by
  refine (Schema.field_order_iff (Schema.compiles.generated (by decide +kernel))).2 ⟨?_, ?_⟩
  · intro key mel hmel
    exact demoRoles_fit (Schema.element_mem hmel)
  · intro key mel ms path gel t e f hmel _ hgel ht hfirst htag
    obtain ⟨n, hv, hfound⟩ := Schema.standsAt_found ht
    obtain ⟨gel', ⟨mel', hmel', hgel'⟩, hplaces⟩ := Schema.found_places hfound
    obtain rfl := demoRoles_groups (Schema.element_mem hmel) (Schema.groupAt_hasGroup hgel)
    obtain rfl := demoRoles_groups hmel' hgel'
    refine ⟨_, ⟨mel', hmel', hgel'⟩, hplaces, ?_⟩
    obtain ⟨hmem, hfirst⟩ := hfirst
    rcases List.mem_cons.1 hmem with rfl | hmem
    · obtain rfl : f = 448 := Option.some.inj (htag.symm.trans (by decide +kernel))
      exact ⟨{ name := some (ascii "PartyID"), required := some (ascii "Y"), subIdx := 1 }, by rfl, rfl⟩
    · rw [List.mem_singleton.1 hmem] at hfirst
      exact absurd (hfirst _ List.mem_cons_self) (by decide)

/-- The report lists PartyRole first, and has the table of the order. -/
theorem field_order_merged : ¬ ∀ (s : Schema) (classes : CString → List GroupClass),
    s.Generated classes → s.MessagesOrdered ∧ s.GroupsStart classes := by
  intro h
  have hstart := (h (demoRoleSchema partyFields partyFields.reverse) _
    (Schema.compiles.generated (by decide +kernel))).2
  have htable : (classAt ((demoRoleSchema partyFields partyFields.reverse).demoClasses reportKey)
      [453]).map (fun c => c.traits.map fun t => (t.fnum, t.pos)) = some [(448, 1), (452, 2)] := by
    decide +kernel
  obtain ⟨c, hc, htraits⟩ := Option.map_eq_some_iff.1 htable
  obtain ⟨t, ht, hfnum, hpos⟩ := hstart reportKey
    (demoRoles reportKey (ascii "ExecutionReport") partyFields.reverse) [453] _ c
    { name := some (ascii "PartyRole"), required := some (ascii "Y"), subIdx := 1 } 452
    (by rfl) (by rfl) hc ⟨List.mem_cons_self, by decide⟩ (by decide +kernel)
  have hmem : (452, 1) ∈ c.traits.map fun t => (t.fnum, t.pos) :=
    List.mem_map.2 ⟨t, ht, by rw [hfnum, hpos]⟩
  rw [htraits] at hmem
  exact absurd hmem (by decide)

end Fix8.Compiler
