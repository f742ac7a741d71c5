import Fix8.Compiler.Generate
import Fix8.Compiler.Proof.Load
import Mathlib.Data.List.Nodup

/-!
# The entry that the factory selects

The table of messages has an entry for the header and one for the trailer, under the names of their
elements. Nothing keeps the MsgType of a text from being such a name.

* `select_eq_some`: what is selected is under the MsgType of the text;
* **`selects_message_iff`**: when it is an entry for a message;
* `factory_of_reinterpreted`: what the factory does with one that is not.
-/

namespace Fix8.Compiler

open Codec (F8String ascii cstr extractHeader)
open Lib

/-- The entry makes the message that the schema has under the key. -/
def MakesMessage (s : Schema) (key : CString) (entry : BaseMsgEntry) : Prop :=
  ∃ el ∈ s.mlist, ∃ name, el.tag = .message ∧ el.msgtype = some key ∧ el.name = some name ∧
    entry.create = .message name

section
variable {s : Schema} {table : MsgTable} {text : F8String} {key : CString} {entry : BaseMsgEntry}
  {mspec : OrdMap CString MessageSpec} {ms : MessageSpec} {realm : List F8String}

/-! ## The table -/

theorem messageTable_eq_some (h : messageTable s = some table) :
    (loadMessages s).glob.errors = 0 ∧ CompiledAs (loadMessages s).mspec ∧
      table = msgpairs (processOrdering (loadMessages s).mspec) := by
  unfold messageTable at h
  dsimp only at h
  split at h
  · rename_i hok
    exact ⟨hok.1, hok.2, (Option.some.inj h).symm⟩
  · cases h

theorem msgpairs_sorted : (msgpairs mspec).Pairwise fun a b => a.1 < b.1 :=
  List.pairwise_map.2 mspec.sorted

theorem findPtr_msgpairs : (msgpairs mspec).findPtr key = some entry ↔
    ∃ ms, mspec.get? key = some ms ∧ entry = .of ms.name := by
  unfold MsgTable.findPtr
  rw [Option.map_eq_some_iff]
  constructor
  · rintro ⟨e, he, rfl⟩
    obtain ⟨hmem, rfl⟩ := (findSorted_eq_some msgpairs_sorted).1 he
    obtain ⟨⟨k, ms⟩, hms, rfl⟩ := List.mem_map.1 hmem
    exact ⟨ms, OrdMap.get?_eq_some.2 hms, rfl⟩
  · rintro ⟨ms, hms, rfl⟩
    refine ⟨(key, .of ms.name), (findSorted_eq_some msgpairs_sorted).2 ⟨?_, rfl⟩, rfl⟩
    exact List.mem_map.2 ⟨(key, ms), OrdMap.get?_eq_some.1 hms, rfl⟩

/-- The entry that is selected is that of the message loaded under the MsgType of the text. -/
theorem select_eq_some (htable : messageTable s = some table)
    (h : table.select text = some entry) : (extractHeader text).1 ≠ 0 ∧
      ∃ ms, (loadMessages s).mspec.get? (wireMsgType text) = some ms ∧ entry = .of ms.name := by
  obtain ⟨-, -, rfl⟩ := messageTable_eq_some htable
  unfold MsgTable.select at h
  split at h
  · cases h
  · rename_i hlen
    obtain ⟨ms', hms', rfl⟩ := findPtr_msgpairs.1 h
    unfold processOrdering at hms'
    rw [OrdMap.get?_mapVal] at hms'
    obtain ⟨ms, hms, rfl⟩ := Option.map_eq_some_iff.1 hms'
    exact ⟨hlen, ms, hms, by rw [MessageSpec.name_withFields]⟩

/-! ## The header and the trailer -/

theorem of_reinterpreted {name cls : F8String} (h : name = ascii "header" ∨ name = ascii "trailer") :
    (BaseMsgEntry.of name).create ≠ .message cls := by
  unfold BaseMsgEntry.of
  dsimp only
  rw [if_pos h.symm]
  exact fun h => by cases h

/-- Without an error the header or the trailer is what was loaded under its name. -/
theorem LoadedFrom.special {st : Loaded} {tag : MessageTag} {key : CString}
    (h : LoadedFrom realm s.mlist st) (hzero : st.glob.errors = 0) (hhas : s.hasElement tag = true)
    (htag : tag = .header ∧ key = .header ∨ tag = .trailer ∧ key = .trailer) :
    ∃ ms, st.mspec.get? key = some ms ∧ ms.name = key.text := by
  obtain ⟨el, hmem, hel⟩ := List.any_eq_true.1 hhas
  have hel : el.tag = tag := of_decide_eq_true hel
  obtain ⟨k, ms, msgcat, hidentify, hget⟩ := h.kept hzero el hmem
  unfold MessageElement.identify at hidentify
  rcases htag with ⟨rfl, rfl⟩ | ⟨rfl, rfl⟩
  · rw [hel] at hidentify
    injection hidentify with hidentify
    injection hidentify with hk hname
    injection hname with hname
    subst hk
    exact ⟨ms, hget, hname.symm⟩
  · rw [hel] at hidentify
    injection hidentify with hidentify
    injection hidentify with hk hname
    injection hname with hname
    subst hk
    exact ⟨ms, hget, hname.symm⟩

/-- Classes of their own: the message under another key has another name. -/
theorem CompiledAs.name_ne {key' : CString} {ms' : MessageSpec} (h : CompiledAs mspec)
    (hms : mspec.get? key = some ms) (hms' : mspec.get? key' = some ms') (hne : key ≠ key') :
    ms.name ≠ ms'.name := by
  intro hname
  have heq := List.inj_on_of_nodup_map h.1 (OrdMap.get?_eq_some.1 hms) (OrdMap.get?_eq_some.1 hms')
    hname
  exact hne (congrArg Prod.fst heq)

/-- **When the factory builds a message**: the entry that it selects is one of the message types of
the schema iff the MsgType on the wire is neither `header` nor `trailer`. -/
theorem selects_message_iff (htable : messageTable s = some table)
    (h : table.select text = some entry) : MakesMessage s (wireMsgType text) entry ↔
      wireMsgType text ≠ .header ∧ wireMsgType text ≠ .trailer := by
  obtain ⟨hzero, hcompiled, -⟩ := messageTable_eq_some htable
  obtain ⟨-, ms, hms, rfl⟩ := select_eq_some htable h
  obtain ⟨realm, hloaded, hspecial⟩ := loadedFrom_messages s
  obtain ⟨hheader, htrailer⟩ := hspecial hzero
  obtain ⟨msh, hmsh, hnameh⟩ := hloaded.special hzero hheader (.inl ⟨rfl, rfl⟩)
  obtain ⟨mst, hmst, hnamet⟩ := hloaded.special hzero htrailer (.inr ⟨rfl, rfl⟩)
  generalize wireMsgType text = key at hms
  constructor
  · rintro ⟨el, -, name, -, -, -, hcreate⟩
    constructor
    · rintro rfl
      rw [hms] at hmsh
      obtain rfl := Option.some.inj hmsh
      exact of_reinterpreted (.inl hnameh) hcreate
    · rintro rfl
      rw [hms] at hmst
      obtain rfl := Option.some.inj hmst
      exact of_reinterpreted (.inr hnamet) hcreate
  · rintro ⟨hneh, hnet⟩
    obtain ⟨el, hmem, msgcat, hidentify⟩ := hloaded.origin key ms hms
    have hh : ms.name ≠ ascii "header" := fun hname =>
      hcompiled.name_ne hms hmsh hneh (hname.trans hnameh.symm)
    have ht : ms.name ≠ ascii "trailer" := fun hname =>
      hcompiled.name_ne hms hmst hnet (hname.trans hnamet.symm)
    refine ⟨el, hmem, ms.name, ?_⟩
    unfold MessageElement.identify at hidentify
    split at hidentify
    · injection hidentify with hidentify
      injection hidentify with hk
      exact absurd hk.symm hneh
    · injection hidentify with hidentify
      injection hidentify with hk
      exact absurd hk.symm hnet
    · rename_i htag
      split at hidentify
      · rename_i msgtype name _ hmsgtype hname _
        split at hidentify
        · injection hidentify with hidentify
          injection hidentify with hk hrest
          injection hrest with hn
          subst hk hn
          refine ⟨htag, hmsgtype, hname, ?_⟩
          unfold BaseMsgEntry.of
          dsimp only
          rw [if_neg (not_or.2 ⟨ht, hh⟩)]
        · cases hidentify
      · cases hidentify

/-- With another entry the factory calls the functions of a `Message` on an object that is none. -/
theorem factory_of_reinterpreted {D : Type} [Codec.FpType D] {cx : Codec.F8MetaCntx}
    {now : Codec.Ticks} {call fuel : Nat} {noChksum permissive : Bool}
    (htable : messageTable s = some table) (h : table.select text = some entry)
    (hother : ¬ MakesMessage s (wireMsgType text) entry) :
    Codec.factory (D := D) cx now call fuel text noChksum permissive = .error .undefined := by
  obtain ⟨hlen, -⟩ := select_eq_some htable h
  rw [selects_message_iff htable h, not_and_or, not_not, not_not] at hother
  have hmtype : cstr (extractHeader text).2.2 = ascii "header" ∨
      cstr (extractHeader text).2.2 = ascii "trailer" := by
    rcases hother with hother | hother
    · exact .inl (congrArg CString.text hother)
    · exact .inr (congrArg CString.text hother)
  unfold Codec.factory
  rcases hext : extractHeader text with ⟨hlen', len, mtype⟩
  rw [hext] at hlen hmtype
  dsimp only at hlen hmtype ⊢
  rw [if_neg hlen, if_pos hmtype]
  rfl

end

/-! ## A schema with a heartbeat -/

/-- A header, a trailer and a heartbeat. -/
def demoSchema : Schema where
  fspec := OrdMap.empty.insert 35 ⟨ascii "MsgType", .string, some [ascii "0"]⟩
  components := []
  mlist := [{ tag := .header }, { tag := .trailer },
    { tag := .message, msgtype := some ⟨ascii "0", by decide⟩, name := some (ascii "Heartbeat"),
      msgcat := some (ascii "admin") }]

/-- A text with this MsgType. -/
def demoTyped (msgType : String) : F8String :=
  ascii "8=FIX.4.2" ++ [1] ++ ascii "9=5" ++ [1] ++ ascii "35=" ++ ascii msgType ++ [1] ++
    ascii "10=000" ++ [1]

/-- What is selected for it. -/
def demoSelected (msgType : String) : Option BaseMsgEntry :=
  (messageTable demoSchema).bind fun table => table.select (demoTyped msgType)

theorem demoSelected_header :
    demoSelected "header" = some ⟨.reinterpreted (ascii "header"), ascii "header"⟩ := by
  decide +kernel

theorem selects_message_demo : ∃ table entry, messageTable demoSchema = some table ∧
    table.select (demoTyped "0") = some entry ∧
    (MakesMessage demoSchema (wireMsgType (demoTyped "0")) entry ↔
      wireMsgType (demoTyped "0") ≠ .header ∧ wireMsgType (demoTyped "0") ≠ .trailer) := by
  have hselected : demoSelected "0" = some ⟨.message (ascii "Heartbeat"), ascii "Heartbeat"⟩ := by
    decide +kernel
  obtain ⟨table, htable, hentry⟩ := Option.bind_eq_some_iff.1 hselected
  exact ⟨table, _, htable, hentry, selects_message_iff htable hentry⟩

/-- A text with MsgType `header` selects the entry of the header. -/
theorem header_selected : ¬ ∀ (s : Schema) (table : MsgTable) (text : F8String)
    (entry : BaseMsgEntry), messageTable s = some table → table.select text = some entry →
      MakesMessage s (wireMsgType text) entry := by
  intro h
  obtain ⟨table, htable, hentry⟩ := Option.bind_eq_some_iff.1 demoSelected_header
  obtain ⟨el, -, name, -, -, -, hcreate⟩ := h _ _ _ _ htable hentry
  cases hcreate

end Fix8.Compiler
