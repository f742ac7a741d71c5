import Fix8.Compiler.Spec

/-!
# Loading a schema

`load_messages` with `parse_groups` and `process_message_fields`: a `MessageSpec` for each message,
and `globmap`, which keeps one group for each count field and hash.
-/

namespace Fix8.Compiler

open Codec (F8String ascii)
open Lib

/-- `CommonGroupMap`: groups by count field and hash. -/
abbrev CommonGroupMap := OrdMap Nat (OrdMap Nat MessageSpec)

/-- What the loading of messages adds to beside them; `errors` is `glob_errors`. -/
structure Glob where
  globmap : CommonGroupMap
  errors : Nat

/-- The messages loaded so far. -/
structure Loaded where
  mspec : OrdMap CString MessageSpec
  glob : Glob

namespace Glob

def empty : Glob := ⟨OrdMap.empty, 0⟩

/-- `++glob_errors`. -/
def error (st : Glob) : Glob := { st with errors := st.errors + 1 }

end Glob

/-! ## Fields -/

/-- `process_special_traits`. -/
def processSpecialTraits (field : Nat) (fts : Presence) : Presence :=
  match fts.get? field with
  | none => fts
  | some t =>
    if field = 8 ∨ field = 9 ∨ field = 10 then
      fts.replace field { t with suppress := true, automatic := true, mandatory := false }
    else if field = 35 then fts.replace field { t with automatic := true, mandatory := false }
    else fts

/-- One field of `process_message_fields`. -/
def processMessageField (s : Schema) (r : Presence × Glob) (el : FieldElement) : Presence × Glob :=
  match el.name, el.required with
  | some fname, some required =>
    match s.findField fname with
    | none => (r.1, r.2.error)
    | some (num, fs) =>
      let trait := FieldTrait.create num fs.ftype el.subIdx (required = ascii "Y") false
        (s.compidx el)
      if (r.1.get? trait.fnum).isSome then r
      else (processSpecialTraits trait.fnum (r.1.insert trait.fnum trait), r.2)
  | _, _ => (r.1, r.2.error)

/-- `process_message_fields`. -/
def processMessageFields (s : Schema) (fts : Presence) (st : Glob) (flist : List FieldElement) :
    Presence × Glob :=
  flist.foldl (processMessageField s) (fts, st)

/-! ## Groups -/

/-- The group under its count field and hash in `globmap`: one that is there stays, and is referred
to once more. -/
def CommonGroupMap.add (globmap : CommonGroupMap) (fnum : Nat) (hv : UInt32) (g : MessageSpec) :
    CommonGroupMap :=
  let variants := ((globmap.get? fnum).getD OrdMap.empty).insert hv.toNat g
  let variants :=
    match variants.get? hv.toNat with
    | none => variants
    | some shared =>
      variants.replace hv.toNat ((shared.withRefcnt (shared.groupRefcnt + 1)).withHash hv)
  if (globmap.get? fnum).isSome then globmap.replace fnum variants
  else globmap.insert fnum variants

mutual

/-- One group of `parse_groups`. -/
def parseGroup (s : Schema) : GroupElement → MessageSpec → Glob → MessageSpec × Glob
  | .mk attrs fields groups, ritr, st =>
    match attrs.name, attrs.required with
    | some gname, some required =>
      match s.findField gname with
      | none => (ritr, st.error)
      | some (num, _) =>
        let trait := FieldTrait.create num .int attrs.subIdx (required = ascii "Y") true
          (s.compidx attrs)
        if (ritr.fields.get? trait.fnum).isSome then (ritr, st)
        else
          let ritr := ritr.withFields (ritr.fields.insert trait.fnum trait)
          if (lookupKey num ritr.groups).isSome then (ritr, st)
          else
            let g := MessageSpec.create gname false
            let (gfields, st) := processMessageFields s g.fields st fields
            let (g, st) := parseGroupList s groups (g.withFields gfields) st
            let hv := groupHash g
            let g := g.withHash hv
            (ritr.withGroups (insertKey num g ritr.groups),
              { st with globmap := CommonGroupMap.add st.globmap num hv g })
    | _, _ => (ritr, st.error)

/-- The loop of `parse_groups`. -/
def parseGroupList (s : Schema) : List GroupElement → MessageSpec → Glob → MessageSpec × Glob
  | [], ritr, st => (ritr, st)
  | el :: grplist, ritr, st =>
    let (ritr, st) := parseGroup s el ritr st
    parseGroupList s grplist ritr st

end

/-- `parse_groups`. A group gets its hash once more when it is put into `globmap`. -/
def parseGroups (s : Schema) (grplist : List GroupElement) (ritr : MessageSpec) (st : Glob) :
    MessageSpec × Glob :=
  let (ritr, st) := parseGroupList s grplist ritr st
  (ritr.withHash (groupHash ritr), st)

/-! ## Messages -/

/-- `tolower`. -/
def tolower (c : UInt8) : UInt8 := if 65 ≤ c ∧ c ≤ 90 then c + 32 else c

/-- `operator%`, the comparison that ignores case. -/
def sameIgnoringCase (s t : F8String) : Bool := s.map tolower = t.map tolower

/-- The type, the name and the category of the message that an element defines; a message has to be
in the realm of MsgType. -/
def MessageElement.identify (realm : List F8String) (el : MessageElement) :
    Option (CString × F8String × F8String) :=
  match el.tag with
  | .header => some (.header, ascii "header", [])
  | .trailer => some (.trailer, ascii "trailer", [])
  | .message =>
    match el.msgtype, el.name, el.msgcat with
    | some msgtype, some name, some msgcat =>
      if msgtype.text ∈ realm then some (msgtype, name, msgcat) else none
    | _, _, _ => none

/-- One element of `load_messages`. -/
def loadMessage (s : Schema) (realm : List F8String) (st : Loaded) (el : MessageElement) : Loaded :=
  match el.identify realm with
  | none => { st with glob := st.glob.error }
  | some (msgtype, name, msgcat) =>
    if (st.mspec.get? msgtype).isSome then { st with glob := st.glob.error }
    else
      let spec := MessageSpec.create name (sameIgnoringCase msgcat (ascii "admin"))
      let (spec, glob) :=
        if el.groups.isEmpty then (spec, st.glob) else parseGroups s el.groups spec st.glob
      let (fields, glob) := processMessageFields s spec.fields glob el.fields
      ⟨st.mspec.insert msgtype (spec.withFields fields), glob⟩

/-- There is an element with the tag. -/
def Schema.hasElement (s : Schema) (tag : MessageTag) : Bool := s.mlist.any fun el => el.tag = tag

/-- The realm of MsgType. -/
def Schema.realm (s : Schema) : Option (List F8String) := (s.fspec.get? 35).bind (·.dvals)

/-- `load_messages`. -/
def loadMessages (s : Schema) : Loaded :=
  let empty : Loaded := ⟨OrdMap.empty, Glob.empty⟩
  if !s.hasElement .message || !s.hasElement .header || !s.hasElement .trailer then
    { empty with glob := empty.glob.error }
  else
    match s.realm with
    | none => { empty with glob := empty.glob.error }
    | some realm => s.mlist.foldl (loadMessage s realm) empty

end Fix8.Compiler
