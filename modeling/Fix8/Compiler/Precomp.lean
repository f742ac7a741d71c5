import Fix8.Compiler.Xml

/-!
# The precompiler

`precomp` and `precompfixt` write a schema with its components put in place: each reference to a
component is replaced by the elements of the component. A line is kept as its indentation, its tag
and its attributes. The expansion of components has a bound on its depth, which schemas without
cyclic references do not reach.
-/

namespace Fix8.Compiler

open Lib

/-! ## Output -/

/-- A line of the output, with its indentation in steps of two blanks. -/
inductive Line where
  | declaration
  /-- `<tag attrs>` -/
  | opens (depth : Nat) (tag : String) (attrs : List (String × String))
  /-- `<tag attrs/>` -/
  | empty (depth : Nat) (tag : String) (attrs : List (String × String))
  /-- `</tag>` -/
  | closes (depth : Nat) (tag : String)
deriving DecidableEq, Repr

/-- What is written, and how often `glob_errors` is counted up. -/
structure Output where
  lines : List Line
  errors : Nat := 0
deriving DecidableEq, Repr

namespace Output

/-- One output behind the other. -/
def append (o o' : Output) : Output := ⟨o.lines ++ o'.lines, o.errors + o'.errors⟩

/-- Outputs in a row. -/
def concat (os : List Output) : Output := os.foldr append ⟨[], 0⟩

end Output

/-- `output_attributes`. -/
def outputAttributes (xf : XmlElement) (required : Bool) : List (String × String) :=
  (xf.attrs.entries.map fun a =>
    (a.1, if a.1 = "required" ∧ a.2 = "Y" ∧ required = false then "N" else a.2)) ++
  if xf.line ≠ 0 then [("line", toString xf.line)] else []

/-- The attribute of what stands in a component. -/
def componentAttribute (compon : String) : List (String × String) :=
  if compon ≠ "" then [("component", compon)] else []

/-- `output_field`. -/
def outputField (xf : XmlElement) (depth : Nat) (compon : String) (required : Bool) : Output :=
  ⟨[.empty depth "field" (outputAttributes xf required ++ componentAttribute compon)], 0⟩

/-! ## Messages -/

/-- `Components`. -/
abbrev Components := OrdMap String XmlElement

/-- `load_components`. -/
def loadComponents (comlist : XmlSet) : Components :=
  comlist.elements.foldl (fun components pp =>
    match pp.getAttr "name" with
    | some name => components.insert name pp
    | none => components) OrdMap.empty

/-- `process_elements` on each of the elements. -/
def processAll (process : XmlElement → Option Output) (es : List XmlElement) : Option Output :=
  (es.mapM process).map Output.concat

/-- `process_component`; `process` is `process_elements`. -/
def processComponent (components : Components)
    (process : XmlElement → Nat → String → Bool → Option Output) (xf : XmlElement) (depth : Nat)
    (required : Bool) : Option Output :=
  let compRequired := xf.findAttr "required" false
  match components.get? xf.name with
  | none => some ⟨[], 1⟩
  | some c => processAll (fun e => process e depth xf.name
      (if depth = 3 then compRequired else compRequired && required)) c.children

/-- `process_group`; `process` is `process_elements`. -/
def processGroup (process : XmlElement → Nat → String → Bool → Option Output) (xf : XmlElement)
    (depth : Nat) (compon : String) (required : Bool) : Option Output :=
  (processAll (fun e => process e (depth + 1) "" required) xf.children).map fun o =>
    ⟨.opens depth "group" (outputAttributes xf required ++ componentAttribute compon) ::
      o.lines ++ [.closes depth "group"], o.errors⟩

/-- `process_elements`, to a depth of `fuel` elements. -/
def processElements (components : Components) : Nat → XmlElement → Nat → String → Bool →
    Option Output
  | 0, _, _, _, _ => none
  | fuel + 1, itr, depth, compon, required =>
    if itr.tag = "field" then some (outputField itr depth compon required)
    else if itr.tag = "component" then
      processComponent components (processElements components fuel) itr depth required
    else if itr.tag = "group" then
      processGroup (processElements components fuel) itr depth compon required
    else some ⟨[], 0⟩

/-- `process_messages`. -/
def processMessages (components : Components) (fuel : Nat) (xf : XmlElement) (tag : String)
    (depth : Nat) (required : Bool := true) : Option Output :=
  (processAll (fun e => processElements components fuel e (depth + 2) "" required)
    xf.children).map fun o =>
      ⟨.opens (depth + 1) tag (outputAttributes xf required) :: o.lines ++
        [.closes (depth + 1) tag], o.errors⟩

/-! ## Fields -/

/-- The loop of `process_fields`. -/
def processField (depth : Nat) (required : Bool) (itr : XmlElement) : List Line :=
  if itr.children.length ≠ 0 then
    .opens (depth + 1) "field" (outputAttributes itr required) ::
      itr.children.map (fun c => .empty (depth + 2) c.tag (outputAttributes c required)) ++
      [.closes (depth + 1) "field"]
  else [.empty (depth + 1) "field" (outputAttributes itr required)]

/-- `process_fields`. -/
def processFields (fldlist : XmlSet) (depth : Nat) (required : Bool := true) : Output :=
  ⟨.opens depth "fields" [] :: fldlist.elements.flatMap (processField depth required) ++
    [.closes depth "fields"], 0⟩

/-- `filter_unique`: of the elements with a name the first one stays. -/
def filterUnique (fldlist : XmlSet) : XmlSet :=
  let ufm := fldlist.elements.foldl (fun ufm pp => OrdMap.insert ufm pp.name pp) OrdMap.empty
  (ufm.entries.map Prod.snd).foldl XmlSet.add OrdMap.empty

/-- `dump_components`. -/
def dumpComponents (components : Components) : Output :=
  if components.entries = [] then ⟨[], 0⟩
  else ⟨.opens 1 "components" [] ::
    components.entries.zipIdx.map (fun c =>
      .empty 2 "component" [("name", c.1.1), ("id", toString (1 + c.2))]) ++
    [.closes 1 "components"], 0⟩

/-! ## Schemas -/

/-- The header or the trailer of a schema, where it has one. -/
def processPart (components : Components) (fuel : Nat) (part : Option XmlElement) (tag : String) :
    Option Output :=
  match part with
  | some xf => processMessages components fuel xf tag 0
  | none => some ⟨[], 0⟩

/-- The messages of a schema. -/
def processList (components : Components) (fuel : Nat) (msglist : XmlSet) : Option Output :=
  processAll (fun pp => processMessages components fuel pp "message" 1) msglist.elements

/-- The components of a schema. -/
def componentsOf (xf : XmlElement) : Components :=
  loadComponents (xf.findSet ["fix", "components", "component"] OrdMap.empty)

/-- The messages of a schema. -/
def messagesOf (xf : XmlElement) : XmlSet := xf.findSet ["fix", "messages", "message"] OrdMap.empty

/-- The output of a schema whose header and trailer, messages and fields are given. -/
def outputSchema (xf : XmlElement) (header trailer messages : Output) (fldlist : XmlSet)
    (components : Components) : Output :=
  Output.concat [⟨[.declaration, .opens 0 xf.tag (outputAttributes xf true)], 0⟩, header, trailer,
    ⟨[.opens 1 "messages" []], 0⟩, messages, ⟨[.closes 1 "messages"], 0⟩,
    processFields fldlist 1, dumpComponents components, ⟨[.closes 0 xf.tag], 0⟩]

/-- `precomp`. -/
def precomp (fuel : Nat) (xf : XmlElement) : Option Output := do
  let fldlist := xf.findSet ["fix", "fields", "field"] OrdMap.empty
  let components := componentsOf xf
  let header ← processPart components fuel (xf.find ["fix", "header"]) "header"
  let trailer ← processPart components fuel (xf.find ["fix", "trailer"]) "trailer"
  let messages ← processList components fuel (messagesOf xf)
  pure (outputSchema xf header trailer messages fldlist components)

/-- The fields that `precompfixt` writes: those of both documents in one set. -/
def mergedFields (xft xf : XmlElement) (nounique : Bool) : XmlSet :=
  let fldlist := xf.findSet ["fix", "fields", "field"]
    (xft.findSet ["fix", "fields", "field"] OrdMap.empty)
  if nounique then fldlist else filterUnique fldlist

/-- `precompfixt`. -/
def precompfixt (fuel : Nat) (xft xf : XmlElement) (nounique : Bool) : Option Output := do
  let fldlist := mergedFields xft xf nounique
  let componentsfixt := componentsOf xft
  let components := componentsOf xf
  let header ← processPart componentsfixt fuel (xft.find ["fix", "header"]) "header"
  let trailer ← processPart componentsfixt fuel (xft.find ["fix", "trailer"]) "trailer"
  let messagesfixt ← processList componentsfixt fuel (messagesOf xft)
  let messages ← processList components fuel (messagesOf xf)
  pure (outputSchema xft header trailer (messagesfixt.append messages) fldlist components)

end Fix8.Compiler
