import Fix8.Compiler.Attrs
import Fix8.Lib.Machine
import Mathlib.Data.List.MinMax

/-!
# The parser of XML documents

The constructor of `XmlElement` is a state machine that reads a document a character at a time. It
calls itself for every child, and goes on with another file for an `xi:include`; the calls that are
open are a stack of frames.
-/

namespace Fix8.Compiler

open Lib Codec

/-- An element that has been read, with its children in the order of the file. -/
inductive XmlTree where
  | mk (tag : F8String) (attrs : XmlAttrs) (value decl : Option F8String)
    (children : List XmlTree)

namespace XmlTree

def tag : XmlTree → F8String
  | mk tag _ _ _ _ => tag

def children : XmlTree → List XmlTree
  | mk _ _ _ _ children => children

/-- The children of the first child. `children_` is ordered by tag. -/
def included (t : XmlTree) : List XmlTree :=
  ((t.children.argmin tag).map children).getD []

/-- What a child leaves with its parent. -/
def adopted (child : XmlTree) (wasInclude : Bool) : List XmlTree :=
  if child.tag = [] then []
  -- great-grandchildren move to the children
  else if wasInclude then child.included
  else [child]

end XmlTree

/-! ## A call of the constructor -/

/-- The states that can be reached. -/
inductive XmlState where
  | olb | otag | ocom0 | ocom1 | comment | ccom0 | ccomment | oattr | odec | cdec | value | cls
  | ctag | finished
deriving DecidableEq, Repr

/-- The variables of a call, and what it has found of its element. -/
structure XmlFrame where
  state : XmlState
  tmpotag : F8String
  tmpctag : F8String
  tmpval : F8String
  tmpattr : F8String
  tmpdec : F8String
  starttmpotag : Nat
  tag : F8String
  value : Option F8String
  decl : Option F8String
  wasInclude : Bool
  children : List XmlTree
  /-- `c`, which keeps its value when nothing more can be read -/
  last : UInt8

/-- What surrounds a call: what `InplaceXlate` uses, the files that can be opened, what the variable
of a loop holds in the round after the last character, and the attribute of the root. -/
structure XmlSetting where
  sur : Surroundings
  noextensions : Bool
  openFile : F8String → Option F8String
  stale : UInt8 → UInt8
  rootAttr : Option F8String

/-- `MaxDepth`. -/
def maxDepth : Nat := 128

/-- `rIn_`: `href="([^"]+)"`. -/
def rIn : List (Pattern UInt8) :=
  [(ascii "href=\"").map .char ++ [.run (· ≠ 34) 1, .char 34]]

/-- The file that an `xi:include` names. -/
def includeName (tmpattr : F8String) : Option F8String :=
  (Pattern.search rIn (cstr tmpattr)).map fun found => found.parts.getD 6 []

namespace XmlRoot

def inInclusion (root : XmlRoot) : F8String :=
  if root.inclusion ≠ [] then
    ascii " in inclusion " ++ root.inclusion ++ ascii " (" ++ itoa root.incline ++ ascii ")"
  else []

def error (root : XmlRoot) (what : F8String) : F8String :=
  ascii "Error (" ++ itoa root.line ++ ascii "): " ++ what

/-- A newline has been read. -/
def newline (root : XmlRoot) : XmlRoot :=
  if root.inclusion ≠ [] then { root with incline := root.incline + 1 }
  else { root with line := root.line + 1 }

end XmlRoot

/-- What a character comes to in a call. -/
inductive Outcome where
  | on (f : XmlFrame)
  | child (f : XmlFrame)
  | inclusion (f : XmlFrame) (whatv : F8String)

namespace XmlFrame

def start : XmlFrame := ⟨.olb, [], [], [], [], [], 0, [], none, none, false, [], 0⟩

section
variable (env : XmlSetting) (root : XmlRoot) (depth : Nat)

/-- `illegal_tag`. -/
def illegalTag (f : XmlFrame) : Except F8String Outcome :=
  .error (root.error (ascii "unmatched tag '" ++ f.tmpotag ++ ascii "' (" ++ itoa f.starttmpotag ++
    ascii ") does not close with '" ++ f.tmpctag ++ ascii "'") ++ root.inInclusion)

/-- State `otag`. -/
def inOtag (f : XmlFrame) (c : UInt8) (peek : Option UInt8) : Except F8String Outcome :=
  if c = 62 then .ok (.on { f with state := .value })
  else if c = 47 ∧ peek = some 62 then
    .ok (.on { f with state := .ctag, tmpctag := f.tmpotag })
  else if isspace c ∧ f.tmpotag ≠ [] then .ok (.on { f with state := .oattr })
  else if c = 63 ∧ f.tmpotag = [] then .ok (.on { f with state := .odec })
  else if c = 33 ∧ f.tmpotag = [] then .ok (.on { f with state := .ocom0 })
  else if c ∈ ascii "=\\\"'" then f.illegalTag root
  else if isspace c then .ok (.on f)
  else
    .ok (.on { f with
      tmpotag := f.tmpotag ++ [c]
      starttmpotag := if f.starttmpotag = 0 then root.line else f.starttmpotag })

/-- State `oattr`. -/
def inOattr (f : XmlFrame) (c : UInt8) (peek : Option UInt8) : XmlFrame :=
  if c = 47 ∧ peek = some 62 then { f with state := .ctag, tmpctag := f.tmpotag }
  else if c = 62 then { f with state := .value }
  else { f with tmpattr := f.tmpattr ++ [c] }

/-- State `ctag`. -/
def inCtag (f : XmlFrame) (c : UInt8) : Except F8String Outcome :=
  if c = 62 then
    if f.tmpotag ≠ f.tmpctag then f.illegalTag root
    else if f.tmpotag = ascii "xi:include" then
      match includeName f.tmpattr with
      | some whatv => .ok (.inclusion { f with tag := f.tmpotag } whatv)
      | none =>
        .error (root.error (ascii "invalid xml include specification '" ++ f.tmpattr ++ ascii "'"))
    else
      .ok (.on { f with
        state := .finished
        tag := f.tmpotag
        value :=
          if ∃ c ∈ f.tmpval, c ∉ ascii " \t\n\r" then
            some (XmlElement.inplaceXlate env.sur env.noextensions f.tmpval)
          else f.value })
  else if isspace c then .ok (.on f)
  else .ok (.on { f with tmpctag := f.tmpctag ++ [c] })

/-- The `switch` on the state. -/
def read (f : XmlFrame) (c : UInt8) (peek : Option UInt8) : Except F8String Outcome :=
  match f.state with
  | .olb => .ok (.on (if c = 60 then { f with state := .otag } else f))
  | .otag => f.inOtag root c peek
  | .ocom0 =>
    .ok (.on (if c = 45 then { f with state := .ocom1 }
      else { f with state := .otag, tmpotag := f.tmpotag ++ ascii "!" }))
  | .ocom1 =>
    .ok (.on (if c = 45 then { f with state := .comment }
      else { f with state := .otag, tmpotag := f.tmpotag ++ ascii "!-" }))
  | .odec =>
    .ok (.on (if c = 63 then
        { f with state := .cdec, decl := if f.tmpdec ≠ [] then some f.tmpdec else f.decl }
      else { f with tmpdec := f.tmpdec ++ [c] }))
  | .oattr => .ok (.on (f.inOattr c peek))
  | .comment => .ok (.on (if c = 45 then { f with state := .ccom0 } else f))
  | .ccom0 => .ok (.on { f with state := if c = 45 then .ccomment else .comment })
  | .ccomment =>
    .ok (.on { f with
      state := if c = 62 then if depth = 0 then .olb else .finished else .comment })
  | .cdec =>
    .ok (.on (if c = 62 then { f with state := if depth = 0 then .olb else .finished } else f))
  | .value =>
    if c = 60 then
      if peek = some 47 then .ok (.on { f with state := .cls }) else .ok (.child f)
    else .ok (.on { f with tmpval := f.tmpval ++ [c] })
  | .cls => .ok (.on (if c = 47 then { f with state := .ctag } else f))
  | .ctag => f.inCtag env root c
  | .finished => .ok (.on f)

/-- `ParseAttrs`, where there is something to parse. -/
def closeAttrs (f : XmlFrame) : Except F8String XmlAttrs :=
  if f.tmpattr = [] then .ok .empty
  else
    XmlElement.parseAttrs root env.sur env.noextensions (env.stale (f.tmpattr.getLast?.getD 0))
      f.tmpattr

end

/-- `*ifsptr >> c`. -/
def withLast (f : XmlFrame) (c : UInt8) : XmlFrame := { f with last := c }

/-- The character may be a `/` that is followed by the end of a tag. -/
def peeks (f : XmlFrame) (c : UInt8) : Bool := c = 47 && (f.state = .otag || f.state = .oattr)

/-- The frame that goes on with a file. -/
def enter (f : XmlFrame) : XmlFrame :=
  { f with state := .olb, tmpctag := [], tmpval := [], tmpattr := [], tmpdec := [],
           wasInclude := true }

def toTree (f : XmlFrame) (attrs : XmlAttrs) : XmlTree :=
  .mk f.tag attrs f.value f.decl f.children

/-- A child has returned. -/
def adopt (f : XmlFrame) (child : XmlTree) (wasInclude : Bool) : XmlFrame :=
  { f with children := f.children ++ child.adopted wasInclude }

end XmlFrame

/-! ## The document and the calls that are open -/

/-- `istream`. -/
structure XmlInput where
  rest : F8String
  good : Bool
deriving DecidableEq

namespace XmlInput

/-- `peek` at the end of a file. -/
def peeked (input : XmlInput) : XmlInput := { input with good := input.good && input.rest ≠ [] }

def putback (input : XmlInput) (c : UInt8) : XmlInput :=
  if input.good then ⟨c :: input.rest, true⟩ else input

end XmlInput

/-- The innermost call with those around it, the document and the files that are included, from the
innermost one outwards. -/
structure Parser where
  root : XmlRoot
  frame : XmlFrame
  parents : List XmlFrame
  doc : XmlInput
  files : List XmlInput

namespace Parser

def start (doc : F8String) : Parser := ⟨⟨1, [], 1⟩, .start, [], ⟨doc, true⟩, []⟩

/-- `*ifsptr`. -/
def input (p : Parser) : XmlInput := p.files.headD p.doc

def withInput (p : Parser) (input : XmlInput) : Parser :=
  match p.files with
  | [] => { p with doc := input }
  | _ :: files => { p with files := input :: files }

section
variable (env : XmlSetting)

/-- A child begins: its `<` is read again. -/
def descend (p : Parser) (f : XmlFrame) (c : UInt8) : Except F8String Parser :=
  if maxDepth < p.parents.length + 1 then
    .error (p.root.error (ascii "maximum depth exceeded (" ++ itoa maxDepth ++ ascii ")"))
  else
    .ok { p.withInput (p.input.putback c) with frame := .start, parents := f :: p.parents }

/-- An `xi:include`, whose name is translated in place: a file that it has included before is
left. -/
def inclusion (p : Parser) (f : XmlFrame) (whatv : F8String) : Except F8String Parser :=
  let whatv := XmlElement.inplaceXlate env.sur env.noextensions whatv
  match env.openFile (cstr whatv) with
  | none => .error (p.root.error (ascii "could not process include '" ++ whatv ++ ascii "'"))
  | some content =>
    .ok { p with
      root := { p.root with inclusion := whatv, incline := 1 }
      frame := f.enter
      files := ⟨content, true⟩ :: if f.wasInclude then p.files.tail else p.files }

/-- A character that has been read. -/
def receive (p : Parser) (c : UInt8) : Except F8String Parser :=
  let f := p.frame.withLast c
  if c = 10 then .ok { p with root := p.root.newline, frame := f }
  else if c = 13 then .ok { p with frame := f }
  else
    match f.read env p.root p.parents.length c p.input.rest.head? with
    | .error e => .error e
    | .ok (.on f') =>
      .ok { if f.peeks c then p.withInput p.input.peeked else p with frame := f' }
    | .ok (.child f') => p.descend f' c
    | .ok (.inclusion f' whatv) => p.inclusion env f' whatv

/-- A round of the loop. -/
def take (p : Parser) : Except F8String Parser :=
  match p.input.rest with
  | [] => (p.withInput ⟨[], false⟩).receive env (env.stale p.frame.last)
  | c :: rest => (p.withInput ⟨rest, true⟩).receive env c

/-- The end of a call. -/
def leave (p : Parser) : Except F8String (Machine.Progress Parser XmlTree) :=
  match p.frame.closeAttrs env p.root, p.parents with
  | .error e, _ => .error e
  | .ok attrs, [] =>
    .ok (.done (p.frame.toTree (env.rootAttr.elim attrs (attrs.insert (ascii "docpath")))))
  | .ok attrs, parent :: parents =>
    let child := p.frame.toTree attrs
    .ok (.more
      { root :=
          if p.frame.wasInclude ∧ child.adopted true ≠ [] then { p.root with inclusion := [] }
          else p.root
        frame := parent.adopt child p.frame.wasInclude
        parents := parents
        doc := p.doc
        files := if p.frame.wasInclude then p.files.tail else p.files })

def step (p : Parser) : Except F8String (Machine.Progress Parser XmlTree) :=
  if p.input.good ∧ p.frame.state ≠ .finished then (p.take env).map .more else p.leave env

end

end Parser

/-- The parser accepts the document. -/
def Parses (env : XmlSetting) (doc : F8String) (t : XmlTree) : Prop :=
  ∃ fuel, Machine.run (Parser.step env) fuel (.start doc) = some (.ok t)

end Fix8.Compiler
