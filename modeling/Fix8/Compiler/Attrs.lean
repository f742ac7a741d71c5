import Fix8.Compiler.Xlate
import Fix8.Lib.OrdMap
import Mathlib.Data.List.Lex

/-!
# The attributes of an element, as text

`ParseAttrs` reads the text between the name of an element and its end, a character at a time;
`output_attributes` of the pre-compiler writes the attributes of an element.
-/

namespace Fix8.Compiler

open Lib Codec

/-- Characters by their codes, as `std::string` compares them. -/
instance charOrder : LinearOrder UInt8 where
  le_refl := UInt8.le_refl
  le_trans := fun _ _ _ => UInt8.le_trans
  le_antisymm := fun _ _ => UInt8.le_antisymm
  le_total := UInt8.le_total
  lt_iff_le_not_ge := fun _ _ => by
    simp only [UInt8.lt_iff_toNat_lt, UInt8.le_iff_toNat_le]
    omega
  toDecidableLE := inferInstance

/-- `XmlAttrs`. -/
abbrev XmlAttrs := OrdMap F8String F8String

/-- `isspace`. -/
def isspace (c : UInt8) : Bool := c = 32 || 9 ≤ c && c ≤ 13

/-! ## Reading -/

/-- What an error names of the document: where the reading of it is. -/
structure XmlRoot where
  line : Nat
  inclusion : F8String
  incline : Nat

/-- The text of an `XMLError` about an attribute. -/
def XmlRoot.attrError (root : XmlRoot) (tmptag what : F8String) : F8String :=
  ascii "Error (" ++ itoa root.line ++ ascii ") attribute '" ++ tmptag ++ ascii "' " ++ what ++
    if root.inclusion ≠ [] then
      ascii " in inclusion " ++ root.inclusion ++ ascii " (" ++ itoa root.incline ++ ascii ")"
    else []

inductive AttrState where
  | ews | tag | es | oq | value | oc0 | comment | cc0
deriving DecidableEq, Repr

/-- The variables of `ParseAttrs`. -/
structure AttrReader where
  state : AttrState
  tmptag : F8String
  tmpval : F8String
  comchar : UInt8
  attrs : XmlAttrs

namespace AttrReader

def start : AttrReader := ⟨.ews, [], [], 0, .empty⟩

section
variable (root : XmlRoot) (sur : Surroundings) (noextensions : Bool)

/-- `illegal_char`. -/
def illegalChar (p : AttrReader) : Except F8String AttrReader :=
  .error (root.attrError p.tmptag (ascii "illegal character defined"))

/-- State `tag`. -/
def inTag (p : AttrReader) (c : UInt8) : Except F8String AttrReader :=
  if isspace c then .ok { p with state := .es }
  else if c = 61 then .ok { p with state := .oq }
  else if c = 34 ∨ c = 39 then p.illegalChar root
  else .ok { p with tmptag := p.tmptag ++ [c] }

/-- The end of a value. -/
def endValue (p : AttrReader) : Except F8String AttrReader :=
  if ∃ c ∈ p.tmptag, c ∈ ascii "\\'\"=" then p.illegalChar root
  else if p.tmptag ≠ ascii "docpath" then
    if p.attrs.get? p.tmptag = none then
      .ok ⟨.ews, [], [], 0,
        p.attrs.insert p.tmptag (XmlElement.inplaceXlate sur noextensions p.tmpval)⟩
    else .error (root.attrError p.tmptag (ascii "already defined"))
  else .ok ⟨.ews, [], [], 0, p.attrs⟩

/-- One character. -/
def next (p : AttrReader) (c : UInt8) : Except F8String AttrReader :=
  match p.state with
  | .comment => .ok (if c = 42 then { p with state := .cc0 } else p)
  | .cc0 => .ok { p with state := if c = 47 then .ews else .comment }
  | .ews =>
    if c = 47 then .ok { p with state := .oc0 }
    else if isspace c then .ok p
    else .ok { p with state := .tag, tmptag := p.tmptag ++ [c] }
  | .oc0 =>
    if c = 42 ∧ noextensions = false then .ok { p with state := .comment }
    else
      -- the case of `tag` follows without a `break`
      inTag root { p with state := .tag, tmptag := p.tmptag ++ [47, c] } c
  | .tag => inTag root p c
  | .es =>
    if c = 61 then .ok { p with state := .oq }
    else if c = 34 ∨ c = 39 then p.illegalChar root
    else .ok p
  | .oq =>
    if c = 34 ∨ c = 39 then .ok { p with state := .value, comchar := c }
    else if isspace c then .ok p
    else p.illegalChar root
  | .value =>
    if c ≠ p.comchar then .ok { p with tmpval := p.tmpval ++ [c] }
    else p.endValue root sur noextensions

def run (p : AttrReader) (text : F8String) : Except F8String AttrReader :=
  text.foldlM (next root sur noextensions) p

end

end AttrReader

namespace XmlElement

/-- `ParseAttrs`. The loop is left one round after the last character; what that round has for a
character is `stale`. -/
def parseAttrs (root : XmlRoot) (sur : Surroundings) (noextensions : Bool) (stale : UInt8)
    (attlst : F8String) : Except F8String XmlAttrs :=
  (AttrReader.start.run root sur noextensions (attlst ++ [stale])).map (·.attrs)

end XmlElement

/-! ## Writing -/

/-- The value that is written for an attribute. -/
def writtenValue (required : Bool) (name val : F8String) : F8String :=
  if name = ascii "required" ∧ val = ascii "Y" ∧ required = false then ascii "N" else val

def attrText (name val : F8String) : F8String :=
  ascii " " ++ name ++ ascii "='" ++ val ++ ascii "'"

/-- `output_attributes`. -/
def XmlAttrs.outputAttributes (attrs : XmlAttrs) (line : Nat) (required : Bool) : F8String :=
  (attrs.entries.flatMap fun e => attrText e.1 (writtenValue required e.1 e.2)) ++
    if line ≠ 0 then attrText (ascii "line") (itoa line) else []

end Fix8.Compiler
