import Fix8.Lib.OrdMap
import Mathlib.Data.String.Basic

/-!
# XML documents

What the compiler reads of an XML document: the elements, their attributes, and the sequence number
that the parser gives each of them, by which a set of elements is ordered.
-/

namespace Fix8.Compiler

open Lib

/-! ## Elements -/

/-- `XmlElement`: its tag, its attributes by name, its sequence number, the line it stands on and
its children in the order of the file. -/
structure XmlElement where
  tag : String
  attrs : OrdMap String String
  sequence : Nat
  line : Nat
  children : List XmlElement

/-- `operator%` of strings. -/
def equalIgnoringCase (s t : String) : Bool :=
  s.toList.map Char.toLower = t.toList.map Char.toLower

/-- `get_value<bool>`. -/
def boolValue (source : String) : Bool :=
  source ≠ "" && (equalIgnoringCase source "true" || equalIgnoringCase source "yes" ||
    equalIgnoringCase source "y" || source = "1")

namespace XmlElement

/-- `GetAttr`. -/
def getAttr (e : XmlElement) (what : String) : Option String := e.attrs.get? what

/-- `FindAttr` of a bool. -/
def findAttr (e : XmlElement) (what : String) (defValue : Bool) : Bool :=
  (e.getAttr what).elim defValue boolValue

/-- The name that `GetAttr` leaves in a string. -/
def name (e : XmlElement) : String := (e.getAttr "name").getD ""

end XmlElement

/-! ## Sets of elements -/

/-- `XmlSet`: two elements with the same number are the same for it. -/
abbrev XmlSet := OrdMap Nat XmlElement

namespace XmlSet

/-- `insert`. -/
def add (eset : XmlSet) (e : XmlElement) : XmlSet := OrdMap.insert eset e.sequence e

/-- The elements, in order. -/
def elements (eset : XmlSet) : List XmlElement := eset.entries.map Prod.snd

end XmlSet

namespace XmlElement

/-- The elements that `find` comes to, with the components of the path. -/
def found : List String → XmlElement → List XmlElement
  | [], _ => []
  | [p], e => if p = e.tag then [e] else []
  | p :: q :: path, e =>
    if "/".intercalate (p :: q :: path) = e.tag then [e]
    else if p = e.tag then (e.children.filter fun c => c.tag = q).flatMap (found (q :: path))
    else []

/-- `find` of all elements. -/
def findSet (e : XmlElement) (what : List String) (eset : XmlSet) : XmlSet :=
  (e.found what).foldl XmlSet.add eset

/-- `find` of the first one. -/
def find (e : XmlElement) (what : List String) : Option XmlElement := (e.found what).head?

end XmlElement

/-! ## The numbers of a document -/

/-- What stands in a file: an element before it is numbered. -/
inductive Node where
  | mk (tag : String) (attrs : OrdMap String String) (line : Nat) (children : List Node)

/-- The constructor of `XmlElement`: an element takes the number after `seq`, and its children those
behind it. With the last number that has been given. -/
def Node.number : Node → Nat → XmlElement × Nat
  | .mk tag attrs line children, seq =>
    let r := numberAll children (seq + 1)
    ({ tag := tag, attrs := attrs, sequence := seq + 1, line := line, children := r.1 }, r.2)
where
  numberAll : List Node → Nat → List XmlElement × Nat
    | [], seq => ([], seq)
    | n :: ns, seq =>
      let r := n.number seq
      let rs := numberAll ns r.2
      (r.1 :: rs.1, rs.2)

/-- An element and all within it, in the order of the file. -/
def XmlElement.preorder : XmlElement → List XmlElement
  | ⟨tag, attrs, sequence, line, children⟩ =>
    ⟨tag, attrs, sequence, line, children⟩ :: preorderAll children
where
  preorderAll : List XmlElement → List XmlElement
    | [] => []
    | c :: cs => c.preorder ++ preorderAll cs

/-- A document, with its elements numbered in the order of the file. -/
structure Document where
  root : XmlElement
  ordered : (root.preorder.map XmlElement.sequence).Pairwise (· < ·)

end Fix8.Compiler
