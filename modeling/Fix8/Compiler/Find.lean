import Fix8.Compiler.Xml

/-!
# Searching a document

Both `find` functions with all that they take: a path that may begin at the root, and an attribute
to compare. A path is given by the texts between its slashes, so that `//` at its beginning is two
empty ones with something behind them; letters are compared as they are.
-/

namespace Fix8.Compiler

open Lib

namespace XmlElement

/-- `findAttrByValue`. -/
def findAttrByValue (e : XmlElement) (what val : String) : Bool := e.getAttr what = some val

/-- Both searches compare an attribute only where a name and a value are given. -/
def passes (atag aval : Option String) (e : XmlElement) : Bool :=
  match atag, aval with
  | some tag, some val => e.findAttrByValue tag val
  | _, _ => true

/-- `equal_range` of the children; equal keys are in the order of their insertion. -/
def childrenNamed (e : XmlElement) (what : String) : List XmlElement :=
  e.children.filter (·.tag = what)

section
variable (root : XmlElement) (atag aval : Option String)

/-- `find` of the first matching element. -/
def findFirst : List String → XmlElement → Option XmlElement
  | "" :: "" :: what :: path, _ => findFirst (what :: path) root
  | [], _ => none
  | [what], e => if what = e.tag then (if e.passes atag aval then some e else none) else none
  | what :: next :: path, e =>
    if "/".intercalate (what :: next :: path) = e.tag then
      (if e.passes atag aval then some e else none)
    else if what = e.tag then
      (e.childrenNamed next).findSome? (findFirst (next :: path))
    else none

/-- `find` of all matching elements, and the number that it returns. -/
def findEach : List String → XmlElement → XmlSet → XmlSet × Nat
  | "" :: "" :: what :: path, _, eset => findEach (what :: path) root eset
  | [], _, eset => (eset, 0)
  | [what], e, eset =>
    if what = e.tag then
      (if e.passes atag aval then (eset.add e, (eset.add e).entries.length) else (eset, 0))
    else (eset, 0)
  | what :: next :: path, e, eset =>
    if "/".intercalate (what :: next :: path) = e.tag then
      (if e.passes atag aval then (eset.add e, (eset.add e).entries.length) else (eset, 0))
    else if what = e.tag ∧ e.children ≠ [] then
      let eset := (e.childrenNamed next).foldl (fun eset c => (findEach (next :: path) c eset).1) eset
      (eset, eset.entries.length)
    else (eset, 0)

end

end XmlElement

end Fix8.Compiler
