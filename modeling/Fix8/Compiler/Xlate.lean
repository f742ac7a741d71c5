import Fix8.Lib.Pattern
import Fix8.Lib.Exhaust
import Fix8.Codec.Number

/-!
# References in the text of a document

`InplaceXlate` replaces the leftmost named reference as long as there is one, then the leftmost
numeric one, and then one variable of the environment and one command. Every search takes the text
that its change has left, as a C string.
-/

namespace Fix8.Compiler

open Lib Codec

/-! ## Patterns -/

/-- `rCX_`: `&([a-z]{2,}[1-4]{0,});`. -/
def rCX : List (Pattern UInt8) :=
  [[.char 38, .run (fun c => 97 ≤ c && c ≤ 122) 2, .run (fun c => 49 ≤ c && c ≤ 52) 0, .char 59]]

/-- `[A-Fa-f0-9]`. -/
def isxdigit (c : UInt8) : Bool := isdigit c || 65 ≤ c && c ≤ 70 || 97 ≤ c && c ≤ 102

/-- `rCE_`: `&#(x[A-Fa-f0-9]+|[0-9]+);`. -/
def rCE : List (Pattern UInt8) :=
  [[.char 38, .char 35, .char 120, .run isxdigit 1, .char 59],
    [.char 38, .char 35, .run isdigit 1, .char 59]]

/-- `rEn_`: `\$\{([^}]+)\}`. -/
def rEn : List (Pattern UInt8) := [[.char 36, .char 123, .run (· ≠ 125) 1, .char 125]]

/-- `rEv_`: `!\{([^}]+)\}`. -/
def rEv : List (Pattern UInt8) := [[.char 33, .char 123, .run (· ≠ 125) 1, .char 125]]

/-! ## What a reference stands for -/

/-- `stringtochar_`. -/
def stringtochar : List (String × UInt8) :=
  [("amp", 38), ("lt", 60), ("gt", 62), ("apos", 39), ("quot", 34), ("nbsp", 160), ("iexcl", 161),
    ("cent", 162), ("pound", 163), ("curren", 164), ("yen", 165), ("brvbar", 166), ("sect", 167),
    ("uml", 168), ("copy", 169), ("ordf", 170), ("laquo", 171), ("not", 172), ("shy", 173),
    ("reg", 174), ("macr", 175), ("deg", 176), ("plusmn", 177), ("sup2", 178), ("sup3", 179),
    ("acute", 180), ("micro", 181), ("para", 182), ("middot", 183), ("cedil", 184), ("sup1", 185),
    ("ordm", 186), ("raquo", 187), ("frac14", 188), ("frac12", 189), ("frac34", 190),
    ("iquest", 191)]

/-- The character of a name, `?` where it has none. -/
def namedChar (name : F8String) : UInt8 :=
  ((stringtochar.find? fun entry => ascii entry.1 = name).map (·.2)).getD 63

/-- The first subexpression of a match of `rCX`. -/
def named (parts : List F8String) : F8String := [namedChar (parts.getD 1 [] ++ parts.getD 2 [])]

def digitValue (c : UInt8) : Nat :=
  if isdigit c then c.toNat - 48 else if c < 97 then c.toNat - 55 else c.toNat - 87

/-- `istr >> value` with digits only: a number that is too large reads as the largest one. -/
def readInt (base : Nat) (digits : F8String) : Nat :=
  min (digits.foldl (fun value c => value * base + digitValue c) 0) 2147483647

/-- The bytes of a character code: the high one where it is not 0, and the low one. -/
def codeBytes (value : Nat) : F8String :=
  (if value / 256 % 256 ≠ 0 then [UInt8.ofNat (value / 256)] else []) ++ [UInt8.ofNat value]

/-- The first subexpression of a match of `rCE`. -/
def numeric : List F8String → F8String
  | [_, _, _, digits, _] => codeBytes (readInt 16 digits)
  | parts => codeBytes (readInt 10 (parts.getD 2 []))

/-! ## Replacement -/

/-- A search in a C string, and `Replace` in the text. -/
def replaceMatch (alts : List (Pattern UInt8)) (f : List F8String → F8String) (what : F8String) :
    Option F8String :=
  (Pattern.search alts (cstr what)).map fun found =>
    found.before ++ f found.parts ++
      what.drop (found.before.length + found.parts.flatten.length)

/-- What surrounds the program: `getenv`, and `exec_cmd`, whose result may be empty. -/
structure Surroundings where
  getenv : F8String → Option F8String
  execCmd : F8String → F8String

namespace XmlElement

/-- The first loop of `InplaceXlate`. -/
def xlateNamed (what : F8String) : F8String := exhaust (replaceMatch rCX named) what.length what

/-- Its second loop. -/
def xlateNumeric (what : F8String) : F8String := exhaust (replaceMatch rCE numeric) what.length what

/-- A variable or a command is replaced once, unless its value is empty. -/
def xlateOnce (alts : List (Pattern UInt8)) (value : F8String → F8String) (what : F8String) :
    F8String :=
  match Pattern.search alts (cstr what) with
  | some found =>
    if value (found.parts.getD 2 []) = [] then what
    else (replaceMatch alts (fun parts => value (parts.getD 2 [])) what).getD what
  | none => what

section
variable (sur : Surroundings) (noextensions : Bool)

/-- `InplaceXlate`. -/
def inplaceXlate (what : F8String) : F8String :=
  if noextensions then
    xlateNumeric (xlateNamed what)
  else
    xlateOnce rEv sur.execCmd
      (xlateOnce rEn (fun name => (sur.getenv name).getD []) (xlateNumeric (xlateNamed what)))

end

end XmlElement

end Fix8.Compiler
