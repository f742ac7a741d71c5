import Fix8.Codec.Decode

/-!
# The scanner of elements

The two overloads of `extract_element` as the loops they are, over `from` and `sz`: one writes tag
and value through `char *` and ends them with a NUL, the other appends to strings. A read behind
the buffer is undefined.

* `extractElementPtr`, `extractElementStr`;
* `IsElement`: what they look for.
-/

namespace Fix8.Codec

/-- The states of the scanner. -/
inductive ScanState where
  | getTag
  | getValue
deriving DecidableEq, Repr

/-- What a call leaves: its result, the bytes it wrote for the tag and those for the value. -/
structure Scanned where
  result : Nat
  tag : F8String
  val : F8String
deriving DecidableEq, Repr

/-- The loop of `extract_element(const char *, unsigned, char *, char *)`, with `left` turns to go;
`tag` and `val` are the bytes in front of the pointers. -/
def extractElementPtrLoop (src : F8String) :
    (left ii : Nat) → ScanState → (tag val : F8String) → Except Stop Scanned
  | 0, _, _, tag, val => .ok ⟨0, tag ++ [0], val ++ [0]⟩
  | left + 1, ii, state, tag, val =>
    match src[ii]? with
    | none => .error .undefined
    | some c =>
      match state with
      | .getTag =>
        if ¬isdigit c then
          if c ≠ assignmentSeparator then .ok ⟨0, tag ++ [0], val ++ [0]⟩
          else extractElementPtrLoop src left (ii + 1) .getValue tag val
        else extractElementPtrLoop src left (ii + 1) .getTag (tag ++ [c]) val
      | .getValue =>
        if c = fieldSeparator then .ok ⟨ii + 1, tag ++ [0], val ++ [0]⟩
        else extractElementPtrLoop src left (ii + 1) .getValue tag (val ++ [c])

/-- `extract_element(const char *, unsigned, char *, char *)`. -/
def extractElementPtr (src : F8String) (sz : Nat) : Except Stop Scanned :=
  extractElementPtrLoop src sz 0 .getTag [] []

/-- The loop of `extract_element(const char *, unsigned, f8String&, f8String&)`. -/
def extractElementStrLoop (src : F8String) :
    (left ii : Nat) → ScanState → (tag val : F8String) → Except Stop Scanned
  | 0, _, _, tag, val => .ok ⟨0, tag, val⟩
  | left + 1, ii, state, tag, val =>
    match src[ii]? with
    | none => .error .undefined
    | some c =>
      match state with
      | .getTag =>
        if ¬isdigit c then
          if c ≠ assignmentSeparator then .ok ⟨0, tag, val⟩
          else extractElementStrLoop src left (ii + 1) .getValue tag val
        else extractElementStrLoop src left (ii + 1) .getTag (tag ++ [c]) val
      | .getValue =>
        if c = fieldSeparator then .ok ⟨ii + 1, tag, val⟩
        else extractElementStrLoop src left (ii + 1) .getValue tag (val ++ [c])

/-- `extract_element(const char *, unsigned, f8String&, f8String&)`. -/
def extractElementStr (src : F8String) (sz : Nat) : Except Stop Scanned :=
  extractElementStrLoop src sz 0 .getTag [] []

/-- The first `n` bytes of `s` are an element: digits, `=`, and the value up to its separator. -/
structure IsElement (s : F8String) (n : Nat) (tag val : F8String) : Prop where
  inside : n ≤ s.length
  text : s.take n = tag ++ assignmentSeparator :: (val ++ [fieldSeparator])
  digits : ∀ c ∈ tag, isdigit c = true
  value : fieldSeparator ∉ val

end Fix8.Codec
