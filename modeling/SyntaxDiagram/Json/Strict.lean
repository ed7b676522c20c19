import SyntaxDiagram.Json.Literal

/-!
# JSON notation

* `Json.parse?`: the value at the front of a text, and whether the text ends behind it.
* `Json.parseAll?`: the value that a whole text is.
-/

namespace SyntaxDiagram.Json

/-- Blanks between the words of JSON. -/
def isGap (c : Char) : Bool := c = ' ' || c = '\t' || c = '\n' || c = '\r'

/-- A text without the blanks at its front. -/
def skipGaps (cs : List Char) : List Char := cs.dropWhile isGap

/-- The text behind a word. -/
def after? (word : List Char) (cs : List Char) : Option (List Char) :=
  if word.isPrefixOf cs then some (cs.drop word.length) else none

/-- What a backslash and a letter stand for. -/
def escapeUnit? : Char → Option Nat
  | '"' => some 34
  | '\\' => some 92
  | '/' => some 47
  | 'b' => some 8
  | 'f' => some 12
  | 'n' => some 10
  | 'r' => some 13
  | 't' => some 9
  | _ => none

/-- The units of a string behind its opening quote, and the text behind its closing one. -/
def stringUnits : List Char → Option (List Nat × List Char)
  | [] => none
  | '"' :: rest => some ([], rest)
  | '\\' :: 'u' :: a :: b :: c :: d :: rest => do
    let unit ← hexValue? [a, b, c, d]
    let (units, rest) ← stringUnits rest
    return (unit :: units, rest)
  | '\\' :: c :: rest => do
    let unit ← escapeUnit? c
    let (units, rest) ← stringUnits rest
    return (unit :: units, rest)
  | c :: rest =>
    if c.toNat < 32 then none
    else do
      let (units, rest) ← stringUnits rest
      return (c.toNat :: units, rest)

/-- The code of a surrogate pair, whose halves have ten bits each. -/
def surrogatePair (lead trail : Nat) : Nat := 0x10000 + (lead - 0xD800) * 0x400 + (trail - 0xDC00)

/-- A string behind its opening quote; the inner option is its value. -/
def stringBody (cs : List Char) : Option (Option String × List Char) := do
  let (units, rest) ← stringUnits cs
  return ((decodeUnits surrogatePair units).map String.ofList, rest)

/-- A number behind its sign. -/
def numberText (negative : Bool) (cs : List Char) : Option (NumberText × List Char) := do
  let (whole, rest) := digits cs
  guard (whole = [0] ∨ (whole ≠ [] ∧ whole.head? ≠ some 0))
  let (fraction, rest) ←
    match rest with
    | '.' :: rest =>
      let (fraction, rest) := digits rest
      if fraction.isEmpty then none else some (some fraction, rest)
    | rest => some (none, rest)
  let (e, rest) ← exponent rest
  return (⟨negative, whole, fraction, e⟩, rest)

/-- A number, a string or a word. -/
def parseScalar? : List Char → Option (Written × List Char)
  | '"' :: rest => do
    let (s, rest) ← stringBody rest
    return (.string s, rest)
  | '-' :: rest => do
    let (t, rest) ← numberText true rest
    return (.number t.value, rest)
  | cs =>
    match after? ['n', 'u', 'l', 'l'] cs with
    | some rest => some (.null, rest)
    | none =>
      match after? ['t', 'r', 'u', 'e'] cs with
      | some rest => some (.bool true, rest)
      | none =>
        match after? ['f', 'a', 'l', 's', 'e'] cs with
        | some rest => some (.bool false, rest)
        | none => (numberText false cs).map fun (t, rest) => (.number t.value, rest)

mutual

/-- The value at the front of a text. There are fewer than `fuel` characters. -/
def parseValue : (fuel : Nat) → List Char → Option (Written × List Char)
  | 0, _ => none
  | fuel + 1, cs =>
    match skipGaps cs with
    | '[' :: rest =>
      match skipGaps rest with
      | ']' :: rest => some (.array [], rest)
      | rest => (parseItems fuel rest).map fun (items, rest) => (.array items, rest)
    | '\x7b' :: rest =>
      match skipGaps rest with
      | '\x7d' :: rest => some (.object [], rest)
      | rest => (parseMembers fuel rest).map fun (members, rest) => (.object members, rest)
    | rest => parseScalar? rest

/-- One or more values up to the end of an array. -/
def parseItems : (fuel : Nat) → List Char → Option (List Written × List Char)
  | 0, _ => none
  | fuel + 1, cs => do
    let (item, rest) ← parseValue fuel cs
    match skipGaps rest with
    | ',' :: rest =>
      let (items, rest) ← parseItems fuel rest
      return (item :: items, rest)
    | ']' :: rest => return ([item], rest)
    | _ => none

/-- One or more members up to the end of an object. -/
def parseMembers : (fuel : Nat) → List Char →
    Option (List (Option String × Written) × List Char)
  | 0, _ => none
  | fuel + 1, cs =>
    match skipGaps cs with
    | '"' :: rest => do
      let (name, rest) ← stringBody rest
      match skipGaps rest with
      | ':' :: rest =>
        let (value, rest) ← parseValue fuel rest
        match skipGaps rest with
        | ',' :: rest =>
          let (members, rest) ← parseMembers fuel rest
          return ((name, value) :: members, rest)
        | '\x7d' :: rest => return ([(name, value)], rest)
        | _ => none
      | _ => none
    | _ => none

end

/-- The value at the front of a text, and whether nothing but blanks stands behind it. -/
def parse? (text : String) : Option (Written × Bool) := do
  let cs := text.toList
  let (value, rest) ← parseValue (2 * cs.length + 2) cs
  return (value, (skipGaps rest).isEmpty)

/-- The value that a whole text is. -/
def parseAll? (text : String) : Option Written := do
  let (value, complete) ← parse? text
  if complete then some value else none

end SyntaxDiagram.Json
