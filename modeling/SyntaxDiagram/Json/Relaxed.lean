import SyntaxDiagram.Json.Literal
import SyntaxDiagram.Text.Word

/-!
# Relaxed JSON notation

JSON for people: with comments, bare names, two kinds of quotes, commas at the end, and more forms
of number.

* `Json.parseRelaxed?`: the value that a whole text is.

Any integer has a value here, and so have infinities and what is not a number.
-/

namespace SyntaxDiagram.Json.Relaxed

/-- Ends of lines. -/
def isLineEnd (c : Char) : Bool := c = '\n' || c = '\r' || c = '\u2028' || c = '\u2029'

/-- Blanks between words. -/
def isGap (c : Char) : Bool :=
  isLineEnd c || c = '\t' || c = '\x0b' || c = '\x0c' || c = '\ufeff' ||
    (Text.isBlank c && c ≠ '\u0085')

/-- The text behind the end of a comment. -/
def afterComment? : List Char → Option (List Char)
  | '*' :: '/' :: rest => some rest
  | _ :: rest => afterComment? rest
  | [] => none

theorem length_afterComment? {cs rest : List Char} (h : afterComment? cs = some rest) :
    rest.length < cs.length := by
  fun_induction afterComment? cs with
  | case1 =>
    cases h
    exact Nat.lt_succ_of_lt (Nat.lt_succ_self _)
  | case2 _ _ _ ih => exact Nat.lt_trans (ih h) (by simp)
  | case3 => cases h

/-- A text without the blanks and comments at its front. A comment that does not end is left. -/
def skip (cs : List Char) : List Char :=
  match cs with
  | '/' :: '/' :: rest => skip (rest.dropWhile fun c => !isLineEnd c)
  | '/' :: '*' :: rest =>
    match h : afterComment? rest with
    | some rest' =>
      have := length_afterComment? h
      skip rest'
    | none => cs
  | c :: rest => if isGap c then skip rest else cs
  | [] => []
termination_by cs.length
decreasing_by
  · have := (List.dropWhile_suffix (l := rest) fun c => !isLineEnd c).length_le
    simp only [List.length_cons]
    omega
  · simp only [List.length_cons]
    omega
  · simp

/-- What a backslash and a character stand for, if that is one unit. -/
def escapeUnit? (c : Char) : Option Nat :=
  if c = 'b' then some 8
  else if c = 'f' then some 12
  else if c = 'n' then some 10
  else if c = 'r' then some 13
  else if c = 't' then some 9
  else if c = 'v' then some 11
  else if c = '0' then some 0
  else if c.isDigit || c = 'x' || c = 'u' || isLineEnd c then none
  else some c.toNat

/-- The units of a string up to its closing quote, and the text behind that. -/
def stringUnits (quote : Char) : List Char → Option (List Nat × List Char)
  | [] => none
  | '\\' :: '\r' :: '\n' :: rest => stringUnits quote rest
  | '\\' :: 'u' :: a :: b :: c :: d :: rest => do
    let unit ← hexValue? [a, b, c, d]
    let (units, rest) ← stringUnits quote rest
    return (unit :: units, rest)
  | '\\' :: 'x' :: a :: b :: rest => do
    let unit ← hexValue? [a, b]
    let (units, rest) ← stringUnits quote rest
    return (unit :: units, rest)
  | '\\' :: c :: rest =>
    if isLineEnd c then stringUnits quote rest
    else do
      let unit ← escapeUnit? c
      let (units, rest) ← stringUnits quote rest
      return (unit :: units, rest)
  | c :: rest =>
    if c = quote then some ([], rest)
    else if c = '\\' || isLineEnd c then none
    else do
      let (units, rest) ← stringUnits quote rest
      return (c.toNat :: units, rest)

/-- The code of a surrogate pair, whose halves have ten bits each. The bit `0x10000` is set among
those and not added to them, so that no code is beyond `0xFFFFF`. -/
def surrogatePair (lead trail : Nat) : Nat :=
  (lead - 0xD800) <<< 10 ||| (0x10000 + (trail - 0xDC00))

/-- The text that units make, if it is one. -/
def decode? (units : List Nat) : Option String :=
  (decodeUnits surrogatePair units).map String.ofList

/-- A string behind its opening quote; the inner option is its value. -/
def stringBody (quote : Char) (cs : List Char) : Option (Option String × List Char) := do
  let (units, rest) ← stringUnits quote cs
  return (decode? units, rest)

/-- The units of a bare name, and the text behind it. -/
def nameUnits (inside : Bool) : List Char → Option (List Nat × List Char)
  | '\\' :: 'u' :: a :: b :: c :: d :: rest => do
    let unit ← hexValue? [a, b, c, d]
    let (units, rest) ← nameUnits true rest
    return (unit :: units, rest)
  | c :: rest =>
    if Text.startsWord c || (inside && Text.continuesWord c) then do
      let (units, rest) ← nameUnits true rest
      return (c.toNat :: units, rest)
    else some ([], c :: rest)
  | [] => some ([], [])

/-- A bare name or a string in front of a value; the inner option is its value. -/
def name (cs : List Char) : Option (Option String × List Char) :=
  match cs with
  | '"' :: rest => stringBody '"' rest
  | '\'' :: rest => stringBody '\'' rest
  | _ => do
    let (units, rest) ← nameUnits false cs
    guard (!units.isEmpty)
    return (decode? units, rest)

/-- The digits of a hexadecimal number behind its mark. -/
def hexDigits (cs : List Char) : Option (Nat × List Char) := do
  let ds := cs.takeWhile fun c => (hexDigit? c).isSome
  guard (!ds.isEmpty)
  return (← hexValue? ds, cs.dropWhile fun c => (hexDigit? c).isSome)

/-- The value of a hexadecimal number, which has no sign and fits 32 bits. -/
def hexNumber (sign : Option Char) (n : Nat) : Option Number :=
  if sign.isNone && n < UInt32.size then some (.integer n) else none

/-- The value of a word for a number. Such a word cannot have a plus. -/
def wordNumber (sign : Option Char) (x : Float) : Option Number :=
  if sign = some '+' then none else some (.float (if sign = some '-' then -x else x))

/-- The value of a decimal number, unless that is beyond all floats: an integer, or the nearest
float if there is a point or an exponent. Zero keeps its sign. -/
def decimalNumber (t : NumberText) : Option Number :=
  let x := t.nearest
  let n := decimalValue t.whole
  if x.isInf then none
  else if t.fraction.isSome || t.exponent.isSome || (t.negative && n = 0) then some (.float x)
  else some (.integer (if t.negative then -n else n))

/-- The digits of a decimal number behind its sign. -/
def decimalText (negative : Bool) (cs : List Char) : Option (NumberText × List Char) := do
  let (whole, rest) := digits cs
  let (fraction, rest) := match rest with
    | '.' :: rest =>
      let (fraction, rest) := digits rest
      (some fraction, rest)
    | rest => (none, rest)
  guard (whole ≠ [] ∨ fraction.any (· ≠ []))
  guard (whole.head? ≠ some 0 ∨ whole.length = 1)
  let (e, rest) := (exponent rest).getD (none, rest)
  return (⟨negative, whole, fraction, e⟩, rest)

/-- A number behind its sign; the inner option is its value. -/
def numberBody (sign : Option Char) (cs : List Char) : Option (Option Number × List Char) :=
  match cs with
  | '0' :: 'x' :: rest | '0' :: 'X' :: rest =>
    (hexDigits rest).map fun (n, rest) => (hexNumber sign n, rest)
  | 'I' :: 'n' :: 'f' :: 'i' :: 'n' :: 'i' :: 't' :: 'y' :: rest =>
    some (wordNumber sign (1 / 0), rest)
  | 'N' :: 'a' :: 'N' :: rest => some (wordNumber sign (0 / 0), rest)
  | _ => (decimalText (sign = some '-') cs).map fun (t, rest) => (decimalNumber t, rest)

/-- A number with or without a sign. -/
def parseNumber? (cs : List Char) : Option (Option Number × List Char) :=
  match cs with
  | '+' :: rest => numberBody (some '+') rest
  | '-' :: rest => numberBody (some '-') rest
  | _ => numberBody none cs

/-- A number, a string or a word. -/
def parseScalar? (cs : List Char) : Option (Written × List Char) :=
  match cs with
  | 'n' :: 'u' :: 'l' :: 'l' :: rest => some (.null, rest)
  | 't' :: 'r' :: 'u' :: 'e' :: rest => some (.bool true, rest)
  | 'f' :: 'a' :: 'l' :: 's' :: 'e' :: rest => some (.bool false, rest)
  | '"' :: rest => (stringBody '"' rest).map fun (s, rest) => (.string s, rest)
  | '\'' :: rest => (stringBody '\'' rest).map fun (s, rest) => (.string s, rest)
  | _ => (parseNumber? cs).map fun (n, rest) => (.number n, rest)

mutual

/-- The value at the front of a text. There are fewer than `fuel` characters. -/
def parseValue : (fuel : Nat) → List Char → Option (Written × List Char)
  | 0, _ => none
  | fuel + 1, cs =>
    match skip cs with
    | '[' :: rest =>
      match skip rest with
      | ']' :: rest => some (.array [], rest)
      | rest => (parseItems fuel rest).map fun (items, rest) => (.array items, rest)
    | '\x7b' :: rest =>
      match skip rest with
      | '\x7d' :: rest => some (.object [], rest)
      | rest => (parseMembers fuel rest).map fun (members, rest) => (.object members, rest)
    | rest => parseScalar? rest

/-- One or more values up to the end of an array. -/
def parseItems : (fuel : Nat) → List Char → Option (List Written × List Char)
  | 0, _ => none
  | fuel + 1, cs => do
    let (item, rest) ← parseValue fuel cs
    match skip rest with
    | ']' :: rest => return ([item], rest)
    | ',' :: rest =>
      match skip rest with
      | ']' :: rest => return ([item], rest)
      | rest =>
        let (items, rest) ← parseItems fuel rest
        return (item :: items, rest)
    | _ => none

/-- One or more members up to the end of an object. -/
def parseMembers : (fuel : Nat) → List Char →
    Option (List (Option String × Written) × List Char)
  | 0, _ => none
  | fuel + 1, cs => do
    let (name, rest) ← name (skip cs)
    match skip rest with
    | ':' :: rest =>
      let (value, rest) ← parseValue fuel rest
      match skip rest with
      | '\x7d' :: rest => return ([(name, value)], rest)
      | ',' :: rest =>
        match skip rest with
        | '\x7d' :: rest => return ([(name, value)], rest)
        | rest =>
          let (members, rest) ← parseMembers fuel rest
          return ((name, value) :: members, rest)
      | _ => none
    | _ => none

end

end Relaxed

/-- The value that a whole text is in relaxed notation. -/
def parseRelaxed? (text : String) : Option Written := do
  let cs := text.toList
  let (value, rest) ← Relaxed.parseValue (2 * cs.length + 2) cs
  if (Relaxed.skip rest).isEmpty then some value else none

end SyntaxDiagram.Json
