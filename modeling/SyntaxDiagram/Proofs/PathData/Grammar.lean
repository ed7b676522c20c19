/-!
# Path data

Which texts are path data, said without a reader. The grammar is a part of the one that SVG has for
paths: every command has a letter of its own, and blanks stand between its arguments and nothing
else.

* `PathData.IsMagnitude`, `PathData.IsNumber`: numbers without and with a sign.
* `PathData.argumentKinds`: the arguments that a command has.
* `PathData.IsCommand`, `PathData.AreCommands`: a command with exactly its arguments, and any number
  of commands.
* `IsPathData`: commands of which the first is a move.
-/

namespace SyntaxDiagram

namespace PathData

/-- The blanks of path data. -/
def isBlank (c : Char) : Bool :=
  c = ' ' || c = '\t' || c = '\n' || c = '\r' || c = Char.ofNat 0xc

/-! ## Numbers -/

/-- One digit or more. -/
def AreDigits (cs : List Char) : Prop := cs ≠ [] ∧ ∀ c ∈ cs, c.isDigit

/-- Digits, perhaps with a point that has digits behind it. -/
inductive IsDecimal : List Char → Prop
  | whole {digits : List Char} (h : AreDigits digits) : IsDecimal digits
  | point {front back : List Char} (hfront : ∀ c ∈ front, c.isDigit) (hback : AreDigits back) :
      IsDecimal (front ++ '.' :: back)

/-- The power of ten behind a number, if there is one. -/
inductive IsExponent : List Char → Prop
  | none : IsExponent []
  | plain {letter : Char} {digits : List Char} (hletter : letter = 'e' ∨ letter = 'E')
      (h : AreDigits digits) : IsExponent (letter :: digits)
  | signed {letter sign : Char} {digits : List Char} (hletter : letter = 'e' ∨ letter = 'E')
      (hsign : sign = '+' ∨ sign = '-') (h : AreDigits digits) :
      IsExponent (letter :: sign :: digits)

/-- Numbers without a sign. -/
inductive IsMagnitude : List Char → Prop
  | intro {decimal exponent : List Char} (hdecimal : IsDecimal decimal)
      (hexponent : IsExponent exponent) : IsMagnitude (decimal ++ exponent)

/-- Numbers, perhaps with a sign. -/
inductive IsNumber : List Char → Prop
  | plain {cs : List Char} (h : IsMagnitude cs) : IsNumber cs
  | signed {sign : Char} {cs : List Char} (hsign : sign = '+' ∨ sign = '-') (h : IsMagnitude cs) :
      IsNumber (sign :: cs)

/-! ## Commands -/

/-- The kinds of argument. -/
inductive Kind where
  | number
  /-- a number that is not negative -/
  | magnitude
  | flag
  deriving Repr, DecidableEq

/-- The texts of an argument. -/
def Kind.Allows : Kind → List Char → Prop
  | number => IsNumber
  | magnitude => IsMagnitude
  | flag => fun cs => cs = ['0'] ∨ cs = ['1']

/-- The arguments of a command. Small letters are for coordinates that are relative to the point
reached, and capital letters for those that are not. -/
def argumentKinds (letter : Char) : Option (List Kind) :=
  match letter.toLower with
  | 'm' | 'l' | 't' => some [.number, .number]
  | 'h' | 'v' => some [.number]
  | 's' | 'q' => some (.replicate 4 .number)
  | 'c' => some (.replicate 6 .number)
  | 'a' => some [.magnitude, .magnitude, .number, .flag, .flag, .number, .number]
  | 'z' => some []
  | _ => none

/-- Arguments with blanks between them. -/
inductive AreArguments : List Kind → List Char → Prop
  | nil : AreArguments [] []
  | last {kind : Kind} {cs : List Char} (h : kind.Allows cs) : AreArguments [kind] cs
  | cons {kind next : Kind} {kinds : List Kind} {cs gap rest : List Char} (h : kind.Allows cs)
      (hne : gap ≠ []) (hgap : ∀ c ∈ gap, isBlank c) (hrest : AreArguments (next :: kinds) rest) :
      AreArguments (kind :: next :: kinds) (cs ++ (gap ++ rest))

/-- A command with as many arguments as it has, each of its kind. -/
inductive IsCommand (letter : Char) : List Char → Prop
  | intro {kinds : List Kind} {gap arguments : List Char} (hkinds : argumentKinds letter = some kinds)
      (hgap : ∀ c ∈ gap, isBlank c) (h : AreArguments kinds arguments) :
      IsCommand letter (letter :: (gap ++ arguments))

/-- Commands one after another. -/
inductive AreCommands : List Char → Prop
  | nil : AreCommands []
  | cons {letter : Char} {gap command rest : List Char} (hgap : ∀ c ∈ gap, isBlank c)
      (h : IsCommand letter command) (hrest : AreCommands rest) :
      AreCommands (gap ++ (command ++ rest))

end PathData

/-- Path data: a move, and any commands behind it. -/
def IsPathData (text : String) : Prop :=
  ∃ gap letter move rest, text.toList = gap ++ (move ++ rest) ∧ (∀ c ∈ gap, PathData.isBlank c) ∧
    letter ∈ ['M', 'm'] ∧ PathData.IsCommand letter move ∧ PathData.AreCommands rest

end SyntaxDiagram
