import SyntaxDiagram.Grammar.Token
import SyntaxDiagram.Decimal.Notation

/-!
# Errors

* `ParseError`: why a grammar cannot be read, and where.
* `DescriptionError`: why a description is not one of a diagram.
* `Error`: everything that can go wrong, with its message and its coarse kind.
-/

namespace SyntaxDiagram

/-- What is wrong at a place in a grammar. -/
inductive ParseError.Cause where
  /-- no token starts with this character -/
  | strayCharacter (found : Char)
  | wrongToken (found expected : Token.Kind)
  | endBefore (expected : Token.Kind)
  /-- no operand starts with this token -/
  | notAnOperand (found : Token.Kind)
  | endBeforeOperand
  deriving Repr, DecidableEq

/-- A fault in the text of a grammar. -/
structure ParseError where
  cause : ParseError.Cause
  position : Position
  deriving Repr, DecidableEq

/-- The message without the position. -/
def ParseError.Cause.message : ParseError.Cause → String
  | strayCharacter found => "Unexpected token: \"" ++ found.toString ++ "\""
  | wrongToken found expected =>
    "Unexpected " ++ found.name ++ " when a " ++ expected.name ++ " was expected"
  | endBefore expected => "Unexpected end of input when a " ++ expected.name ++ " was expected"
  | notAnOperand found => "Unexpected " ++ found.name ++ " found in a right hand side value"
  | endBeforeOperand => "Unexpected end of input in a right hand side value"

/-- The message of a fault. -/
def ParseError.message (e : ParseError) : String :=
  e.cause.message ++ " at line " ++ toString e.position.line ++ ", column " ++
    toString e.position.column

/-- Why a text does not describe a diagram. -/
inductive DescriptionError where
  /-- the text is not JSON at all -/
  | malformed
  | fitsNothing
  | nestedDiagram
  | unknownStyle (name : String)
  deriving Repr, DecidableEq

/-- The message, which for malformed text depends on a position that is not kept. -/
def DescriptionError.message? : DescriptionError → Option String
  | malformed => none
  | fitsNothing => some "data did not match any variant of untagged enum TopLevel"
  | nestedDiagram => some "a diagram can only appear at the top level"
  | unknownStyle name => some ("unknown terminus style '" ++ name ++ "'")

/-- Containers that ask for a number of items. -/
inductive Container where
  | stack
  | verticalSequence
  | horizontalChoice
  | optionalSequence
  | alternatingSequence
  deriving Repr, DecidableEq

namespace Container

/-- The name that messages use. -/
def name : Container → String
  | stack => "Stack"
  | verticalSequence => "VerticalSequence"
  | horizontalChoice => "HorizontalChoice"
  | optionalSequence => "OptionalSequence"
  | alternatingSequence => "AlternatingSequence"

/-- How many items are asked for. -/
def expected : Container → String
  | stack | verticalSequence => "at least 1"
  | horizontalChoice | optionalSequence => "at least 2"
  | alternatingSequence => "exactly 2"

end Container

/-- Coarse kinds of error. -/
inductive Error.Kind where
  /-- counts and indices out of range -/
  | range
  /-- values of the wrong shape -/
  | shape
  /-- malformed grammars and names -/
  | malformed
  /-- drawing and serialization -/
  | geometry
  deriving Repr, DecidableEq

/-- Everything that can go wrong. -/
inductive Error where
  | grammar (error : ParseError)
  | description (error : DescriptionError)
  | invalidAttributeName (name : String)
  | itemCount (container : Container) (found : Nat)
  | normalOutOfRange (normal : Int) (count : Nat)
  | normalNotWhole (normal : Float)
  | unknownChoiceKind (name : String)
  | unknownDirection (name : String)
  | unknownSpin (name : String)
  | missingDocument
  | fixedWidth (width : Float)
  | refusedByDocument (reason : String)
  deriving Repr, BEq

namespace Error

/-- The coarse kind of an error. -/
def kind : Error → Kind
  | itemCount .. | normalOutOfRange .. => .range
  | description _ | normalNotWhole _ | unknownChoiceKind _ => .shape
  | grammar _ | invalidAttributeName _ => .malformed
  | unknownDirection _ | unknownSpin _ | missingDocument | fixedWidth _ | refusedByDocument _ =>
    .geometry

/-- The message of an error, where it is determined by its cause. -/
def message? : Error → Option String
  | grammar error => some error.message
  | description error => error.message?.map ("invalid diagram description: " ++ ·)
  | invalidAttributeName name => some ("Invalid attribute name " ++ name)
  | itemCount container found =>
    some (container.name ++ " requires " ++ container.expected ++ " items, got " ++ toString found)
  | normalOutOfRange normal count =>
    some ("normal must be an index between 0 and " ++ toString (count - 1) ++ ", got " ++
      toString normal)
  | normalNotWhole normal => some ("normal must be an integer, got " ++ Decimal.prose.write normal)
  | unknownChoiceKind name => some ("type must be 'any' or 'all', got '" ++ name ++ "'")
  | unknownDirection name => some ("invalid direction '" ++ name ++ "'")
  | unknownSpin name => some ("invalid spin '" ++ name ++ "'")
  | missingDocument => some "Missing document object"
  | fixedWidth width =>
    some ("diagrams are sized to their own content, cannot format with width " ++
      Decimal.prose.write width)
  | refusedByDocument reason => some ("DOM error: " ++ reason)

end Error
end SyntaxDiagram
