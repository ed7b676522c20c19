/-!
# Tokens

The words of grammar notation and where they stand in the source.

* `Token.Kind`: the fourteen kinds of token, each with the name that messages use.
* `Position`: a line and a column, counted from one.
* `Token`: a kind, a value without its quotes, and a position.
-/

namespace SyntaxDiagram

/-- A place in a source text. -/
structure Position where
  line : Nat
  column : Nat
  deriving Repr, DecidableEq

namespace Position

/-- Where every text starts. -/
def start : Position := ⟨1, 1⟩

/-- The place behind a character. -/
def next (p : Position) (c : Char) : Position :=
  if c = '\n' then ⟨p.line + 1, 1⟩ else ⟨p.line, p.column + 1⟩

/-- The place behind a run of characters. -/
def advance (p : Position) (cs : List Char) : Position := cs.foldl next p

@[simp] theorem advance_nil (p : Position) : p.advance [] = p := rfl

theorem advance_append (p : Position) (a b : List Char) :
    p.advance (a ++ b) = (p.advance a).advance b := by
  simp [advance]

end Position

/-- Kinds of token. -/
inductive Token.Kind where
  | identifier
  | terminal
  | special
  | equals
  | comma
  | pipe
  | semicolon
  | period
  | openParen
  | closeParen
  | openBracket
  | closeBracket
  | openBrace
  | closeBrace
  deriving Repr, DecidableEq

namespace Token.Kind

/-- All kinds. -/
def all : List Kind :=
  [identifier, terminal, special, equals, comma, pipe, semicolon, period, openParen, closeParen,
    openBracket, closeBracket, openBrace, closeBrace]

/-- The name of a kind: punctuation is named by its character. -/
def name : Kind → String
  | identifier => "identifier"
  | terminal => "terminal"
  | special => "special"
  | equals => "="
  | comma => ","
  | pipe => "|"
  | semicolon => ";"
  | period => "."
  | openParen => "("
  | closeParen => ")"
  | openBracket => "["
  | closeBracket => "]"
  | openBrace => "\x7b"
  | closeBrace => "\x7d"

/-- The kind with a given name. -/
def ofName? (name : String) : Option Kind := all.find? fun kind => kind.name = name

end Token.Kind

/-- A word of the source. -/
structure Token where
  kind : Token.Kind
  /-- the text without quotes or question marks -/
  value : String
  position : Position
  deriving Repr, DecidableEq

end SyntaxDiagram
