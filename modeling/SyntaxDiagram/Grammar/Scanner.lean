import SyntaxDiagram.Grammar.Lexeme
import SyntaxDiagram.Error

/-!
# Scanners

* `Scanner`: the text that is left of a source, and where it stands.
* `Scanner.next`: the next token. A stray character is an error that does not go away: it is met
  again by every later call.
* `Tokens`: all tokens of a source, and how they end.
-/

namespace SyntaxDiagram

/-- A place in a source with the text behind it. -/
structure Scanner where
  rest : List Char
  position : Position := .start
  deriving Repr, DecidableEq

namespace Scanner

/-- The start of a source. -/
def ofString (source : String) : Scanner := { rest := source.toList }

/-- Whether nothing is left. -/
def finished (s : Scanner) : Bool := s.rest.isEmpty

/-- The place behind a piece. -/
def past (s : Scanner) (cut : Split s.rest) : Scanner :=
  ⟨cut.rest, s.position.advance cut.piece⟩

/-- What a scanner comes to. -/
inductive Event where
  | token (t : Token)
  | finished
  | error (e : ParseError)
  deriving Repr, DecidableEq

/-- The next token or the end, and the scanner behind it. -/
def next (s : Scanner) : Event × Scanner :=
  match s.rest with
  | [] => (.finished, s)
  | c :: _ =>
    match firstSplit? s.rest with
    | none => (.error ⟨.strayCharacter c, s.position⟩, s)
    | some (none, cut) =>
      have := cut.length_rest_lt
      (s.past cut).next
    | some (some kind, cut) => (.token ⟨kind, kind.value cut.piece, s.position⟩, s.past cut)
termination_by s.rest.length
decreasing_by simpa [past] using this

/-- A token takes something off the text that is left. -/
theorem length_rest_lt_of_next {s s' : Scanner} {t : Token} (h : s.next = (.token t, s')) :
    s'.rest.length < s.rest.length := by
  fun_induction next s with
  | case1 => cases h
  | case2 => cases h
  | case3 s _ _ _ cut _ hlt ih => exact Nat.lt_trans (ih h) (by simpa [past] using hlt)
  | case4 s _ _ _ kind cut _ =>
    cases h
    simpa [past] using cut.length_rest_lt

end Scanner

/-- The tokens of a source from a place on. -/
inductive Tokens where
  | token (t : Token) (rest : Tokens)
  /-- the source ends here -/
  | finished (position : Position)
  /-- the source cannot be read from here on -/
  | stuck (error : ParseError)
  deriving Repr, DecidableEq

namespace Tokens

/-- All tokens that a scanner comes to. -/
def ofScanner (s : Scanner) : Tokens :=
  match h : s.next with
  | (.token t, s') =>
    have := Scanner.length_rest_lt_of_next h
    token t (ofScanner s')
  | (.finished, s') => finished s'.position
  | (.error e, _) => stuck e
termination_by s.rest.length

/-- All tokens of a source. -/
def ofString (source : String) : Tokens := ofScanner (.ofString source)

/-- The number of tokens. -/
def length : Tokens → Nat
  | token _ rest => rest.length + 1
  | finished _ | stuck _ => 0

/-- The next token, if there is one. -/
def peek? : Tokens → Option Token
  | token t _ => some t
  | finished _ | stuck _ => none

/-- The place of the next token, or the place where there are no more. -/
def position : Tokens → Position
  | token t _ => t.position
  | finished position => position
  | stuck error => error.position

end Tokens
end SyntaxDiagram
