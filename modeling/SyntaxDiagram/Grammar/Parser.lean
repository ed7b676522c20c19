import SyntaxDiagram.Grammar.Basic
import SyntaxDiagram.Grammar.Scanner

/-!
# Parsers

A grammar is read by recursive descent with one token of lookahead:

    grammar  = { rule } ;
    rule     = identifier , "=" , choice , ( ";" | "." ) ;
    choice   = sequence , { "|" , sequence } ;
    sequence = operand , { "," , operand } ;
    operand  = "(" , choice , ")" | "{" , choice , "}" | "[" , choice , "]"
             | special | identifier | terminal ;

* `Parser`: reading, which goes through the tokens that are left.
* `Parser.eat`: takes a token of a kind. The token behind it is looked at in the same step, so what
  cannot be read there is reported by this step, and the lookahead is then lost.
* `Grammar.parse`: the grammar of a source.

No loop runs more often and no nesting is deeper than there are tokens. Their number, which bounds
all of them, is found once, by `Parser.bounded`, and handed on.
-/

namespace SyntaxDiagram

/-- Reading from the tokens that are left. After an error they stand where it left them. -/
abbrev Parser := EStateM ParseError Tokens

namespace Parser

/-- The kind of the next token. -/
def peekKind : Parser (Option Token.Kind) := do return (← get).peek?.map (·.kind)

/-- Takes a token of a kind. -/
def eat (kind : Token.Kind) : Parser Token := do
  match ← get with
  | .token t rest =>
    if t.kind ≠ kind then
      throw ⟨.wrongToken t.kind kind, t.position⟩
    else
      set rest
      match rest with
      | .stuck error => throw error
      | _ => return t
  | .finished position => throw ⟨.endBefore kind, position⟩
  | .stuck error => throw ⟨.endBefore kind, error.position⟩

/-- Something between brackets. -/
def enclosed (opening closing : Token.Kind) (inner : Parser Expr) : Parser Expr := do
  let _ ← eat opening
  let e ← inner
  let _ ← eat closing
  return e

/-- An operand, in which `choice` reads what is between brackets. -/
def operandWith (choice : Parser Expr) : Parser Expr := do
  match ← get with
  | .token t _ =>
    match t.kind with
    | .openParen => .group <$> enclosed .openParen .closeParen choice
    | .openBrace => .repetition <$> enclosed .openBrace .closeBrace choice
    | .openBracket => .optional <$> enclosed .openBracket .closeBracket choice
    | .special => (.special ·.value) <$> eat .special
    | .identifier => (.identifier ·.value) <$> eat .identifier
    | .terminal => (.terminal ·.value) <$> eat .terminal
    | other => throw ⟨.notAnOperand other, t.position⟩
  | .finished position => throw ⟨.endBeforeOperand, position⟩
  | .stuck error => throw ⟨.endBeforeOperand, error.position⟩

/-- More operands behind an operator, taken together from the left. At most `n` are read. -/
def more (operator : Token.Kind) (join : Expr → Expr → Expr) (operand : Parser Expr) :
    (n : Nat) → (left : Expr) → Parser Expr
  | 0, left => return left
  | n + 1, left => do
    if (← peekKind) = some operator then
      let _ ← eat operator
      let right ← operand
      more operator join operand n (join left right)
    else return left

/-- At most `n + 1` operands with an operator between them. -/
def chain (operator : Token.Kind) (join : Expr → Expr → Expr) (operand : Parser Expr) (n : Nat) :
    Parser Expr := do
  let left ← operand
  more operator join operand n left

/-- An operand with brackets nested at most `depth` deep, `n` bounding each chain in them. -/
def operandTo (n : Nat) : (depth : Nat) → Parser Expr
  | 0 => operandWith (throw ⟨.endBeforeOperand, .start⟩)
  | depth + 1 =>
    operandWith (chain .pipe .choice (chain .comma .sequence (operandTo n depth) n) n)

/-- An operand. -/
def operandOf (n : Nat) : Parser Expr := operandTo n n

/-- Operands with commas between them. -/
def sequenceOf (n : Nat) : Parser Expr := chain .comma .sequence (operandOf n) n

/-- Sequences with bars between them. -/
def choiceOf (n : Nat) : Parser Expr := chain .pipe .choice (sequenceOf n) n

/-- A rule with the period or semicolon behind it. -/
def ruleOf (n : Nat) : Parser Rule := do
  let name ← eat .identifier
  let _ ← eat .equals
  let body ← choiceOf n
  if (← peekKind) = some .period then
    let _ ← eat .period
  else
    let _ ← eat .semicolon
  return ⟨name.value, body⟩

/-- At most `count` rules, up to the place where there are no more tokens. -/
def rulesOf (n : Nat) : (count : Nat) → Parser (List Rule)
  | 0 => return []
  | count + 1 => do
    if (← peekKind).isSome then
      let r ← ruleOf n
      return r :: (← rulesOf n count)
    else return []

/-- Reads what is bounded by the number of tokens. -/
def bounded {β : Type} (read : Nat → Parser β) : Parser β := do read (← get).length

/-- An operand. -/
def operand : Parser Expr := bounded operandOf

/-- Operands with commas between them. -/
def sequence : Parser Expr := bounded sequenceOf

/-- Sequences with bars between them. -/
def choice : Parser Expr := bounded choiceOf

/-- A rule with the period or semicolon behind it. -/
def rule : Parser Rule := bounded ruleOf

/-- All rules up to the place where there are no more tokens. -/
def grammar : Parser Grammar := bounded fun n => do return ⟨← rulesOf n n⟩

/-- The tokens of a source, unless there is none to begin with. -/
def start (source : String) : Except ParseError Tokens :=
  match Tokens.ofString source with
  | .stuck error => .error error
  | tokens => .ok tokens

end Parser

/-- The grammar of a source. -/
def Grammar.parse (source : String) : Except ParseError Grammar := do
  let tokens ← Parser.start source
  match Parser.grammar.run tokens with
  | .ok g _ => .ok g
  | .error e _ => .error e

end SyntaxDiagram
