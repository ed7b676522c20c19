import SyntaxDiagram.Grammar.Scanner
import SyntaxDiagram.Grammar.Basic

/-!
# The grammar of grammars

Which token lists are grammars, and of which tree, said without a parser:

    grammar  = { rule } ;
    rule     = identifier , "=" , choice , ( ";" | "." ) ;
    choice   = sequence , { "|" , sequence } ;
    sequence = operand , { "," , operand } ;
    operand  = "(" , choice , ")" | "{" , choice , "}" | "[" , choice , "]"
             | special | identifier | terminal ;

* `Scanner.Yields`: the tokens of a source that can be read to its end.
* `Expr.Derives`: expressions. Chains of an operator nest to the left.
* `Rule.Derives`, `Grammar.Derives`: rules, and rules in a row.
-/

namespace SyntaxDiagram

/-- The tokens that a scanner comes to, one after another, up to the end of its source. -/
inductive Scanner.Yields : Scanner → List Token → Prop
  | finished {s s' : Scanner} (h : s.next = (.finished, s')) : Yields s []
  | token {s s' : Scanner} {t : Token} {ts : List Token} (h : s.next = (.token t, s'))
      (hrest : Yields s' ts) : Yields s (t :: ts)

/-- The three kinds of phrase that an expression is made of. -/
inductive Phrase where
  | operand
  | sequence
  | choice
  deriving Repr, DecidableEq

/-- The three pairs of brackets. -/
inductive Bracket where
  | round
  | curly
  | square
  deriving Repr, DecidableEq

namespace Bracket

/-- The token in front of what is between the brackets. -/
def opening : Bracket → Token.Kind
  | round => .openParen
  | curly => .openBrace
  | square => .openBracket

/-- The token behind it. -/
def closing : Bracket → Token.Kind
  | round => .closeParen
  | curly => .closeBrace
  | square => .closeBracket

/-- What the brackets make of an expression. -/
def enclose : Bracket → Expr → Expr
  | round => .group
  | curly => .repetition
  | square => .optional

end Bracket

/-- The token lists of the phrases of each kind. -/
inductive Expr.Derives : Phrase → List Token → Expr → Prop
  | identifier {t : Token} (h : t.kind = .identifier) :
      Derives .operand [t] (.identifier t.value)
  | terminal {t : Token} (h : t.kind = .terminal) : Derives .operand [t] (.terminal t.value)
  | special {t : Token} (h : t.kind = .special) : Derives .operand [t] (.special t.value)
  | enclosed (b : Bracket) {opening closing : Token} {ts : List Token} {e : Expr}
      (ho : opening.kind = b.opening) (h : Derives .choice ts e) (hc : closing.kind = b.closing) :
      Derives .operand (opening :: (ts ++ [closing])) (b.enclose e)
  | ofOperand {ts : List Token} {e : Expr} (h : Derives .operand ts e) : Derives .sequence ts e
  | comma {operator : Token} {ts us : List Token} {left right : Expr}
      (hl : Derives .sequence ts left) (ho : operator.kind = .comma)
      (hr : Derives .operand us right) :
      Derives .sequence (ts ++ operator :: us) (.sequence left right)
  | ofSequence {ts : List Token} {e : Expr} (h : Derives .sequence ts e) : Derives .choice ts e
  | pipe {operator : Token} {ts us : List Token} {left right : Expr}
      (hl : Derives .choice ts left) (ho : operator.kind = .pipe)
      (hr : Derives .sequence us right) :
      Derives .choice (ts ++ operator :: us) (.choice left right)

/-- The token lists of a rule. -/
inductive Rule.Derives : List Token → Rule → Prop
  | intro {name equals stop : Token} {ts : List Token} {body : Expr}
      (hn : name.kind = .identifier) (he : equals.kind = .equals)
      (hb : Expr.Derives .choice ts body) (hs : stop.kind = .semicolon ∨ stop.kind = .period) :
      Derives (name :: equals :: (ts ++ [stop])) ⟨name.value, body⟩

theorem Rule.Derives.ne_nil {ts : List Token} {r : Rule} (h : Rule.Derives ts r) : ts ≠ [] := by
  cases h
  exact List.cons_ne_nil _ _

/-- The token lists of rules in a row. -/
inductive Grammar.Derives : List Token → Grammar → Prop
  | nil : Derives [] ⟨[]⟩
  | cons {ts us : List Token} {r : Rule} {rules : List Rule} (hr : Rule.Derives ts r)
      (hrest : Derives us ⟨rules⟩) : Derives (ts ++ us) ⟨r :: rules⟩

end SyntaxDiagram
