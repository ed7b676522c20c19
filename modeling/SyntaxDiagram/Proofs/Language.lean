import Mathlib.Computability.Language
import SyntaxDiagram.Grammar.Basic
import SyntaxDiagram.Proofs.Walk

/-!
# The languages of expressions and diagrams

An expression and a node tree can both be read as sets of words.

* `Symbol`: what stands in a word, a text together with the kind of box it is drawn in.
* `Expr.language`: the words of an expression. A group is transparent, braces are the star, brackets
  add the empty word.
* `Node.language`: the words along the tracks of a node. A loop is entered once and may come back
  through its separator any number of times.
* `Expr.leaves`, `Node.symbols`: the symbols in an expression from left to right, and those that a
  walk through a node comes to.
-/

namespace SyntaxDiagram

open Computability

/-- A letter of the words that diagrams describe. -/
structure Symbol where
  kind : Node.Kind
  text : String
  deriving Repr, DecidableEq

namespace Expr

/-- The words that an expression describes. -/
def language : Expr → Language Symbol
  | identifier name => {[⟨.nonTerminal, name⟩]}
  | terminal text => {[⟨.terminal, text⟩]}
  | special text => {[⟨.comment, text⟩]}
  | group inner => inner.language
  | repetition inner => inner.language∗
  | optional inner => 1 + inner.language
  | choice left right => left.language + right.language
  | sequence left right => left.language * right.language

/-- The symbols of an expression from left to right. -/
def leaves : Expr → List Symbol
  | identifier name => [⟨.nonTerminal, name⟩]
  | terminal text => [⟨.terminal, text⟩]
  | special text => [⟨.comment, text⟩]
  | group inner | repetition inner | optional inner => inner.leaves
  | choice left right | sequence left right => left.leaves ++ right.leaves

end Expr

namespace Node

variable {α : Type}

/-- The symbol that a node stands for, if it is one of those that carry a text of the grammar. -/
def symbol? : Node α → Option Symbol
  | terminal text _ => some ⟨.terminal, text⟩
  | nonTerminal text _ => some ⟨.nonTerminal, text⟩
  | comment text _ _ => some ⟨.comment, text⟩
  | _ => none

mutual

/-- The words along the tracks of a node. The kinds that no expression is drawn as have none. -/
def language : Node α → Language Symbol
  | terminal text _ => {[⟨.terminal, text⟩]}
  | nonTerminal text _ => {[⟨.nonTerminal, text⟩]}
  | comment text _ _ => {[⟨.comment, text⟩]}
  | skip => 1
  | sequence items => inTurn items
  | stack first rest => first.language * inTurn rest
  | choice above straight below => anyOf above + (straight.language + anyOf below)
  | optional item _ => 1 + item.language
  | oneOrMore item separator => item.language * (separator.language * item.language)∗
  | zeroOrMore item separator => 1 + item.language * (separator.language * item.language)∗
  | _ => 0

/-- The words of nodes one after another. -/
def inTurn : List (Node α) → Language Symbol
  | [] => 1
  | n :: rest => n.language * inTurn rest

/-- The words of any of several nodes. -/
def anyOf : List (Node α) → Language Symbol
  | [] => 0
  | n :: rest => n.language + anyOf rest

end

theorem inTurn_append (a b : List (Node α)) : inTurn (a ++ b) = inTurn a * inTurn b := by
  induction a with
  | nil => rw [List.nil_append, inTurn, one_mul]
  | cons n rest ih => rw [List.cons_append, inTurn, inTurn, ih, mul_assoc]

theorem anyOf_append (a b : List (Node α)) : anyOf (a ++ b) = anyOf a + anyOf b := by
  induction a with
  | nil => rw [List.nil_append, anyOf, zero_add]
  | cons n rest ih => rw [List.cons_append, anyOf, anyOf, ih, add_assoc]

/-- A loop whose way back is bare repeats its item, and so with the bypass it is the star. -/
theorem language_zeroOrMore_skip (item : Node α) :
    (zeroOrMore item skip).language = item.language∗ := by
  rw [language, language, one_mul, Language.one_add_self_mul_kstar_eq_kstar]

/-- The symbols that a walk comes to. -/
def symbols (n : Node α) : List Symbol := n.walk.filterMap symbol?

/-- The symbols of several nodes in turn. -/
def symbolsOf (ns : List (Node α)) : List Symbol := ns.flatMap symbols

theorem symbolsOf_append (a b : List (Node α)) : symbolsOf (a ++ b) = symbolsOf a ++ symbolsOf b :=
  List.flatMap_append

theorem symbolsOf_singleton (n : Node α) : symbolsOf [n] = n.symbols := List.flatMap_singleton ..

theorem symbols_eq (n : Node α) : n.symbols = n.symbol?.toList ++ symbolsOf n.children := by
  have hinside : (n.children.flatMap walk).filterMap symbol? = symbolsOf n.children :=
    List.filterMap_flatMap
  rw [symbols, walk_eq, ← List.singleton_append, List.filterMap_append, hinside]
  cases h : n.symbol? <;> simp [h]

theorem symbols_skip : (skip : Node α).symbols = [] := by rw [symbols_eq]; rfl

theorem symbols_sequence (items : List (Node α)) : (sequence items).symbols = symbolsOf items := by
  rw [symbols_eq]
  rfl

theorem symbols_optional (item : Node α) (bypass : Bool) :
    (optional item bypass).symbols = item.symbols := by
  rw [symbols_eq]
  change symbolsOf [skip, item] = item.symbols
  rw [symbolsOf, List.flatMap_cons, symbols_skip, List.nil_append, List.flatMap_singleton]

theorem symbols_zeroOrMore_skip (item : Node α) :
    (zeroOrMore item skip).symbols = item.symbols := by
  rw [symbols_eq]
  change symbolsOf [skip, oneOrMore item skip] = item.symbols
  rw [symbolsOf, List.flatMap_cons, symbols_skip, List.nil_append, List.flatMap_singleton,
    symbols_eq]
  change symbolsOf [item, skip] = item.symbols
  rw [symbolsOf, List.flatMap_cons, List.flatMap_singleton, symbols_skip, List.append_nil]

end Node
end SyntaxDiagram
