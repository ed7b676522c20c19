import SyntaxDiagram.Json

/-!
# Grammars

* `Expr`: the right hand sides of rules.
* `Rule`, `Grammar`: named expressions in order.
* `Expr.toJson` and its companions: the tree as data, for comparison with other trees.
-/

namespace SyntaxDiagram

/-- A right hand side. -/
inductive Expr where
  | identifier (name : String)
  | terminal (text : String)
  | special (text : String)
  | group (inner : Expr)
  | repetition (inner : Expr)
  | optional (inner : Expr)
  | choice (left right : Expr)
  | sequence (left right : Expr)
  deriving Repr, DecidableEq

/-- A named right hand side. -/
structure Rule where
  name : String
  body : Expr
  deriving Repr, DecidableEq

/-- Rules in order. -/
structure Grammar where
  rules : List Rule
  deriving Repr, DecidableEq

/-- The first rule of a name. -/
def Grammar.rule? (g : Grammar) (name : String) : Option Rule :=
  g.rules.find? fun r => r.name = name

/-- A tree node as data. -/
def Json.ofNode (kind : String) (members : List (String × Json)) : Json :=
  .object (("type", .string kind) :: members)

/-- An expression as data. -/
def Expr.toJson : Expr → Json
  | identifier name => .ofNode "Identifier" [("value", .string name)]
  | terminal text => .ofNode "Terminal" [("value", .string text)]
  | special text => .ofNode "Special" [("value", .string text)]
  | group inner => .ofNode "Group" [("value", inner.toJson)]
  | repetition inner => .ofNode "Repetition" [("value", inner.toJson)]
  | optional inner => .ofNode "Optional" [("value", inner.toJson)]
  | choice left right => .ofNode "Choice" [("left", left.toJson), ("right", right.toJson)]
  | sequence left right => .ofNode "Sequence" [("left", left.toJson), ("right", right.toJson)]

/-- A rule as data. -/
def Rule.toJson (r : Rule) : Json :=
  .ofNode "Rule"
    [("identifier", .ofNode "Identifier" [("value", .string r.name)]), ("rhs", r.body.toJson)]

/-- A grammar as data. -/
def Grammar.toJson (g : Grammar) : Json :=
  .ofNode "Grammar" [("rules", .array (g.rules.map Rule.toJson))]

end SyntaxDiagram
