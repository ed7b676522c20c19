import SyntaxDiagram.Diagram
import SyntaxDiagram.Grammar.Basic
import SyntaxDiagram.Node.Measured

/-!
# Grammars as diagrams

* `Expr.toNode`: the node of an expression. Nested choices become one, and so do nested sequences,
  which may be broken into rows.
* `wrapRows`: the rows of a sequence, each as long as fits.
* `Rule.diagram`: the diagram of a rule.
-/

namespace SyntaxDiagram

variable {α : Type} [Scalar α]

/-- Cuts items into rows. The item that would make a row, so far `width` wide, wider than `limit`
starts the next one. The items of that row are kept last one first. -/
def wrapRows {β : Type} (itemWidth : β → α) (limit : α) (row : List β) (width : α) :
    List β → List (List β)
  | [] => [row.reverse]
  | item :: rest =>
    let more := itemWidth item
    if !row.isEmpty && width + more > limit then
      row.reverse :: wrapRows itemWidth limit [item] (0 + more) rest
    else wrapRows itemWidth limit (item :: row) (width + more) rest

namespace Node.Measured

variable {o : Options α}

/-- Rows as a node: a single one is a sequence, several are a stack of sequences. -/
def ofRows : List (List (Measured o)) → Measured o
  | [] => sequence []
  | [row] => sequence row
  | row :: rows => stack (sequence row) (rows.map sequence)

/-- Nodes in sequence, in rows if there is a limit. -/
def wrapped (wrap : Option α) (items : List (Measured o)) : Measured o :=
  match wrap with
  | none => sequence items
  | some limit => ofRows (wrapRows spacedWidth limit [] 0 items)

end Node.Measured

/-- The nodes of an expression. What they make up is left open until it is known what is around
the expression. -/
inductive Expr.Parts (o : Options α) where
  /-- a node wherever it stands -/
  | single (n : Node.Measured o)
  /-- the branches of a choice -/
  | choice (first : Node.Measured o) (others : Array (Node.Measured o))
  /-- the items of a sequence -/
  | sequence (items : Array (Node.Measured o))

namespace Expr

namespace Parts

variable {o : Options α} (wrap : Option α)

/-- All parts as one node. -/
def node : Parts o → Node.Measured o
  | single n => n
  | choice first others => .choice first others.toList
  | sequence items => .wrapped wrap items.toList

/-- The first branch in a choice around the expression. -/
def firstBranch : Parts o → Node.Measured o
  | choice first _ => first
  | p => p.node wrap

/-- The other branches in a choice around the expression. -/
def otherBranches : Parts o → Array (Node.Measured o)
  | choice _ others => others
  | _ => #[]

/-- The items in a sequence around the expression. -/
def items : Parts o → Array (Node.Measured o)
  | sequence items => items
  | p => #[p.node wrap]

/-- A choice of what is in two expressions. -/
def either (left right : Parts o) : Parts o :=
  choice (left.firstBranch wrap)
    (left.otherBranches.push (right.firstBranch wrap) ++ right.otherBranches)

/-- A sequence of what is in two expressions. -/
def followedBy (left right : Parts o) : Parts o :=
  sequence (left.items wrap ++ right.items wrap)

end Parts

/-- The nodes of an expression. -/
def parts (o : Options α) (wrap : Option α) : Expr → Parts o
  | identifier name => .single (.ofNode o (.nonTerminal name ∅))
  | terminal text => .single (.ofNode o (.terminal text ∅))
  | special text => .single (.ofNode o (.comment text none none))
  | group inner => .single ((inner.parts o wrap).node wrap)
  | repetition inner => .single (.zeroOrMore ((inner.parts o wrap).node wrap))
  | optional inner => .single (.optional ((inner.parts o wrap).node wrap))
  | choice left right => (left.parts o wrap).either wrap (right.parts o wrap)
  | sequence left right => (left.parts o wrap).followedBy wrap (right.parts o wrap)

/-- The node of an expression. A limit that is not positive is none. -/
def toNode (o : Options α) (wrap : Option α) (e : Expr) : Node α :=
  let wrap := wrap.filter fun limit => limit > 0
  ((e.parts o wrap).node wrap).node

end Expr

/-- How rules are shown. -/
structure RuleStyle (α : Type) where
  /-- whether the markers are those of fragments -/
  complex : Bool := false
  /-- whether the name of the rule stands at its start -/
  labelRules : Bool := true
  /-- the width from which sequences are broken into rows -/
  wrapWidth : Option α := none
  deriving Repr

/-- The diagram of a rule. -/
def Rule.diagram (o : Options α) (style : RuleStyle α) (r : Rule) : Diagram α :=
  let body := r.body.toNode o style.wrapWidth
  let label := if style.labelRules then r.name else ""
  if style.complex then .fragment o [.start .complex label, body]
  else .simple o [.start .simple label, body]

end SyntaxDiagram
