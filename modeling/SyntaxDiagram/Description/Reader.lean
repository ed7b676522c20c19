import SyntaxDiagram.Description
import SyntaxDiagram.Json.Fields
import SyntaxDiagram.Json.Strict

/-!
# Descriptions in JSON

A node is a string, or an object with a `type`, or an array that starts with a type and goes on with
the fields in order.

* `Description.Tag`: the types, which have names and numbers.
* `Description.ofFields?`: the node of a type with given fields.
* `Description.ofJson?`: the description that a value is.
* `Description.readDiagram`: the diagram that a text describes.
-/

namespace SyntaxDiagram.Description

/-- The types of node. -/
inductive Tag where
  | diagram
  | terminal
  | nonTerminal
  | comment
  | skip
  | start
  | finish
  | sequence
  | stack
  | optionalSequence
  | alternatingSequence
  | verticalSequence
  | horizontalChoice
  | choice
  | multipleChoice
  | optional
  | oneOrMore
  | zeroOrMore
  | group
  deriving Repr, DecidableEq

namespace Tag

/-- All types; the number of a type is its place here. -/
def all : List Tag :=
  [diagram, terminal, nonTerminal, comment, skip, start, finish, sequence, stack, optionalSequence,
    alternatingSequence, verticalSequence, horizontalChoice, choice, multipleChoice, optional,
    oneOrMore, zeroOrMore, group]

/-- The name of a type. -/
def name : Tag → String
  | diagram => "diagram"
  | terminal => "terminal"
  | nonTerminal => "non-terminal"
  | comment => "comment"
  | skip => "skip"
  | start => "start"
  | finish => "end"
  | sequence => "sequence"
  | stack => "stack"
  | optionalSequence => "optional-sequence"
  | alternatingSequence => "alternating-sequence"
  | verticalSequence => "vertical-sequence"
  | horizontalChoice => "horizontal-choice"
  | choice => "choice"
  | multipleChoice => "multiple-choice"
  | optional => "optional"
  | oneOrMore => "one-or-more"
  | zeroOrMore => "zero-or-more"
  | group => "group"

/-- The type that a value names or numbers. -/
def ofJson? : Json → Option Tag
  | .string name => all.find? fun tag => tag.name = name
  | .number (.integer n) => if n < 0 then none else all[n.toNat]?
  | _ => none

end Tag

open Json (Fields nullable text? float? bool? list?)

/-- The type of a node and its fields. -/
def tagged? : Json → Option (Tag × Fields Json)
  | .object members =>
    match members.filter fun m => m.1 = "type" with
    | [m] => do
      return (← Tag.ofJson? m.2, .named (members.filter fun m => m.1 ≠ "type"))
    | _ => none
  | .array (tag :: rest) => do return (← Tag.ofJson? tag, .listed rest)
  | _ => none

/-- The node of a type, whose inner nodes are read by `item`. -/
def ofFields? (item : Json → Option Description) (tag : Tag) (f : Fields Json) :
    Option Description :=
  let items (place : Nat) : Option (List Description) := do
    (← list? (← f.required place "items")).mapM item
  let inner : Option Description := do item (← f.required 0 "item")
  let only (build : List Description → Description) : Option Description := do
    guard (f.fit 1)
    return build (← items 0)
  let textOrNull (place : Nat) (name : String) : Option (Option String) :=
    f.optional place name (nullable text?)
  let label (build : String → Option String → Option String → Description) :
      Option Description := do
    guard (f.fit 3)
    let text ← text? (← f.required 0 "text")
    return build text (← textOrNull 1 "href") (← textOrNull 2 "title")
  let loop (build : Description → Option Description → Description) : Option Description := do
    guard (f.fit 2)
    return build (← inner) (← f.optional 1 "separator" (nullable item))
  match tag with
  | .diagram => do
    guard (f.fit 2)
    return diagram (← items 0) (← f.defaulted 1 "complex" false bool?)
  | .terminal => label terminal
  | .nonTerminal => label nonTerminal
  | .comment => label comment
  | .skip => do
    guard (f.fit 0)
    return skip
  | .start => do
    guard (f.fit 2)
    return start (← textOrNull 0 "style") (← textOrNull 1 "label")
  | .finish => do
    guard (f.fit 1)
    return finish (← textOrNull 0 "style")
  | .sequence => only sequence
  | .stack => only stack
  | .optionalSequence => only optionalSequence
  | .alternatingSequence => only alternatingSequence
  | .verticalSequence => only verticalSequence
  | .horizontalChoice => only horizontalChoice
  | .choice => do
    guard (f.fit 2)
    return choice (← f.defaulted 0 "normal" 0 float?) (← items 1)
  | .multipleChoice => do
    guard (f.fit 3)
    return multipleChoice (← f.defaulted 0 "normal" 0 float?) (← textOrNull 1 "choiceType")
      (← items 2)
  | .optional => do
    guard (f.fit 2)
    return optional (← inner) (← f.defaulted 1 "skip" false bool?)
  | .oneOrMore => loop oneOrMore
  | .zeroOrMore => loop zeroOrMore
  | .group => do
    guard (f.fit 2)
    return group (← inner) (← textOrNull 1 "label")

/-- The description that a value is, if it is nested at most `depth` deep. -/
def ofJsonTo? : (depth : Nat) → Json → Option Description
  | _, .string s => some (.text s)
  | 0, _ => none
  | depth + 1, j => do
    let (tag, f) ← tagged? j
    ofFields? (ofJsonTo? depth) tag f

/-- The description that a value is. -/
def ofJson? (j : Json) : Option Description := ofJsonTo? j.depth j

/-- What a whole text can be: nodes in a row, or a single one. -/
inductive TopLevel where
  | row (items : List Description)
  | one (d : Description)

/-- What a value describes. An array is a row if all its items are nodes. -/
def TopLevel.ofJson? (j : Json) : Option TopLevel :=
  match (list? j).bind fun items => items.mapM Description.ofJson? with
  | some items => some (.row items)
  | none => (Description.ofJson? j).map .one

/-- How deep a text may be nested. -/
def maxDepth : Nat := 127

/-- What a text describes. A value that fits nothing is reported before anything behind it. -/
def TopLevel.read (text : String) : Except DescriptionError TopLevel :=
  match Json.parse? text with
  | none => .error .malformed
  | some (written, complete) =>
    match written.value? with
    | none => .error .malformed
    | some j =>
      if maxDepth < j.depth then .error .malformed
      else
        match TopLevel.ofJson? j with
        | none => .error .fitsNothing
        | some top => if complete then .ok top else .error .malformed

/-- The diagram of what a text describes. -/
def TopLevel.toDiagram {α : Type} (options : Options α) : TopLevel → Except Error (Diagram α)
  | .row items => Description.row options items
  | .one d => d.toDiagram options

/-- The diagram that a text describes. -/
def readDiagram {α : Type} (options : Options α) (text : String) : Except Error (Diagram α) :=
  match TopLevel.read text with
  | .error e => .error (.description e)
  | .ok top => top.toDiagram options

end SyntaxDiagram.Description
