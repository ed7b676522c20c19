import SyntaxDiagram.Diagram

/-!
# Descriptions

A diagram as someone wrote it down, before anything is known about its legality.

* `Description`: the tree, with one constructor for each kind of node and one for bare text.
* `Description.build`: the node that is described.
* `Description.diagram`: the diagram that is described by a tree, `Description.row` by a list.
-/

namespace SyntaxDiagram

/-- A node as it is described. -/
inductive Description where
  /-- bare text stands for a terminal -/
  | text (text : String)
  | diagram (items : List Description) (complex : Bool)
  | terminal (text : String) (href title : Option String)
  | nonTerminal (text : String) (href title : Option String)
  | comment (text : String) (href title : Option String)
  | skip
  | start (style label : Option String)
  | finish (style : Option String)
  | sequence (items : List Description)
  | stack (items : List Description)
  | optionalSequence (items : List Description)
  | alternatingSequence (items : List Description)
  | verticalSequence (items : List Description)
  | horizontalChoice (items : List Description)
  | choice (normal : Float) (items : List Description)
  | multipleChoice (normal : Float) (kind : Option String) (items : List Description)
  | optional (item : Description) (bypass : Bool)
  | oneOrMore (item : Description) (separator : Option Description)
  | zeroOrMore (item : Description) (separator : Option Description)
  | group (item : Description) (label : Option String)
  deriving Repr

/-- The number of the straight branch among `count` branches, from a plain number. -/
def validateNormal (normal : Float) (count : Nat) : Except Error Nat :=
  if !normal.isFinite || normal.floor != normal then .error (.normalNotWhole normal)
  else if normal < 0 || normal ≥ Float.ofNat count then
    .error (.normalOutOfRange normal.toInt64.toInt count)
  else .ok normal.toUInt64.toNat

/-- The marker style of a name. -/
def MarkerStyle.ofName? : String → Option MarkerStyle
  | "simple" => some .simple
  | "complex" => some .complex
  | _ => none

/-- The kind of multiple choice of a name. -/
def ChoiceKind.ofName : String → Except Error ChoiceKind
  | "any" => .ok .any
  | "all" => .ok .all
  | name => .error (.unknownChoiceKind name)

namespace Description

/-- The marker style that is asked for; double ticks if none is. -/
def markerStyle : Option String → Except Error MarkerStyle
  | none => .ok .simple
  | some name =>
    match MarkerStyle.ofName? name with
    | some style => .ok style
    | none => .error (.description (.unknownStyle name))

/-- The kind of multiple choice that is asked for. -/
def choiceKind : Option String → Except Error ChoiceKind
  | none => .ok .any
  | some name => ChoiceKind.ofName name

/-- Attributes for a link and a tooltip. -/
def linkAttributes (href title : Option String) : Attributes String :=
  let set (name : String) (value : Option String) (a : Attributes String) : Attributes String :=
    match value with
    | none => a
    | some value => a.set name value
  set "title" title (set "href" href ∅)

mutual

/-- The node that is described. -/
def build {α : Type} : Description → Except Error (Node α)
  | text s => .ok (.ofText s)
  | diagram .. => .error (.description .nestedDiagram)
  | terminal s href title => .ok (.terminal s (linkAttributes href title))
  | nonTerminal s href title => .ok (.nonTerminal s (linkAttributes href title))
  | comment s href title => .ok (.comment s href title)
  | skip => .ok .skip
  | start style label => do return .start (← markerStyle style) (label.getD "")
  | finish style => do return .finish (← markerStyle style)
  | sequence items => do return .sequence (← buildAll items)
  | stack items => do Node.stack? (← buildAll items)
  | optionalSequence items => do Node.optionalSequence? (← buildAll items)
  | alternatingSequence items => do Node.alternatingSequence? (← buildAll items)
  | verticalSequence items => do Node.verticalSequence? (← buildAll items)
  | horizontalChoice items => do Node.horizontalChoice? (← buildAll items)
  | choice normal items => do
    let normal ← validateNormal normal items.length
    Node.choice? normal (← buildAll items)
  | multipleChoice normal kind items => do
    let normal ← validateNormal normal items.length
    let kind ← choiceKind kind
    Node.multipleChoice? kind normal (← buildAll items)
  | optional item bypass => do return .optional (← build item) bypass
  | oneOrMore item separator => do
    let item ← build item
    return .oneOrMore item (← buildSeparator separator)
  | zeroOrMore item separator => do
    let item ← build item
    return .zeroOrMore item (← buildSeparator separator)
  | group item label => do return .group (← build item) label

/-- The nodes that are described, up to the first that is not legal. -/
def buildAll {α : Type} : List Description → Except Error (List (Node α))
  | [] => .ok []
  | d :: rest => do
    let n ← build d
    return n :: (← buildAll rest)

/-- The separator of a loop; a bare line if none is described. -/
def buildSeparator {α : Type} : Option Description → Except Error (Node α)
  | none => .ok .skip
  | some d => build d

end

variable {α : Type}

/-- The diagram of a list of nodes. -/
def row (options : Options α) (items : List Description) : Except Error (Diagram α) := do
  return .simple options (← buildAll items)

/-- The diagram that is described. A node that is not a diagram is a diagram of its own. -/
def toDiagram (options : Options α) : Description → Except Error (Diagram α)
  | diagram items true => do return .fragment options (← buildAll items)
  | diagram items false => row options items
  | d => do return .simple options [← build d]

end Description
end SyntaxDiagram
