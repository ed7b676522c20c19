import SyntaxDiagram.Layout.Branches
import SyntaxDiagram.Layout.Mark
import SyntaxDiagram.Layout.Row
import SyntaxDiagram.Layout.Loop
import SyntaxDiagram.Layout.Rails
import SyntaxDiagram.Layout.Crossing

/-!
# Nodes

The tree of a diagram. Every value is a legal tree: the containers that ask for a number of items
or for a straight branch have them in their shape.

* `Node`: the tree; `Node.kind` and `Node.children` look at its root.
* `Node.stack?` and its companions build a container from any list of items, or say what is wrong
  with the list.
* `Walk`: all nodes in turn, a node before what is in it.
-/

namespace SyntaxDiagram

/-- Kinds of node. -/
inductive Node.Kind where
  | terminal
  | nonTerminal
  | comment
  | skip
  | start
  | finish
  | sequence
  | stack
  | choice
  | optional
  | oneOrMore
  | zeroOrMore
  | group
  | horizontalChoice
  | multipleChoice
  | alternatingSequence
  | optionalSequence
  | verticalSequence
  | block
  deriving Repr, DecidableEq

/-- The name of a kind. -/
def Node.Kind.name : Node.Kind → String
  | terminal => "terminal"
  | nonTerminal => "non-terminal"
  | comment => "comment"
  | skip => "skip"
  | start => "start"
  | finish => "end"
  | sequence => "sequence"
  | stack => "stack"
  | choice => "choice"
  | optional => "optional"
  | oneOrMore => "one-or-more"
  | zeroOrMore => "zero-or-more"
  | group => "group"
  | horizontalChoice => "horizontal-choice"
  | multipleChoice => "multiple-choice"
  | alternatingSequence => "alternating-sequence"
  | optionalSequence => "optional-sequence"
  | verticalSequence => "vertical-sequence"
  | block => "block"

/-- A node of a diagram. -/
inductive Node (α : Type) where
  /-- a literal token -/
  | terminal (text : String) (attributes : Attributes String)
  /-- a reference to another rule -/
  | nonTerminal (text : String) (attributes : Attributes String)
  | comment (text : String) (href title : Option String)
  /-- a bare line -/
  | skip
  /-- the marker in front of a diagram -/
  | start (style : MarkerStyle) (label : String)
  /-- the marker behind a diagram -/
  | finish (style : MarkerStyle)
  | sequence (items : List (Node α))
  | stack (first : Node α) (rest : List (Node α))
  | choice (above : List (Node α)) (straight : Node α) (below : List (Node α))
  /-- an item that can be passed by; with `bypass` the bare line is the straight one -/
  | optional (item : Node α) (bypass : Bool)
  | oneOrMore (item separator : Node α)
  | zeroOrMore (item separator : Node α)
  | group (item : Node α) (label : Option String)
  | horizontalChoice (first : Node α) (middles : List (Node α)) (last : Node α)
  | multipleChoice (kind : ChoiceKind) (above : List (Node α)) (straight : Node α)
      (below : List (Node α))
  | alternatingSequence (first second : Node α)
  | optionalSequence (first second : Node α) (rest : List (Node α))
  | verticalSequence (first : Node α) (rest : List (Node α))
  /-- a size and nothing else -/
  | block (metrics : Metrics α)
  deriving Repr

namespace Node

variable {α : Type}

/-- The kind of a node. -/
def kind : Node α → Kind
  | terminal .. => .terminal
  | nonTerminal .. => .nonTerminal
  | comment .. => .comment
  | skip => .skip
  | start .. => .start
  | finish _ => .finish
  | sequence _ => .sequence
  | stack .. => .stack
  | choice .. => .choice
  | optional .. => .optional
  | oneOrMore .. => .oneOrMore
  | zeroOrMore .. => .zeroOrMore
  | group .. => .group
  | horizontalChoice .. => .horizontalChoice
  | multipleChoice .. => .multipleChoice
  | alternatingSequence .. => .alternatingSequence
  | optionalSequence .. => .optionalSequence
  | verticalSequence .. => .verticalSequence
  | block _ => .block

/-- The caption of a group; an empty one counts as none. -/
def caption? (label : Option String) : Option String := label.filter fun text => !text.isEmpty

/-- The nodes in a node, in the order in which they are drawn from top to bottom or from left to
right. The bare line of an optional item is one of them. -/
def children : Node α → List (Node α)
  | terminal .. | nonTerminal .. | comment .. | skip | start .. | finish _ | block _ => []
  | sequence items => items
  | stack first rest | verticalSequence first rest => first :: rest
  | choice above straight below | multipleChoice _ above straight below =>
    above ++ straight :: below
  | optional item _ => [skip, item]
  | oneOrMore item separator => [item, separator]
  | zeroOrMore item separator => [skip, oneOrMore item separator]
  | group item label =>
    match caption? label with
    | none => [item]
    | some text => [item, comment text none none]
  | horizontalChoice first middles last => first :: (middles ++ [last])
  | alternatingSequence first second => [first, second]
  | optionalSequence first second rest => first :: second :: rest

/-! ## Building from lists -/

/-- Boxed text without attributes. -/
def ofText (text : String) : Node α := terminal text ∅

/-- A stack of a list of lines. -/
def stack? : List (Node α) → Except Error (Node α)
  | [] => .error (.itemCount .stack 0)
  | first :: rest => .ok (stack first rest)

/-- A column of a list of items. -/
def verticalSequence? : List (Node α) → Except Error (Node α)
  | [] => .error (.itemCount .verticalSequence 0)
  | first :: rest => .ok (verticalSequence first rest)

/-- A horizontal choice between the items of a list. -/
def horizontalChoice? (items : List (Node α)) : Except Error (Node α) :=
  match Layout.Beside.ofList? items with
  | none => .error (.itemCount .horizontalChoice items.length)
  | some b => .ok (horizontalChoice b.first b.middles b.last)

/-- A row of passable items. -/
def optionalSequence? : List (Node α) → Except Error (Node α)
  | first :: second :: rest => .ok (optionalSequence first second rest)
  | items => .error (.itemCount .optionalSequence items.length)

/-- Two items in turn. -/
def alternatingSequence? : List (Node α) → Except Error (Node α)
  | [first, second] => .ok (alternatingSequence first second)
  | items => .error (.itemCount .alternatingSequence items.length)

/-- What is wrong with a number that none of `count` branches has. A report has room for 64 bits
with a sign. -/
def noBranch (normal count : Nat) : Error := .normalOutOfRange (Int64.ofNat normal).toInt count

/-- A choice between the items of a list, the one with the given number being straight. -/
def choice? (normal : Nat) (items : List (Node α)) : Except Error (Node α) :=
  match Layout.Branches.ofList? normal items with
  | none => .error (noBranch normal items.length)
  | some b => .ok (choice b.above b.straight b.below)

/-- A multiple choice between the items of a list. -/
def multipleChoice? (kind : ChoiceKind) (normal : Nat) (items : List (Node α)) :
    Except Error (Node α) :=
  match Layout.Branches.ofList? normal items with
  | none => .error (noBranch normal items.length)
  | some b => .ok (multipleChoice kind b.above b.straight b.below)

/-! ## Walks -/

mutual

/-- The number of nodes in a tree. -/
def size : Node α → Nat
  | terminal .. | nonTerminal .. | comment .. | skip | start .. | finish _ | block _ => 1
  | sequence items => 1 + sizes items
  | stack first rest | verticalSequence first rest => 1 + first.size + sizes rest
  | choice above straight below | multipleChoice _ above straight below =>
    1 + sizes above + straight.size + sizes below
  | optional item _ => 2 + item.size
  | oneOrMore item separator => 1 + item.size + separator.size
  | zeroOrMore item separator => 3 + item.size + separator.size
  | group item label => 1 + item.size + (if (caption? label).isSome then 1 else 0)
  | horizontalChoice first middles last => 1 + first.size + sizes middles + last.size
  | alternatingSequence first second => 1 + first.size + second.size
  | optionalSequence first second rest => 1 + first.size + second.size + sizes rest

/-- The number of nodes in several trees. -/
def sizes : List (Node α) → Nat
  | [] => 0
  | n :: rest => n.size + sizes rest

end

theorem sizes_append (a b : List (Node α)) : sizes (a ++ b) = sizes a + sizes b := by
  induction a with
  | nil => simp [sizes]
  | cons n rest ih => simp only [List.cons_append, sizes, ih]; omega

/-- A node is one more than what is in it. -/
theorem size_eq (n : Node α) : n.size = 1 + sizes n.children := by
  cases n with
  | group item label =>
    cases h : caption? label <;> simp [size, sizes, children, h]
    omega
  | _ => simp only [size, sizes, children, sizes_append] <;> omega

end Node

/-- The nodes that a walk has still to come to, the next one first. -/
structure Walk (α : Type) where
  pending : List (Node α)

namespace Walk

variable {α : Type}

/-- The next node of a walk; what is in it comes next. -/
def next? (w : Walk α) : Option (Node α × Walk α) :=
  match w.pending with
  | [] => none
  | n :: rest => some (n, ⟨n.children ++ rest⟩)

/-- A walk gets shorter. -/
theorem sizes_lt_of_next? {w w' : Walk α} {n : Node α} (h : w.next? = some (n, w')) :
    Node.sizes w'.pending < Node.sizes w.pending := by
  unfold next? at h
  split at h
  · cases h
  · rename_i hp
    cases h
    have := Node.size_eq n
    simp only [hp, Node.sizes, Node.sizes_append]
    omega

/-- All nodes that a walk comes to. -/
def toList (w : Walk α) : List (Node α) :=
  match h : w.next? with
  | none => []
  | some (n, w') =>
    have := sizes_lt_of_next? h
    n :: w'.toList
termination_by Node.sizes w.pending

end Walk

/-- All nodes of a tree. -/
def Node.walk {α : Type} (n : Node α) : List (Node α) := Walk.toList ⟨[n]⟩

end SyntaxDiagram
