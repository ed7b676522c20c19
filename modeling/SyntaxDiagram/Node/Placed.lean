import SyntaxDiagram.Node

/-!
# Placed nodes

Every node is measured once, from the inside out, and can then be put anywhere.

* `Placed`: a node at its place, with the pieces of its picture, among them the nodes in it.
* `Figure`: a measured node, which holds the figures of the nodes in it and can be placed.
* `Node.figure`: the figure of a node. Its figures are those of `Node.children`.
* `Placed.draw`: the picture of a placed node.
-/

namespace SyntaxDiagram

/-- A node at its place. -/
inductive Placed (α : Type) where
  /-- a node that is drawn as a group of pieces -/
  | group (site : Site α Node.Kind) (attributes : Attributes (Value α))
      (pieces : List (Piece α (Placed α)))
  /-- a node that is drawn as a single element -/
  | bare (site : Site α Node.Kind) (drawing : Drawing α)

/-- What a measured node is besides its size. -/
structure Drawable (α : Type) where
  kind : Node.Kind
  /-- the nodes in it, measured as well -/
  inside : List (Sized α (Drawable α))
  /-- what is placed at an entry point in a slot -/
  place : (x y slot : α) → Placed α

/-- A measured node. -/
abbrev Figure (α : Type) := Sized α (Drawable α)

namespace Placed

variable {α : Type}

/-- Where a node stands. -/
def site : Placed α → Site α Node.Kind
  | group site .. | bare site _ => site

mutual

/-- The picture of a placed node. -/
def draw : Placed α → Drawing α
  | group _ attributes pieces => .group "g" attributes (drawPieces pieces)
  | bare _ drawing => drawing

/-- The pictures of pieces. -/
def drawPieces : List (Piece α (Placed α)) → List (Drawing α)
  | [] => []
  | p :: rest => drawPiece p :: drawPieces rest

/-- The picture of a piece. -/
def drawPiece : Piece α (Placed α) → Drawing α
  | .track path => .track path
  | .child content => content.draw
  | .shape drawing => drawing

end

end Placed

namespace Layout

variable {α : Type} [Scalar α]

/-- Places a figure at its site. -/
def settle (s : Site α (Drawable α)) : Placed α := s.item.place s.x s.y s.slot

/-- A figure that is drawn as a group. -/
def figure (kind : Node.Kind) (metrics : Metrics α) (attributes : Attributes (Value α))
    (inside : List (Figure α)) (pieces : (x y slot : α) → List (Piece α (Site α (Drawable α)))) :
    Figure α where
  metrics
  item :=
    { kind
      inside
      place := fun x y slot =>
        .group { metrics, item := kind, x, y, slot } attributes
          ((pieces x y slot).map (.map settle)) }

/-- A figure that is drawn as a single element. -/
def bareFigure (kind : Node.Kind) (metrics : Metrics α) (drawing : (x y slot : α) → Drawing α) :
    Figure α where
  metrics
  item :=
    { kind
      inside := []
      place := fun x y slot =>
        .bare { metrics, item := kind, x, y, slot } (drawing x y slot) }

/-- Size marks of nodes that leave on the line they came in on. -/
def flatMarks (o : Options α) (m : Metrics α) (kind : Node.Kind) (a : Attributes (Value α)) :
    Attributes (Value α) :=
  debugMarks o [m.up, m.down] kind.name a

/-- Size marks of nodes that may drop. -/
def dropMarks (o : Options α) (m : Metrics α) (kind : Node.Kind) (a : Attributes (Value α)) :
    Attributes (Value α) :=
  debugMarks o [m.up, m.height, m.down] kind.name a

/-- A class. -/
def classed (cls : String) : Attributes (Value α) := ⟨[("class", .text cls)]⟩

/-- Boxed text, rounded for literal tokens. -/
def boxFigure (o : Options α) (kind : Node.Kind) (rounded : Bool) (text : String)
    (given : Attributes String) : Figure α :=
  figure kind (boxSize o text) (boxAttributes o kind.name given) [] (boxPieces o rounded text given)

/-- A remark. -/
def remarkFigure (o : Options α) (text : String) (href title : Option String) : Figure α :=
  let m := remarkSize o text
  figure .comment m (flatMarks o m .comment ∅) [] (remarkPieces o text href title)

/-- A bare line. -/
def skipFigure (o : Options α) : Figure α :=
  let marks : Attributes (Value α) := if o.debug then ⟨[("data-type", .text "skip")]⟩ else ∅
  figure .skip Metrics.zero marks [] skipPieces

/-- The marker at the start. -/
def startFigure (o : Options α) (style : MarkerStyle) (label : String) : Figure α :=
  let m := startSize o label
  figure .start m (flatMarks o m .start ∅) [] fun x y _ => startPieces o style label x y

/-- The marker at the end. -/
def endFigure (o : Options α) (style : MarkerStyle) : Figure α :=
  bareFigure .finish endSize fun x y _ => endDrawing o style x y

/-- Figures in sequence. -/
def sequenceFigure (o : Options α) (items : List (Figure α)) : Figure α :=
  let m := sequenceSize (items.map (·.metrics))
  figure .sequence m (flatMarks o m .sequence ∅) items (sequencePieces o items)

/-- A stack of lines. -/
def stackFigure (o : Options α) (first : Figure α) (rest : List (Figure α)) : Figure α :=
  let m := stackSize o first.metrics (rest.map (·.metrics))
  figure .stack m (flatMarks o m .stack ∅) (first :: rest) (stackPieces o first rest)

/-- A choice between figures. -/
def choiceFigure (o : Options α) (b : Branches (Figure α)) : Figure α :=
  let m := choiceSize o (b.map (·.metrics))
  figure .choice m (dropMarks o m .choice ∅) b.toList (choicePieces o m b)

/-- The branches of an item that can be passed by. -/
def passing (o : Options α) (item : Figure α) (bypass : Bool) : Branches (Figure α) :=
  if bypass then ⟨[], skipFigure o, [item]⟩ else ⟨[skipFigure o], item, []⟩

/-- The attributes of an item that can be passed by: marks of a choice, a class, then marks of its
own in the place of the first ones. -/
def passingAttributes (o : Options α) (m : Metrics α) : Attributes (Value α) :=
  dropMarks o m .optional ((dropMarks o m .choice ∅).set "class" (.text "optional"))

/-- An item that can be passed by. -/
def optionalFigure (o : Options α) (item : Figure α) (bypass : Bool) : Figure α :=
  let b := passing o item bypass
  let m := choiceSize o (b.map (·.metrics))
  figure .optional m (passingAttributes o m) [skipFigure o, item] (choicePieces o m b)

/-- A loop. -/
def loopFigure (o : Options α) (item separator : Figure α) : Figure α :=
  let m := loopSize o item.metrics separator.metrics
  figure .oneOrMore m (dropMarks o m .oneOrMore ∅) [item, separator] (loopPieces o item separator)

/-- A loop that can be passed by on a straight line. Its exit line is taken to be that of the
loop. -/
def freeLoopFigure (o : Options α) (item separator : Figure α) : Figure α :=
  let loop := loopFigure o item separator
  let b := passing o loop true
  let size := choiceSize o (b.map (·.metrics))
  let m := { size with height := loop.metrics.height }
  let marks := dropMarks o m .zeroOrMore (passingAttributes o size)
  figure .zeroOrMore m marks [skipFigure o, loop] (choicePieces o m b)

/-- An item in a frame. -/
def frameFigure (o : Options α) (item : Figure α) (label : Option (Figure α)) : Figure α :=
  let m := frameSize o item.metrics (label.map (·.metrics))
  figure .group m (flatMarks o m .group ∅) (item :: label.toList) (framePieces o item label)

/-- Figures side by side. -/
def sideFigure (o : Options α) (b : Beside (Figure α)) : Figure α :=
  let m := sideSize o (b.map (·.metrics))
  let marks := dropMarks o m .horizontalChoice (classed "horizontal-choice")
  figure .horizontalChoice m marks b.toList (sidePieces o b)

/-- A multiple choice between figures. -/
def multipleFigure (o : Options α) (kind : ChoiceKind) (b : Branches (Figure α)) : Figure α :=
  let m := multipleSize o (b.map (·.metrics))
  let marks := dropMarks o m .multipleChoice (classed "multiple-choice")
  figure .multipleChoice m marks b.toList (multiplePieces o kind b)

/-- Two figures in turn. -/
def crossingFigure (o : Options α) (first second : Figure α) : Figure α :=
  let m := crossingSize o first.metrics second.metrics
  let marks := flatMarks o m .alternatingSequence ∅
  figure .alternatingSequence m marks [first, second] (crossingPieces o first second)

/-- A row of passable figures. -/
def skipRowFigure (o : Options α) (first : Figure α) (rest : List (Figure α)) : Figure α :=
  let m := skipRowSize o first.metrics (rest.map (·.metrics))
  let marks := flatMarks o m .optionalSequence (classed "optional-sequence")
  figure .optionalSequence m marks (first :: rest) (skipRowPieces o first rest)

/-- A column of figures. -/
def columnFigure (o : Options α) (first : Figure α) (rest : List (Figure α)) : Figure α :=
  let m := columnSize o first.metrics (rest.map (·.metrics))
  let marks := flatMarks o m .verticalSequence ∅
  figure .verticalSequence m marks (first :: rest) (columnPieces o first rest)

end Layout

namespace Node

variable {α : Type} [Scalar α]

open Layout

mutual

/-- The figure of a node. -/
def figure (o : Options α) : Node α → Figure α
  | terminal text attributes => boxFigure o .terminal true text attributes
  | nonTerminal text attributes => boxFigure o .nonTerminal false text attributes
  | comment text href title => remarkFigure o text href title
  | skip => skipFigure o
  | start style label => startFigure o style label
  | finish style => endFigure o style
  | sequence items => sequenceFigure o (figures o items)
  | stack first rest => stackFigure o (figure o first) (figures o rest)
  | choice above straight below =>
    choiceFigure o ⟨figures o above, figure o straight, figures o below⟩
  | optional item bypass => optionalFigure o (figure o item) bypass
  | oneOrMore item separator => loopFigure o (figure o item) (figure o separator)
  | zeroOrMore item separator => freeLoopFigure o (figure o item) (figure o separator)
  | group item label =>
    frameFigure o (figure o item) ((caption? label).map fun text => remarkFigure o text none none)
  | horizontalChoice first middles last =>
    sideFigure o ⟨figure o first, figures o middles, figure o last⟩
  | multipleChoice kind above straight below =>
    multipleFigure o kind ⟨figures o above, figure o straight, figures o below⟩
  | alternatingSequence first second => crossingFigure o (figure o first) (figure o second)
  | optionalSequence first second rest =>
    skipRowFigure o (figure o first) (figure o second :: figures o rest)
  | verticalSequence first rest => columnFigure o (figure o first) (figures o rest)
  | block metrics => bareFigure .block metrics blockDrawing

/-- The figures of several nodes. -/
def figures (o : Options α) : List (Node α) → List (Figure α)
  | [] => []
  | n :: rest => figure o n :: figures o rest

end

theorem figures_eq_map (o : Options α) (ns : List (Node α)) :
    figures o ns = ns.map (figure o) := by
  induction ns with
  | nil => rfl
  | cons n rest ih => simp only [figures, ih, List.map_cons]

/-- A figure is of the kind of its node. -/
theorem kind_figure (o : Options α) (n : Node α) : (n.figure o).item.kind = n.kind := by
  cases n <;> rw [figure] <;> rfl

/-- The figures in a figure are those of the nodes in the node. -/
theorem inside_figure (o : Options α) (n : Node α) :
    (n.figure o).item.inside = n.children.map (figure o) := by
  cases n with
  | group item label =>
    simp only [figure, frameFigure, Layout.figure, children]
    cases caption? label <;> simp [figure]
  | zeroOrMore item separator =>
    simp only [figure, freeLoopFigure, Layout.figure, children, List.map_cons, List.map_nil]
  | horizontalChoice first middles last =>
    simp [figure, sideFigure, Layout.figure, children, Beside.toList, figures_eq_map]
  | choice above straight below =>
    simp [figure, choiceFigure, Layout.figure, children, Branches.toList, figures_eq_map]
  | multipleChoice kind above straight below =>
    simp [figure, multipleFigure, Layout.figure, children, Branches.toList, figures_eq_map]
  | _ =>
    simp only [figure, figures_eq_map, children, List.map_cons, List.map_nil]
    rfl

/-- The size of a node. -/
def metrics (o : Options α) (n : Node α) : Metrics α := (n.figure o).metrics

/-- A node at a place. -/
def place (o : Options α) (n : Node α) (x y slot : α) : Placed α :=
  (n.figure o).item.place x y slot

/-- The picture of a node at a place. -/
def draw (o : Options α) (n : Node α) (x y slot : α) : Drawing α := (n.place o x y slot).draw

end Node
end SyntaxDiagram
