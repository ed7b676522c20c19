import Mathlib.Algebra.Order.Field.Basic
import Mathlib.Algebra.Order.Field.Rat
import SyntaxDiagram.Layout.Branches
import SyntaxDiagram.Layout.Crossing
import SyntaxDiagram.Layout.Loop
import SyntaxDiagram.Layout.Mark
import SyntaxDiagram.Layout.Rails
import SyntaxDiagram.Layout.Row
import SyntaxDiagram.Proofs.Exact

/-!
# Layouts elsewhere

A layout looks at the point where it starts only to put its pieces around it. From another point it
gives the same pieces, moved as a whole: paths start elsewhere and go on by the same commands, and
boxes and texts have other coordinates.

* `Drawing.moved`: a picture that was moved, with its lengths, classes and texts as they were.
* `Site.moved`, `Layout.move`: the same for sites and for pieces.
* `Layout.move_rowPieces` and its companions: a layout from another point is the layout moved
  there.
-/

namespace SyntaxDiagram

variable {K β : Type} [ExactScalar K]

/-- A value of a picture that was moved: a path starts elsewhere. A number is moved if it is a
coordinate of an element that has a place. -/
def Value.moved (hasPlace : Bool) (a b : K) (name : String) : Value K → Value K
  | .text t => .text t
  | .number v => .number
    (if hasPlace && name = "x" then v + a else if hasPlace && name = "y" then v + b else v)
  | .numbers vs => .numbers vs
  | .path lead p => .path lead (p.shift a b)

/-- The attributes of an element that was moved. -/
def Attributes.moved (hasPlace : Bool) (a b : K) (attributes : Attributes (Value K)) :
    Attributes (Value K) :=
  ⟨attributes.entries.map fun e => (e.1, e.2.moved hasPlace a b e.1)⟩

namespace Drawing

mutual

/-- The picture moved to the right by `a` and down by `b`. The elements with the given tags have a
place of their own, which is written in their numbers `x` and `y`. -/
def moved (tags : List String) (a b : K) : Drawing K → Drawing K
  | text tag attributes content => text tag (attributes.moved (tag ∈ tags) a b) content
  | group tag attributes children =>
    group tag (attributes.moved (tag ∈ tags) a b) (moveds tags a b children)

/-- The pictures moved together. -/
def moveds (tags : List String) (a b : K) : List (Drawing K) → List (Drawing K)
  | [] => []
  | d :: rest => d.moved tags a b :: moveds tags a b rest

end

end Drawing

/-- The same item in a slot elsewhere. -/
def Site.moved (a b : K) (s : Site K β) : Site K β := { s with x := s.x + a, y := s.y + b }

/-- The same piece elsewhere. -/
def Piece.moved (tags : List String) (a b : K) : Piece K (Site K β) → Piece K (Site K β)
  | track path => .track (path.shift a b)
  | child s => .child (s.moved a b)
  | shape drawing => .shape (drawing.moved tags a b)

namespace Layout

variable {tags : List String} {a b : K}

/-- The pieces moved together. -/
def move (tags : List String) (a b : K) (pieces : List (Piece K (Site K β))) :
    List (Piece K (Site K β)) := pieces.map (Piece.moved tags a b)

@[simp] theorem move_nil : move tags a b ([] : List (Piece K (Site K β))) = [] := rfl

@[simp] theorem move_cons (p : Piece K (Site K β)) (rest : List (Piece K (Site K β))) :
    move tags a b (p :: rest) = p.moved tags a b :: move tags a b rest := rfl

@[simp] theorem move_append (first others : List (Piece K (Site K β))) :
    move tags a b (first ++ others) = move tags a b first ++ move tags a b others :=
  List.map_append

/-- A piece that is put elsewhere is a piece that was moved. -/
@[simp] theorem piece_moved (s : Sized K β) (x y slot : K) :
    (s.piece x y slot).moved tags a b = s.piece (x + a) (y + b) slot := rfl

/-! ## Paths

Commands are relative, so that a path that was moved is the path from another start. -/

@[simp] theorem track_moved (path : Path K) :
    (.track path : Piece K (Site K β)).moved tags a b = .track (path.shift a b) := rfl

@[simp] theorem shape_moved (d : Drawing K) :
    (.shape d : Piece K (Site K β)).moved tags a b = .shape (d.moved tags a b) := rfl

@[simp] theorem shift_start (x y : K) : (start x y).shift a b = start (x + a) (y + b) := rfl

@[simp] theorem shift_h (p : Path K) (dx : K) : (p.h dx).shift a b = (p.shift a b).h dx := rfl

@[simp] theorem shift_v (p : Path K) (dy : K) : (p.v dy).shift a b = (p.shift a b).v dy := rfl

@[simp] theorem shift_l (p : Path K) (dx dy : K) :
    (p.l dx dy).shift a b = (p.shift a b).l dx dy := rfl

@[simp] theorem shift_right (p : Path K) (length : K) :
    (p.right length).shift a b = (p.shift a b).right length := rfl

@[simp] theorem shift_left (p : Path K) (length : K) :
    (p.left length).shift a b = (p.shift a b).left length := rfl

@[simp] theorem shift_down (p : Path K) (length : K) :
    (p.down length).shift a b = (p.shift a b).down length := rfl

@[simp] theorem shift_up (p : Path K) (length : K) :
    (p.up length).shift a b = (p.shift a b).up length := rfl

@[simp] theorem shift_arc (p : Path K) (radius : K) (source target : Cardinal) :
    (p.arc radius source target).shift a b = (p.shift a b).arc radius source target := rfl

@[simp] theorem shift_eighth (p : Path K) (radius : K) (source : Compass) (spin : Spin) :
    (p.eighth radius source spin).shift a b = (p.shift a b).eighth radius source spin := rfl

end Layout

namespace Layout

variable (tags : List String) (a b : K) (o : Options K) (x y slot : K)

/-! ## Rows and columns -/

theorem move_sides (m : Metrics K) :
    (sides o m (x + a) (y + b) slot : List (Piece K (Site K β))) =
      move tags a b (sides o m x y slot) := by
  simp [sides, add_right_comm _ a, add_right_comm _ b]

theorem move_connector (present : Bool) :
    (connector present (x + a) (y + b) : List (Piece K (Site K β))) =
      move tags a b (connector present x y) := by
  cases present <;> rfl

theorem pastConnector_add (present : Bool) :
    pastConnector present (x + a) = pastConnector present x + a := by
  cases present
  · rfl
  · exact add_right_comm x a 10

theorem move_rowPieces (edges inside : Bool) (items : List (Sized K β)) :
    rowPieces edges inside items (x + a) (y + b) =
      move tags a b (rowPieces edges inside items x y) := by
  induction items generalizing inside x y with
  | nil => rfl
  | cons s rest ih =>
    simp only [rowPieces, pastConnector_add, add_right_comm _ a, add_right_comm _ b,
      move_connector tags a b, ih, move_append, move_cons, piece_moved, List.cons_append,
      List.append_assoc]

theorem move_sequencePieces (items : List (Sized K β)) :
    sequencePieces o items (x + a) (y + b) slot =
      move tags a b (sequencePieces o items x y slot) := by
  simp only [sequencePieces, move_sides tags, add_right_comm _ a, move_rowPieces tags, move_append]

theorem move_stackLines (inner : K) (first : Sized K β) (rest : List (Sized K β)) :
    stackLines o inner (x + a) first rest (y + b) =
      move tags a b (stackLines o inner x first rest y) := by
  induction rest generalizing first y with
  | nil => rfl
  | cons next rest ih =>
    simp only [stackLines, stackTurn, add_right_comm _ a, add_right_comm _ b, ih, move_cons,
      piece_moved, track_moved, shift_arc, shift_down, shift_left, shift_start]

theorem stackExit_add (first : Metrics K) (rest : List (Metrics K)) :
    stackExit o first rest (y + b) = stackExit o first rest y + b := by
  induction rest generalizing first y with
  | nil => exact add_right_comm y b first.height
  | cons next rest ih => simp only [stackExit, add_right_comm _ b, ih]

theorem move_stackPieces (first : Sized K β) (rest : List (Sized K β)) :
    stackPieces o first rest (x + a) (y + b) slot =
      move tags a b (stackPieces o first rest x y slot) := by
  simp only [stackPieces, stackExit_add, add_right_comm _ a, move_stackLines tags a b]
  split <;>
    simp only [move_cons, move_append, move_nil, track_moved, shift_h, shift_start,
      List.cons_append]

theorem move_columnItems (middle : K) (first : Sized K β) (rest : List (Sized K β)) :
    columnItems o middle (x + a) first rest (y + b) =
      move tags a b (columnItems o middle x first rest y) := by
  induction rest generalizing first y with
  | nil => rfl
  | cons next rest ih =>
    simp only [columnItems, add_right_comm _ a, add_right_comm _ b, ih, move_cons, piece_moved,
      track_moved, shift_v, shift_start]

theorem columnExit_add (first : Metrics K) (rest : List (Metrics K)) :
    columnExit o first rest (y + b) = columnExit o first rest y + b := by
  induction rest generalizing first y with
  | nil => simp only [columnExit, add_right_comm _ b]
  | cons next rest ih => simp only [columnExit, add_right_comm _ b, ih]

theorem move_columnPieces (first : Sized K β) (rest : List (Sized K β)) :
    columnPieces o first rest (x + a) (y + b) slot =
      move tags a b (columnPieces o first rest x y slot) := by
  simp only [columnPieces, columnExit_add, add_right_comm _ a, move_columnItems tags a b]
  split <;>
    simp only [move_cons, move_append, move_nil, track_moved, shift_h, shift_start,
      List.cons_append]

/-! ## Branches -/

/-- The frame of a choice elsewhere. -/
def ChoiceFrame.moved (f : ChoiceFrame K) : ChoiceFrame K := { f with x := f.x + a, y := f.y + b }

theorem move_choiceAbove (f : ChoiceFrame K) (items : List (Sized K β)) (distance : K) :
    choiceAbove (f.moved a b) items distance = move tags a b (choiceAbove f items distance) := by
  induction items generalizing distance with
  | nil => rfl
  | cons s rest ih =>
    simp only [choiceAbove, riseTo, ih, move_cons, track_moved, piece_moved, shift_arc, shift_down,
      shift_up, shift_start]
    simp only [ChoiceFrame.moved, add_right_comm _ a, add_right_comm _ b, add_sub_right_comm _ b]

theorem move_choiceBelow (f : ChoiceFrame K) (items : List (Sized K β)) (distance : K) :
    choiceBelow (f.moved a b) items distance = move tags a b (choiceBelow f items distance) := by
  induction items generalizing distance with
  | nil => rfl
  | cons s rest ih =>
    simp only [choiceBelow, dropTo, ih, move_cons, track_moved, piece_moved, shift_arc, shift_down,
      shift_up, shift_start]
    simp only [ChoiceFrame.moved, add_right_comm _ a, add_right_comm _ b]

theorem move_choicePieces (m : Metrics K) (c : Branches (Sized K β)) :
    choicePieces o m c (x + a) (y + b) slot = move tags a b (choicePieces o m c x y slot) := by
  have habove := move_choiceAbove (β := β) tags a b
  have hbelow := move_choiceBelow (β := β) tags a b
  simp only [ChoiceFrame.moved] at habove hbelow
  simp only [choicePieces, move_sides tags, add_right_comm _ a, add_right_comm _ b, ← habove,
    ← hbelow, move_append, move_cons, track_moved, piece_moved, shift_right, shift_start]

theorem move_multipleAbove (f : ChoiceFrame K) (items : List (Sized K β)) (distance : K) :
    multipleAbove (f.moved a b) items distance =
      move tags a b (multipleAbove f items distance) := by
  induction items generalizing distance with
  | nil => rfl
  | cons s rest ih =>
    simp only [multipleAbove, ih, move_cons, track_moved, piece_moved, shift_arc, shift_down,
      shift_up, shift_start]
    simp only [ChoiceFrame.moved, add_right_comm _ a, add_right_comm _ b, add_sub_right_comm _ b]

theorem move_multipleBelow (f : ChoiceFrame K) (items : List (Sized K β)) (distance : K) :
    multipleBelow (f.moved a b) items distance =
      move tags a b (multipleBelow f items distance) := by
  induction items generalizing distance with
  | nil => rfl
  | cons s rest ih =>
    simp only [multipleBelow, ih, move_cons, track_moved, piece_moved, shift_arc, shift_down,
      shift_up, shift_start]
    simp only [ChoiceFrame.moved, add_right_comm _ a, add_right_comm _ b]

/-! ## Texts and boxes -/

variable {tags}

theorem moved_words (htext : "text" ∈ tags) (content : String) :
    (Drawing.words x y [] content).moved tags a b = Drawing.words (x + a) (y + b) [] content := by
  simp [Drawing.words, Drawing.moved, Attributes.moved, Value.moved, htext]

theorem moved_wordsWith (htext : "text" ∈ tags) (name value content : String) :
    (Drawing.words x y [(name, .text value)] content).moved tags a b =
      Drawing.words (x + a) (y + b) [(name, .text value)] content := by
  simp [Drawing.words, Drawing.moved, Attributes.moved, Value.moved, htext]

theorem moved_linkTo (target : Option String) (d : Drawing K) :
    (Drawing.linkTo target d).moved tags a b = Drawing.linkTo target (d.moved tags a b) := by
  unfold Drawing.linkTo
  split <;> rfl

theorem move_titles (content : Option String) :
    move tags a b ((Drawing.titles content).map .shape : List (Piece K (Site K β))) =
      (Drawing.titles content).map .shape := by
  unfold Drawing.titles
  split <;> rfl

theorem move_badgeDrawing (htext : "text" ∈ tags) (kind : ChoiceKind) (m : Metrics K) :
    badgeDrawing kind m (x + a) (y + b) = (badgeDrawing kind m x y).moved tags a b := by
  simp only [badgeDrawing, Drawing.moved, Drawing.moveds, add_right_comm _ a, add_right_comm _ b,
    add_sub_right_comm _ a, add_sub_right_comm _ b, ← moved_wordsWith a b _ _ htext]
  rfl

theorem move_multiplePieces (htext : "text" ∈ tags) (kind : ChoiceKind)
    (c : Branches (Sized K β)) :
    multiplePieces o kind c (x + a) (y + b) slot =
      move tags a b (multiplePieces o kind c x y slot) := by
  have habove := move_multipleAbove (β := β) tags a b
  have hbelow := move_multipleBelow (β := β) tags a b
  simp only [ChoiceFrame.moved] at habove hbelow
  simp only [multiplePieces, move_sides tags, add_right_comm _ a, add_right_comm _ b, ← habove,
    ← hbelow, move_append, move_cons, move_nil, track_moved, piece_moved, shape_moved, shift_right,
    shift_start, move_badgeDrawing a b _ y htext]

theorem move_boxPieces (hrect : "rect" ∈ tags) (htext : "text" ∈ tags) (rounded : Bool)
    (text : String) (given : Attributes String) :
    (boxPieces o rounded text given (x + a) (y + b) slot : List (Piece K (Site K β))) =
      move tags a b (boxPieces o rounded text given x y slot) := by
  simp only [boxPieces, move_sides tags, add_right_comm _ a, add_right_comm _ b,
    add_sub_right_comm _ b, move_append, move_cons, shape_moved, moved_linkTo,
    moved_words a b _ _ htext, move_titles]
  cases rounded <;> simp [Drawing.moved, Attributes.moved, Value.moved, hrect]

theorem move_remarkPieces (htext : "text" ∈ tags) (text : String) (href title : Option String) :
    (remarkPieces o text href title (x + a) (y + b) slot : List (Piece K (Site K β))) =
      move tags a b (remarkPieces o text href title x y slot) := by
  simp only [remarkPieces, move_sides tags, add_right_comm _ a, add_right_comm _ b, move_append,
    move_cons, shape_moved, moved_linkTo, moved_wordsWith a b _ _ htext, move_titles]

theorem move_startPieces (htext : "text" ∈ tags) (style : MarkerStyle) (label : String) :
    (startPieces o style label (x + a) (y + b) : List (Piece K (Site K β))) =
      move tags a b (startPieces o style label x y) := by
  have hticks : startTicks style (start (x + a) (y - 10 + b)) =
      (startTicks style (start x (y - 10))).shift a b := by cases style <;> rfl
  simp only [startPieces, add_sub_right_comm _ b, hticks, move_cons, track_moved, shift_right]
  split
  · rfl
  · simp only [move_cons, shape_moved, moved_wordsWith a b _ _ htext, move_nil]

theorem moved_endDrawing (style : MarkerStyle) :
    endDrawing o style (x + a) (y + b) = (endDrawing o style x y).moved tags a b := by
  have hpath : endPath style (x + a) (y + b) = (endPath style x y).shift a b := by
    cases style <;> rfl
  rw [endDrawing, endDrawing, hpath, debugMarks]
  split <;> rfl

theorem moved_blockDrawing (hblock : "g" ∈ tags) :
    blockDrawing (x + a) (y + b) slot = (blockDrawing x y slot).moved tags a b := by
  simp [blockDrawing, Drawing.moved, Drawing.moveds, Attributes.moved, Value.moved, hblock]

/-! ## Loops, frames, rails and crossings -/

theorem move_loopPieces (item separator : Sized K β) :
    loopPieces o item separator (x + a) (y + b) slot =
      move tags a b (loopPieces o item separator x y slot) := by
  simp only [loopPieces, move_sides tags, add_right_comm _ a, add_right_comm _ b,
    add_sub_right_comm _ a, move_append, move_cons, move_nil, track_moved, piece_moved, shift_arc,
    shift_down, shift_up, shift_right, shift_start]

theorem move_framePieces (hrect : "rect" ∈ tags) (item : Sized K β) (label : Option (Sized K β)) :
    framePieces o item label (x + a) (y + b) slot =
      move tags a b (framePieces o item label x y slot) := by
  have hframe (left top width height radius : K) :
      Drawing.moved tags a b (.text "rect" ⟨[("x", .number left), ("y", .number top),
        ("width", .number width), ("height", .number height), ("rx", .number radius),
        ("ry", .number radius), ("class", .text "group-box")]⟩ "") =
      .text "rect" ⟨[("x", .number (left + a)), ("y", .number (top + b)),
        ("width", .number width), ("height", .number height), ("rx", .number radius),
        ("ry", .number radius), ("class", .text "group-box")]⟩ "" := by
    simp [Drawing.moved, Attributes.moved, Value.moved, hrect]
  simp only [framePieces, move_sides tags, add_right_comm _ a, add_sub_right_comm _ b, move_append,
    move_cons, piece_moved, shape_moved, hframe]
  cases label <;> rfl

variable (tags) in
theorem move_sideItems (upper lower : K) (isFirst : Bool) (items : List (Sized K β)) :
    sideItems o upper lower isFirst items (x + a) (y + b) =
      move tags a b (sideItems o upper lower isFirst items x y) := by
  induction items generalizing isFirst x with
  | nil => rfl
  | cons s rest ih =>
    have hexit (isLast : Bool) (m : Metrics K) (x y : K) :
        sideExit o lower isFirst isLast m (x + a) (y + b) =
          (sideExit o lower isFirst isLast m x y).shift a b := by
      simp only [sideExit, add_right_comm _ b]
      split_ifs <;> rfl
    cases isFirst <;>
      simp only [sideItems, Bool.false_eq_true, if_true, if_false, add_right_comm _ a,
        add_sub_right_comm _ b, hexit, ih, move_cons, track_moved, piece_moved, shift_arc, shift_v,
        shift_h, shift_start]

theorem move_sidePieces (c : Beside (Sized K β)) :
    sidePieces o c (x + a) (y + b) slot = move tags a b (sidePieces o c x y slot) := by
  simp only [sidePieces, move_sides tags, add_right_comm _ a, add_right_comm _ b,
    move_sideItems tags, move_append, move_cons, track_moved, shift_arc, shift_v, shift_h,
    shift_start]

variable (tags) in
theorem move_skipRowItems (top : K) (items : List (Sized K β)) :
    skipRowItems o (top + b) items (x + a) (y + b) =
      move tags a b (skipRowItems o top items x y) := by
  induction items generalizing x y with
  | nil => rfl
  | cons s rest ih =>
    have hbridge (isLast : Bool) (bridge : Path K) :
        move tags a b (if isLast then [] else [.track bridge] : List (Piece K (Site K β))) =
          if isLast then [] else [.track (bridge.shift a b)] := by
      cases isLast <;> rfl
    simp only [skipRowItems, add_sub_add_right_eq_sub, add_right_comm _ a, add_right_comm _ b, ih,
      move_append, hbridge, move_cons, track_moved, piece_moved, shift_arc, shift_down, shift_up,
      shift_right, shift_start]

theorem move_skipRowPieces (first : Sized K β) (rest : List (Sized K β)) :
    skipRowPieces o first rest (x + a) (y + b) slot =
      move tags a b (skipRowPieces o first rest x y slot) := by
  -- the rail is measured from the entry line, which moves with it
  have htop (up : K) : y + b - up = y - up + b := add_sub_right_comm y b up
  simp only [skipRowPieces, htop (skipRowSize _ _ _).up, add_right_comm _ a, add_right_comm _ b,
    add_sub_add_right_eq_sub, move_skipRowItems tags, move_cons, track_moved, piece_moved,
    shift_arc, shift_down, shift_up, shift_right, shift_start]

theorem move_crossingPieces (first second : Sized K β) :
    crossingPieces o first second (x + a) (y + b) slot =
      move tags a b (crossingPieces o first second x y slot) := by
  simp only [crossingPieces, add_right_comm _ a, add_right_comm _ b, add_sub_right_comm _ a,
    add_sub_right_comm _ b, move_cons, move_nil, track_moved, piece_moved, shift_arc, shift_eighth,
    shift_l, shift_down, shift_up, shift_right, shift_start]

end Layout
end SyntaxDiagram
