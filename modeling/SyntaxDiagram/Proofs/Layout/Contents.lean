import SyntaxDiagram.Node.Placed

/-!
# What is in a picture

A container answers with pieces, some of which are items at their places. Whatever the sizes are,
these are the items of the container, each of them once.

* `Layout.contents`: the items among pieces.
* `Layout.contents_rowPieces` and its companions: the items of each layout in the order in which
  they are drawn. Branches above the straight one are drawn from the nearest on, all others in the
  order of the container.
-/

namespace SyntaxDiagram

variable {α β γ δ : Type}

/-- The item that a piece is, if it is one. -/
def Piece.content? : Piece α γ → Option γ
  | child content => some content
  | _ => none

namespace Layout

/-- The items among pieces. -/
def contents (pieces : List (Piece α γ)) : List γ := pieces.filterMap Piece.content?

@[simp] theorem contents_nil : contents ([] : List (Piece α γ)) = [] := rfl

@[simp] theorem contents_track (path : Path α) (rest : List (Piece α γ)) :
    contents (.track path :: rest) = contents rest := rfl

@[simp] theorem contents_shape (drawing : Drawing α) (rest : List (Piece α γ)) :
    contents (.shape drawing :: rest) = contents rest := rfl

@[simp] theorem contents_child (content : γ) (rest : List (Piece α γ)) :
    contents (.child content :: rest) = content :: contents rest := rfl

@[simp] theorem contents_append (a b : List (Piece α γ)) :
    contents (a ++ b) = contents a ++ contents b := List.filterMap_append

/-- Other content stands where the content stood. -/
theorem contents_map (f : γ → δ) (pieces : List (Piece α γ)) :
    contents (pieces.map (Piece.map f)) = (contents pieces).map f := by
  induction pieces with
  | nil => rfl
  | cons p rest ih =>
    cases p with
    | track path => exact ih
    | child content => exact congrArg (f content :: ·) ih
    | shape drawing => exact ih

theorem contents_map_shape (drawings : List (Drawing α)) :
    contents (drawings.map Piece.shape : List (Piece α γ)) = [] := by
  induction drawings with
  | nil => rfl
  | cons d rest ih => exact ih

@[simp] theorem contents_piece (x y slot : α) (s : Sized α β)
    (rest : List (Piece α (Site α β))) :
    contents (s.piece x y slot :: rest) = s.at x y slot :: contents rest := rfl

@[simp] theorem toSized_at (x y slot : α) (s : Sized α β) : (s.at x y slot).toSized = s := rfl

variable [Scalar α] (o : Options α) (x y slot : α)

@[simp] theorem contents_sides (m : Metrics α) :
    contents (sides o m x y slot : List (Piece α γ)) = [] := rfl

/-! ## Marks -/

theorem contents_boxPieces (rounded : Bool) (text : String) (given : Attributes String) :
    contents (boxPieces o rounded text given x y slot : List (Piece α γ)) = [] := by
  simp [boxPieces, contents_map_shape]

theorem contents_remarkPieces (text : String) (href title : Option String) :
    contents (remarkPieces o text href title x y slot : List (Piece α γ)) = [] := by
  simp [remarkPieces, contents_map_shape]

theorem contents_startPieces (style : MarkerStyle) (label : String) :
    contents (startPieces o style label x y : List (Piece α γ)) = [] := by
  rw [startPieces, contents_track]
  split <;> rfl

/-! ## Rows and columns -/

@[simp] theorem contents_connector (present : Bool) :
    contents (connector present x y : List (Piece α (Site α β))) = [] := by
  rw [connector]
  split <;> rfl

theorem contents_rowPieces (edges inside : Bool) (items : List (Sized α β)) :
    (contents (rowPieces edges inside items x y)).map Site.toSized = items := by
  induction items generalizing inside x y with
  | nil => rfl
  | cons s rest ih => simp [rowPieces, ih]

theorem contents_sequencePieces (items : List (Sized α β)) :
    (contents (sequencePieces o items x y slot)).map Site.toSized = items := by
  simp [sequencePieces, contents_rowPieces]

theorem contents_stackLines (inner : α) (first : Sized α β) (rest : List (Sized α β)) :
    (contents (stackLines o inner x first rest y)).map Site.toSized = first :: rest := by
  induction rest generalizing first y with
  | nil => rfl
  | cons next rest ih => simp [stackLines, ih]

theorem contents_stackPieces (first : Sized α β) (rest : List (Sized α β)) :
    (contents (stackPieces o first rest x y slot)).map Site.toSized = first :: rest := by
  rw [stackPieces]
  split <;> simp [contents_stackLines]

theorem contents_columnItems (middle : α) (first : Sized α β) (rest : List (Sized α β)) :
    (contents (columnItems o middle x first rest y)).map Site.toSized = first :: rest := by
  induction rest generalizing first y with
  | nil => rfl
  | cons next rest ih => simp [columnItems, ih]

theorem contents_columnPieces (first : Sized α β) (rest : List (Sized α β)) :
    (contents (columnPieces o first rest x y slot)).map Site.toSized = first :: rest := by
  rw [columnPieces]
  split <;> simp [contents_columnItems]

/-! ## Branches -/

theorem contents_choiceAbove (f : ChoiceFrame α) (items : List (Sized α β)) (distance : α) :
    (contents (choiceAbove f items distance)).map Site.toSized = items := by
  induction items generalizing distance with
  | nil => rfl
  | cons s rest ih => simp [choiceAbove, ih]

theorem contents_choiceBelow (f : ChoiceFrame α) (items : List (Sized α β)) (distance : α) :
    (contents (choiceBelow f items distance)).map Site.toSized = items := by
  induction items generalizing distance with
  | nil => rfl
  | cons s rest ih => simp [choiceBelow, ih]

theorem contents_choicePieces (m : Metrics α) (b : Branches (Sized α β)) :
    (contents (choicePieces o m b x y slot)).map Site.toSized =
      b.above.reverse ++ b.straight :: b.below := by
  simp [choicePieces, contents_choiceAbove, contents_choiceBelow]

theorem contents_multipleAbove (f : ChoiceFrame α) (items : List (Sized α β)) (distance : α) :
    (contents (multipleAbove f items distance)).map Site.toSized = items := by
  induction items generalizing distance with
  | nil => rfl
  | cons s rest ih => simp [multipleAbove, ih]

theorem contents_multipleBelow (f : ChoiceFrame α) (items : List (Sized α β)) (distance : α) :
    (contents (multipleBelow f items distance)).map Site.toSized = items := by
  induction items generalizing distance with
  | nil => rfl
  | cons s rest ih => simp [multipleBelow, ih]

theorem contents_multiplePieces (kind : ChoiceKind) (b : Branches (Sized α β)) :
    (contents (multiplePieces o kind b x y slot)).map Site.toSized =
      b.above.reverse ++ b.straight :: b.below := by
  simp [multiplePieces, contents_multipleAbove, contents_multipleBelow]

/-! ## Loops, frames, rails and crossings -/

theorem contents_loopPieces (item separator : Sized α β) :
    (contents (loopPieces o item separator x y slot)).map Site.toSized = [item, separator] := by
  simp [loopPieces]

theorem contents_framePieces (item : Sized α β) (label : Option (Sized α β)) :
    (contents (framePieces o item label x y slot)).map Site.toSized = item :: label.toList := by
  cases label <;> simp [framePieces]

theorem contents_sideItems (upper lower : α) (isFirst : Bool) (items : List (Sized α β)) :
    (contents (sideItems o upper lower isFirst items x y)).map Site.toSized = items := by
  induction items generalizing isFirst x with
  | nil => rfl
  | cons s rest ih => simp [sideItems, ih]

theorem contents_sidePieces (b : Beside (Sized α β)) :
    (contents (sidePieces o b x y slot)).map Site.toSized = b.toList := by
  simp [sidePieces, contents_sideItems]

theorem contents_crossingPieces (first second : Sized α β) :
    (contents (crossingPieces o first second x y slot)).map Site.toSized = [first, second] := by
  simp [crossingPieces]

theorem contents_skipRowItems (top : α) (items : List (Sized α β)) :
    (contents (skipRowItems o top items x y)).map Site.toSized = items := by
  induction items generalizing x y with
  | nil => rfl
  | cons s rest ih =>
    rw [skipRowItems]
    split <;> simp [ih]

theorem contents_skipRowPieces (first : Sized α β) (rest : List (Sized α β)) :
    (contents (skipRowPieces o first rest x y slot)).map Site.toSized = first :: rest := by
  simp [skipRowPieces, contents_skipRowItems]

end Layout
end SyntaxDiagram
