import SyntaxDiagram.Node.Placed

/-!
# Layouts look at sizes alone

A layout puts sized items where their sizes let them go, whatever the items are. If all items are
exchanged for others of the same sizes, the others stand where the first ones stood.

* `Sized.map`, `Site.map`, `Layout.exchange`: other items of the same sizes, at the same sites, and
  among the same pieces.
* `Layout.exchange_rowPieces` and its companions: a layout of other items is the layout of the first
  ones with the items exchanged.
-/

namespace SyntaxDiagram

variable {α β γ : Type}

/-- Something else of the same size. -/
def Sized.map (f : β → γ) (s : Sized α β) : Sized α γ := ⟨s.metrics, f s.item⟩

/-- Something else at the same site. -/
def Site.map (f : β → γ) (s : Site α β) : Site α γ := ⟨s.toSized.map f, s.x, s.y, s.slot⟩

namespace Layout

variable (f : β → γ)

/-- The same pieces with other items. -/
def exchange (pieces : List (Piece α (Site α β))) : List (Piece α (Site α γ)) :=
  pieces.map (Piece.map (Site.map f))

@[simp] theorem exchange_nil : exchange f ([] : List (Piece α (Site α β))) = [] := rfl

@[simp] theorem exchange_track (path : Path α) (rest : List (Piece α (Site α β))) :
    exchange f (.track path :: rest) = .track path :: exchange f rest := rfl

@[simp] theorem exchange_shape (drawing : Drawing α) (rest : List (Piece α (Site α β))) :
    exchange f (.shape drawing :: rest) = .shape drawing :: exchange f rest := rfl

@[simp] theorem exchange_piece (s : Sized α β) (x y slot : α) (rest : List (Piece α (Site α β))) :
    exchange f (s.piece x y slot :: rest) = (s.map f).piece x y slot :: exchange f rest := rfl

@[simp] theorem exchange_append (a b : List (Piece α (Site α β))) :
    exchange f (a ++ b) = exchange f a ++ exchange f b := List.map_append

@[simp] theorem metrics_map (s : Sized α β) : (s.map f).metrics = s.metrics := rfl

/-- Other items have the sizes of the first ones. -/
@[simp] theorem map_metrics_map (items : List (Sized α β)) :
    (items.map (Sized.map f)).map (·.metrics) = items.map (·.metrics) := by
  rw [List.map_map]
  rfl

/-- Other branches have the sizes of the first ones. -/
@[simp] theorem branches_metrics_map (b : Branches (Sized α β)) :
    (b.map (Sized.map f)).map (·.metrics) = b.map (·.metrics) := by
  simp only [Branches.map, metrics_map, map_metrics_map]

/-- Other items side by side have the sizes of the first ones. -/
@[simp] theorem beside_metrics_map (b : Beside (Sized α β)) :
    (b.map (Sized.map f)).map (·.metrics) = b.map (·.metrics) := by
  simp only [Beside.map, metrics_map, map_metrics_map]

section Sizes

variable {δ : Type} {f : β → δ} {g : γ → δ}

/-- Items that can be exchanged for the same thing have the same size. -/
theorem metrics_of_map {s : Sized α β} {t : Sized α γ} (h : s.map f = t.map g) :
    s.metrics = t.metrics := congrArg (·.metrics) h

theorem metrics_of_maps {items : List (Sized α β)} {others : List (Sized α γ)}
    (h : items.map (Sized.map f) = others.map (Sized.map g)) :
    items.map (·.metrics) = others.map (·.metrics) := by
  have hmetrics := congrArg (List.map (·.metrics)) h
  rwa [map_metrics_map, map_metrics_map] at hmetrics

theorem metrics_of_branches {b : Branches (Sized α β)} {b' : Branches (Sized α γ)}
    (h : b.map (Sized.map f) = b'.map (Sized.map g)) : b.map (·.metrics) = b'.map (·.metrics) := by
  have hmetrics := congrArg (Branches.map (·.metrics)) h
  rwa [branches_metrics_map, branches_metrics_map] at hmetrics

theorem metrics_of_beside {b : Beside (Sized α β)} {b' : Beside (Sized α γ)}
    (h : b.map (Sized.map f) = b'.map (Sized.map g)) : b.map (·.metrics) = b'.map (·.metrics) := by
  have hmetrics := congrArg (Beside.map (·.metrics)) h
  rwa [beside_metrics_map, beside_metrics_map] at hmetrics

end Sizes

/-- A shape is not an item. -/
theorem exchange_shapes (drawings : List (Drawing α)) :
    exchange f (drawings.map .shape) = drawings.map .shape := by
  rw [exchange, List.map_map]
  rfl

variable [Scalar α] (o : Options α) (x y slot : α)

@[simp] theorem exchange_sides (m : Metrics α) :
    exchange f (sides o m x y slot) = sides o m x y slot := rfl

/-! ## Rows and stacks -/

@[simp] theorem exchange_connector (present : Bool) :
    exchange f (connector present x y) = connector present x y := by
  rw [connector, connector]
  split <;> rfl

theorem exchange_rowPieces (edges inside : Bool) (items : List (Sized α β)) :
    rowPieces edges inside (items.map (Sized.map f)) x y =
      exchange f (rowPieces edges inside items x y) := by
  induction items generalizing inside x y with
  | nil => rfl
  | cons s rest ih =>
    simp only [List.map_cons, rowPieces, List.isEmpty_map, metrics_map, ih, exchange_append,
      exchange_piece, exchange_connector]

theorem exchange_sequencePieces (items : List (Sized α β)) :
    sequencePieces o (items.map (Sized.map f)) x y slot =
      exchange f (sequencePieces o items x y slot) := by
  simp only [sequencePieces, map_metrics_map, exchange_rowPieces, exchange_append, exchange_sides]

theorem exchange_stackLines (inner : α) (first : Sized α β) (rest : List (Sized α β)) :
    stackLines o inner x (first.map f) (rest.map (Sized.map f)) y =
      exchange f (stackLines o inner x first rest y) := by
  induction rest generalizing first y with
  | nil => rfl
  | cons next rest ih =>
    simp only [List.map_cons, stackLines, metrics_map, ih, exchange_piece, exchange_track]

theorem exchange_stackPieces (first : Sized α β) (rest : List (Sized α β)) :
    stackPieces o (first.map f) (rest.map (Sized.map f)) x y slot =
      exchange f (stackPieces o first rest x y slot) := by
  simp only [stackPieces, metrics_map, map_metrics_map, List.isEmpty_map, exchange_stackLines]
  split
  · simp only [exchange_track, exchange_append, exchange_nil, List.cons_append]
  · simp only [exchange_track, exchange_append, exchange_nil, List.cons_append]

/-! ## Choices and loops -/

theorem exchange_choiceAbove (c : ChoiceFrame α) (items : List (Sized α β)) (distance : α) :
    choiceAbove c (items.map (Sized.map f)) distance =
      exchange f (choiceAbove c items distance) := by
  induction items generalizing distance with
  | nil => rfl
  | cons s rest ih =>
    simp only [List.map_cons, choiceAbove, metrics_map, ih, exchange_piece, exchange_track]
    cases rest <;> rfl

theorem exchange_choiceBelow (c : ChoiceFrame α) (items : List (Sized α β)) (distance : α) :
    choiceBelow c (items.map (Sized.map f)) distance =
      exchange f (choiceBelow c items distance) := by
  induction items generalizing distance with
  | nil => rfl
  | cons s rest ih =>
    simp only [List.map_cons, choiceBelow, metrics_map, ih, exchange_piece, exchange_track]
    cases rest <;> rfl

theorem choiceRise_map (straight : Metrics α) (items : List (Sized α β)) :
    choiceRise o straight (items.map (Sized.map f)) = choiceRise o straight items := by
  cases items <;> rfl

theorem choiceDrop_map (height : α) (straight : Metrics α) (items : List (Sized α β)) :
    choiceDrop o height straight (items.map (Sized.map f)) =
      choiceDrop o height straight items := by
  cases items <;> rfl

theorem exchange_choicePieces (m : Metrics α) (b : Branches (Sized α β)) :
    choicePieces o m (b.map (Sized.map f)) x y slot =
      exchange f (choicePieces o m b x y slot) := by
  simp only [choicePieces, Branches.map, metrics_map, ← List.map_reverse, choiceRise_map,
    choiceDrop_map, exchange_choiceAbove, exchange_choiceBelow, exchange_append, exchange_sides,
    exchange_track, exchange_piece]

theorem exchange_loopPieces (item separator : Sized α β) :
    loopPieces o (item.map f) (separator.map f) x y slot =
      exchange f (loopPieces o item separator x y slot) := rfl

/-! ## Columns -/

theorem exchange_columnItems (middle : α) (first : Sized α β) (rest : List (Sized α β)) :
    columnItems o middle x (first.map f) (rest.map (Sized.map f)) y =
      exchange f (columnItems o middle x first rest y) := by
  induction rest generalizing first y with
  | nil => rfl
  | cons next rest ih =>
    simp only [List.map_cons, columnItems, metrics_map, ih, exchange_piece, exchange_track]

theorem exchange_columnPieces (first : Sized α β) (rest : List (Sized α β)) :
    columnPieces o (first.map f) (rest.map (Sized.map f)) x y slot =
      exchange f (columnPieces o first rest x y slot) := by
  simp only [columnPieces, metrics_map, map_metrics_map, List.isEmpty_map, exchange_columnItems]
  split
  · simp only [exchange_track, exchange_append, exchange_nil]
  · simp only [exchange_track, exchange_append, exchange_nil]

/-! ## Several branches at once -/

theorem exchange_multipleAbove (c : ChoiceFrame α) (items : List (Sized α β)) (distance : α) :
    multipleAbove c (items.map (Sized.map f)) distance =
      exchange f (multipleAbove c items distance) := by
  induction items generalizing distance with
  | nil => rfl
  | cons s rest ih =>
    simp only [List.map_cons, multipleAbove, metrics_map, ih, exchange_piece, exchange_track]
    cases rest <;> rfl

theorem exchange_multipleBelow (c : ChoiceFrame α) (items : List (Sized α β)) (distance : α) :
    multipleBelow c (items.map (Sized.map f)) distance =
      exchange f (multipleBelow c items distance) := by
  induction items generalizing distance with
  | nil => rfl
  | cons s rest ih =>
    simp only [List.map_cons, multipleBelow, metrics_map, ih, exchange_piece, exchange_track]
    cases rest <;> rfl

theorem multipleRise_map (straight : Metrics α) (items : List (Sized α β)) :
    multipleRise o straight (items.map (Sized.map f)) = multipleRise o straight items := by
  cases items <;> rfl

theorem multipleDrop_map (straight : Metrics α) (items : List (Sized α β)) :
    multipleDrop o straight (items.map (Sized.map f)) = multipleDrop o straight items := by
  cases items <;> rfl

theorem exchange_multiplePieces (kind : ChoiceKind) (b : Branches (Sized α β)) :
    multiplePieces o kind (b.map (Sized.map f)) x y slot =
      exchange f (multiplePieces o kind b x y slot) := by
  simp only [multiplePieces, branches_metrics_map]
  simp only [Branches.map, metrics_map, ← List.map_reverse, multipleRise_map, multipleDrop_map,
    exchange_multipleAbove, exchange_multipleBelow, exchange_append, exchange_sides,
    exchange_track, exchange_piece, exchange_shape, exchange_nil]

/-! ## Side by side -/

theorem exchange_sideItems (upper lower : α) (isFirst : Bool) (items : List (Sized α β)) :
    sideItems o upper lower isFirst (items.map (Sized.map f)) x y =
      exchange f (sideItems o upper lower isFirst items x y) := by
  induction items generalizing isFirst x with
  | nil => rfl
  | cons s rest ih =>
    simp only [List.map_cons, sideItems, metrics_map, List.isEmpty_map, ih, exchange_piece,
      exchange_track]

theorem exchange_sidePieces (b : Beside (Sized α β)) :
    sidePieces o (b.map (Sized.map f)) x y slot = exchange f (sidePieces o b x y slot) := by
  have hitems : (b.map (Sized.map f)).toList = b.toList.map (Sized.map f) := by
    simp only [Beside.toList, Beside.map, List.map_cons, List.map_append, List.map_nil]
  simp only [sidePieces, beside_metrics_map, hitems, exchange_sideItems, exchange_append,
    exchange_sides, exchange_track]

theorem exchange_skipRowItems (top : α) (items : List (Sized α β)) :
    skipRowItems o top (items.map (Sized.map f)) x y =
      exchange f (skipRowItems o top items x y) := by
  induction items generalizing x y with
  | nil => rfl
  | cons s rest ih =>
    simp only [List.map_cons, skipRowItems, metrics_map, List.isEmpty_map, ih, exchange_append,
      exchange_piece, exchange_track]
    split <;> rfl

theorem exchange_skipRowPieces (first : Sized α β) (rest : List (Sized α β)) :
    skipRowPieces o (first.map f) (rest.map (Sized.map f)) x y slot =
      exchange f (skipRowPieces o first rest x y slot) := by
  simp only [skipRowPieces, metrics_map, map_metrics_map, exchange_skipRowItems, exchange_piece,
    exchange_track]

theorem exchange_crossingPieces (first second : Sized α β) :
    crossingPieces o (first.map f) (second.map f) x y slot =
      exchange f (crossingPieces o first second x y slot) := rfl

/-! ## Frames and marks -/

theorem exchange_framePieces (item : Sized α β) (label : Option (Sized α β)) :
    framePieces o (item.map f) (label.map (Sized.map f)) x y slot =
      exchange f (framePieces o item label x y slot) := by
  cases label <;> rfl

theorem exchange_boxPieces (rounded : Bool) (text : String) (given : Attributes String) :
    exchange f (boxPieces o rounded text given x y slot) =
      boxPieces o rounded text given x y slot := by
  simp only [boxPieces, exchange_append, exchange_sides, exchange_shape, exchange_shapes]

theorem exchange_remarkPieces (text : String) (href title : Option String) :
    exchange f (remarkPieces o text href title x y slot) =
      remarkPieces o text href title x y slot := by
  simp only [remarkPieces, exchange_append, exchange_sides, exchange_shape, exchange_shapes]

theorem exchange_startPieces (style : MarkerStyle) (label : String) :
    exchange f (startPieces o style label x y) = startPieces o style label x y := by
  rw [startPieces, startPieces]
  split <;> rfl

end Layout
end SyntaxDiagram
