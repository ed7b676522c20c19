import SyntaxDiagram.Node

/-!
# Lines of layouts

Containers draw nothing but lines, and the lines are made by calls, whose arcs all have the radius of
the drawing. A frame and a badge are all that a container draws besides.

* `Path.IsCalled`: paths without raw data, in which all arcs have one radius.
* `Layout.AllLines`: pieces that are such lines or items.
* `Layout.allLines_rowPieces` and its companions: the pieces of each layout.
-/

namespace SyntaxDiagram

variable {α β γ δ : Type} {radius : α}

/-- A command that comes of a call: no raw data, and an arc has the radius of its path. -/
def Command.IsCall (radius : α) : Command α → Prop
  | arc r _ _ | eighth r _ _ => r = radius
  | raw _ => False
  | _ => True

/-- A path that is made by calls. -/
def Path.IsCalled (radius : α) (p : Path α) : Prop := ∀ c ∈ p.commands.toList, c.IsCall radius

namespace Path

variable (p : Path α)

@[simp] theorem isCalled_start (x y : α) : (Layout.start x y).IsCalled radius := by
  simp [IsCalled, Layout.start]

@[simp] theorem isCalled_push (c : Command α) :
    (p.push c).IsCalled radius ↔ p.IsCalled radius ∧ c.IsCall radius := by
  simp [IsCalled, push, or_imp, forall_and]

@[simp] theorem isCalled_h (dx : α) : (p.h dx).IsCalled radius ↔ p.IsCalled radius := by
  simp [h, Command.IsCall]

@[simp] theorem isCalled_v (dy : α) : (p.v dy).IsCalled radius ↔ p.IsCalled radius := by
  simp [v, Command.IsCall]

@[simp] theorem isCalled_m (dx dy : α) : (p.m dx dy).IsCalled radius ↔ p.IsCalled radius := by
  simp [m, Command.IsCall]

@[simp] theorem isCalled_l (dx dy : α) : (p.l dx dy).IsCalled radius ↔ p.IsCalled radius := by
  simp [l, Command.IsCall]

@[simp] theorem isCalled_arc (r : α) (source target : Cardinal) :
    (p.arc r source target).IsCalled radius ↔ p.IsCalled radius ∧ r = radius := by
  simp [arc, Command.IsCall]

@[simp] theorem isCalled_eighth (r : α) (source : Compass) (spin : Spin) :
    (p.eighth r source spin).IsCalled radius ↔ p.IsCalled radius ∧ r = radius := by
  simp [eighth, Command.IsCall]

@[simp] theorem isCalled_nudge : p.nudge.IsCalled radius ↔ p.IsCalled radius := by
  simp [nudge, Command.IsCall]

section Clamped

variable [Scalar α] (length : α)

@[simp] theorem isCalled_right : (p.right length).IsCalled radius ↔ p.IsCalled radius := by
  simp [right]

@[simp] theorem isCalled_left : (p.left length).IsCalled radius ↔ p.IsCalled radius := by
  simp [left]

@[simp] theorem isCalled_down : (p.down length).IsCalled radius ↔ p.IsCalled radius := by
  simp [down]

@[simp] theorem isCalled_up : (p.up length).IsCalled radius ↔ p.IsCalled radius := by
  simp [up]

end Clamped

end Path

/-- A line that is made by calls, or an item. -/
def Piece.IsLine (radius : α) : Piece α γ → Prop
  | track path => path.IsCalled radius
  | child _ => True
  | shape _ => False

namespace Layout

/-- Lines and items. -/
def AllLines (radius : α) (pieces : List (Piece α γ)) : Prop := ∀ p ∈ pieces, p.IsLine radius

@[simp] theorem allLines_nil : AllLines radius ([] : List (Piece α γ)) := nofun

@[simp] theorem allLines_cons (p : Piece α γ) (rest : List (Piece α γ)) :
    AllLines radius (p :: rest) ↔ p.IsLine radius ∧ AllLines radius rest := List.forall_mem_cons

@[simp] theorem allLines_append (a b : List (Piece α γ)) :
    AllLines radius (a ++ b) ↔ AllLines radius a ∧ AllLines radius b := List.forall_mem_append

@[simp] theorem isLine_track (path : Path α) :
    (Piece.track path : Piece α γ).IsLine radius ↔ path.IsCalled radius := .rfl

/-- Other content stands where the content stood. -/
theorem allLines_map (f : γ → δ) (pieces : List (Piece α γ)) :
    AllLines radius (pieces.map (Piece.map f)) ↔ AllLines radius pieces := by
  have hkeep (p : Piece α γ) : (p.map f).IsLine radius ↔ p.IsLine radius := by
    cases p <;> exact .rfl
  simp only [AllLines, List.forall_mem_map, hkeep]

@[simp] theorem isLine_piece (s : Sized α β) (x y slot : α) : (s.piece x y slot).IsLine radius :=
  trivial

variable [Scalar α] (o : Options α) (x y slot : α)

@[simp] theorem allLines_sides (m : Metrics α) :
    AllLines radius (sides o m x y slot : List (Piece α γ)) := by
  simp [sides]

/-! ## Rows and columns -/

@[simp] theorem allLines_connector (present : Bool) :
    AllLines radius (connector present x y : List (Piece α (Site α β))) := by
  rw [connector]
  split <;> simp

variable (radius) in
theorem allLines_rowPieces (edges inside : Bool) (items : List (Sized α β)) :
    AllLines radius (rowPieces edges inside items x y) := by
  induction items generalizing inside x y with
  | nil => exact allLines_nil
  | cons s rest ih => simp [rowPieces, ih]

theorem allLines_sequencePieces (items : List (Sized α β)) :
    AllLines o.arcRadius (sequencePieces o items x y slot) := by
  simp [sequencePieces, allLines_rowPieces]

theorem allLines_stackLines (inner : α) (first : Sized α β) (rest : List (Sized α β)) :
    AllLines o.arcRadius (stackLines o inner x first rest y) := by
  induction rest generalizing first y with
  | nil => simp [stackLines]
  | cons next rest ih => simp [stackLines, stackTurn, ih]

theorem allLines_stackPieces (first : Sized α β) (rest : List (Sized α β)) :
    AllLines o.arcRadius (stackPieces o first rest x y slot) := by
  rw [stackPieces]
  split <;> simp [allLines_stackLines]

theorem allLines_columnItems (middle : α) (first : Sized α β) (rest : List (Sized α β)) :
    AllLines o.arcRadius (columnItems o middle x first rest y) := by
  induction rest generalizing first y with
  | nil => simp [columnItems]
  | cons next rest ih => simp [columnItems, ih]

theorem allLines_columnPieces (first : Sized α β) (rest : List (Sized α β)) :
    AllLines o.arcRadius (columnPieces o first rest x y slot) := by
  rw [columnPieces]
  split <;> simp [allLines_columnItems]

/-! ## Branches -/

section Branches

variable (f : ChoiceFrame α) (items : List (Sized α β)) (distance : α)

theorem allLines_choiceAbove (hradius : f.options.arcRadius = radius) :
    AllLines radius (choiceAbove f items distance) := by
  induction items generalizing distance with
  | nil => exact allLines_nil
  | cons s rest ih => simp [choiceAbove, riseTo, hradius, ih]

theorem allLines_choiceBelow (hradius : f.options.arcRadius = radius) :
    AllLines radius (choiceBelow f items distance) := by
  induction items generalizing distance with
  | nil => exact allLines_nil
  | cons s rest ih => simp [choiceBelow, dropTo, hradius, ih]

theorem allLines_multipleAbove (hradius : f.options.arcRadius = radius) :
    AllLines radius (multipleAbove f items distance) := by
  induction items generalizing distance with
  | nil => exact allLines_nil
  | cons s rest ih => simp [multipleAbove, hradius, ih]

theorem allLines_multipleBelow (hradius : f.options.arcRadius = radius) :
    AllLines radius (multipleBelow f items distance) := by
  induction items generalizing distance with
  | nil => exact allLines_nil
  | cons s rest ih => simp [multipleBelow, hradius, ih]

end Branches

theorem allLines_choicePieces (m : Metrics α) (b : Branches (Sized α β)) :
    AllLines o.arcRadius (choicePieces o m b x y slot) := by
  simp [choicePieces, allLines_choiceAbove, allLines_choiceBelow]

/-- Of a multiple choice all but the badge is lines. -/
theorem exists_multiplePieces_eq (kind : ChoiceKind) (b : Branches (Sized α β)) :
    ∃ lines left, multiplePieces o kind b x y slot =
      lines ++ [.shape (badgeDrawing kind (multipleSize o (b.map (·.metrics))) left y)] ∧
        AllLines o.arcRadius lines := by
  refine ⟨_, _, rfl, ?_⟩
  simp [allLines_multipleAbove, allLines_multipleBelow]

/-! ## Loops, rails and crossings -/

theorem allLines_loopPieces (item separator : Sized α β) :
    AllLines o.arcRadius (loopPieces o item separator x y slot) := by
  simp [loopPieces]

theorem isCalled_sideExit (lower : α) (isFirst isLast : Bool) (m : Metrics α) :
    (sideExit o lower isFirst isLast m x y).IsCalled o.arcRadius := by
  rw [sideExit]
  repeat' split
  all_goals simp

theorem allLines_sideItems (upper lower : α) (isFirst : Bool) (items : List (Sized α β)) :
    AllLines o.arcRadius (sideItems o upper lower isFirst items x y) := by
  induction items generalizing isFirst x with
  | nil => exact allLines_nil
  | cons s rest ih => cases isFirst <;> simp [sideItems, isCalled_sideExit, ih]

theorem allLines_sidePieces (b : Beside (Sized α β)) :
    AllLines o.arcRadius (sidePieces o b x y slot) := by
  simp [sidePieces, allLines_sideItems]

theorem allLines_crossingPieces (first second : Sized α β) :
    AllLines o.arcRadius (crossingPieces o first second x y slot) := by
  simp [crossingPieces]

theorem allLines_skipRowItems (top : α) (items : List (Sized α β)) :
    AllLines o.arcRadius (skipRowItems o top items x y) := by
  induction items generalizing x y with
  | nil => exact allLines_nil
  | cons s rest ih =>
    rw [skipRowItems]
    split <;> simp [ih]

theorem allLines_skipRowPieces (first : Sized α β) (rest : List (Sized α β)) :
    AllLines o.arcRadius (skipRowPieces o first rest x y slot) := by
  simp [skipRowPieces, allLines_skipRowItems]

/-! ## Markers -/

variable (radius) in
theorem allLines_skipPieces : AllLines radius (skipPieces x y slot : List (Piece α γ)) := by
  simp [skipPieces]

theorem isCalled_startTicks (style : MarkerStyle) {p : Path α} (h : p.IsCalled radius) :
    (startTicks style p).IsCalled radius := by
  cases style <;> simpa [startTicks]

theorem isCalled_endPath (style : MarkerStyle) : (endPath style x y).IsCalled radius := by
  cases style <;> simp [endPath]

end Layout
end SyntaxDiagram
