import Mathlib.Logic.Basic
import SyntaxDiagram.Node.Placed

/-!
# Layouts do not look at the debug flag

Whether sizes are recorded in the markup has no influence on any size or place. A layout only looks
at the other options, and so does each recursion in it.

* `Options.withDebug`: the same options with another flag.
* `Layout.stackSize_withDebug` and its companions: sizes.
* `Layout.stackPieces_withDebug` and its companions: pieces.
-/

namespace SyntaxDiagram

variable {α β : Type}

/-- The same options with the given debug flag. -/
def Options.withDebug (o : Options α) (debug : Bool) : Options α := { o with debug }

variable [Scalar α]

namespace Layout

variable (o : Options α) (debug : Bool)

/-! ## Sizes -/

theorem stackHeight_withDebug (height : α) (inside : Bool) (items : List (Metrics α)) :
    stackHeight (o.withDebug debug) height inside items = stackHeight o height inside items := by
  induction items generalizing height inside with
  | nil => rfl
  | cons m rest ih => exact ih _ _

theorem stackSize_withDebug (first : Metrics α) (rest : List (Metrics α)) :
    stackSize (o.withDebug debug) first rest = stackSize o first rest := by
  rw [stackSize, stackHeight_withDebug]
  rfl

theorem columnDrops_withDebug (first : Metrics α) (rest : List (Metrics α)) :
    columnDrops (o.withDebug debug) first rest = columnDrops o first rest := by
  induction rest generalizing first with
  | nil => rfl
  | cons next rest ih => exact congrArg _ (ih next)

theorem columnSize_withDebug (first : Metrics α) (rest : List (Metrics α)) :
    columnSize (o.withDebug debug) first rest = columnSize o first rest := by
  rw [columnSize, columnDrops_withDebug]
  rfl

theorem choiceUp_withDebug (straight : Metrics α) (up : α) (items : List (Metrics α)) :
    choiceUp (o.withDebug debug) straight up items = choiceUp o straight up items := by
  induction items generalizing up with
  | nil => rfl
  | cons m rest ih => exact ih _

theorem choiceDown_withDebug (adjacent : Bool) (previous : Metrics α) (down : α)
    (items : List (Metrics α)) :
    choiceDown (o.withDebug debug) adjacent previous down items =
      choiceDown o adjacent previous down items := by
  induction items generalizing adjacent previous down with
  | nil => rfl
  | cons m rest ih => exact ih _ _ _

theorem choiceSize_withDebug (b : Branches (Metrics α)) :
    choiceSize (o.withDebug debug) b = choiceSize o b := by
  rw [choiceSize, choiceUp_withDebug, choiceDown_withDebug]
  rfl

theorem multipleUp_withDebug (straight : Metrics α) (up : α) (items : List (Metrics α)) :
    multipleUp (o.withDebug debug) straight up items = multipleUp o straight up items := by
  induction items generalizing up with
  | nil => rfl
  | cons m rest ih => exact ih _

theorem multipleDown_withDebug (adjacent : Bool) (previous : Metrics α) (down : α)
    (items : List (Metrics α)) :
    multipleDown (o.withDebug debug) adjacent previous down items =
      multipleDown o adjacent previous down items := by
  induction items generalizing adjacent previous down with
  | nil => rfl
  | cons m rest ih => exact ih _ _ _

theorem multipleSize_withDebug (b : Branches (Metrics α)) :
    multipleSize (o.withDebug debug) b = multipleSize o b := by
  rw [multipleSize, multipleUp_withDebug, multipleDown_withDebug]
  rfl

theorem skipRowExtents_withDebug (total sofar up down : α) (items : List (Metrics α)) :
    skipRowExtents (o.withDebug debug) total sofar up down items =
      skipRowExtents o total sofar up down items := by
  induction items generalizing sofar up down with
  | nil => rfl
  | cons m rest ih => exact ih _ _ _

theorem skipRowSize_withDebug (first : Metrics α) (rest : List (Metrics α)) :
    skipRowSize (o.withDebug debug) first rest = skipRowSize o first rest := by
  rw [skipRowSize, skipRowExtents_withDebug]
  rfl

/-! ## Pieces -/

variable (x y slot : α)

theorem stackLines_withDebug (inner : α) (first : Sized α β) (rest : List (Sized α β)) :
    stackLines (o.withDebug debug) inner x first rest y = stackLines o inner x first rest y := by
  induction rest generalizing first y with
  | nil => rfl
  | cons next rest ih => exact congrArg (_ :: _ :: ·) (ih _ next)

theorem stackExit_withDebug (first : Metrics α) (rest : List (Metrics α)) :
    stackExit (o.withDebug debug) first rest y = stackExit o first rest y := by
  induction rest generalizing first y with
  | nil => rfl
  | cons next rest ih => exact ih _ next

theorem stackPieces_withDebug (first : Sized α β) (rest : List (Sized α β)) :
    stackPieces (o.withDebug debug) first rest x y slot = stackPieces o first rest x y slot := by
  rw [stackPieces, stackSize_withDebug, stackExit_withDebug]
  simp only [stackLines_withDebug]
  rfl

theorem columnItems_withDebug (middle : α) (first : Sized α β) (rest : List (Sized α β)) :
    columnItems (o.withDebug debug) middle x first rest y = columnItems o middle x first rest y := by
  induction rest generalizing first y with
  | nil => rfl
  | cons next rest ih => exact congrArg (_ :: _ :: ·) (ih _ next)

theorem columnExit_withDebug (first : Metrics α) (rest : List (Metrics α)) :
    columnExit (o.withDebug debug) first rest y = columnExit o first rest y := by
  induction rest generalizing first y with
  | nil => rfl
  | cons next rest ih => exact ih _ next

theorem columnPieces_withDebug (first : Sized α β) (rest : List (Sized α β)) :
    columnPieces (o.withDebug debug) first rest x y slot = columnPieces o first rest x y slot := by
  rw [columnPieces, columnSize_withDebug, columnExit_withDebug, columnItems_withDebug]
  rfl

/-- The frame of a choice with the given debug flag. -/
def ChoiceFrame.withDebug (f : ChoiceFrame α) (debug : Bool) : ChoiceFrame α :=
  { f with options := f.options.withDebug debug }

theorem choiceAbove_withDebug (f : ChoiceFrame α) (items : List (Sized α β)) (distance : α) :
    choiceAbove (f.withDebug debug) items distance = choiceAbove f items distance := by
  induction items generalizing distance with
  | nil => rfl
  | cons s rest ih => exact congrArg (_ :: _ :: _ :: ·) (ih _)

theorem choiceBelow_withDebug (f : ChoiceFrame α) (items : List (Sized α β)) (distance : α) :
    choiceBelow (f.withDebug debug) items distance = choiceBelow f items distance := by
  induction items generalizing distance with
  | nil => rfl
  | cons s rest ih => exact congrArg (_ :: _ :: _ :: ·) (ih _)

theorem choiceRise_withDebug (straight : Metrics α) (items : List (Sized α β)) :
    choiceRise (o.withDebug debug) straight items = choiceRise o straight items := by
  cases items <;> rfl

theorem choiceDrop_withDebug (height : α) (straight : Metrics α) (items : List (Sized α β)) :
    choiceDrop (o.withDebug debug) height straight items = choiceDrop o height straight items := by
  cases items <;> rfl

theorem choicePieces_withDebug (m : Metrics α) (b : Branches (Sized α β)) :
    choicePieces (o.withDebug debug) m b x y slot = choicePieces o m b x y slot := by
  rw [choicePieces, choiceRise_withDebug, choiceDrop_withDebug]
  exact congrArg₂ (fun above below => sides o m x y slot ++ above ++ _ :: _ :: _ :: below)
    (choiceAbove_withDebug debug ⟨o, _, _, _, y⟩ _ _)
    (choiceBelow_withDebug debug ⟨o, _, _, _, y⟩ _ _)

theorem multipleAbove_withDebug (f : ChoiceFrame α) (items : List (Sized α β)) (distance : α) :
    multipleAbove (f.withDebug debug) items distance = multipleAbove f items distance := by
  induction items generalizing distance with
  | nil => rfl
  | cons s rest ih => exact congrArg (_ :: _ :: _ :: ·) (ih _)

theorem multipleBelow_withDebug (f : ChoiceFrame α) (items : List (Sized α β)) (distance : α) :
    multipleBelow (f.withDebug debug) items distance = multipleBelow f items distance := by
  induction items generalizing distance with
  | nil => rfl
  | cons s rest ih => exact congrArg (_ :: _ :: _ :: ·) (ih _)

theorem multipleRise_withDebug (straight : Metrics α) (items : List (Sized α β)) :
    multipleRise (o.withDebug debug) straight items = multipleRise o straight items := by
  cases items <;> rfl

theorem multipleDrop_withDebug (straight : Metrics α) (items : List (Sized α β)) :
    multipleDrop (o.withDebug debug) straight items = multipleDrop o straight items := by
  cases items <;> rfl

theorem multiplePieces_withDebug (kind : ChoiceKind) (b : Branches (Sized α β)) :
    multiplePieces (o.withDebug debug) kind b x y slot = multiplePieces o kind b x y slot := by
  rw [multiplePieces, multipleSize_withDebug, multipleRise_withDebug, multipleDrop_withDebug]
  exact congrArg₂ (fun above below => sides o _ x y slot ++ above ++ _ :: _ :: _ :: below ++ _)
    (multipleAbove_withDebug debug ⟨o, _, _, _, y⟩ _ _)
    (multipleBelow_withDebug debug ⟨o, _, _, _, y⟩ _ _)

theorem sideItems_withDebug (upper lower : α) (isFirst : Bool) (items : List (Sized α β)) :
    sideItems (o.withDebug debug) upper lower isFirst items x y =
      sideItems o upper lower isFirst items x y := by
  induction items generalizing isFirst x with
  | nil => rfl
  | cons s rest ih => exact congrArg (_ :: _ :: _ :: ·) (ih _ _)

theorem sidePieces_withDebug (b : Beside (Sized α β)) :
    sidePieces (o.withDebug debug) b x y slot = sidePieces o b x y slot := by
  rw [sidePieces, sideItems_withDebug]
  rfl

theorem skipRowItems_withDebug (top : α) (items : List (Sized α β)) :
    skipRowItems (o.withDebug debug) top items x y = skipRowItems o top items x y := by
  induction items generalizing x y with
  | nil => rfl
  | cons s rest ih => exact congrArg (_ ++ _ :: _ :: _ :: _ :: ·) (ih _ _)

theorem skipRowPieces_withDebug (first : Sized α β) (rest : List (Sized α β)) :
    skipRowPieces (o.withDebug debug) first rest x y slot =
      skipRowPieces o first rest x y slot := by
  rw [skipRowPieces, skipRowSize_withDebug, skipRowItems_withDebug]
  rfl

end Layout
end SyntaxDiagram
