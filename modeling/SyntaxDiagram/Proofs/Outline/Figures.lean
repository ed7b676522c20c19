import Mathlib.Logic.Basic
import SyntaxDiagram.Proofs.Outline.Drawings
import SyntaxDiagram.Proofs.Outline.Layouts

/-!
# Outlines of figures

* `Figure.outline`: the size of a figure and the outlines of its pictures at all places.
* `Layout.outline_figure`: the pieces of a figure, each figure in it with its outline, make up the
  outline of the figure.
* `Layout.outline_boxFigure` and its companions: of a text an outline keeps no more than its length.
* `Layout.outline_sequenceFigure` and its companions: the outlines of the items make up the outline
  of a container.
-/

namespace SyntaxDiagram

variable {α : Type}

/-- The outlines of the pictures of something at all places. -/
abbrev Outlines (α : Type) := (x y slot : α) → Drawing α

/-- The outlines of the pictures that something has. -/
def Drawable.outlines (d : Drawable α) : Outlines α :=
  fun x y slot => (d.place x y slot).draw.outline

/-- The size of a figure and the outlines of its pictures. -/
def Figure.outline (f : Figure α) : Sized α (Outlines α) := f.map Drawable.outlines

/-- The outline of a piece, given those of the items. -/
def Piece.outline : Piece α (Site α (Outlines α)) → Drawing α
  | track path => .track path
  | child s => s.item s.x s.y s.slot
  | shape drawing => drawing.outline

/-- The outlines of pieces are those of their pictures. -/
theorem Placed.outline_drawPieces (pieces : List (Piece α (Site α (Drawable α)))) :
    (drawPieces (pieces.map (.map Layout.settle))).map Drawing.outline =
      (Layout.exchange Drawable.outlines pieces).map Piece.outline := by
  induction pieces with
  | nil => rfl
  | cons p rest ih =>
    rw [List.map_cons, drawPieces, List.map_cons, ih, Layout.exchange, Layout.exchange,
      List.map_cons, List.map_cons]
    cases p <;> rfl

namespace Layout

theorem outline_figure (kind : Node.Kind) (m : Metrics α) (attributes : Attributes (Value α))
    (inside : List (Figure α)) (pieces : (x y slot : α) → List (Piece α (Site α (Drawable α)))) :
    (figure kind m attributes inside pieces).outline =
      ⟨m, fun x y slot => .group "g" attributes
        ((exchange Drawable.outlines (pieces x y slot)).map Piece.outline)⟩ := by
  refine congrArg (Sized.mk m) (funext fun x => funext fun y => funext fun slot => ?_)
  change Drawing.outline (.group "g" attributes
    (Placed.drawPieces ((pieces x y slot).map (.map settle)))) = _
  rw [Drawing.outline, Drawing.outlines_eq_map, Placed.outline_drawPieces]

theorem outline_linkTo (target : Option String) (d : Drawing α) :
    (Drawing.linkTo target d).outline = Drawing.linkTo target d.outline := by
  unfold Drawing.linkTo
  split <;> rfl

theorem outline_words (x y : α) (more : List (String × Value α)) (text text' : String) :
    (Drawing.words x y more text).outline = (Drawing.words x y more text').outline := rfl

variable [Scalar α] {o : Options α}

/-! ## Texts -/

/-- A text has no influence but by its length. -/
theorem textLength_congr {text text' : String} (h : text.length = text'.length) :
    (textLength text : α) = textLength text' := by
  rw [textLength, textLength, h]

theorem outline_boxFigure (kind : Node.Kind) (rounded : Bool) {text text' : String}
    (given : Attributes String) (h : text.length = text'.length) :
    (boxFigure o kind rounded text given).outline =
      (boxFigure o kind rounded text' given).outline := by
  have hsize : boxSize o text = boxSize o text' := by
    rw [boxSize, boxSize, textLength_congr h]
  have hpieces (x y slot : α) :
      (exchange Drawable.outlines (boxPieces o rounded text given x y slot)).map Piece.outline =
        (exchange Drawable.outlines (boxPieces o rounded text' given x y slot)).map
          Piece.outline := by
    simp only [boxPieces, hsize, exchange_append, exchange_shape, List.map_append, List.map_cons,
      Piece.outline, outline_linkTo, outline_words _ _ _ text text']
  rw [boxFigure, boxFigure, outline_figure, outline_figure, hsize]
  simp only [hpieces]

theorem outline_remarkFigure {text text' : String} (href title : Option String)
    (h : text.length = text'.length) :
    (remarkFigure o text href title).outline = (remarkFigure o text' href title).outline := by
  have hsize : remarkSize o text = remarkSize o text' := by
    rw [remarkSize, remarkSize, textLength_congr h]
  have hpieces (x y slot : α) :
      (exchange Drawable.outlines (remarkPieces o text href title x y slot)).map Piece.outline =
        (exchange Drawable.outlines (remarkPieces o text' href title x y slot)).map
          Piece.outline := by
    simp only [remarkPieces, hsize, exchange_append, exchange_shape, List.map_append,
      List.map_cons, Piece.outline, outline_linkTo, outline_words _ _ _ text text']
  rw [remarkFigure, remarkFigure, outline_figure, outline_figure, hsize]
  simp only [hpieces]

theorem outline_startFigure (style : MarkerStyle) {label label' : String}
    (h : label.length = label'.length) :
    (startFigure o style label).outline = (startFigure o style label').outline := by
  have hsize : startSize o label = startSize o label' := by
    rw [startSize, startSize, textLength_congr h]
  have hempty : label.isEmpty = label'.isEmpty := by
    rw [Bool.eq_iff_iff, String.isEmpty_iff, String.isEmpty_iff, ← String.length_eq_zero_iff, h,
      String.length_eq_zero_iff]
  have hpieces (x y : α) :
      (exchange Drawable.outlines (startPieces o style label x y)).map Piece.outline =
        (exchange Drawable.outlines (startPieces o style label' x y)).map Piece.outline := by
    rw [startPieces, startPieces, hsize, hempty]
    split <;> rfl
  rw [startFigure, startFigure, outline_figure, outline_figure, hsize]
  simp only [hpieces]

/-! ## Containers -/

theorem outline_sequenceFigure {items items' : List (Figure α)}
    (h : items.map Figure.outline = items'.map Figure.outline) :
    (sequenceFigure o items).outline = (sequenceFigure o items').outline := by
  have hpieces (x y slot : α) :
      exchange Drawable.outlines (sequencePieces o items x y slot) =
        exchange Drawable.outlines (sequencePieces o items' x y slot) := by
    rw [← exchange_sequencePieces, ← exchange_sequencePieces]
    exact congrArg (sequencePieces o · x y slot) h
  rw [sequenceFigure, sequenceFigure, outline_figure, outline_figure, metrics_of_maps h]
  simp only [hpieces]

theorem outline_stackFigure {first first' : Figure α} {rest rest' : List (Figure α)}
    (hfirst : first.outline = first'.outline)
    (hrest : rest.map Figure.outline = rest'.map Figure.outline) :
    (stackFigure o first rest).outline = (stackFigure o first' rest').outline := by
  have hpieces (x y slot : α) :
      exchange Drawable.outlines (stackPieces o first rest x y slot) =
        exchange Drawable.outlines (stackPieces o first' rest' x y slot) := by
    rw [← exchange_stackPieces, ← exchange_stackPieces]
    exact congrArg₂ (stackPieces o · · x y slot) hfirst hrest
  rw [stackFigure, stackFigure, outline_figure, outline_figure, metrics_of_map hfirst,
    metrics_of_maps hrest]
  simp only [hpieces]

/-- The pieces of a choice, which may be taken to have another size than it has. -/
theorem outline_choicePieces {b b' : Branches (Figure α)}
    (h : b.map Figure.outline = b'.map Figure.outline) (m : Metrics α) (x y slot : α) :
    exchange Drawable.outlines (choicePieces o m b x y slot) =
      exchange Drawable.outlines (choicePieces o m b' x y slot) := by
  rw [← exchange_choicePieces, ← exchange_choicePieces]
  exact congrArg (choicePieces o m · x y slot) h

theorem outline_choiceFigure {b b' : Branches (Figure α)}
    (h : b.map Figure.outline = b'.map Figure.outline) :
    (choiceFigure o b).outline = (choiceFigure o b').outline := by
  rw [choiceFigure, choiceFigure, outline_figure, outline_figure, metrics_of_branches h]
  simp only [outline_choicePieces h]

theorem outline_passing {item item' : Figure α} (h : item.outline = item'.outline)
    (bypass : Bool) :
    (passing o item bypass).map Figure.outline = (passing o item' bypass).map Figure.outline := by
  cases bypass <;> simp only [passing, Branches.map, Bool.false_eq_true, if_true, if_false,
    List.map_cons, List.map_nil, h]

theorem outline_optionalFigure {item item' : Figure α} (h : item.outline = item'.outline)
    (bypass : Bool) :
    (optionalFigure o item bypass).outline = (optionalFigure o item' bypass).outline := by
  have hbranches := outline_passing (o := o) h bypass
  rw [optionalFigure, optionalFigure, outline_figure, outline_figure, metrics_of_branches hbranches]
  simp only [outline_choicePieces hbranches]

theorem outline_loopFigure {item item' separator separator' : Figure α}
    (hitem : item.outline = item'.outline) (hseparator : separator.outline = separator'.outline) :
    (loopFigure o item separator).outline = (loopFigure o item' separator').outline := by
  have hpieces (x y slot : α) :
      exchange Drawable.outlines (loopPieces o item separator x y slot) =
        exchange Drawable.outlines (loopPieces o item' separator' x y slot) := by
    rw [← exchange_loopPieces, ← exchange_loopPieces]
    exact congrArg₂ (loopPieces o · · x y slot) hitem hseparator
  rw [loopFigure, loopFigure, outline_figure, outline_figure, metrics_of_map hitem,
    metrics_of_map hseparator]
  simp only [hpieces]

theorem outline_freeLoopFigure {item item' separator separator' : Figure α}
    (hitem : item.outline = item'.outline) (hseparator : separator.outline = separator'.outline) :
    (freeLoopFigure o item separator).outline = (freeLoopFigure o item' separator').outline := by
  have hloop := outline_loopFigure (o := o) hitem hseparator
  have hbranches := outline_passing (o := o) hloop true
  rw [freeLoopFigure, freeLoopFigure, outline_figure, outline_figure, metrics_of_branches hbranches,
    metrics_of_map hloop]
  simp only [outline_choicePieces hbranches]

end Layout
end SyntaxDiagram
