import SyntaxDiagram.Proofs.Debug.Layouts
import SyntaxDiagram.Proofs.Debug.Marks
import SyntaxDiagram.Proofs.Outline.Layouts
import SyntaxDiagram.Proofs.Walk

/-!
# Figures with and without marks

With the debug flag a node has the same size as without it, and the same picture but for the marks.

* `Figure.pictured`, `Figure.unmarked`: the size of a figure and its pictures at all places, as they
  are and without marks.
* `Layout.unmarked_figure`: one level of a picture.
* `Node.markedOnly_of_children`: what holds for the nodes in a node holds for the node.
* `Node.markedOnly`: all nodes. The attributes that boxed text was given must not be called like
  marks themselves.
-/

namespace SyntaxDiagram

variable {α : Type}

/-! ## Pictures -/

/-- The pictures of something at all places. -/
abbrev Pictures (α : Type) := (x y slot : α) → Drawing α

namespace Drawable

/-- The pictures that something has. -/
def pictures (d : Drawable α) : Pictures α := fun x y slot => (d.place x y slot).draw

/-- The same pictures without marks. -/
def unmarked (d : Drawable α) : Pictures α := fun x y slot => (d.place x y slot).draw.unmarked

end Drawable

/-- The size of a figure and its pictures. -/
def Figure.pictured (f : Figure α) : Sized α (Pictures α) := f.map Drawable.pictures

/-- The size of a figure and its pictures without marks. -/
def Figure.unmarked (f : Figure α) : Sized α (Pictures α) := f.map Drawable.unmarked

/-- The picture of a piece, given those of the items. -/
def Piece.picture : Piece α (Site α (Pictures α)) → Drawing α
  | track path => .track path
  | child s => s.item s.x s.y s.slot
  | shape drawing => drawing

namespace Placed

theorem drawPieces_eq (pieces : List (Piece α (Site α (Drawable α)))) :
    drawPieces (pieces.map (.map Layout.settle)) =
      (Layout.exchange Drawable.pictures pieces).map Piece.picture := by
  induction pieces with
  | nil => rfl
  | cons p rest ih =>
    rw [List.map_cons, drawPieces, ih, Layout.exchange, Layout.exchange, List.map_cons,
      List.map_cons]
    cases p <;> rfl

/-- Marks are left out item by item, as there are none in between. -/
theorem unmarkeds_drawPieces {pieces : List (Piece α (Site α (Drawable α)))}
    (h : Layout.AllUnmarked pieces) :
    Drawing.unmarkeds (drawPieces (pieces.map (.map Layout.settle))) =
      (Layout.exchange Drawable.unmarked pieces).map Piece.picture := by
  induction pieces with
  | nil => rfl
  | cons p rest ih =>
    obtain ⟨hp, hrest⟩ := (Layout.allUnmarked_cons ..).1 h
    rw [List.map_cons, drawPieces, Drawing.unmarkeds, ih hrest, Layout.exchange, Layout.exchange,
      List.map_cons, List.map_cons]
    cases p with
    | track | child => rfl
    | shape drawing => exact congrArg (· :: _) hp

end Placed

/-! ## One level -/

namespace Layout

/-- **One level of a picture.** A figure without marks is another figure if its attributes without
marks are those of the other one, and its pieces, each item in them without marks, are those of the
other one. -/
theorem unmarked_figure {kind : Node.Kind} {m m' : Metrics α}
    {marks plain : Attributes (Value α)} {inside inside' : List (Figure α)}
    {pieces pieces' : (x y slot : α) → List (Piece α (Site α (Drawable α)))}
    (hmetrics : m = m') (hmarks : marks.unmarked = plain)
    (hunmarked : ∀ x y slot, AllUnmarked (pieces x y slot))
    (hpieces : ∀ x y slot, exchange Drawable.unmarked (pieces x y slot) =
      exchange Drawable.pictures (pieces' x y slot)) :
    (figure kind m marks inside pieces).unmarked =
      (figure kind m' plain inside' pieces').pictured := by
  subst hmetrics
  refine congrArg (Sized.mk m) (funext fun x => funext fun y => funext fun slot => ?_)
  change Drawing.unmarked (.group "g" marks
      (Placed.drawPieces ((pieces x y slot).map (.map settle)))) =
    .group "g" plain (Placed.drawPieces ((pieces' x y slot).map (.map settle)))
  rw [Drawing.unmarked, hmarks, Placed.unmarkeds_drawPieces (hunmarked x y slot), hpieces,
    Placed.drawPieces_eq]

/-- Marks are no more than what is left without them. -/
theorem unmarked_marks {o : Options α} {sizes : List α} {kind : String}
    {a plain : Attributes (Value α)} (h : a.unmarked = plain) :
    (debugMarks o sizes kind a).unmarked = plain :=
  (Attributes.unmarked_debugMarks o sizes kind a).trans h

/-- Marks are set before and after the class, which is the same without them. -/
theorem unmarked_passingAttributes {o : Options α} (m m' : Metrics α) :
    (passingAttributes (o.withDebug true) m).unmarked = passingAttributes (o.withDebug false) m' := by
  refine unmarked_marks ?_
  rw [Attributes.unmarked_set rfl]
  exact congrArg (Attributes.set · "class" _) (unmarked_marks rfl)

variable [Scalar α] {o : Options α}

/-! ## Leaves -/

theorem unmarked_boxFigure (kind : Node.Kind) (rounded : Bool) (text : String)
    {given : Attributes String} (h : ∀ name ∈ given.names, Attributes.isDebugMark name = false) :
    (boxFigure (o.withDebug true) kind rounded text given).unmarked =
      (boxFigure (o.withDebug false) kind rounded text given).pictured := by
  have hgiven : given.unmarked = given := Attributes.unmarked_eq_self h
  have hmarks : (boxAttributes (o.withDebug true) kind.name given).unmarked =
      (boxAttributes (o.withDebug false) kind.name given : Attributes (Value α)) := by
    refine unmarked_marks ?_
    rw [Attributes.unmarked_set rfl, Attributes.unmarked_map, hgiven]
    rfl
  refine unmarked_figure rfl hmarks (allUnmarked_boxPieces _ · · · rounded text given)
    fun x y slot => ?_
  rw [exchange_boxPieces, exchange_boxPieces]
  rfl

theorem unmarked_remarkFigure (text : String) (href title : Option String) :
    (remarkFigure (o.withDebug true) text href title).unmarked =
      (remarkFigure (o.withDebug false) text href title).pictured := by
  refine unmarked_figure rfl (unmarked_marks rfl) (allUnmarked_remarkPieces _ · · · text href title)
    fun x y slot => ?_
  rw [exchange_remarkPieces, exchange_remarkPieces]
  rfl

theorem unmarked_skipFigure :
    (skipFigure (o.withDebug true)).unmarked = (skipFigure (o.withDebug false)).pictured :=
  unmarked_figure rfl rfl (fun _ _ _ => List.forall_mem_singleton.2 trivial) fun _ _ _ => rfl

theorem unmarked_startFigure (style : MarkerStyle) (label : String) :
    (startFigure (o.withDebug true) style label).unmarked =
      (startFigure (o.withDebug false) style label).pictured := by
  refine unmarked_figure rfl (unmarked_marks rfl)
    (fun x y _ => allUnmarked_startPieces _ x y style label) fun x y slot => ?_
  rw [exchange_startPieces, exchange_startPieces]
  rfl

theorem unmarked_endFigure (style : MarkerStyle) :
    (endFigure (o.withDebug true) style).unmarked =
      (endFigure (o.withDebug false) style).pictured := rfl

/-! ## Containers -/

section Containers

variable {items plain : List (Figure α)} {first first' second second' : Figure α}
  {rest rest' : List (Figure α)} {b b' : Branches (Figure α)}

theorem unmarked_sequenceFigure (h : items.map Figure.unmarked = plain.map Figure.pictured) :
    (sequenceFigure (o.withDebug true) items).unmarked =
      (sequenceFigure (o.withDebug false) plain).pictured := by
  refine unmarked_figure (congrArg sequenceSize (metrics_of_maps h)) (unmarked_marks rfl)
    (fun x y slot => (allLines_sequencePieces _ x y slot items).allUnmarked) fun x y slot => ?_
  rw [← exchange_sequencePieces, ← exchange_sequencePieces]
  exact congrArg (sequencePieces o · x y slot) h

theorem unmarked_stackFigure (hfirst : first.unmarked = first'.pictured)
    (hrest : rest.map Figure.unmarked = rest'.map Figure.pictured) :
    (stackFigure (o.withDebug true) first rest).unmarked =
      (stackFigure (o.withDebug false) first' rest').pictured := by
  refine unmarked_figure ?_ (unmarked_marks rfl)
    (fun x y slot => (allLines_stackPieces _ x y slot first rest).allUnmarked) fun x y slot => ?_
  · rw [stackSize_withDebug, stackSize_withDebug, metrics_of_map hfirst, metrics_of_maps hrest]
  · rw [← exchange_stackPieces, ← exchange_stackPieces, stackPieces_withDebug,
      stackPieces_withDebug]
    exact congrArg₂ (stackPieces o · · x y slot) hfirst hrest

theorem unmarked_columnFigure (hfirst : first.unmarked = first'.pictured)
    (hrest : rest.map Figure.unmarked = rest'.map Figure.pictured) :
    (columnFigure (o.withDebug true) first rest).unmarked =
      (columnFigure (o.withDebug false) first' rest').pictured := by
  refine unmarked_figure ?_ (unmarked_marks rfl)
    (fun x y slot => (allLines_columnPieces _ x y slot first rest).allUnmarked) fun x y slot => ?_
  · rw [columnSize_withDebug, columnSize_withDebug, metrics_of_map hfirst, metrics_of_maps hrest]
  · rw [← exchange_columnPieces, ← exchange_columnPieces, columnPieces_withDebug,
      columnPieces_withDebug]
    exact congrArg₂ (columnPieces o · · x y slot) hfirst hrest

/-- A figure that is laid out as a choice, perhaps with a size of its own. -/
theorem unmarked_choice (h : b.map Figure.unmarked = b'.map Figure.pictured) {kind : Node.Kind}
    {m m' : Metrics α} {marks attributes : Attributes (Value α)} {inside inside' : List (Figure α)}
    (hmetrics : m = m') (hmarks : marks.unmarked = attributes) :
    (figure kind m marks inside (choicePieces (o.withDebug true) m b)).unmarked =
      (figure kind m' attributes inside' (choicePieces (o.withDebug false) m' b')).pictured := by
  refine unmarked_figure hmetrics hmarks
    (fun x y slot => (allLines_choicePieces _ x y slot m b).allUnmarked) fun x y slot => ?_
  rw [← exchange_choicePieces, ← exchange_choicePieces, choicePieces_withDebug,
    choicePieces_withDebug, hmetrics]
  exact congrArg (choicePieces o m' · x y slot) h

/-- The flag has no influence on the size of a choice. -/
theorem choiceSize_of_unmarked (h : b.map Figure.unmarked = b'.map Figure.pictured) :
    choiceSize (o.withDebug true) (b.map (·.metrics)) =
      choiceSize (o.withDebug false) (b'.map (·.metrics)) := by
  rw [choiceSize_withDebug, choiceSize_withDebug, metrics_of_branches h]

theorem unmarked_choiceFigure (h : b.map Figure.unmarked = b'.map Figure.pictured) :
    (choiceFigure (o.withDebug true) b).unmarked =
      (choiceFigure (o.withDebug false) b').pictured :=
  unmarked_choice h (choiceSize_of_unmarked h) (unmarked_marks rfl)

theorem unmarked_passing (h : first.unmarked = first'.pictured) (bypass : Bool) :
    (passing (o.withDebug true) first bypass).map Figure.unmarked =
      (passing (o.withDebug false) first' bypass).map Figure.pictured := by
  cases bypass <;>
    simp only [passing, Branches.map, Bool.false_eq_true, if_true, if_false, List.map_cons,
      List.map_nil, h, unmarked_skipFigure]

theorem unmarked_optionalFigure (h : first.unmarked = first'.pictured) (bypass : Bool) :
    (optionalFigure (o.withDebug true) first bypass).unmarked =
      (optionalFigure (o.withDebug false) first' bypass).pictured :=
  unmarked_choice (unmarked_passing h bypass) (choiceSize_of_unmarked (unmarked_passing h bypass))
    (unmarked_passingAttributes _ _)

theorem unmarked_loopFigure (hfirst : first.unmarked = first'.pictured)
    (hsecond : second.unmarked = second'.pictured) :
    (loopFigure (o.withDebug true) first second).unmarked =
      (loopFigure (o.withDebug false) first' second').pictured := by
  refine unmarked_figure ?_ (unmarked_marks rfl)
    (fun x y slot => (allLines_loopPieces _ x y slot first second).allUnmarked) fun x y slot => ?_
  · rw [metrics_of_map hfirst, metrics_of_map hsecond]
    rfl
  · rw [← exchange_loopPieces, ← exchange_loopPieces]
    exact congrArg₂ (loopPieces o · · x y slot) hfirst hsecond

theorem unmarked_freeLoopFigure
    (h : (loopFigure (o.withDebug true) first second).unmarked =
      (loopFigure (o.withDebug false) first' second').pictured) :
    (freeLoopFigure (o.withDebug true) first second).unmarked =
      (freeLoopFigure (o.withDebug false) first' second').pictured := by
  have hbranches := unmarked_passing (o := o) h true
  refine unmarked_choice hbranches ?_ (unmarked_marks (unmarked_passingAttributes _ _))
  rw [choiceSize_of_unmarked hbranches, metrics_of_map h]

theorem unmarked_frameFigure {label label' : Option (Figure α)}
    (hfirst : first.unmarked = first'.pictured)
    (hlabel : label.map Figure.unmarked = label'.map Figure.pictured) :
    (frameFigure (o.withDebug true) first label).unmarked =
      (frameFigure (o.withDebug false) first' label').pictured := by
  have hlabelSize : label.map (·.metrics) = label'.map (·.metrics) := by
    have hsize := congrArg (Option.map (·.metrics)) hlabel
    rwa [Option.map_map, Option.map_map] at hsize
  refine unmarked_figure ?_ (unmarked_marks rfl)
    (fun x y slot => allUnmarked_framePieces _ x y slot first label) fun x y slot => ?_
  · rw [metrics_of_map hfirst, hlabelSize]
    rfl
  · rw [← exchange_framePieces, ← exchange_framePieces]
    exact congrArg₂ (framePieces o · · x y slot) hfirst hlabel

theorem unmarked_sideFigure {b b' : Beside (Figure α)}
    (h : b.map Figure.unmarked = b'.map Figure.pictured) :
    (sideFigure (o.withDebug true) b).unmarked = (sideFigure (o.withDebug false) b').pictured := by
  refine unmarked_figure ?_ (unmarked_marks rfl)
    (fun x y slot => (allLines_sidePieces _ x y slot b).allUnmarked) fun x y slot => ?_
  · rw [metrics_of_beside h]
    rfl
  · rw [← exchange_sidePieces, ← exchange_sidePieces, sidePieces_withDebug, sidePieces_withDebug]
    exact congrArg (sidePieces o · x y slot) h

theorem unmarked_multipleFigure (kind : ChoiceKind)
    (h : b.map Figure.unmarked = b'.map Figure.pictured) :
    (multipleFigure (o.withDebug true) kind b).unmarked =
      (multipleFigure (o.withDebug false) kind b').pictured := by
  refine unmarked_figure ?_ (unmarked_marks rfl)
    (allUnmarked_multiplePieces _ · · · kind b) fun x y slot => ?_
  · rw [multipleSize_withDebug, multipleSize_withDebug, metrics_of_branches h]
  · rw [← exchange_multiplePieces, ← exchange_multiplePieces, multiplePieces_withDebug,
      multiplePieces_withDebug]
    exact congrArg (multiplePieces o kind · x y slot) h

theorem unmarked_crossingFigure (hfirst : first.unmarked = first'.pictured)
    (hsecond : second.unmarked = second'.pictured) :
    (crossingFigure (o.withDebug true) first second).unmarked =
      (crossingFigure (o.withDebug false) first' second').pictured := by
  refine unmarked_figure ?_ (unmarked_marks rfl)
    (fun x y slot => (allLines_crossingPieces _ x y slot first second).allUnmarked)
    fun x y slot => ?_
  · rw [metrics_of_map hfirst, metrics_of_map hsecond]
    rfl
  · rw [← exchange_crossingPieces, ← exchange_crossingPieces]
    exact congrArg₂ (crossingPieces o · · x y slot) hfirst hsecond

theorem unmarked_skipRowFigure (hfirst : first.unmarked = first'.pictured)
    (hrest : rest.map Figure.unmarked = rest'.map Figure.pictured) :
    (skipRowFigure (o.withDebug true) first rest).unmarked =
      (skipRowFigure (o.withDebug false) first' rest').pictured := by
  refine unmarked_figure ?_ (unmarked_marks rfl)
    (fun x y slot => (allLines_skipRowPieces _ x y slot first rest).allUnmarked) fun x y slot => ?_
  · rw [skipRowSize_withDebug, skipRowSize_withDebug, metrics_of_map hfirst, metrics_of_maps hrest]
  · rw [← exchange_skipRowPieces, ← exchange_skipRowPieces, skipRowPieces_withDebug,
      skipRowPieces_withDebug]
    exact congrArg₂ (skipRowPieces o · · x y slot) hfirst hrest

/-- Between the items of a row there are lines alone, which have no marks. -/
theorem unmarkeds_rowPieces (h : items.map Figure.unmarked = plain.map Figure.pictured) (x y : α) :
    Drawing.unmarkeds (Placed.drawPieces ((rowPieces true false items x y).map (.map settle))) =
      Placed.drawPieces ((rowPieces true false plain x y).map (.map settle)) := by
  have hpieces : exchange Drawable.unmarked (rowPieces true false items x y) =
      exchange Drawable.pictures (rowPieces true false plain x y) := by
    rw [← exchange_rowPieces, ← exchange_rowPieces]
    exact congrArg (rowPieces true false · x y) h
  have hlines : AllLines x (rowPieces true false items x y) :=
    allLines_rowPieces x x y true false items
  rw [Placed.unmarkeds_drawPieces hlines.allUnmarked, hpieces, Placed.drawPieces_eq]

end Containers

end Layout

/-! ## Nodes -/

namespace Node

/-- A node that was not given attributes that are called like marks. -/
def MarksFree : Node α → Prop
  | terminal _ given | nonTerminal _ given =>
    ∀ name ∈ given.names, Attributes.isDebugMark name = false
  | _ => True

variable [Scalar α] {o : Options α}

/-- With the flag a node has the size and the pictures that it has without it, but for marks. -/
def MarkedOnly (o : Options α) (n : Node α) : Prop :=
  (n.figure (o.withDebug true)).unmarked = (n.figure (o.withDebug false)).pictured

theorem unmarked_figures {ns : List (Node α)} (h : ∀ n ∈ ns, n.MarkedOnly o) :
    (figures (o.withDebug true) ns).map Figure.unmarked =
      (figures (o.withDebug false) ns).map Figure.pictured := by
  rw [figures_eq_map, figures_eq_map, List.map_map, List.map_map]
  exact List.map_congr_left h

open Layout

/-- The figures of branches. -/
theorem unmarked_branches {above below : List (Node α)} {straight : Node α}
    (h : ∀ n ∈ above ++ straight :: below, n.MarkedOnly o) :
    (⟨figures (o.withDebug true) above, straight.figure (o.withDebug true),
        figures (o.withDebug true) below⟩ : Branches (Figure α)).map Figure.unmarked =
      (⟨figures (o.withDebug false) above, straight.figure (o.withDebug false),
        figures (o.withDebug false) below⟩ : Branches (Figure α)).map Figure.pictured := by
  obtain ⟨habove, hothers⟩ := List.forall_mem_append.1 h
  obtain ⟨hstraight, hbelow⟩ := List.forall_mem_cons.1 hothers
  rw [Branches.map, Branches.map, unmarked_figures habove, unmarked_figures hbelow, hstraight]

/-- **One node**, if it is so for the nodes in it. -/
theorem markedOnly_of_children {n : Node α} (hfree : n.MarksFree)
    (h : ∀ c ∈ n.children, c.MarkedOnly o) : n.MarkedOnly o := by
  rw [MarkedOnly]
  cases n with
  | terminal text given =>
    rw [figure, figure]
    exact unmarked_boxFigure _ _ text hfree
  | nonTerminal text given =>
    rw [figure, figure]
    exact unmarked_boxFigure _ _ text hfree
  | comment text href title =>
    rw [figure, figure]
    exact unmarked_remarkFigure text href title
  | skip =>
    rw [figure, figure]
    exact unmarked_skipFigure
  | start style label =>
    rw [figure, figure]
    exact unmarked_startFigure style label
  | finish style =>
    rw [figure, figure]
    exact unmarked_endFigure style
  | sequence items =>
    rw [figure, figure]
    exact unmarked_sequenceFigure (unmarked_figures h)
  | stack first rest =>
    obtain ⟨hfirst, hrest⟩ := List.forall_mem_cons.1 h
    rw [figure, figure]
    exact unmarked_stackFigure hfirst (unmarked_figures hrest)
  | choice above straight below =>
    rw [figure, figure]
    exact unmarked_choiceFigure (unmarked_branches h)
  | optional item bypass =>
    rw [figure, figure]
    exact unmarked_optionalFigure (h item (by simp [children])) bypass
  | oneOrMore item separator =>
    rw [figure, figure]
    exact unmarked_loopFigure (h item (by simp [children])) (h separator (by simp [children]))
  | zeroOrMore item separator =>
    have hloop : (oneOrMore item separator).MarkedOnly o := h _ (by simp [children])
    rw [MarkedOnly, figure, figure] at hloop
    rw [figure, figure]
    exact unmarked_freeLoopFigure hloop
  | group item label =>
    rw [figure, figure]
    refine unmarked_frameFigure (h item ?_) ?_
    · rw [children]
      split <;> exact List.mem_cons_self
    · rw [Option.map_map, Option.map_map]
      exact congrArg (Option.map · _) (funext fun text => unmarked_remarkFigure text none none)
  | horizontalChoice first middles last =>
    obtain ⟨hfirst, hothers⟩ := List.forall_mem_cons.1 h
    obtain ⟨hmiddles, hlast⟩ := List.forall_mem_append.1 hothers
    rw [figure, figure]
    refine unmarked_sideFigure ?_
    rw [Beside.map, Beside.map, hfirst, unmarked_figures hmiddles,
      List.forall_mem_singleton.1 hlast]
  | multipleChoice kind above straight below =>
    rw [figure, figure]
    exact unmarked_multipleFigure kind (unmarked_branches h)
  | alternatingSequence first second =>
    rw [figure, figure]
    exact unmarked_crossingFigure (h first (by simp [children])) (h second (by simp [children]))
  | optionalSequence first second rest =>
    obtain ⟨hfirst, hothers⟩ := List.forall_mem_cons.1 h
    rw [figure, figure]
    exact unmarked_skipRowFigure hfirst (unmarked_figures hothers)
  | verticalSequence first rest =>
    obtain ⟨hfirst, hrest⟩ := List.forall_mem_cons.1 h
    rw [figure, figure]
    exact unmarked_columnFigure hfirst (unmarked_figures hrest)
  | block metrics =>
    rw [figure, figure]
    rfl

/-- **All nodes** of a tree, from the leaves upwards. -/
theorem markedOnly {n : Node α} (h : ∀ m ∈ n.walk, m.MarksFree) :
    ∀ m ∈ n.walk, m.MarkedOnly o := by
  induction n using Node.induction with
  | h n ih =>
    obtain ⟨hfree, hchildren⟩ := forall_mem_walk.1 h
    have hinner : ∀ c ∈ n.children, ∀ m ∈ c.walk, m.MarkedOnly o := fun c hc =>
      ih c hc (hchildren c hc)
    have hroot : n.MarkedOnly o :=
      markedOnly_of_children hfree fun c hc => hinner c hc c c.self_mem_walk
    exact forall_mem_walk.2 ⟨hroot, hinner⟩

end Node
end SyntaxDiagram
