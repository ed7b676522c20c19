import SyntaxDiagram.Proofs.Layout.Choices
import SyntaxDiagram.Proofs.Layout.Loops
import SyntaxDiagram.Proofs.Layout.Rows
import SyntaxDiagram.Proofs.Placement
import SyntaxDiagram.Proofs.RuleDiagram

/-!
# Boxes in boxes

Sizes are worked out from the inside out, places from the outside in. For the diagrams of rules
whose sequences are not broken into rows both fit together: nothing sticks out of the node that it
is in, and nothing sticks out of the picture.

* `Placed.box`: the box of a node where it is drawn.
* `Placed.Contained`, `Figure.Contained`: everything in a node, wherever it is placed, is flat and
  stays in the box that it belongs to.
* `Node.Unwrapped.contained`: all nodes of such diagrams are so.
* `Rule.diagram_contained`: every box lies in the box around it and in the picture.
-/

namespace SyntaxDiagram

open Layout

/-- Whether nodes of a kind are put into their slot as alignment asks. Bare lines, markers and
blocks start where their slot starts. -/
def Node.Kind.isAligned : Node.Kind → Bool
  | .skip | .start | .finish | .block => false
  | _ => true

section

variable {α : Type} [Scalar α]

/-- Where a node starts, behind the gap on its left. -/
def Placed.left (o : Options α) (p : Placed α) : α :=
  if p.site.item.isAligned then p.site.x + (gaps o p.site.metrics p.site.slot).left else p.site.x

/-- The box of a node where it is drawn. -/
def Placed.box (o : Options α) (p : Placed α) : Box α := p.site.metrics.box (p.left o) p.site.y

/-- The rectangle that the root of a picture says it shows. -/
def Drawing.viewBox? : Drawing α → Option (Box α)
  | group "svg" attributes _ =>
    match attributes.get? "viewBox" with
    | some (.numbers [x, y, width, height]) => some ⟨x, y, x + width, y + height⟩
    | _ => none
  | _ => none

/-- The box of all nodes of a diagram. -/
def Diagram.box (d : Diagram α) (x y : α) (padding : Padding α) : Box α :=
  let top := padding.top.getD 20
  d.metrics.box (x + padding.left.getD top) (y + top + d.metrics.up)

end

variable {K : Type} [ExactScalar K] {o : Options K}

/-! ## Placed nodes -/

/-- A placed node in which everything is flat and in its place. -/
structure Placed.Contained (o : Options K) (p : Placed K) : Prop where
  flat : ∀ q ∈ p.walk, q.site.metrics.Flat
  within : ∀ q ∈ p.walk, (q.box o).Within (p.box o)
  nested : ∀ q ∈ p.walk, ∀ c ∈ q.nodes, (c.box o).Within (q.box o)

/-- It is enough to look at the nodes that are drawn right in a node. -/
theorem Placed.Contained.of_nodes {p : Placed K} (hflat : p.site.metrics.Flat)
    (hnodes : ∀ c ∈ p.nodes, c.Contained o ∧ (c.box o).Within (p.box o)) : p.Contained o := by
  have hwalk : ∀ q ∈ p.walk, q = p ∨ ∃ c ∈ p.nodes, q ∈ c.walk := by
    intro q hq
    rw [walk_eq] at hq
    exact (List.mem_cons.1 hq).imp id List.mem_flatMap.1
  refine ⟨fun q hq => ?_, fun q hq => ?_, fun q hq => ?_⟩
  · rcases hwalk q hq with rfl | ⟨c, hc, hqc⟩
    · exact hflat
    · exact (hnodes c hc).1.flat q hqc
  · rcases hwalk q hq with rfl | ⟨c, hc, hqc⟩
    · exact .refl _
    · exact ((hnodes c hc).1.within q hqc).trans (hnodes c hc).2
  · rcases hwalk q hq with rfl | ⟨c, hc, hqc⟩
    · exact fun c hc => (hnodes c hc).2
    · exact (hnodes c hc).1.nested q hqc

/-! ## Figures -/

/-- A figure in which everything is flat and in its place, wherever the figure is put. -/
structure Figure.Contained (o : Options K) (f : Figure K) : Prop where
  flat : f.metrics.Flat
  site (x y slot : K) : (f.item.place x y slot).site = ⟨⟨f.metrics, f.item.kind⟩, x, y, slot⟩
  placed (x y slot : K) : (f.item.place x y slot).Contained o

/-- A figure in a slot that is wide enough stays in the area of the slot. -/
theorem Figure.Contained.within_area {s : Site K (Drawable K)}
    (h : Figure.Contained o s.toSized) (hwide : s.metrics.width ≤ s.slot) :
    ((settle s).box o).Within s.area := by
  have hsite : (settle s).site = ⟨⟨s.metrics, s.item.kind⟩, s.x, s.y, s.slot⟩ :=
    h.site s.x s.y s.slot
  rw [Placed.box, Placed.left, hsite]
  split
  · exact Site.aligned_within_area o hwide
  · exact s.box_within_area (le_refl _) (add_le_add_right hwide _)

namespace Layout

variable {kind : Node.Kind} {m : Metrics K} {attributes : Attributes (Value K)}
  {inside items : List (Figure K)}
  {pieces : (x y slot : K) → List (Piece K (Site K (Drawable K)))}

/-- **One level of a diagram.** A flat figure is in order if the figures in it are and have slots
that are wide enough and lie in its box. -/
theorem contained_figure (hkind : kind.isAligned) (hm : m.Flat)
    (hitems : ∀ f ∈ items, Figure.Contained o f)
    (hcontents : ∀ x y slot, (contents (pieces x y slot)).map Site.toSized = items)
    (hfits : ∀ x y slot, ∀ s ∈ contents (pieces x y slot),
      s.Fits (m.box (x + (gaps o m slot).left) y)) :
    Figure.Contained o (figure kind m attributes inside pieces) := by
  refine ⟨hm, fun _ _ _ => rfl, fun x y slot => .of_nodes hm fun c hc => ?_⟩
  rw [show ((figure kind m attributes inside pieces).item.place x y slot).nodes =
    (contents (pieces x y slot)).map settle from contents_map _ _] at hc
  obtain ⟨s, hs, rfl⟩ := List.mem_map.1 hc
  have hitem := hitems s.toSized (hcontents x y slot ▸ List.mem_map_of_mem hs)
  refine ⟨hitem.placed s.x s.y s.slot, ?_⟩
  have hbox : ((figure kind m attributes inside pieces).item.place x y slot).box o =
      m.box (x + (gaps o m slot).left) y := by
    rw [Placed.box, Placed.left]
    exact congrArg (fun left => m.box left y) (if_pos hkind)
  have hslot := hfits x y slot s hs
  rw [hbox]
  exact (Figure.Contained.within_area hitem hslot.wide).trans hslot.area

/-- A flat figure without items is in order. -/
theorem contained_leaf (hm : m.Flat) (hcontents : ∀ x y slot, contents (pieces x y slot) = []) :
    Figure.Contained o (figure kind m attributes inside pieces) := by
  refine ⟨hm, fun _ _ _ => rfl, fun x y slot => .of_nodes hm fun c hc => ?_⟩
  rw [show ((figure kind m attributes inside pieces).item.place x y slot).nodes =
    (contents (pieces x y slot)).map settle from contents_map _ _, hcontents] at hc
  exact absurd hc List.not_mem_nil

theorem contained_bareFigure (hm : m.Flat) (drawing : (x y slot : K) → Drawing K) :
    Figure.Contained o (bareFigure kind m drawing) :=
  ⟨hm, fun _ _ _ => rfl, fun _ _ _ => .of_nodes hm fun _ hc => absurd hc List.not_mem_nil⟩

/-! ## Marks -/

/-- A size that reaches equally far up and down from its line. -/
theorem flat_mark {width extent : K} (hwidth : 0 ≤ width) (hextent : 0 ≤ extent)
    (needsSpace : Bool) :
    Metrics.Flat ⟨width, @OfNat.ofNat K 0 (Scalar.instOfNat 0), extent, extent, needsSpace⟩ :=
  .of ExactScalar.zero_eq hwidth hextent hextent

theorem textWidth_nonneg (hchar : 0 ≤ o.defaultCharWidth) (text : String) :
    0 ≤ textLength text * o.defaultCharWidth := mul_nonneg (Nat.cast_nonneg text.length) hchar

theorem flat_boxSize (hchar : 0 ≤ o.defaultCharWidth) (text : String) : (boxSize o text).Flat := by
  have hwidth := textWidth_nonneg hchar text
  exact flat_mark (add_nonneg hwidth (show (0 : K) ≤ 20 by norm_num))
    (show (0 : K) ≤ 11 by norm_num) true

theorem flat_remarkSize (hchar : 0 ≤ o.defaultCharWidth) (text : String) :
    (remarkSize o text).Flat := by
  have hwidth := textWidth_nonneg hchar text
  exact flat_mark (add_nonneg hwidth (show (0 : K) ≤ 10 by norm_num))
    (show (0 : K) ≤ 8 by norm_num) true

theorem flat_startSize (label : String) : (startSize o label).Flat := by
  have hwidth : (0 : K) ≤ max (textLength label * o.defaultCharWidth + 10) 20 :=
    le_max_of_le_right (by norm_num)
  exact flat_mark hwidth (show (0 : K) ≤ 10 by norm_num) false

theorem flat_endSize : (endSize : Metrics K).Flat :=
  flat_mark (show (0 : K) ≤ 20 by norm_num) (show (0 : K) ≤ 10 by norm_num) false

theorem contained_skipFigure : Figure.Contained o (skipFigure o) :=
  contained_leaf Metrics.flat_zero fun _ _ _ => rfl

theorem contained_startFigure (style : MarkerStyle) (label : String) :
    Figure.Contained o (startFigure o style label) :=
  contained_leaf (flat_startSize label) fun x y _ => contents_startPieces o x y style label

/-! ## Containers -/

theorem contained_sequenceFigure {items : List (Figure K)}
    (h : ∀ f ∈ items, Figure.Contained o f) : Figure.Contained o (sequenceFigure o items) := by
  have hflat : ∀ f ∈ items, f.metrics.Flat := fun f hf => (h f hf).flat
  exact contained_figure rfl (flat_sequenceSize hflat) h
    (fun x y slot => contents_sequencePieces o x y slot items) (sequencePieces_fits hflat o)

/-- A figure that is laid out as a choice. -/
theorem contained_choicePieces (hkind : kind.isAligned) (ho : o.Nonneg) {b : Branches (Figure K)}
    (h : ∀ f ∈ b.toList, Figure.Contained o f) :
    Figure.Contained o (figure kind (choiceSize o (b.map (·.metrics))) attributes inside
      (choicePieces o (choiceSize o (b.map (·.metrics))) b)) := by
  have hflat : ∀ f ∈ b.toList, f.metrics.Flat := fun f hf => (h f hf).flat
  refine contained_figure hkind (flat_choiceSize hflat ho) (fun f hf => ?_)
    (fun x y slot => contents_choicePieces o x y slot _ b) (choicePieces_fits hflat ho)
  exact h f (Branches.mem_toList.2 hf)

theorem contained_loopFigure (ho : o.Nonneg) {item : Figure K} (h : Figure.Contained o item) :
    Figure.Contained o (loopFigure o item (skipFigure o)) := by
  refine contained_figure rfl (flat_loopSize ho h.flat) (fun f hf => ?_)
    (fun x y slot => contents_loopPieces o x y slot item (skipFigure o))
    (loopPieces_fits ho h.flat rfl)
  rcases List.mem_pair.1 hf with rfl | rfl
  · exact h
  · exact contained_skipFigure

theorem contained_choiceFigure (ho : o.Nonneg) {b : Branches (Figure K)}
    (h : ∀ f ∈ b.toList, Figure.Contained o f) : Figure.Contained o (choiceFigure o b) :=
  contained_choicePieces rfl ho h

/-- The branches of an item that can be passed by are in order if the item is. -/
theorem contained_passing {item : Figure K} (h : Figure.Contained o item) (bypass : Bool) :
    ∀ f ∈ (passing o item bypass).toList, Figure.Contained o f := by
  have hbranches : (passing o item bypass).toList = [skipFigure o, item] := by
    cases bypass <;> rfl
  intro f hf
  rw [hbranches] at hf
  rcases List.mem_pair.1 hf with rfl | rfl
  · exact contained_skipFigure
  · exact h

theorem contained_optionalFigure (ho : o.Nonneg) {item : Figure K} (h : Figure.Contained o item)
    (bypass : Bool) : Figure.Contained o (optionalFigure o item bypass) :=
  contained_choicePieces rfl ho (contained_passing h bypass)

/-- A loop that can be passed by has the height of the loop. As both are flat, that is the height
of a choice. -/
theorem freeLoopFigure_eq (ho : o.Nonneg) {item : Figure K} (h : Figure.Contained o item) :
    let b := passing o (loopFigure o item (skipFigure o)) true
    let m := choiceSize o (b.map (·.metrics))
    freeLoopFigure o item (skipFigure o) =
      figure .zeroOrMore m (dropMarks o m .zeroOrMore (passingAttributes o m))
        [skipFigure o, loopFigure o item (skipFigure o)] (choicePieces o m b) := by
  have hloop := contained_loopFigure ho h
  have hbranches := contained_passing hloop true
  have hlevel := (flat_choiceSize (fun f hf => (hbranches f hf).flat) ho).level
  have hsize : ∀ {m : Metrics K} {height : K}, height = m.height → { m with height } = m := by
    rintro m _ rfl
    rfl
  rw [freeLoopFigure, hsize (hloop.flat.level.trans hlevel.symm)]

theorem contained_freeLoopFigure (ho : o.Nonneg) {item : Figure K} (h : Figure.Contained o item) :
    Figure.Contained o (freeLoopFigure o item (skipFigure o)) := by
  rw [freeLoopFigure_eq ho h]
  exact contained_choicePieces rfl ho (contained_passing (contained_loopFigure ho h) true)

end Layout

/-- **Everything in a node is flat and in its place**, if the node is that of an expression whose
sequences are not broken into rows. -/
theorem Node.Unwrapped.contained (ho : o.Nonneg) (hchar : 0 ≤ o.defaultCharWidth) {n : Node K}
    (h : n.Unwrapped) : Figure.Contained o (n.figure o) := by
  induction h with
  | terminal text attributes =>
    rw [Node.figure]
    exact contained_leaf (flat_boxSize hchar text) fun x y slot =>
      contents_boxPieces o x y slot true text attributes
  | nonTerminal text attributes =>
    rw [Node.figure]
    exact contained_leaf (flat_boxSize hchar text) fun x y slot =>
      contents_boxPieces o x y slot false text attributes
  | comment text href title =>
    rw [Node.figure]
    exact contained_leaf (flat_remarkSize hchar text) fun x y slot =>
      contents_remarkPieces o x y slot text href title
  | sequence h ih =>
    rw [Node.figure, figures_eq_map]
    exact contained_sequenceFigure (List.forall_mem_map.2 ih)
  | @choice first others hfirst hothers ihfirst ihothers =>
    rw [Node.figure, figures_eq_map, figures_eq_map]
    refine contained_choiceFigure ho fun f hf => ?_
    rcases List.mem_cons.1 hf with rfl | hf
    · exact ihfirst
    · exact List.forall_mem_map.2 ihothers f hf
  | optional h ih =>
    rw [Node.figure]
    exact contained_optionalFigure ho ih false
  | zeroOrMore h ih =>
    rw [Node.figure, Node.figure]
    exact contained_freeLoopFigure ho ih

/-! ## Diagrams -/

/-- Room around a diagram that is not taken from it. -/
structure Padding.Nonneg (p : Padding K) : Prop where
  top : ∀ v ∈ p.top, 0 ≤ v
  right : ∀ v ∈ p.right, 0 ≤ v
  bottom : ∀ v ∈ p.bottom, 0 ≤ v
  left : ∀ v ∈ p.left, 0 ≤ v

theorem Padding.getD_nonneg {side : Option K} (h : ∀ v ∈ side, 0 ≤ v) {other : K}
    (hother : 0 ≤ other) : 0 ≤ side.getD other := by
  cases side with
  | none => exact hother
  | some v => exact h v rfl

namespace Diagram

variable {d : Diagram K} {padding : Padding K}

/-- **A picture shows the box of its diagram.** -/
theorem box_within_canvas (hpadding : padding.Nonneg) :
    (d.draw 0 0 padding).viewBox? =
        some ⟨0, 0, d.canvasWidth padding, d.canvasHeight padding⟩ ∧
      (d.box 0 0 padding).Within ⟨0, 0, d.canvasWidth padding, d.canvasHeight padding⟩ := by
  have htop : 0 ≤ padding.top.getD 20 := Padding.getD_nonneg hpadding.top (by norm_num)
  have hright := Padding.getD_nonneg hpadding.right htop
  have hbottom := Padding.getD_nonneg hpadding.bottom htop
  have hleft := Padding.getD_nonneg hpadding.left htop
  refine ⟨?_, ?_, ?_, ?_, ?_⟩
  · simp [Drawing.viewBox?, draw, Attributes.get?, List.lookup_cons]
  · change 0 ≤ 0 + padding.left.getD (padding.top.getD 20)
    linarith
  · change 0 ≤ 0 + padding.top.getD 20 + d.metrics.up - d.metrics.up
    linarith
  · change 0 + padding.left.getD (padding.top.getD 20) + d.metrics.width ≤
      d.metrics.width + padding.left.getD (padding.top.getD 20) +
        padding.right.getD (padding.top.getD 20)
    linarith
  · change 0 + padding.top.getD 20 + d.metrics.up + d.metrics.height + d.metrics.down ≤
      d.metrics.up + d.metrics.height + d.metrics.down + padding.top.getD 20 +
        padding.bottom.getD (padding.top.getD 20)
    linarith

/-- **Nothing sticks out of a diagram** of nodes that are in order. -/
theorem contained (padding : Padding K)
    (h : ∀ n ∈ d.items, Figure.Contained d.options (n.figure d.options)) :
    (∀ p ∈ contents (d.pieces 0 0 padding), (p.box d.options).Within (d.box 0 0 padding)) ∧
      ∀ p ∈ d.placed 0 0 padding, p.site.metrics.Flat ∧
        (p.box d.options).Within (d.box 0 0 padding) ∧
          ∀ c ∈ p.nodes, (c.box d.options).Within (p.box d.options) := by
  have hfigures : ∀ f ∈ Node.figures d.options d.items, Figure.Contained d.options f := by
    rw [Node.figures_eq_map]
    exact List.forall_mem_map.2 h
  have htop : ∀ p ∈ contents (d.pieces 0 0 padding), p.Contained d.options ∧
      (p.box d.options).Within (d.box 0 0 padding) := by
    intro p hp
    rw [pieces, contents_map] at hp
    obtain ⟨s, hs, rfl⟩ := List.mem_map.1 hp
    have hitem : Figure.Contained d.options s.toSized := by
      refine hfigures _ ?_
      rw [← contents_rowPieces _ _ true false (Node.figures d.options d.items)]
      exact List.mem_map_of_mem hs
    have hfits := edgedPieces_fits (fun f hf => (hfigures f hf).flat) _ _ s hs
    exact ⟨hitem.placed s.x s.y s.slot, (hitem.within_area hfits.wide).trans hfits.area⟩
  refine ⟨fun p hp => (htop p hp).2, fun q hq => ?_⟩
  obtain ⟨p, hp, hqp⟩ := List.mem_flatMap.1 hq
  obtain ⟨hcontained, hbox⟩ := htop p hp
  exact ⟨hcontained.flat q hqp, (hcontained.within q hqp).trans hbox, hcontained.nested q hqp⟩

end Diagram

/-- The markers of a rule and the node between them are in order. -/
theorem Rule.contained_items (r : Rule) {style : RuleStyle K} (hwrap : style.wrapWidth = none)
    (ho : o.Nonneg) (hchar : 0 ≤ o.defaultCharWidth) :
    ∀ n ∈ (r.diagram o style).items, Figure.Contained o (n.figure o) := by
  rw [r.diagram_eq o style, hwrap]
  intro n hn
  rcases List.mem_cons.1 hn with rfl | hn
  · rw [Node.figure]
    exact contained_startFigure _ _
  · rcases List.mem_pair.1 hn with rfl | rfl
    · exact (r.body.unwrapped_toNode o).contained ho hchar
    · rw [Node.figure]
      exact contained_bareFigure flat_endSize _

/-- **Boxes lie in boxes.** In the diagram of a rule whose sequences are not broken into rows every
node is flat. Every node is placed once, in the box of the node around it, or in that of the diagram
if there is none, and in the rectangle that the picture says it shows. -/
theorem Rule.diagram_contained (r : Rule) {style : RuleStyle K} {padding : Padding K}
    (hwrap : style.wrapWidth = none) (ho : o.Nonneg) (hchar : 0 ≤ o.defaultCharWidth)
    (hpadding : padding.Nonneg) :
    let d := r.diagram o style
    (∀ n ∈ d.walk, (n.metrics o).Flat) ∧
      ((d.placed 0 0 padding).map Placed.sized).Perm (d.walk.map (Node.sized o)) ∧
      (∀ p ∈ contents (d.pieces 0 0 padding), (p.box o).Within (d.box 0 0 padding)) ∧
      (∀ p ∈ d.placed 0 0 padding, ∀ c ∈ p.nodes, (c.box o).Within (p.box o)) ∧
      ∃ canvas : Box K, (d.draw 0 0 padding).viewBox? = some canvas ∧
        canvas = ⟨0, 0, d.canvasWidth padding, d.canvasHeight padding⟩ ∧
        (d.box 0 0 padding).Within canvas ∧
        ∀ p ∈ d.placed 0 0 padding, (p.box o).Within canvas := by
  intro d
  have hd : d = _ := r.diagram_eq o style
  have hoptions : d.options = o := by rw [hd]
  have hitems : ∀ n ∈ d.items, Figure.Contained d.options (n.figure d.options) := by
    rw [hoptions]
    exact r.contained_items hwrap ho hchar
  have hperm := d.walk_placed 0 0 padding
  obtain ⟨htop, hplaced⟩ := Diagram.contained padding hitems
  obtain ⟨hview, hcanvas⟩ := Diagram.box_within_canvas (d := d) hpadding
  rw [hoptions] at hperm htop hplaced
  refine ⟨fun n hn => ?_, hperm, htop, fun p hp => (hplaced p hp).2.2,
    _, hview, rfl, hcanvas, fun p hp => (hplaced p hp).2.1.trans hcanvas⟩
  -- a node of the tree has the size of a placed one
  obtain ⟨p, hp, hsized⟩ := List.mem_map.1 (hperm.mem_iff.2 (List.mem_map_of_mem hn))
  have hmetrics : p.site.metrics = n.metrics o := congrArg Sized.metrics hsized
  exact hmetrics ▸ (hplaced p hp).1

/-- A loop over a choice, with the usual measures and some room on the left. -/
theorem Rule.diagram_contained_loop :
    ∃ o : Options Rat, o.arcRadius = 10 ∧ o.verticalSeparation = 8 ∧ o.defaultCharWidth = 17 / 2 ∧
      let padding : Padding Rat := { left := some 5 }
      let d := (Rule.mk "list" (.repetition (.choice (.identifier "item") (.terminal ",")))).diagram
        o {}
      ∃ canvas : Box Rat, (d.draw 0 0 padding).viewBox? = some canvas ∧
        ∀ p ∈ d.placed 0 0 padding, (p.box o).Within canvas := by
  let o : Options Rat :=
    { debug := false, verticalSeparation := 8, arcRadius := 10, diagramClass := "railroad-diagram",
      strokeOddPixelLength := true, internalAlignment := .center, defaultCharWidth := 17 / 2,
      commentCharWidth := 7 }
  have hwrap : ({} : RuleStyle Rat).wrapWidth = none := rfl
  have ho : o.Nonneg := ⟨by norm_num [o], by norm_num [o]⟩
  have hpadding : Padding.Nonneg ({ left := some 5 } : Padding Rat) :=
    ⟨nofun, nofun, nofun, fun v hv => by cases hv; norm_num⟩
  obtain ⟨-, -, -, -, canvas, hview, -, -, hboxes⟩ := Rule.diagram_contained
    (Rule.mk "list" (.repetition (.choice (.identifier "item") (.terminal ",")))) hwrap ho
    (by norm_num [o]) hpadding
  exact ⟨o, rfl, rfl, rfl, canvas, hview, hboxes⟩

end SyntaxDiagram
