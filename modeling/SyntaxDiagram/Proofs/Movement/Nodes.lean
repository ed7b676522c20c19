import SyntaxDiagram.Proofs.Layout.Boxes
import SyntaxDiagram.Proofs.Movement.Layouts
import SyntaxDiagram.Proofs.Placement

/-!
# Nodes elsewhere

The picture of a node does not depend on where the node stands, but for the places in it.

* `Figure.Movable`: a figure whose picture at another point is its picture, moved there.
* `Layout.movable_figure`: a figure is movable if its layout is and the figures in it are.
* `Node.draw_add`: the picture of a node at another point, for all nodes.
* `Diagram.move_draw`: the same for whole diagrams.
-/

namespace SyntaxDiagram

variable {K : Type} [ExactScalar K] {tags : List String} {a b : K} {o : Options K}

/-! ## Attributes -/

namespace Attributes

variable (hasPlace : Bool) (attributes : Attributes (Value K))

/-- A value that is set is moved as any other. -/
theorem moved_set (name : String) (value : Value K) :
    (attributes.set name value).moved hasPlace a b =
      (attributes.moved hasPlace a b).set name (value.moved hasPlace a b name) := by
  obtain ⟨entries⟩ := attributes
  refine congrArg Attributes.mk ?_
  change (upsertEntries name (fun _ => value) entries).map _ = upsertEntries name _ (entries.map _)
  induction entries with
  | nil => rfl
  | cons e rest ih =>
    rw [upsertEntries, List.map_cons, upsertEntries]
    split
    · rfl
    · rw [List.map_cons, ih]

/-- Marks of sizes and kinds stay as they are. -/
theorem moved_debugMarks (sizes : List K) (kind : String) :
    (Layout.debugMarks o sizes kind attributes).moved hasPlace a b =
      Layout.debugMarks o sizes kind (attributes.moved hasPlace a b) := by
  rw [Layout.debugMarks, Layout.debugMarks]
  split
  · rw [moved_set, moved_set]
    rfl
  · rfl

/-- Texts stay as they are. -/
theorem moved_map_text (given : Attributes String) :
    Attributes.moved hasPlace a b (given.map .text) = given.map .text := by
  simp [moved, map, Value.moved, Function.comp_def]

theorem moved_boxAttributes (cls : String) (given : Attributes String) :
    (Layout.boxAttributes o cls given).moved hasPlace a b = Layout.boxAttributes o cls given := by
  rw [Layout.boxAttributes, moved_debugMarks, moved_set, moved_map_text]
  rfl

theorem moved_flatMarks (m : Metrics K) (kind : Node.Kind) :
    (Layout.flatMarks o m kind attributes).moved hasPlace a b =
      Layout.flatMarks o m kind (attributes.moved hasPlace a b) := moved_debugMarks _ _ _ _

theorem moved_dropMarks (m : Metrics K) (kind : Node.Kind) :
    (Layout.dropMarks o m kind attributes).moved hasPlace a b =
      Layout.dropMarks o m kind (attributes.moved hasPlace a b) := moved_debugMarks _ _ _ _

theorem moved_passingAttributes (m : Metrics K) :
    (Layout.passingAttributes o m).moved hasPlace a b = Layout.passingAttributes o m := by
  rw [Layout.passingAttributes, moved_dropMarks, moved_set, moved_dropMarks]
  rfl

end Attributes

/-! ## Figures -/

/-- A figure whose picture at another point is its picture, moved there. -/
def Figure.Movable (tags : List String) (a b : K) (f : Figure K) : Prop :=
  ∀ x y slot, (f.item.place (x + a) (y + b) slot).draw =
    ((f.item.place x y slot).draw).moved tags a b

open Layout

/-- Pieces that were moved have a picture that was moved, if the figures among them are movable. -/
theorem Placed.drawPieces_move {pieces : List (Piece K (Site K (Drawable K)))}
    (h : ∀ s ∈ contents pieces, Figure.Movable tags a b s.toSized) :
    drawPieces ((move tags a b pieces).map (.map settle)) =
      Drawing.moveds tags a b (drawPieces (pieces.map (.map settle))) := by
  induction pieces with
  | nil => rfl
  | cons p rest ih =>
    rw [move_cons, List.map_cons, List.map_cons, drawPieces, drawPieces, Drawing.moveds]
    cases p with
    | track path => exact congrArg _ (ih h)
    | shape drawing => exact congrArg _ (ih h)
    | child s =>
      rw [contents_child, List.forall_mem_cons] at h
      rw [ih h.2]
      exact congrArg (· :: _) (h.1 s.x s.y s.slot)

namespace Layout

variable {kind : Node.Kind} {m : Metrics K} {attributes : Attributes (Value K)}
  {inside items : List (Figure K)}
  {pieces : (x y slot : K) → List (Piece K (Site K (Drawable K)))}

/-- **One level of a picture.** A figure is movable if its layout is, and if the figures in it
are. -/
theorem movable_figure
    (hattributes : ∀ hasPlace, attributes.moved hasPlace a b = attributes)
    (hitems : ∀ f ∈ items, Figure.Movable tags a b f)
    (hcontents : ∀ x y slot, (contents (pieces x y slot)).map Site.toSized = items)
    (hmove : ∀ x y slot, pieces (x + a) (y + b) slot = move tags a b (pieces x y slot)) :
    Figure.Movable tags a b (figure kind m attributes inside pieces) := by
  intro x y slot
  have hsites : ∀ s ∈ contents (pieces x y slot), Figure.Movable tags a b s.toSized := fun s hs =>
    hitems s.toSized (hcontents x y slot ▸ List.mem_map_of_mem hs)
  change Drawing.group "g" attributes
    (Placed.drawPieces ((pieces (x + a) (y + b) slot).map (.map settle))) =
      Drawing.moved tags a b (.group "g" attributes
        (Placed.drawPieces ((pieces x y slot).map (.map settle))))
  rw [hmove, Placed.drawPieces_move hsites, Drawing.moved, hattributes]

/-- A figure without items is movable if its layout is. -/
theorem movable_leaf (hattributes : ∀ hasPlace, attributes.moved hasPlace a b = attributes)
    (hcontents : ∀ x y slot, contents (pieces x y slot) = [])
    (hmove : ∀ x y slot, pieces (x + a) (y + b) slot = move tags a b (pieces x y slot)) :
    Figure.Movable tags a b (figure kind m attributes inside pieces) :=
  movable_figure hattributes (fun f (hf : f ∈ []) => absurd hf List.not_mem_nil)
    (fun x y slot => congrArg (List.map _) (hcontents x y slot)) hmove

/-- A figure that is laid out as a choice is movable if its branches are. -/
theorem movable_choiceFigure {c : Branches (Figure K)}
    (hattributes : ∀ hasPlace, attributes.moved hasPlace a b = attributes)
    (hitems : ∀ f ∈ c.toList, Figure.Movable tags a b f) :
    Figure.Movable tags a b
      (figure kind m attributes inside fun x y slot => choicePieces o m c x y slot) :=
  movable_figure hattributes
    (fun f hf => hitems f (by rwa [Branches.toList, List.mem_append, ← List.mem_reverse,
      ← List.mem_append]))
    (fun x y slot => contents_choicePieces o x y slot m c)
    fun x y slot => move_choicePieces tags a b o x y slot m c

end Layout

namespace Node

variable (htext : "text" ∈ tags) (hrect : "rect" ∈ tags)
include htext hrect

/-- **Each node can be moved** if the nodes in it can. The place of a block is written in its
group. -/
theorem movable_of_inside (n : Node K) (hblock : n.kind = .block → "g" ∈ tags)
    (h : ∀ f ∈ (n.figure o).item.inside, Figure.Movable tags a b f) :
    Figure.Movable tags a b (n.figure o) := by
  have hflat (m : Metrics K) (kind : Kind) (hasPlace : Bool) :
      (flatMarks o m kind ∅).moved hasPlace a b = flatMarks o m kind ∅ :=
    Attributes.moved_flatMarks hasPlace ∅ m kind
  have hdrop (m : Metrics K) (kind : Kind) (hasPlace : Bool) :
      (dropMarks o m kind ∅).moved hasPlace a b = dropMarks o m kind ∅ :=
    Attributes.moved_dropMarks hasPlace ∅ m kind
  cases n with
  | terminal text attributes =>
    rw [figure]
    exact movable_leaf (fun _ => Attributes.moved_boxAttributes _ _ _)
      (fun x y slot => contents_boxPieces o x y slot true text attributes)
      fun x y slot => move_boxPieces a b o x y slot hrect htext true text attributes
  | nonTerminal text attributes =>
    rw [figure]
    exact movable_leaf (fun _ => Attributes.moved_boxAttributes _ _ _)
      (fun x y slot => contents_boxPieces o x y slot false text attributes)
      fun x y slot => move_boxPieces a b o x y slot hrect htext false text attributes
  | comment text href title =>
    rw [figure]
    exact movable_leaf (hflat _ _)
      (fun x y slot => contents_remarkPieces o x y slot text href title)
      fun x y slot => move_remarkPieces a b o x y slot htext text href title
  | skip =>
    rw [figure, skipFigure]
    refine movable_leaf (fun _ => ?_) (fun _ _ _ => rfl) fun _ _ _ => rfl
    split <;> rfl
  | start style label =>
    rw [figure]
    exact movable_leaf (hflat _ _) (fun x y _ => contents_startPieces o x y style label)
      fun x y _ => move_startPieces a b o x y htext style label
  | finish style =>
    rw [figure]
    exact fun x y _ => moved_endDrawing a b o x y style
  | sequence items =>
    rw [figure] at h ⊢
    exact movable_figure (hflat _ _) h (fun x y slot => contents_sequencePieces o x y slot _)
      fun x y slot => move_sequencePieces tags a b o x y slot _
  | stack first rest =>
    rw [figure] at h ⊢
    exact movable_figure (hflat _ _) h (fun x y slot => contents_stackPieces o x y slot _ _)
      fun x y slot => move_stackPieces tags a b o x y slot _ _
  | choice above straight below =>
    rw [figure] at h ⊢
    exact movable_choiceFigure (hdrop _ _) h
  | optional item bypass =>
    rw [figure] at h ⊢
    refine movable_choiceFigure (fun _ => Attributes.moved_passingAttributes _ _) ?_
    cases bypass <;> exact h
  | oneOrMore item separator =>
    rw [figure] at h ⊢
    exact movable_figure (hdrop _ _) h (fun x y slot => contents_loopPieces o x y slot _ _)
      fun x y slot => move_loopPieces a b o x y slot _ _
  | zeroOrMore item separator =>
    rw [figure] at h ⊢
    refine movable_choiceFigure (fun _ => ?_) h
    rw [Attributes.moved_dropMarks, Attributes.moved_passingAttributes]
  | group item label =>
    rw [figure] at h ⊢
    exact movable_figure (hflat _ _) h (fun x y slot => contents_framePieces o x y slot _ _)
      fun x y slot => move_framePieces a b o x y slot hrect _ _
  | horizontalChoice first middles last =>
    rw [figure] at h ⊢
    exact movable_figure (fun _ => Attributes.moved_dropMarks _ (classed _) _ _) h
      (fun x y slot => contents_sidePieces o x y slot _)
      fun x y slot => move_sidePieces a b o x y slot _
  | multipleChoice kind above straight below =>
    rw [figure] at h ⊢
    refine movable_figure (fun _ => Attributes.moved_dropMarks _ (classed _) _ _) (fun f hf => ?_)
      (fun x y slot => contents_multiplePieces o x y slot kind _)
      fun x y slot => move_multiplePieces a b o x y slot htext kind _
    refine h f ?_
    rw [List.mem_append, List.mem_reverse, ← List.mem_append] at hf
    exact hf
  | alternatingSequence first second =>
    rw [figure] at h ⊢
    exact movable_figure (hflat _ _) h (fun x y slot => contents_crossingPieces o x y slot _ _)
      fun x y slot => move_crossingPieces a b o x y slot _ _
  | optionalSequence first second rest =>
    rw [figure] at h ⊢
    exact movable_figure (fun _ => Attributes.moved_flatMarks _ (classed _) _ _) h
      (fun x y slot => contents_skipRowPieces o x y slot _ _)
      fun x y slot => move_skipRowPieces a b o x y slot _ _
  | verticalSequence first rest =>
    rw [figure] at h ⊢
    exact movable_figure (hflat _ _) h (fun x y slot => contents_columnPieces o x y slot _ _)
      fun x y slot => move_columnPieces tags a b o x y slot _ _
  | block metrics =>
    rw [figure]
    exact fun x y slot => moved_blockDrawing a b x y slot (hblock rfl)

/-- All figures are movable, down to the leaves. -/
theorem movable (n : Node K) (hblock : ∀ m ∈ n.walk, m.kind = .block → "g" ∈ tags) :
    Figure.Movable tags a b (n.figure o) := by
  induction n using Node.induction with
  | h n ih =>
    rw [Node.forall_mem_walk] at hblock
    refine movable_of_inside htext hrect n hblock.1 ?_
    rw [n.inside_figure]
    exact List.forall_mem_map.2 fun c hc => ih c hc (hblock.2 c hc)

end Node

/-- **Drawing does not depend on the position.** From another point the picture of a node is the
picture moved there: the starts of all paths and the places of all boxes and texts have moved, and
everything else is as it was. The group of a block has a place as well; without blocks no group
has. -/
theorem Node.draw_add (o : Options K) (n : Node K) (x y a b slot : K) :
    n.draw o (x + a) (y + b) slot = (n.draw o x y slot).moved ["rect", "text", "g"] a b ∧
      ((∀ m ∈ n.walk, m.kind ≠ .block) →
        n.draw o (x + a) (y + b) slot = (n.draw o x y slot).moved ["rect", "text"] a b) := by
  constructor
  · have hmovable : Figure.Movable ["rect", "text", "g"] a b (n.figure o) :=
      n.movable (by simp) (by simp) (by simp)
    exact hmovable x y slot
  · intro hblock
    have hmovable : Figure.Movable ["rect", "text"] a b (n.figure o) :=
      n.movable (by simp) (by simp) fun m hm hkind => absurd hkind (hblock m hm)
    exact hmovable x y slot

/-- A badge and a box, three units further to the right and four further down. -/
theorem Node.draw_add_badge :
    let n : Node Rat := .multipleChoice .any [] (.ofText "a") [.skip]
    (∀ m ∈ n.walk, m.kind ≠ .block) ∧
      n.draw .exact (1 + 3) (2 + 4) 150 = (n.draw .exact 1 2 150).moved ["rect", "text"] 3 4 := by
  intro n
  have hwalk : n.walk = [n, .ofText "a", .skip] := by
    simp [n, Node.walk_eq, Node.children, Node.ofText]
  have hblock : ∀ m ∈ n.walk, m.kind ≠ .block := by
    rw [hwalk]
    simp [n, Node.kind, Node.ofText]
  exact ⟨hblock, (n.draw_add .exact 1 2 3 4 150).2 hblock⟩

/-- The picture of a diagram can be moved as that of a node. -/
theorem Diagram.move_draw (d : Diagram K) (x y a b : K) (padding : Padding K) :
    d.draw (x + a) (y + b) padding = (d.draw x y padding).moved ["rect", "text", "g"] a b := by
  let tags := ["rect", "text", "g"]
  have hrow (left top : K) := move_rowPieces (β := Drawable K) tags a b left top true false
    (Node.figures d.options d.items)
  have hitems : ∀ f ∈ Node.figures d.options d.items, Figure.Movable tags a b f := by
    rw [Node.figures_eq_map]
    exact List.forall_mem_map.2 fun n _ => n.movable (by simp [tags]) (by simp [tags])
      (by simp [tags])
  have hpieces : Placed.drawPieces (d.pieces (x + a) (y + b) padding) =
      Drawing.moveds tags a b (Placed.drawPieces (d.pieces x y padding)) := by
    rw [pieces, pieces, ← Placed.drawPieces_move, ← hrow]
    · simp only [add_right_comm _ a, add_right_comm _ b]
    · intro s hs
      have hitem := List.mem_map_of_mem (f := Site.toSized) hs
      rw [contents_rowPieces] at hitem
      exact hitems s.toSized hitem
  rw [draw, draw, hpieces]
  split <;> rfl

end SyntaxDiagram
