import SyntaxDiagram.Proofs.Outline.Figures
import SyntaxDiagram.Proofs.RuleDiagram
import SyntaxDiagram.Proofs.Translation

/-!
# Grammars of the same shape

Two grammars have the same shape if they differ in the characters of their texts only, and not in
how many there are. Then their diagrams have the same outlines.

* `Expr.SameShape`, `Rule.SameShape`, `Grammar.SameShape`: what it is to have the same shape.
* `Expr.Parts.SameOutline`, `Expr.sameOutline_parts`: it is kept by everything that an expression is
  made into on its way to a node, breaking sequences into rows included.
* `Rule.outline_draw`: the pictures of the diagrams.
-/

namespace SyntaxDiagram

/-! ## Shapes -/

/-- Expressions that differ in the characters of their texts only. -/
inductive Expr.SameShape : Expr → Expr → Prop
  | identifier {name name' : String} (h : name.length = name'.length) :
      SameShape (.identifier name) (.identifier name')
  | terminal {text text' : String} (h : text.length = text'.length) :
      SameShape (.terminal text) (.terminal text')
  | special {text text' : String} (h : text.length = text'.length) :
      SameShape (.special text) (.special text')
  | group {inner inner' : Expr} (h : SameShape inner inner') :
      SameShape (.group inner) (.group inner')
  | repetition {inner inner' : Expr} (h : SameShape inner inner') :
      SameShape (.repetition inner) (.repetition inner')
  | optional {inner inner' : Expr} (h : SameShape inner inner') :
      SameShape (.optional inner) (.optional inner')
  | choice {left left' right right' : Expr} (hleft : SameShape left left')
      (hright : SameShape right right') : SameShape (.choice left right) (.choice left' right')
  | sequence {left left' right right' : Expr} (hleft : SameShape left left')
      (hright : SameShape right right') : SameShape (.sequence left right) (.sequence left' right')

/-- Rules that differ in the characters of their names and texts only. -/
structure Rule.SameShape (r r' : Rule) : Prop where
  name : r.name.length = r'.name.length
  body : r.body.SameShape r'.body

/-- Grammars that differ in the characters of names and texts only. -/
def Grammar.SameShape (g g' : Grammar) : Prop := List.Forall₂ Rule.SameShape g.rules g'.rules

variable {α : Type} [Scalar α] {o : Options α}

/-! ## Nodes -/

namespace Node.Measured

/-- The outline of a measured node. -/
def outline (m : Measured o) : Sized α (Outlines α) := m.figure.outline

theorem outline_sequence {items items' : List (Measured o)}
    (h : items.map outline = items'.map outline) :
    (sequence items).outline = (sequence items').outline := by
  apply Layout.outline_sequenceFigure
  rw [List.map_map, List.map_map]
  exact h

theorem outline_stack {first first' : Measured o} {rest rest' : List (Measured o)}
    (hfirst : first.outline = first'.outline) (hrest : rest.map outline = rest'.map outline) :
    (stack first rest).outline = (stack first' rest').outline := by
  apply Layout.outline_stackFigure hfirst
  rw [List.map_map, List.map_map]
  exact hrest

theorem outline_choice {first first' : Measured o} {others others' : List (Measured o)}
    (hfirst : first.outline = first'.outline)
    (hothers : others.map outline = others'.map outline) :
    (choice first others).outline = (choice first' others').outline := by
  apply Layout.outline_choiceFigure
  rw [Layout.Branches.map, Layout.Branches.map, List.map_map, List.map_map]
  exact congrArg₂ (Layout.Branches.mk []) hfirst hothers

/-- Rows whose items have the same outlines are sequences with the same outlines. -/
theorem outline_sequences {rows rows' : List (List (Measured o))}
    (h : rows.map (List.map outline) = rows'.map (List.map outline)) :
    (rows.map sequence).map outline = (rows'.map sequence).map outline := by
  induction rows generalizing rows' with
  | nil =>
    rw [List.map_eq_nil_iff.1 h.symm]
  | cons row rows ih =>
    obtain ⟨row', rest', rfl, hrow, hrest⟩ := List.map_eq_cons_iff.1 h.symm
    exact congrArg₂ List.cons (outline_sequence hrow.symm) (ih hrest.symm)

theorem outline_ofRows {rows rows' : List (List (Measured o))}
    (h : rows.map (List.map outline) = rows'.map (List.map outline)) :
    (ofRows rows).outline = (ofRows rows').outline := by
  have hrows := outline_sequences h
  match rows, rows' with
  | [], [] => rfl
  | [row], [row'] => exact (List.cons.inj hrows).1
  | row :: next :: rows, row' :: next' :: rows' =>
    obtain ⟨hfirst, hrest⟩ := List.cons.inj hrows
    exact outline_stack hfirst hrest
  | [], _ :: _ | _ :: _, [] => cases h
  | [_], _ :: _ :: _ | _ :: _ :: _, [_] => cases (List.cons.inj h).2

/-- Items with the same outlines are broken into rows at the same places. -/
theorem outline_wrapped (wrap : Option α) {items items' : List (Measured o)}
    (h : items.map outline = items'.map outline) :
    (wrapped wrap items).outline = (wrapped wrap items').outline := by
  cases wrap with
  | none => exact outline_sequence h
  | some limit =>
    have hrows (items : List (Measured o)) :
        (wrapRows spacedWidth limit [] 0 items).map (List.map outline) =
          wrapRows (fun s => s.metrics.spacedWidth) limit [] 0 (items.map outline) :=
      (wrapRows_map outline (fun s => s.metrics.spacedWidth) limit [] 0 items).symm
    apply outline_ofRows
    rw [hrows, hrows, h]

end Node.Measured

namespace Expr

open Node (Measured)
open Node.Measured (outline)

/-- Parts with the same outlines, whatever is around the expressions. -/
structure Parts.SameOutline (wrap : Option α) (p q : Parts o) : Prop where
  node : (p.node wrap).outline = (q.node wrap).outline
  branches : (p.branches wrap).map outline = (q.branches wrap).map outline
  items : (p.items wrap).toList.map outline = (q.items wrap).toList.map outline

namespace Parts

variable {wrap : Option α}

theorem SameOutline.single {m m' : Measured o} (h : m.outline = m'.outline) :
    SameOutline wrap (.single m) (.single m') where
  node := h
  branches := congrArg ([·]) h
  items := congrArg ([·]) h

theorem SameOutline.either {p p' q q' : Parts o} (hp : SameOutline wrap p p')
    (hq : SameOutline wrap q q') : SameOutline wrap (p.either wrap q) (p'.either wrap q') := by
  have hbranches : ((p.either wrap q).branches wrap).map outline =
      ((p'.either wrap q').branches wrap).map outline := by
    rw [branches_either, branches_either, List.map_append, List.map_append, hp.branches,
      hq.branches]
  obtain ⟨hfirst, hothers⟩ := List.cons.inj hbranches
  have hnode := Node.Measured.outline_choice hfirst hothers
  exact ⟨hnode, hbranches, congrArg ([·]) hnode⟩

theorem SameOutline.followedBy {p p' q q' : Parts o} (hp : SameOutline wrap p p')
    (hq : SameOutline wrap q q') :
    SameOutline wrap (p.followedBy wrap q) (p'.followedBy wrap q') := by
  have hitems : ((p.followedBy wrap q).items wrap).toList.map outline =
      ((p'.followedBy wrap q').items wrap).toList.map outline := by
    rw [items_followedBy, items_followedBy, List.map_append, List.map_append, hp.items, hq.items]
  have hnode := Node.Measured.outline_wrapped wrap hitems
  exact ⟨hnode, congrArg ([·]) hnode, hitems⟩

end Parts

/-- **Expressions of the same shape have parts with the same outlines.** -/
theorem sameOutline_parts {e e' : Expr} (h : e.SameShape e') (wrap : Option α) :
    Parts.SameOutline wrap (e.parts o wrap) (e'.parts o wrap) := by
  induction h with
  | identifier h => exact .single (Layout.outline_boxFigure _ _ _ h)
  | terminal h => exact .single (Layout.outline_boxFigure _ _ _ h)
  | special h => exact .single (Layout.outline_remarkFigure _ _ h)
  | group h ih => exact .single ih.node
  | repetition h ih => exact .single (Layout.outline_freeLoopFigure ih.node rfl)
  | optional h ih => exact .single (Layout.outline_optionalFigure ih.node false)
  | choice hleft hright ihl ihr => exact ihl.either ihr
  | sequence hleft hright ihl ihr => exact ihl.followedBy ihr

/-- The nodes of expressions of the same shape. -/
theorem outline_toNode {e e' : Expr} (h : e.SameShape e') (wrap : Option α) :
    ((e.toNode o wrap).figure o).outline = ((e'.toNode o wrap).figure o).outline := by
  have hnode := (sameOutline_parts (o := o) h (wrap.filter fun limit => limit > 0)).node
  rwa [Node.Measured.outline, Node.Measured.outline, Node.Measured.figure_eq,
    Node.Measured.figure_eq] at hnode

end Expr

/-! ## Diagrams -/

/-- The pictures of rows of nodes are made of those of the nodes. -/
theorem Diagram.outline_draw {items items' : List (Node α)}
    (h : (Node.figures o items).map Figure.outline = (Node.figures o items').map Figure.outline)
    (x y : α) (padding : Padding α) :
    ((⟨items, o⟩ : Diagram α).draw x y padding).outline =
      ((⟨items', o⟩ : Diagram α).draw x y padding).outline := by
  have hsizes := Layout.metrics_of_maps h
  have hpieces (x y : α) :
      Layout.exchange Drawable.outlines (Layout.rowPieces true false (Node.figures o items) x y) =
        Layout.exchange Drawable.outlines
          (Layout.rowPieces true false (Node.figures o items') x y) := by
    rw [← Layout.exchange_rowPieces, ← Layout.exchange_rowPieces]
    exact congrArg (Layout.rowPieces true false · x y) h
  simp only [draw, Drawing.outline, Drawing.outlines, Drawing.outlines_eq_map, pieces,
    Placed.outline_drawPieces, canvasWidth, canvasHeight, metrics, hsizes, hpieces]

/-- **Diagrams of rules of the same shape have the same outline.** -/
theorem Rule.outline_draw {r r' : Rule} (h : r.SameShape r') (style : RuleStyle α) (x y : α)
    (padding : Padding α) :
    ((r.diagram o style).draw x y padding).outline =
      ((r'.diagram o style).draw x y padding).outline := by
  have hlabel : (style.label r).length = (style.label r').length := by
    rw [RuleStyle.label, RuleStyle.label]
    split
    · exact h.name
    · rfl
  rw [Rule.diagram_eq, Rule.diagram_eq]
  apply Diagram.outline_draw
  simp only [Node.figures, Node.figure, List.map_cons, List.map_nil,
    Layout.outline_startFigure style.marker hlabel, Expr.outline_toNode h.body style.wrapWidth]

end SyntaxDiagram
