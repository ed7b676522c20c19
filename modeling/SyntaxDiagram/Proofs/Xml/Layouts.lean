import SyntaxDiagram.Proofs.Layout.Lines
import SyntaxDiagram.Proofs.Xml.Drawings

/-!
# Legal pictures

The lines and shapes that layouts draw themselves are legal. What the items in them draw is not
looked at here.

* `Layout.AllLegal`: pieces that are legal as far as they are not items.
* `Layout.AllLines.allLegal`: lines that are made by calls are legal.
* `Layout.allLegal_boxPieces` and its companions: the pieces of the layouts that draw shapes.
-/

namespace SyntaxDiagram

open Text (Only isPlain)

variable {α β γ δ : Type} {P : Char → Prop}

namespace Path

@[simp] theorem legal_raw (p : Path α) (data : String) :
    (p.raw data).Legal P ↔ p.Legal P ∧ Only P data := by
  simp [raw, Command.Legal]

/-- There is no raw data in a path that is made by calls. -/
theorem IsCalled.legal {p : Path α} {radius : α} (h : p.IsCalled radius) : p.Legal P := by
  intro c hc
  have hcall := h c hc
  cases c with
  | raw data => exact hcall.elim
  | _ => trivial

end Path

/-- A line or shape that is legal. An item is not looked at. -/
def Piece.Legal (P : Char → Prop) : Piece α γ → Prop
  | track path => path.Legal P
  | child _ => True
  | shape drawing => drawing.Legal P

namespace Layout

/-- Lines and shapes that are legal. -/
def AllLegal (P : Char → Prop) (pieces : List (Piece α γ)) : Prop := ∀ p ∈ pieces, p.Legal P

@[simp] theorem allLegal_nil : AllLegal P ([] : List (Piece α γ)) := nofun

@[simp] theorem allLegal_cons (p : Piece α γ) (rest : List (Piece α γ)) :
    AllLegal P (p :: rest) ↔ p.Legal P ∧ AllLegal P rest := List.forall_mem_cons

@[simp] theorem allLegal_append (a b : List (Piece α γ)) :
    AllLegal P (a ++ b) ↔ AllLegal P a ∧ AllLegal P b := List.forall_mem_append

@[simp] theorem legal_track (path : Path α) :
    (Piece.track path : Piece α γ).Legal P ↔ path.Legal P := .rfl

@[simp] theorem legal_shape (drawing : Drawing α) :
    (Piece.shape drawing : Piece α γ).Legal P ↔ drawing.Legal P := .rfl

/-- Lines are legal. -/
theorem AllLines.allLegal {radius : α} {pieces : List (Piece α γ)} (h : AllLines radius pieces) :
    AllLegal P pieces := by
  intro p hp
  have hline := h p hp
  cases p with
  | track path => exact Path.IsCalled.legal hline
  | child content => trivial
  | shape drawing => exact hline.elim

/-- Other content stands where the content stood. -/
theorem allLegal_map (f : γ → δ) (pieces : List (Piece α γ)) :
    AllLegal P (pieces.map (Piece.map f)) ↔ AllLegal P pieces := by
  induction pieces with
  | nil => simp
  | cons p rest ih => cases p <;> simp [Piece.map, Piece.Legal, ih]

/-! ## Attributes, links and tooltips -/

theorem legal_debugMarks (o : Options α) (sizes : List α) {kind : String} (hkind : Only P kind)
    {a : Attributes (Value α)} (ha : a.Legal (·.Legal P)) :
    (debugMarks o sizes kind a).Legal (·.Legal P) := by
  rw [debugMarks]
  split
  · exact (ha.set (by decide) (Value.legal_numbers sizes)).set (by decide) hkind
  · exact ha

theorem legal_linkTo {target : Option String} (htarget : ∀ t ∈ target, Only P t)
    {content : Drawing α} (hcontent : content.Legal P) :
    (Drawing.linkTo target content).Legal P := by
  unfold Drawing.linkTo
  split
  · exact hcontent
  · exact hcontent
  · rename_i target _
    refine ⟨by decide, ?_, hcontent, trivial⟩
    exact .of_names ["xlink:href"] rfl (by decide) (by decide) (by simpa using htarget _ rfl)

/-- The target of a link is one of its values. An empty target makes none. -/
theorem only_of_legal_linkTo {target : Option String} {content : Drawing α}
    (h : (Drawing.linkTo target content).Legal P) : ∀ t ∈ target, Only P t := by
  unfold Drawing.linkTo at h
  split at h
  · nofun
  · rintro t ⟨⟩
    exact Text.only_empty
  · rintro t ⟨⟩
    exact h.2.1.values _ List.mem_cons_self

theorem allLegal_titles {content : Option String} (h : ∀ t ∈ content, Only (Xml.isChar ·) t) :
    AllLegal P ((Drawing.titles content).map Piece.shape : List (Piece α γ)) := by
  unfold Drawing.titles
  split
  · exact allLegal_nil
  · exact allLegal_nil
  · rename_i content _
    simp only [List.map_cons, List.map_nil, allLegal_cons, legal_shape]
    exact ⟨⟨by decide, Attributes.legal_empty, h _ rfl⟩, allLegal_nil⟩

theorem legal_blockDrawing (x y slot : α) : (blockDrawing x y slot).Legal P := by
  refine ⟨by decide, ?_, trivial⟩
  exact .of_names ["x", "y", "width"] rfl (by decide) (by decide) (by simp)

variable [Scalar α] (o : Options α) (x y slot : α)

theorem allLegal_sides (m : Metrics α) :
    AllLegal P (sides o m x y slot : List (Piece α γ)) := by
  have hlines : AllLines o.arcRadius (sides o m x y slot : List (Piece α γ)) :=
    allLines_sides o x y slot m
  exact hlines.allLegal

/-! ## Marks -/

section Marks

variable (hP : Xml.Suits P)
include hP

theorem allLegal_boxPieces (rounded : Bool) {text : String} (htext : Only (Xml.isChar ·) text)
    {given : Attributes String} (hgiven : given.Legal (Only P)) :
    AllLegal P (boxPieces o rounded text given x y slot : List (Piece α γ)) := by
  have hhref : ∀ t ∈ given.get? "href", Only P t := fun t ht => hgiven.get? ht
  have htitle : ∀ t ∈ given.get? "title", Only (Xml.isChar ·) t := fun t ht =>
    (hgiven.get? ht).imp hP.isChar
  have hten : Only P "10" := hP.only_of_all (by decide)
  simp only [boxPieces, allLegal_append, allLegal_cons, legal_shape, allLegal_sides, true_and]
  refine ⟨⟨by decide, ?_, Text.only_empty⟩, legal_linkTo hhref ⟨by decide, ?_, htext⟩,
    allLegal_titles htitle⟩
  · cases rounded with
    | true =>
      exact .of_names ["x", "y", "width", "height", "rx", "ry"] rfl (by decide) (by decide)
        (by simpa using hten)
    | false =>
      exact .of_names ["x", "y", "width", "height"] rfl (by decide) (by decide) (by simp)
  · exact .of_names ["x", "y"] rfl (by decide) (by decide) (by simp)

theorem allLegal_remarkPieces {text : String} (htext : Only (Xml.isChar ·) text)
    {href title : Option String} (hhref : ∀ t ∈ href, Only P t)
    (htitle : ∀ t ∈ title, Only (Xml.isChar ·) t) :
    AllLegal P (remarkPieces o text href title x y slot : List (Piece α γ)) := by
  have hcls : Only P "comment" := hP.only_of_all (by decide)
  simp only [remarkPieces, allLegal_append, allLegal_cons, legal_shape, allLegal_sides, true_and]
  refine ⟨legal_linkTo hhref ⟨by decide, ?_, htext⟩, allLegal_titles htitle⟩
  exact .of_names ["x", "y", "class"] rfl (by decide) (by decide) (by simpa using hcls)

theorem allLegal_startPieces (style : MarkerStyle) {label : String}
    (hlabel : Only (Xml.isChar ·) label) :
    AllLegal P (startPieces o style label x y : List (Piece α γ)) := by
  have hticks :
      ((startTicks style (start x (y - 10))).right (startSize o label).width).IsCalled x := by
    simp [isCalled_startTicks]
  have hstyle : Only P "text-anchor:start" := hP.only_of_all (by decide)
  rw [startPieces, allLegal_cons, legal_track]
  refine ⟨hticks.legal, ?_⟩
  split
  · exact allLegal_nil
  · simp only [allLegal_cons, legal_shape, allLegal_nil, and_true]
    refine ⟨by decide, ?_, hlabel⟩
    exact .of_names ["x", "y", "style"] rfl (by decide) (by decide) (by simpa using hstyle)

theorem legal_endDrawing (style : MarkerStyle) : (endDrawing o style x y).Legal P := by
  have hpath : (endPath style x y).IsCalled x := isCalled_endPath x y style
  have hvalue : (Value.path " " (endPath style x y)).Legal P :=
    ⟨hP.only_of_all (by decide), hpath.legal⟩
  have hkind : Only P "end" := hP.only_of_all (by decide)
  have hmarks := legal_debugMarks o [10, 10] hkind Attributes.legal_empty
  exact ⟨by decide, hmarks.set (by decide) hvalue, Text.only_empty⟩

/-! ## Frames and badges -/

theorem allLegal_framePieces (item : Sized α β) (label : Option (Sized α β)) :
    AllLegal P (framePieces o item label x y slot) := by
  have hcls : Only P "group-box" := hP.only_of_all (by decide)
  simp only [framePieces, allLegal_append, allLegal_cons, legal_shape, allLegal_sides, true_and]
  refine ⟨trivial, ⟨by decide, ?_, Text.only_empty⟩, ?_⟩
  · exact .of_names ["x", "y", "width", "height", "rx", "ry", "class"] rfl (by decide) (by decide)
      (by simpa using hcls)
  · cases label with
    | none => exact allLegal_nil
    | some l => exact (allLegal_cons ..).2 ⟨trivial, allLegal_nil⟩

theorem legal_badgeDrawing (kind : ChoiceKind) (m : Metrics α) :
    (badgeDrawing kind m x y).Legal P := by
  have htext : Only P "diagram-text" := hP.only_of_all (by decide)
  have hwidth : Only P "stroke-width: 1.75" := hP.only_of_all (by decide)
  have hcls : (⟨[("class", .text "diagram-text")]⟩ : Attributes (Value α)).Legal (·.Legal P) :=
    .of_names ["class"] rfl (by decide) (by decide) (by simpa using htext)
  have harrow : (⟨[("style", .text "stroke-width: 1.75")]⟩ : Attributes (Value α)).Legal
      (·.Legal P) :=
    .of_names ["style"] rfl (by decide) (by decide) (by simpa using hwidth)
  have htrack {a : Attributes (Value α)} (ha : a.Legal (·.Legal P)) (x y : α) {data : String}
      (hdata : data.toList.all isPlain = true) :
      (Drawing.trackWith a ((start x y).raw data)).Legal P := by
    refine ⟨by decide, ha.set (by decide) ?_, Text.only_empty⟩
    have hstart : (start x y).IsCalled x := Path.isCalled_start x y
    simpa [hstart.legal] using hP.only_of_all hdata
  have htooltip : Only (Xml.isChar ·) (ChoiceKind.tooltip kind) := by
    cases kind <;> exact Text.only_of_all (by decide)
  have hbadge : Only (Xml.isChar ·) (ChoiceKind.badge kind) := by
    cases kind <;> exact Text.only_of_all (by decide)
  refine ⟨by decide, hcls, ?_⟩
  rw [Drawing.allLegal_iff]
  simp only [List.forall_mem_cons]
  refine ⟨⟨by decide, Attributes.legal_empty, htooltip⟩, htrack hcls _ _ (by decide),
    ⟨by decide, ?_, hbadge⟩, htrack hcls _ _ (by decide), htrack harrow _ _ (by decide), nofun⟩
  exact .of_names ["x", "y", "class"] rfl (by decide) (by decide) (by simpa using htext)

theorem allLegal_multiplePieces (kind : ChoiceKind) (b : Branches (Sized α β)) :
    AllLegal P (multiplePieces o kind b x y slot) := by
  obtain ⟨lines, left, hpieces, hlines⟩ := exists_multiplePieces_eq o x y slot kind b
  rw [hpieces, allLegal_append, allLegal_cons, legal_shape]
  exact ⟨hlines.allLegal, legal_badgeDrawing _ _ hP kind _, allLegal_nil⟩

end Marks

end Layout
end SyntaxDiagram
