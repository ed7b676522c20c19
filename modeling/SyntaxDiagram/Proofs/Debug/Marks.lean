import SyntaxDiagram.Proofs.Layout.Lines
import SyntaxDiagram.Proofs.Outline.Drawings

/-!
# Debug marks

With the debug flag a picture records sizes and kinds of its nodes in two attributes, which are all
that the flag adds.

* `Attributes.unmarked`, `Drawing.unmarked`, `Element.unmarked`: what is left without the marks.
* `Attributes.unmarked_debugMarks`: nothing is left of marks that were made.
* `Layout.AllUnmarked`: pieces whose shapes have no marks. `Layout.allUnmarked_boxPieces` and its
  companions are the layouts that draw shapes.
-/

namespace SyntaxDiagram

variable {α ν μ : Type}

/-! ## Attributes -/

namespace Attributes

/-- The names under which sizes and kinds are recorded. -/
def isDebugMark (name : String) : Bool := name = "data-updown" || name = "data-type"

/-- The attributes without sizes and kinds. -/
def unmarked (a : Attributes ν) : Attributes ν := ⟨a.entries.filter fun e => !isDebugMark e.1⟩

theorem unmarked_map (f : ν → μ) (a : Attributes ν) : (a.map f).unmarked = a.unmarked.map f := by
  rw [unmarked, map, List.filter_map]
  rfl

/-- There are no marks to leave out if none of the names is that of a mark. -/
theorem unmarked_eq_self {a : Attributes ν} (h : ∀ name ∈ a.names, isDebugMark name = false) :
    a.unmarked = a := by
  refine congrArg mk (List.filter_eq_self.2 fun e he => ?_)
  rw [h e.1 (List.mem_map_of_mem he)]
  rfl

/-- A mark is left out, whether it is new or has replaced an older one. -/
theorem unmarked_set_mark {name : String} (h : isDebugMark name) (a : Attributes ν) (value : ν) :
    (a.set name value).unmarked = a.unmarked := by
  obtain ⟨entries⟩ := a
  refine congrArg mk ?_
  change (upsertEntries name (fun _ => value) entries).filter _ = entries.filter _
  induction entries with
  | nil => simp [upsertEntries, h]
  | cons e rest ih =>
    rw [upsertEntries]
    split
    · rename_i hname
      simp [hname, h]
    · rw [List.filter_cons, List.filter_cons, ih]

/-- Any other attribute is kept. -/
theorem unmarked_set {name : String} (h : isDebugMark name = false) (a : Attributes ν) (value : ν) :
    (a.set name value).unmarked = a.unmarked.set name value := by
  obtain ⟨entries⟩ := a
  refine congrArg mk ?_
  change (upsertEntries name (fun _ => value) entries).filter _ =
    upsertEntries name (fun _ => value) (entries.filter _)
  induction entries with
  | nil => simp [upsertEntries, h]
  | cons e rest ih =>
    rw [upsertEntries]
    split
    · rename_i hname
      simp [upsertEntries, hname, h]
    · rename_i hname
      rw [List.filter_cons, List.filter_cons, ih]
      split
      · rw [upsertEntries, if_neg hname]
      · rfl

/-- **Nothing is left of marks** that were made, nor of older ones. -/
theorem unmarked_debugMarks (o : Options α) (sizes : List α) (kind : String)
    (a : Attributes (Value α)) : (Layout.debugMarks o sizes kind a).unmarked = a.unmarked := by
  rw [Layout.debugMarks]
  split
  · rw [unmarked_set_mark (by decide), unmarked_set_mark (by decide)]
  · rfl

end Attributes

/-! ## Elements and drawings -/

namespace Element

mutual

/-- The tree without the marks of any element. -/
def unmarked : Element → Element
  | text tag attributes content => text tag attributes.unmarked content
  | parent tag attributes first rest =>
    parent tag attributes.unmarked first.unmarked (unmarkeds rest)

/-- The trees without marks. -/
def unmarkeds : List Element → List Element
  | [] => []
  | e :: rest => e.unmarked :: unmarkeds rest

end

theorem unmarkeds_eq_map (es : List Element) : unmarkeds es = es.map unmarked := by
  induction es with
  | nil => rfl
  | cons e rest ih => rw [unmarkeds, ih, List.map_cons]

theorem unmarked_ofChildren (tag : String) (a : Attributes String) (children : List Element) :
    (ofChildren tag a children).unmarked = ofChildren tag a.unmarked (children.map unmarked) := by
  cases children with
  | nil => rfl
  | cons first rest => rw [ofChildren, unmarked, unmarkeds_eq_map, List.map_cons, ofChildren]

end Element

namespace Drawing

mutual

/-- The picture without the marks of any element. -/
def unmarked : Drawing α → Drawing α
  | text tag attributes content => text tag attributes.unmarked content
  | group tag attributes children => group tag attributes.unmarked (unmarkeds children)

/-- The pictures without marks. -/
def unmarkeds : List (Drawing α) → List (Drawing α)
  | [] => []
  | d :: rest => d.unmarked :: unmarkeds rest

end

theorem unmarkeds_eq_map (ds : List (Drawing α)) : unmarkeds ds = ds.map unmarked := by
  induction ds with
  | nil => rfl
  | cons d rest ih => rw [unmarkeds, ih, List.map_cons]

section Write

variable [Scalar α] (number : α → String)

mutual

/-- **Writing numbers does not look at marks.** -/
theorem unmarked_toElement : (d : Drawing α) →
    (d.toElement number).unmarked = d.unmarked.toElement number
  | text tag attributes content => by
    rw [unmarked, toElement, toElement, Element.unmarked, Attributes.unmarked_map]
  | group tag attributes children => by
    rw [unmarked, toElement, toElement, Element.unmarked_ofChildren, unmarkeds_toElements children,
      Attributes.unmarked_map]

/-- The same for several pictures. -/
theorem unmarkeds_toElements : (ds : List (Drawing α)) →
    (toElements number ds).map Element.unmarked = toElements number (unmarkeds ds)
  | [] => rfl
  | d :: rest => by
    rw [toElements, List.map_cons, unmarked_toElement d, unmarkeds_toElements rest, unmarkeds,
      toElements]

end

end Write

theorem unmarked_linkTo (target : Option String) (d : Drawing α) :
    (linkTo target d).unmarked = linkTo target d.unmarked := by
  unfold linkTo
  split <;> rfl

theorem unmarkeds_titles (content : Option String) :
    ∀ d ∈ (titles content : List (Drawing α)), d.unmarked = d := by
  unfold titles
  split
  · nofun
  · nofun
  · exact List.forall_mem_singleton.2 rfl

end Drawing

/-! ## Pieces -/

variable {β γ : Type}

/-- A piece that is no shape with marks. An item is not looked at. -/
def Piece.Unmarked : Piece α γ → Prop
  | track _ | child _ => True
  | shape drawing => drawing.unmarked = drawing

namespace Layout

/-- Pieces among which there is no shape with marks. -/
def AllUnmarked (pieces : List (Piece α γ)) : Prop := ∀ p ∈ pieces, p.Unmarked

@[simp] theorem allUnmarked_cons (p : Piece α γ) (rest : List (Piece α γ)) :
    AllUnmarked (p :: rest) ↔ p.Unmarked ∧ AllUnmarked rest := List.forall_mem_cons

@[simp] theorem allUnmarked_append (a b : List (Piece α γ)) :
    AllUnmarked (a ++ b) ↔ AllUnmarked a ∧ AllUnmarked b := List.forall_mem_append

/-- There is no shape among lines. -/
theorem AllLines.allUnmarked {radius : α} {pieces : List (Piece α γ)}
    (h : AllLines radius pieces) : AllUnmarked pieces := by
  intro p hp
  cases p with
  | track | child => trivial
  | shape drawing => exact (h _ hp).elim

theorem allUnmarked_shapes {drawings : List (Drawing α)} (h : ∀ d ∈ drawings, d.unmarked = d) :
    AllUnmarked (drawings.map .shape : List (Piece α γ)) :=
  List.forall_mem_map.2 h

variable [Scalar α] (o : Options α) (x y slot : α)

theorem allUnmarked_sides (m : Metrics α) :
    AllUnmarked (sides o m x y slot : List (Piece α γ)) := by
  have hlines : AllLines o.arcRadius (sides o m x y slot : List (Piece α γ)) :=
    allLines_sides o x y slot m
  exact hlines.allUnmarked

theorem allUnmarked_boxPieces (rounded : Bool) (text : String) (given : Attributes String) :
    AllUnmarked (boxPieces o rounded text given x y slot : List (Piece α γ)) := by
  simp only [boxPieces, allUnmarked_append, allUnmarked_cons]
  refine ⟨allUnmarked_sides o x y slot _, ?_, Drawing.unmarked_linkTo _ _,
    allUnmarked_shapes (Drawing.unmarkeds_titles _)⟩
  cases rounded <;> rfl

theorem allUnmarked_remarkPieces (text : String) (href title : Option String) :
    AllUnmarked (remarkPieces o text href title x y slot : List (Piece α γ)) := by
  simp only [remarkPieces, allUnmarked_append, allUnmarked_cons]
  exact ⟨allUnmarked_sides o x y slot _, Drawing.unmarked_linkTo _ _,
    allUnmarked_shapes (Drawing.unmarkeds_titles _)⟩

theorem allUnmarked_startPieces (style : MarkerStyle) (label : String) :
    AllUnmarked (startPieces o style label x y : List (Piece α γ)) := by
  rw [startPieces, allUnmarked_cons]
  refine ⟨trivial, ?_⟩
  split
  · nofun
  · exact List.forall_mem_singleton.2 rfl

theorem allUnmarked_framePieces (item : Sized α β) (label : Option (Sized α β)) :
    AllUnmarked (framePieces o item label x y slot) := by
  simp only [framePieces, allUnmarked_append, allUnmarked_cons]
  refine ⟨allUnmarked_sides o x y slot _, trivial, rfl, ?_⟩
  cases label with
  | none => nofun
  | some l => exact List.forall_mem_singleton.2 trivial

theorem allUnmarked_multiplePieces (kind : ChoiceKind) (b : Branches (Sized α β)) :
    AllUnmarked (multiplePieces o kind b x y slot) := by
  obtain ⟨lines, left, hpieces, hlines⟩ := exists_multiplePieces_eq o x y slot kind b
  rw [hpieces, allUnmarked_append]
  exact ⟨hlines.allUnmarked, List.forall_mem_singleton.2 rfl⟩

end Layout
end SyntaxDiagram
