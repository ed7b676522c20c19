import SyntaxDiagram.Drawing

/-!
# Outlines

What is left of a picture when nobody can read the texts in it: its tags, its attributes and what is
in what.

* `Element.outline`, `Drawing.outline`: every text leaf is emptied.
* `Drawing.outline_toElement`: writing the numbers of a picture does not look at its texts.
-/

namespace SyntaxDiagram

/-! ## Elements and drawings -/

namespace Element

mutual

/-- The tree with all texts left out. -/
def outline : Element → Element
  | text tag attributes _ => text tag attributes ""
  | parent tag attributes first rest => parent tag attributes first.outline (outlines rest)

/-- The trees with all texts left out. -/
def outlines : List Element → List Element
  | [] => []
  | e :: rest => e.outline :: outlines rest

end

theorem outlines_eq_map (es : List Element) : outlines es = es.map outline := by
  induction es with
  | nil => rfl
  | cons e rest ih => rw [outlines, ih, List.map_cons]

theorem outline_ofChildren (tag : String) (a : Attributes String) (children : List Element) :
    (ofChildren tag a children).outline = ofChildren tag a (children.map outline) := by
  cases children with
  | nil => rfl
  | cons first rest => rw [ofChildren, outline, outlines_eq_map, List.map_cons, ofChildren]

end Element

namespace Drawing

variable {α : Type}

mutual

/-- The picture with all texts left out. -/
def outline : Drawing α → Drawing α
  | text tag attributes _ => text tag attributes ""
  | group tag attributes children => group tag attributes (outlines children)

/-- The pictures with all texts left out. -/
def outlines : List (Drawing α) → List (Drawing α)
  | [] => []
  | d :: rest => d.outline :: outlines rest

end

theorem outlines_eq_map (ds : List (Drawing α)) : outlines ds = ds.map outline := by
  induction ds with
  | nil => rfl
  | cons d rest ih => rw [outlines, ih, List.map_cons]

section Write

variable [Scalar α] (number : α → String)

mutual

/-- **Writing numbers does not look at texts.** -/
theorem outline_toElement : (d : Drawing α) →
    (d.toElement number).outline = d.outline.toElement number
  | text tag attributes content => by
    rw [outline, toElement, toElement, Element.outline]
  | group tag attributes children => by
    rw [outline, toElement, toElement, Element.outline_ofChildren, outlines_toElements children]

/-- The same for several pictures. -/
theorem outlines_toElements : (ds : List (Drawing α)) →
    (toElements number ds).map Element.outline = toElements number (outlines ds)
  | [] => rfl
  | d :: rest => by
    rw [toElements, List.map_cons, outline_toElement d, outlines_toElements rest, outlines,
      toElements]

end

end Write

end Drawing

end SyntaxDiagram
