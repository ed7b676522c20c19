import SyntaxDiagram.Attributes

/-!
# Elements

A markup element holds either text or at least one child element.

* `Element.appendChild`: a child takes the place of any text.
* `Element.render`: the markup of an element, which is that of its parts one after another
  (`Element.render_parent`, `Element.renderAll_cons`).
-/

namespace SyntaxDiagram

/-- A node of a markup tree. -/
inductive Element where
  /-- an element that holds text, perhaps none -/
  | text (tag : String) (attributes : Attributes String) (content : String)
  /-- an element that holds elements -/
  | parent (tag : String) (attributes : Attributes String) (first : Element) (rest : List Element)
  deriving Repr

namespace Element

/-- The name of an element. -/
def tag : Element → String
  | text tag .. | parent tag .. => tag

/-- The attributes of an element. -/
def attributes : Element → Attributes String
  | text _ attributes _ | parent _ attributes .. => attributes

/-- The text of an element that holds text. -/
def text? : Element → Option String
  | text _ _ content => some content
  | parent .. => none

/-- The elements in an element. -/
def children : Element → List Element
  | text .. => []
  | parent _ _ first rest => first :: rest

/-- An element with the given children; without any it holds the empty text. -/
def ofChildren (tag : String) (attributes : Attributes String) : List Element → Element
  | [] => text tag attributes ""
  | first :: rest => parent tag attributes first rest

/-- Adds a last child. Text is given up for it. -/
def appendChild (e child : Element) : Element :=
  ofChildren e.tag e.attributes (e.children ++ [child])

/-- Adds several children behind the others. -/
def appendChildren (e : Element) : List Element → Element
  | [] => e
  | child :: rest => ofChildren e.tag e.attributes (e.children ++ child :: rest)

theorem tag_ofChildren (tag : String) (a : Attributes String) (children : List Element) :
    (ofChildren tag a children).tag = tag := by
  cases children <;> rfl

theorem attributes_ofChildren (tag : String) (a : Attributes String) (children : List Element) :
    (ofChildren tag a children).attributes = a := by
  cases children <;> rfl

theorem children_ofChildren (tag : String) (a : Attributes String) (children : List Element) :
    (ofChildren tag a children).children = children := by
  cases children <;> rfl

/-- Changes the attributes. -/
def mapAttributes (f : Attributes String → Attributes String) : Element → Element
  | text tag attributes content => text tag (f attributes) content
  | parent tag attributes first rest => parent tag (f attributes) first rest

/-- Whether a line break follows the opening tag. -/
def breaksAfterOpening (tag : String) : Bool := tag = "g" || tag = "svg"

/-- The opening tag. -/
def opening (tag : String) (attributes : Attributes String) : String :=
  "<" ++ tag ++ (if attributes.isEmpty then "" else " " ++ attributes.text) ++ ">" ++
    (if breaksAfterOpening tag then "\n" else "")

/-- The closing tag and the line break behind it. -/
def closing (tag : String) : String := "</" ++ tag ++ ">\n"

mutual

/-- The markup of an element behind other markup. -/
def renderOnto (sofar : String) : Element → String
  | text tag attributes content =>
    sofar ++ opening tag attributes ++ Text.escapeContent content ++ closing tag
  | parent tag attributes first rest =>
    renderAllOnto (first.renderOnto (sofar ++ opening tag attributes)) rest ++ closing tag

/-- The markup of elements one after another behind other markup. -/
def renderAllOnto (sofar : String) : List Element → String
  | [] => sofar
  | e :: rest => renderAllOnto (e.renderOnto sofar) rest

end

/-- The markup of an element. -/
def render (e : Element) : String := e.renderOnto ""

/-- The markup of elements one after another. -/
def renderAll (es : List Element) : String := renderAllOnto "" es

mutual

/-- Other markup stays in front as it is. -/
theorem renderOnto_eq (sofar : String) : ∀ e : Element, e.renderOnto sofar = sofar ++ e.render
  | text tag attributes content => by
    simp only [render, renderOnto, String.empty_append, String.append_assoc]
  | parent tag attributes first rest => by
    rw [render, renderOnto, renderOnto, renderAllOnto_eq _ rest,
      renderAllOnto_eq (first.renderOnto ("" ++ _)) rest, renderOnto_eq (sofar ++ _) first,
      renderOnto_eq ("" ++ _) first]
    simp only [String.empty_append, String.append_assoc]

/-- Other markup stays in front of several elements as well. -/
theorem renderAllOnto_eq (sofar : String) :
    ∀ es : List Element, renderAllOnto sofar es = sofar ++ renderAll es
  | [] => by rw [renderAll, renderAllOnto, renderAllOnto, String.append_empty]
  | e :: rest => by
    rw [renderAll, renderAllOnto, renderAllOnto, renderAllOnto_eq _ rest,
      renderAllOnto_eq (e.renderOnto "") rest, renderOnto_eq sofar e, renderOnto_eq "" e]
    simp only [String.empty_append, String.append_assoc]

end

theorem render_text (tag : String) (a : Attributes String) (content : String) :
    (text tag a content).render =
      opening tag a ++ Text.escapeContent content ++ closing tag := by
  simp only [render, renderOnto, String.empty_append]

theorem render_parent (tag : String) (a : Attributes String) (first : Element)
    (rest : List Element) :
    (parent tag a first rest).render =
      opening tag a ++ (first.render ++ renderAll rest) ++ closing tag := by
  rw [render, renderOnto, renderAllOnto_eq, renderOnto_eq]
  simp only [String.empty_append, String.append_assoc]

theorem renderAll_nil : renderAll [] = "" := rfl

theorem renderAll_cons (e : Element) (rest : List Element) :
    renderAll (e :: rest) = e.render ++ renderAll rest := by
  rw [renderAll, renderAllOnto, renderAllOnto_eq, renderOnto_eq, String.empty_append]

end Element
end SyntaxDiagram
