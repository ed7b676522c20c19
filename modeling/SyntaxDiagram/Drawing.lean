import SyntaxDiagram.Element
import SyntaxDiagram.Path

/-!
# Drawings

Element trees whose attributes still hold numbers and paths.

* `Value`: an attribute value that knows its numbers.
* `Drawing`: the tree, and `Drawing.toElement`, which writes its numbers.
* `Drawing.track`, `Drawing.words`: the two leaves that all pictures are made of.
-/

namespace SyntaxDiagram

/-- An attribute value. -/
inductive Value (α : Type) where
  | text (text : String)
  | number (number : α)
  /-- numbers with a blank between them -/
  | numbers (numbers : List α)
  /-- path data behind a fixed beginning -/
  | path (lead : String) (path : Path α)
  deriving Repr

/-- A value as it is written. -/
def Value.write {α : Type} [Scalar α] (number : α → String) : Value α → String
  | .text t => t
  | .number n => number n
  | .numbers ns => " ".intercalate (ns.map number)
  | .path lead p => lead ++ p.text number

/-- An element tree with typed attributes. -/
inductive Drawing (α : Type) where
  | text (tag : String) (attributes : Attributes (Value α)) (content : String)
  | group (tag : String) (attributes : Attributes (Value α)) (children : List (Drawing α))
  deriving Repr

namespace Drawing

variable {α : Type}

/-- A path without further attributes. -/
def track (p : Path α) : Drawing α := text "path" ⟨[("d", .path "" p)]⟩ ""

/-- A path that carries attributes. -/
def trackWith (attributes : Attributes (Value α)) (p : Path α) : Drawing α :=
  text "path" (attributes.set "d" (.path "" p)) ""

/-- Text at a point. -/
def words (x y : α) (more : List (String × Value α)) (content : String) : Drawing α :=
  text "text" ⟨("x", .number x) :: ("y", .number y) :: more⟩ content

/-- A tooltip. -/
def title (content : String) : Drawing α := text "title" ∅ content

/-- A link around a drawing. -/
def link (target : String) (content : Drawing α) : Drawing α :=
  group "a" ⟨[("xlink:href", .text target)]⟩ [content]

/-- A link around a drawing if there is a target to go to. -/
def linkTo (target : Option String) (content : Drawing α) : Drawing α :=
  match target with
  | none | some "" => content
  | some target => link target content

/-- The tooltip that a text asks for. -/
def titles (content : Option String) : List (Drawing α) :=
  match content with
  | none | some "" => []
  | some content => [title content]

variable [Scalar α] (number : α → String)

mutual

/-- The element tree of a drawing. -/
def toElement : Drawing α → Element
  | text tag attributes content => .text tag (attributes.map (·.write number)) content
  | group tag attributes children =>
    .ofChildren tag (attributes.map (·.write number)) (toElements children)

/-- The element trees of drawings. -/
def toElements : List (Drawing α) → List Element
  | [] => []
  | d :: rest => d.toElement :: toElements rest

end

end Drawing
end SyntaxDiagram
