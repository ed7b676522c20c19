import SyntaxDiagram.Grammar.Diagram

/-!
# Configurations

* `RenderConfig`: what is made of a diagram.
* `Config`: the measures of a drawing and what is made of it.
-/

namespace SyntaxDiagram

/-- What is made of a diagram. -/
structure RenderConfig extends RuleStyle Float where
  padding : Padding Float := {}
  /-- whether the markup can stand in a file of its own -/
  standalone : Bool := true
  /-- the stylesheet of standalone markup -/
  style : Option String := none
  /-- the width of a canvas for drawings without a size -/
  width : Float32 := 1200
  /-- the height of that canvas -/
  height : Float32 := 800
  background : String := "#FFFFFF"

/-- A whole configuration. -/
structure Config where
  options : Options Float := .default
  render : RenderConfig := {}

end SyntaxDiagram
