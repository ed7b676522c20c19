import SyntaxDiagram.Config
import SyntaxDiagram.Description.Reader
import SyntaxDiagram.Grammar.Parser

/-!
# Rendering

From texts to markup.

* `Diagram.render`: the markup of a diagram.
* `render`, `renderRule`: the markup of all rules of a grammar, or of one.
* `renderDescription`: the markup of a description.
* `document`: pieces of markup as one text.
-/

namespace SyntaxDiagram

/-- The markup of something that has a name. -/
structure Rendered where
  name : String
  svg : String
  deriving Repr, DecidableEq

/-- The markup of a diagram. -/
def Diagram.render (config : RenderConfig) (d : Diagram Float) : String :=
  let picture := Sheet.picture d 0 0 config.padding
  if config.standalone then Sheet.standalone picture config.style else picture.render

/-- The markup of a rule. -/
def Rule.render (config : Config) (r : Rule) : Rendered :=
  ⟨r.name, (r.diagram config.options config.render.toRuleStyle).render config.render⟩

/-- The markup of all rules of a grammar. -/
def render (config : Config) (source : String) : Except ParseError (List Rendered) := do
  return (← Grammar.parse source).rules.map (Rule.render config)

/-- The markup of the first rule of a name, if there is one. -/
def renderRule (config : Config) (source name : String) : Except ParseError (Option Rendered) := do
  return ((← Grammar.parse source).rule? name).map (Rule.render config)

/-- The markup of a description. -/
def renderDescription (config : Config) (text : String) : Except Error String := do
  return (← Description.readDiagram config.options text).render config.render

/-- Pieces of markup one after another, each on lines of its own. -/
def document (pieces : List Rendered) : String :=
  String.join (pieces.map fun p => if p.svg.endsWith "\n" then p.svg else p.svg ++ "\n")

end SyntaxDiagram
