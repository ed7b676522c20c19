/-!
# The usual stylesheet

* `defaultStyle`: what a drawing looks like unless it is told otherwise.
-/

namespace SyntaxDiagram

/-- A rule of a stylesheet: a selector and its declarations. -/
structure StyleRule where
  selector : String
  declarations : List (String × String)

/-- A rule over several lines, with an empty line behind it. -/
def StyleRule.write (r : StyleRule) : String :=
  r.selector ++ " \x7b\n" ++
    String.join (r.declarations.map fun d => "    " ++ d.1 ++ ": " ++ d.2 ++ ";\n") ++ "\x7d\n\n"

/-- The rules of the usual stylesheet. -/
def styleRules : List StyleRule :=
  [⟨"svg", [("background-color", "hsl(30,20%,95%)")]⟩,
   ⟨"path", [("stroke-width", "3"), ("stroke", "black"), ("fill", "rgba(0,0,0,0)")]⟩,
   ⟨"text",
      [("font", "bold 14px monospace"),
       ("text-anchor", "middle"),
       ("white-space", "pre")]⟩,
   ⟨"text.diagram-text", [("font-size", "12px")]⟩,
   ⟨"text.diagram-arrow", [("font-size", "16px")]⟩,
   ⟨"text.label", [("text-anchor", "start")]⟩,
   ⟨"text.comment", [("font", "italic 12px monospace")]⟩,
   ⟨"rect", [("stroke-width", "3"), ("stroke", "black"), ("fill", "hsl(120,100%,90%)")]⟩,
   ⟨"rect.group-box", [("stroke", "gray"), ("stroke-dasharray", "10 5"), ("fill", "none")]⟩,
   ⟨"path.diagram-text",
      [("stroke-width", "3"),
       ("stroke", "black"),
       ("fill", "white"),
       ("cursor", "help")]⟩,
   ⟨"g.diagram-text:hover path.diagram-text", [("fill", "#eee")]⟩]

/-- The usual stylesheet. -/
def defaultStyle : String := "\n\n" ++ String.join (styleRules.map StyleRule.write)

end SyntaxDiagram
