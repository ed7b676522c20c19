import SyntaxDiagram.Main
import SyntaxDiagram.Path.Names
import SyntaxDiagram.Proofs.Language
import SyntaxDiagram.Proofs.Translation
import SyntaxDiagram.Proofs.Derivation
import SyntaxDiagram.Proofs.Markup.Reader
import SyntaxDiagram.Proofs.Markup.RoundTrip
import SyntaxDiagram.Proofs.Dom.Requests
import SyntaxDiagram.Proofs.Dom.Trees
import SyntaxDiagram.Proofs.Layout.Contents
import SyntaxDiagram.Proofs.Placement
import SyntaxDiagram.Proofs.Exact
import SyntaxDiagram.Proofs.Layout.Boxes
import SyntaxDiagram.Proofs.Layout.Rows
import SyntaxDiagram.Proofs.Layout.Lines
import SyntaxDiagram.Proofs.Layout.Extents
import SyntaxDiagram.Proofs.Layout.BranchExtents
import SyntaxDiagram.Proofs.Layout.Choices
import SyntaxDiagram.Proofs.Layout.Loops
import SyntaxDiagram.Proofs.RuleDiagram
import SyntaxDiagram.Proofs.Containment
import SyntaxDiagram.Proofs.Parser.Acceptance
import SyntaxDiagram.Proofs.Parser.Offences
import SyntaxDiagram.Proofs.Lexemes
import SyntaxDiagram.Proofs.Names
import SyntaxDiagram.Proofs.Notation
import SyntaxDiagram.Proofs.Characters
import SyntaxDiagram.Proofs.Xml.Grammar
import SyntaxDiagram.Proofs.Xml.Drawings
import SyntaxDiagram.Proofs.Xml.Layouts
import SyntaxDiagram.Proofs.Xml.Nodes
import SyntaxDiagram.Proofs.Xml.Diagrams
import SyntaxDiagram.Proofs.Xml.Rules
import SyntaxDiagram.Proofs.Xml.Zones
import SyntaxDiagram.Proofs.Xml.Descriptions
import SyntaxDiagram.Proofs.Patterns
import SyntaxDiagram.Proofs.Pieces
import SyntaxDiagram.Proofs.Rendering
import SyntaxDiagram.Proofs.Outline.Markup
import SyntaxDiagram.Proofs.Connection.Branches
import SyntaxDiagram.Proofs.Connection.Rules
import SyntaxDiagram.Proofs.Sheets
import SyntaxDiagram.Proofs.Parser.Calls
import SyntaxDiagram.Proofs.CommandLine.Renderings
import SyntaxDiagram.Proofs.Slots
import SyntaxDiagram.Proofs.Movement.Nodes
import SyntaxDiagram.Proofs.CommandLine.Outputs
import SyntaxDiagram.Proofs.CommandLine.Fences
import SyntaxDiagram.Proofs.Descriptions.Diagrams
import SyntaxDiagram.Proofs.PathData.Grammar
import SyntaxDiagram.Proofs.PathData.Numbers
import SyntaxDiagram.Proofs.Pictures
import SyntaxDiagram.Proofs.Texts
import SyntaxDiagram.Proofs.Connection.Drawn
import SyntaxDiagram.Proofs.PathData.Commands
import SyntaxDiagram.Proofs.PathData.Pictures
import SyntaxDiagram.Proofs.Descriptions.Texts
import SyntaxDiagram.Proofs.Connection.Settled
import SyntaxDiagram.Proofs.Connection.Strokes
import SyntaxDiagram.Proofs.Connection.Stacks
import SyntaxDiagram.Proofs.Connection.Crossings
import SyntaxDiagram.Proofs.Connection.Rails
import SyntaxDiagram.Proofs.Connection.Clearance
import SyntaxDiagram.Proofs.Connection.Columns
import SyntaxDiagram.Proofs.Connection.Loops
import SyntaxDiagram.Proofs.Connection.SkipRows
import SyntaxDiagram.Proofs.Connection.Sequences
import SyntaxDiagram.Proofs.Wrapping.Rules
import SyntaxDiagram.Proofs.Reports
import SyntaxDiagram.Proofs.Attributes
import SyntaxDiagram.Proofs.Projection
import SyntaxDiagram.Proofs.Debug.Diagrams
