import SyntaxDiagram.Node.Placed

/-!
# Measured nodes

Whoever builds a node from others and has to know their sizes on the way keeps the figures beside
the nodes, so that none is worked out twice.

* `Node.Measured`: a node with its figure.
* `Measured.sequence` and its companions: containers measured from measured items.
* `Measured.spacedWidth_eq`: a measured node is as wide as its node.
-/

namespace SyntaxDiagram

variable {α : Type} [Scalar α]

/-- A node with its figure. -/
structure Node.Measured (o : Options α) where
  node : Node α
  figure : Figure α
  figure_eq : figure = node.figure o

namespace Node.Measured

open Layout

variable {o : Options α}

/-- Measures a node. -/
def ofNode (o : Options α) (n : Node α) : Measured o := ⟨n, n.figure o, rfl⟩

/-- The nodes of measured nodes. -/
def nodes (items : List (Measured o)) : List (Node α) := items.map (·.node)

/-- The width with room for both connectors. -/
def spacedWidth (m : Measured o) : α := m.figure.metrics.spacedWidth

theorem spacedWidth_eq (m : Measured o) : m.spacedWidth = (m.node.metrics o).spacedWidth := by
  rw [spacedWidth, m.figure_eq, metrics]

theorem figures_nodes (items : List (Measured o)) :
    figures o (nodes items) = items.map (·.figure) := by
  simp only [figures_eq_map, nodes, List.map_map, List.map_inj_left, Function.comp_apply]
  exact fun m _ => m.figure_eq.symm

/-- Items in sequence. -/
def sequence (items : List (Measured o)) : Measured o where
  node := .sequence (nodes items)
  figure := sequenceFigure o (items.map (·.figure))
  figure_eq := by rw [Node.figure, figures_nodes]

/-- A stack of lines. -/
def stack (first : Measured o) (rest : List (Measured o)) : Measured o where
  node := .stack first.node (nodes rest)
  figure := stackFigure o first.figure (rest.map (·.figure))
  figure_eq := by rw [Node.figure, figures_nodes, first.figure_eq]

/-- A choice whose first branch is straight. -/
def choice (first : Measured o) (others : List (Measured o)) : Measured o where
  node := .choice [] first.node (nodes others)
  figure := choiceFigure o ⟨[], first.figure, others.map (·.figure)⟩
  figure_eq := by rw [Node.figure, figures_nodes, first.figure_eq, figures]

/-- An item that can be passed by. -/
def optional (item : Measured o) : Measured o where
  node := .optional item.node false
  figure := optionalFigure o item.figure false
  figure_eq := by rw [Node.figure, item.figure_eq]

/-- Any number of items, one after another. -/
def zeroOrMore (item : Measured o) : Measured o where
  node := .zeroOrMore item.node .skip
  figure := freeLoopFigure o item.figure (skipFigure o)
  figure_eq := by rw [Node.figure, item.figure_eq, Node.figure]

end Node.Measured
end SyntaxDiagram
