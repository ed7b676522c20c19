import Mathlib.Data.List.Perm.Basic
import SyntaxDiagram.Proofs.Layout.Contents
import SyntaxDiagram.Proofs.Walk
import SyntaxDiagram.Diagram

/-!
# Every node is placed once

Putting a node at a place puts all nodes in it at places of their own, down to the leaves.

* `Placed.nodes`, `Placed.walk`: the nodes right in a placed node, and all nodes in it.
* `Figure.Faithful`: a figure that keeps its size and kind when it is placed, and places each of
  the figures in it once.
* `Node.flatMap_nodes_place`: what placed nodes come to, if each comes to what its node does.
* `Node.walk_place`: the nodes in a placed node are those of the tree, with their kinds and sizes.
* `Diagram.walk_placed`: the same for a diagram.
-/

namespace SyntaxDiagram

variable {α : Type}

namespace Placed

/-- The nodes that are drawn right in a node. -/
def nodes : Placed α → List (Placed α)
  | group _ _ pieces => Layout.contents pieces
  | bare .. => []

mutual

/-- A placed node and all nodes that are drawn in it. -/
def walk : Placed α → List (Placed α)
  | group site attributes pieces => group site attributes pieces :: walkPieces pieces
  | bare site drawing => [bare site drawing]

/-- The placed nodes among pieces and all nodes that are drawn in them. -/
def walkPieces : List (Piece α (Placed α)) → List (Placed α)
  | [] => []
  | p :: rest => walkPiece p ++ walkPieces rest

/-- The placed node that a piece may be and all nodes that are drawn in it. -/
def walkPiece : Piece α (Placed α) → List (Placed α)
  | .child content => content.walk
  | .track _ | .shape _ => []

end

theorem walkPieces_eq (pieces : List (Piece α (Placed α))) :
    walkPieces pieces = (Layout.contents pieces).flatMap walk := by
  induction pieces with
  | nil => rfl
  | cons p rest ih =>
    cases p with
    | track path => exact ih
    | shape drawing => exact ih
    | child content =>
      rw [walkPieces, walkPiece, ih, Layout.contents_child, List.flatMap_cons]

/-- A placed node comes before what is drawn in it. -/
theorem walk_eq (p : Placed α) : p.walk = p :: p.nodes.flatMap walk := by
  cases p with
  | group site attributes pieces => rw [walk, walkPieces_eq, nodes]
  | bare site drawing => rfl

end Placed

/-- A figure that keeps its size and kind when it is placed, and in which each of the figures in it
is placed once. -/
structure Figure.Faithful (f : Figure α) : Prop where
  site (x y slot : α) : (f.item.place x y slot).site = ⟨⟨f.metrics, f.item.kind⟩, x, y, slot⟩
  nodes (x y slot : α) : ∃ sites : List (Site α (Drawable α)),
    (f.item.place x y slot).nodes = sites.map Layout.settle ∧
      (sites.map Site.toSized).Perm f.item.inside

namespace Layout

theorem faithful_figure {kind : Node.Kind} {m : Metrics α} {attributes : Attributes (Value α)}
    {inside : List (Figure α)} {pieces : (x y slot : α) → List (Piece α (Site α (Drawable α)))}
    (h : ∀ x y slot, ((contents (pieces x y slot)).map Site.toSized).Perm inside) :
    (figure kind m attributes inside pieces).Faithful where
  site _ _ _ := rfl
  nodes x y slot := ⟨contents (pieces x y slot), contents_map _ _, h x y slot⟩

theorem faithful_bareFigure (kind : Node.Kind) (m : Metrics α)
    (drawing : (x y slot : α) → Drawing α) : (bareFigure kind m drawing).Faithful where
  site _ _ _ := rfl
  nodes _ _ _ := ⟨[], rfl, .nil⟩

end Layout

variable [Scalar α] (o : Options α)

open Layout

theorem Node.faithful_figure (n : Node α) : (n.figure o).Faithful := by
  cases n with
  | terminal text attributes =>
    rw [figure]
    exact Layout.faithful_figure fun x y slot =>
      .of_eq (congrArg (List.map _) (contents_boxPieces o x y slot true text attributes))
  | nonTerminal text attributes =>
    rw [figure]
    exact Layout.faithful_figure fun x y slot =>
      .of_eq (congrArg (List.map _) (contents_boxPieces o x y slot false text attributes))
  | comment text href title =>
    rw [figure]
    exact Layout.faithful_figure fun x y slot =>
      .of_eq (congrArg (List.map _) (contents_remarkPieces o x y slot text href title))
  | skip =>
    rw [figure]
    exact Layout.faithful_figure fun _ _ _ => .nil
  | start style label =>
    rw [figure]
    exact Layout.faithful_figure fun x y _ =>
      .of_eq (congrArg (List.map _) (contents_startPieces o x y style label))
  | finish style =>
    rw [figure]
    exact faithful_bareFigure _ _ _
  | sequence items =>
    rw [figure]
    exact Layout.faithful_figure fun x y slot => .of_eq (contents_sequencePieces o x y slot _)
  | stack first rest =>
    rw [figure]
    exact Layout.faithful_figure fun x y slot => .of_eq (contents_stackPieces o x y slot _ _)
  | choice above straight below =>
    rw [figure]
    refine Layout.faithful_figure fun x y slot => ?_
    rw [contents_choicePieces]
    exact (List.reverse_perm _).append_right _
  | optional item bypass =>
    rw [figure]
    refine Layout.faithful_figure fun x y slot => ?_
    rw [contents_choicePieces]
    cases bypass <;> exact .refl _
  | oneOrMore item separator =>
    rw [figure]
    exact Layout.faithful_figure fun x y slot => .of_eq (contents_loopPieces o x y slot _ _)
  | zeroOrMore item separator =>
    rw [figure]
    refine Layout.faithful_figure fun x y slot => ?_
    rw [contents_choicePieces]
    exact .refl _
  | group item label =>
    rw [figure]
    exact Layout.faithful_figure fun x y slot => .of_eq (contents_framePieces o x y slot _ _)
  | horizontalChoice first middles last =>
    rw [figure]
    exact Layout.faithful_figure fun x y slot => .of_eq (contents_sidePieces o x y slot _)
  | multipleChoice kind above straight below =>
    rw [figure]
    refine Layout.faithful_figure fun x y slot => ?_
    rw [contents_multiplePieces]
    exact (List.reverse_perm _).append_right _
  | alternatingSequence first second =>
    rw [figure]
    exact Layout.faithful_figure fun x y slot => .of_eq (contents_crossingPieces o x y slot _ _)
  | optionalSequence first second rest =>
    rw [figure]
    exact Layout.faithful_figure fun x y slot => .of_eq (contents_skipRowPieces o x y slot _ _)
  | verticalSequence first rest =>
    rw [figure]
    exact Layout.faithful_figure fun x y slot => .of_eq (contents_columnPieces o x y slot _ _)
  | block metrics =>
    rw [figure]
    exact faithful_bareFigure _ _ _

/-- A choice is laid out from the figures of its branches. -/
theorem Node.figure_choice (b : Branches (Node α)) :
    (choice b.above b.straight b.below).figure o = choiceFigure o (b.map (figure o)) := by
  rw [figure, figures_eq_map, figures_eq_map]
  rfl

/-- A multiple choice is laid out from the figures of its branches. -/
theorem Node.figure_multipleChoice (kind : ChoiceKind) (b : Branches (Node α)) :
    (multipleChoice kind b.above b.straight b.below).figure o =
      multipleFigure o kind (b.map (figure o)) := by
  rw [figure, figures_eq_map, figures_eq_map]
  rfl

/-- The kind and the size of a node. -/
def Node.sized (n : Node α) : Sized α Node.Kind := ⟨n.metrics o, n.kind⟩

/-- The kind and the size of a placed node. -/
def Placed.sized (p : Placed α) : Sized α Node.Kind := p.site.toSized

theorem Placed.sized_place (n : Node α) (x y slot : α) :
    (n.place o x y slot).sized = n.sized o := by
  rw [Placed.sized, Node.place, (n.faithful_figure o).site, n.kind_figure]
  rfl

variable {o} in
/-- At its site a figure keeps its size and kind. -/
theorem Layout.site_settle {n : Node α} {s : Site α (Drawable α)} (h : s.toSized = n.figure o) :
    (settle s).site = ⟨⟨s.metrics, s.item.kind⟩, s.x, s.y, s.slot⟩ := by
  have hfaithful := (n.faithful_figure o).site s.x s.y s.slot
  rw [← h] at hfaithful
  exact hfaithful

variable {o} in
/-- At its site a figure is settled as its node is placed. -/
theorem Layout.settle_eq_place {n : Node α} {s : Site α (Drawable α)}
    (h : s.toSized = n.figure o) : settle s = n.place o s.x s.y s.slot := by
  rw [settle, Node.place, ← h]

section Contents

variable {β : Type} (f : Placed α → List β) (g : Node α → List β)

/-- What nodes come to when they are placed is what they come to at the sites of their figures. -/
theorem Layout.flatMap_settle {nodes : List (Node α)} {sites : List (Site α (Drawable α))}
    (hsites : sites.map Site.toSized = nodes.map (Node.figure o))
    (h : ∀ n ∈ nodes, ∀ x y slot, (f (n.place o x y slot)).Perm (g n)) :
    ((sites.map settle).flatMap f).Perm (nodes.flatMap g) := by
  induction nodes generalizing sites with
  | nil =>
    rw [List.map_nil, List.map_eq_nil_iff] at hsites
    rw [hsites]
    exact .nil
  | cons n rest ih =>
    obtain ⟨s, others, rfl, hs, hothers⟩ := List.map_eq_cons_iff.1 hsites
    rw [List.map_cons, List.flatMap_cons, List.flatMap_cons]
    refine .append ?_ (ih hothers fun m hm => h m (List.mem_cons_of_mem _ hm))
    -- the figure at a site is that of its node, wherever the site is
    rw [settle_eq_place hs]
    exact h n List.mem_cons_self s.x s.y s.slot

/-- The nodes right in a placed node come to what the children of the node come to. -/
theorem Node.flatMap_nodes_place (n : Node α) (x y slot : α)
    (h : ∀ c ∈ n.children, ∀ x y slot, (f (c.place o x y slot)).Perm (g c)) :
    ((n.place o x y slot).nodes.flatMap f).Perm (n.children.flatMap g) := by
  obtain ⟨sites, hnodes, hinside⟩ := (n.faithful_figure o).nodes x y slot
  rw [n.inside_figure] at hinside
  -- the children in the order in which they are drawn
  obtain ⟨drawn, hdrawn, hperm⟩ : ∃ drawn : List (Node α),
      sites.map Site.toSized = drawn.map (figure o) ∧ drawn.Perm n.children := by
    exact (congrFun (congrFun (List.eq_map_comp_perm (figure o)) _) _).mpr hinside
  rw [Node.place, hnodes]
  exact (flatMap_settle o f g hdrawn fun c hc => h c (hperm.subset hc)).trans
    (hperm.flatMap_right _)

end Contents

/-- **Every node is placed once**: the nodes that are drawn in a placed node are those of the tree,
with the same kinds and sizes. Only branches above a straight one are drawn in another order. -/
theorem Node.walk_place (n : Node α) (x y slot : α) :
    ((n.place o x y slot).walk.map Placed.sized).Perm (n.walk.map (Node.sized o)) := by
  induction n using Node.induction generalizing x y slot with
  | h n ih =>
    rw [Placed.walk_eq, n.walk_eq, List.map_cons, List.map_cons, Placed.sized_place,
      List.map_flatMap, List.map_flatMap]
    exact (n.flatMap_nodes_place o _ _ x y slot ih).cons _

namespace Diagram

/-- The nodes that are placed in a diagram come to what its items come to. -/
theorem flatMap_contents_pieces {β : Type} (f : Placed α → List β) (g : Node α → List β)
    (d : Diagram α) (x y : α) (padding : Padding α)
    (h : ∀ n ∈ d.items, ∀ x y slot, (f (n.place d.options x y slot)).Perm (g n)) :
    ((contents (d.pieces x y padding)).flatMap f).Perm (d.items.flatMap g) := by
  rw [pieces, contents_map]
  refine flatMap_settle d.options f g ?_ h
  rw [contents_rowPieces, Node.figures_eq_map]

/-- All nodes that are placed in the picture of a diagram. -/
def placed (d : Diagram α) (x y : α) (padding : Padding α) : List (Placed α) :=
  (contents (d.pieces x y padding)).flatMap Placed.walk

/-- **Every node of a diagram is placed once.** -/
theorem walk_placed (d : Diagram α) (x y : α) (padding : Padding α) :
    ((d.placed x y padding).map Placed.sized).Perm (d.walk.map (Node.sized d.options)) := by
  rw [placed, walk_eq, List.map_flatMap, List.map_flatMap]
  exact d.flatMap_contents_pieces _ _ x y padding fun n _ => n.walk_place d.options

end Diagram
end SyntaxDiagram
