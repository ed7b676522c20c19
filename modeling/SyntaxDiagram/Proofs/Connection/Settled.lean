import SyntaxDiagram.Proofs.Connection.Branches

/-!
# Nodes at the sites of a layout

A layout answers with sites, which are where the nodes of a container are then placed. What is known
of the sites holds of the placed nodes.

* `Site.Fits.box_settle`: a node whose slot fits in a box is drawn in that box.
* `Layout.map_sized_settle`, `Layout.map_ports_settle`: the nodes at some sites are the ones that
  were to be placed, and the track meets them where it meets the sites.
* `Node.LaidOut`: a node whose picture is made by a layout, with what its picture has from there.
-/

namespace SyntaxDiagram

open Layout

variable {K : Type} [ExactScalar K] {o : Options K}

section

variable {n : Node K} {s : Site K (Drawable K)} (hs : s.toSized = n.figure o)
include hs

theorem Layout.sized_settle : (settle s).sized = n.sized o := by
  rw [settle_eq_place hs, Placed.sized_place]

/-- However wide its slot is, a node is drawn on the line of its site. -/
theorem Layout.box_settle :
    ((settle s).box o).top = s.y - s.metrics.up ∧
      ((settle s).box o).bottom = s.y + s.metrics.height + s.metrics.down := by
  rw [Placed.box, site_settle hs]
  exact ⟨rfl, rfl⟩

/-- A node in a slot of its own width stands at the start of it, whatever the alignment. -/
theorem Layout.box_settle_of_slot (hslot : s.slot = s.metrics.width) :
    (settle s).box o = s.box := by
  have hgaps := o.internalAlignment.gaps_nonneg (le_refl s.metrics.width)
  have hsum := o.internalAlignment.left_add_right s.metrics.width s.metrics.width
  have hleft : (gaps o s.metrics s.slot).left = 0 := by
    rw [gaps, hslot]
    exact le_antisymm (by linarith) hgaps.1
  rw [Placed.box, Placed.left, site_settle hs, hleft, add_zero, ite_self]
  rfl

/-- **A node is drawn in every box in which its slot fits**, whatever the alignment. -/
theorem Site.Fits.box_settle {b : Box K} (h : s.Fits b) : ((settle s).box o).Within b := by
  rw [Placed.box, Placed.left, site_settle hs]
  split
  · exact (Site.aligned_within_area o h.wide).trans h.area
  · exact (s.box_within_area (le_refl _) (add_le_add_right h.wide _)).trans h.area

end

namespace Layout

variable {nodes : List (Node K)} {sites : List (Site K (Drawable K))}
  (h : sites.map Site.toSized = nodes.map (Node.figure o))
include h

theorem exists_node_of_mem {s : Site K (Drawable K)} (hs : s ∈ sites) :
    ∃ n ∈ nodes, s.toSized = n.figure o := by
  obtain ⟨n, hn, hfigure⟩ := List.mem_map.1 (h ▸ List.mem_map_of_mem (f := Site.toSized) hs)
  exact ⟨n, hn, hfigure.symm⟩

/-- The nodes at some sites, with their kinds and sizes. -/
theorem map_sized_settle : (sites.map settle).map Placed.sized = nodes.map (Node.sized o) := by
  induction nodes generalizing sites with
  | nil =>
    rw [List.map_nil, List.map_eq_nil_iff] at h
    rw [h]
    rfl
  | cons n rest ih =>
    obtain ⟨s, others, rfl, hs, hothers⟩ := List.map_eq_cons_iff.1 h
    rw [List.map_cons, List.map_cons, List.map_cons, sized_settle hs, ih hothers]

/-- The track meets the nodes at some sites where it meets the sites. -/
theorem map_ports_settle : (sites.map settle).map Placed.ports = sites.map Site.ports := by
  rw [List.map_map]
  refine List.map_congr_left fun s hs => ?_
  obtain ⟨n, -, hn⟩ := exists_node_of_mem h hs
  exact ports_settle hn

end Layout

/-! ## Nodes that are laid out -/

/-- A node of size `m` whose picture is made of some pieces, among which some nodes stand. -/
structure Node.LaidOut (o : Options K) (n : Node K) (m : Metrics K) (nodes : List (Node K))
    (pieces : (x y slot : K) → List (Piece K (Site K (Drawable K)))) : Prop where
  aligned : n.kind.isAligned
  figure : ∃ attributes inside, n.figure o = Layout.figure n.kind m attributes inside pieces
  contents (x y slot : K) :
    (Layout.contents (pieces x y slot)).map Site.toSized = nodes.map (Node.figure o)

namespace Node.LaidOut

variable {n : Node K} {m : Metrics K} {nodes : List (Node K)}
  {pieces : (x y slot : K) → List (Piece K (Site K (Drawable K)))}
  (h : n.LaidOut o m nodes pieces) (x y slot : K)
include h

theorem metrics_eq : n.metrics o = m := by
  obtain ⟨attributes, inside, hfigure⟩ := h.figure
  rw [metrics, hfigure]
  rfl

theorem nodes_place :
    (n.place o x y slot).nodes = (Layout.contents (pieces x y slot)).map settle := by
  obtain ⟨attributes, inside, hfigure⟩ := h.figure
  rw [place, hfigure, nodes_figure]

theorem tracks_place : (n.place o x y slot).tracks = tracks (pieces x y slot) := by
  obtain ⟨attributes, inside, hfigure⟩ := h.figure
  rw [place, hfigure, tracks_figure]

theorem strands_place :
    (n.place o x y slot).strands = (strands (pieces x y slot)).map (Strand.map settle) := by
  obtain ⟨attributes, inside, hfigure⟩ := h.figure
  rw [place, hfigure]
  exact strands_map settle (pieces x y slot)

theorem ports_place : (n.place o x y slot).ports = slotPorts m x y slot := by
  obtain ⟨attributes, inside, hfigure⟩ := h.figure
  rw [place, hfigure]
  rfl

theorem inner_place : (n.place o x y slot).inner o = ownPorts o m x y slot := by
  obtain ⟨attributes, inside, hfigure⟩ := h.figure
  rw [place, hfigure, inner_figure h.aligned]

theorem box_place : (n.place o x y slot).box o = m.box (x + (gaps o m slot).left) y := by
  obtain ⟨attributes, inside, hfigure⟩ := h.figure
  rw [place, hfigure, Placed.box, Placed.left]
  exact congrArg (fun left => m.box left y) (if_pos h.aligned)

/-- The nodes that are placed in a node are the ones that belong there. -/
theorem map_sized_place :
    (n.place o x y slot).nodes.map Placed.sized = nodes.map (Node.sized o) := by
  rw [h.nodes_place, map_sized_settle (h.contents x y slot)]

theorem map_ports_place :
    (n.place o x y slot).nodes.map Placed.ports =
      (Layout.contents (pieces x y slot)).map Site.ports := by
  rw [h.nodes_place, map_ports_settle (h.contents x y slot)]

/-- A node in a slot that is wide enough is drawn in the area of its slot. -/
theorem box_within_area {s : Site K (Drawable K)} (hs : s ∈ Layout.contents (pieces x y slot))
    (hwide : s.metrics.width ≤ s.slot) : ((settle s).box o).Within s.area := by
  obtain ⟨i, -, hi⟩ := exists_node_of_mem (h.contents x y slot) hs
  exact Site.Fits.box_settle hi ⟨hwide, .refl _⟩

/-- **A node covers the nodes in it** if their slots fit in its box. -/
theorem within_box (hfits : ∀ s ∈ Layout.contents (pieces x y slot),
    s.Fits (m.box (x + (gaps o m slot).left) y)) :
    ∀ q ∈ (n.place o x y slot).nodes, (q.box o).Within ((n.place o x y slot).box o) := by
  rw [h.nodes_place, h.box_place, List.forall_mem_map]
  intro s hs
  obtain ⟨i, -, hi⟩ := exists_node_of_mem (h.contents x y slot) hs
  exact Site.Fits.box_settle hi (hfits s hs)

end Node.LaidOut
end SyntaxDiagram
