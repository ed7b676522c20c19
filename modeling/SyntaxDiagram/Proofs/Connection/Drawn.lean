import SyntaxDiagram.Proofs.Connection.Rules
import SyntaxDiagram.Proofs.Pictures

/-!
# Lines in pictures

The lines that lead through placed nodes are the paths in the picture of a diagram.

* `Drawing.paths`: the paths in a picture.
* `Placed.paths`: the paths that a placed node draws itself. `Placed.sublist_paths` says that its
  lines are among them, and `Node.paths_place` that there are no others. Only the badge of a
  multiple choice has paths that are no lines.
* `Node.paths_draw`, `Diagram.paths_draw`: the paths in the picture of a node are those of the nodes
  in it; in that of a diagram there are also the lines between its items.
  `Node.tracks_subset_paths` and `Diagram.tracks_subset_paths`: all lines are drawn.
* `Rule.lines_diagram`: the lines of the diagram of a rule are the paths in its picture and what
  lies across the texts in it.
-/

namespace SyntaxDiagram

open Layout

variable {α β γ : Type}

/-! ## Pictures -/

namespace Drawing

/-- The paths in a picture. -/
def paths (d : Drawing α) : List (Path α) := d.walk.filterMap path?

theorem paths_text (tag : String) (attributes : Attributes (Value α)) (content : String) :
    (text tag attributes content).paths = (text tag attributes content).path?.toList :=
  filterMap_walk_text path? tag attributes content

@[simp] theorem paths_rect (attributes : Attributes (Value α)) (content : String) :
    (text "rect" attributes content).paths = [] := paths_text _ _ _

@[simp] theorem paths_words (x y : α) (more : List (String × Value α)) (content : String) :
    (words x y more content).paths = [] := paths_text _ _ _

@[simp] theorem paths_title (content : String) : (title content : Drawing α).paths = [] :=
  paths_text _ _ _

@[simp] theorem paths_linkTo (target : Option String) (content : Drawing α) :
    (linkTo target content).paths = content.paths :=
  filterMap_walk_linkTo path? (fun _ _ => rfl) target content

end Drawing

/-! ## Pieces -/

/-- The paths that a piece draws that is not an item. -/
def Piece.paths (p : Piece α γ) : List (Path α) := p.own.filterMap Drawing.path?

namespace Layout

/-- The paths that pieces draw that are not items. -/
def paths (pieces : List (Piece α γ)) : List (Path α) := pieces.flatMap Piece.paths

@[simp] theorem paths_nil : paths ([] : List (Piece α γ)) = [] := rfl

@[simp] theorem paths_append (a b : List (Piece α γ)) : paths (a ++ b) = paths a ++ paths b :=
  List.flatMap_append

@[simp] theorem paths_track (path : Path α) (rest : List (Piece α γ)) :
    paths (.track path :: rest) = path :: paths rest := rfl

@[simp] theorem paths_child (content : γ) (rest : List (Piece α γ)) :
    paths (.child content :: rest) = paths rest := rfl

@[simp] theorem paths_shape (drawing : Drawing α) (rest : List (Piece α γ)) :
    paths (.shape drawing :: rest) = drawing.paths ++ paths rest := rfl

@[simp] theorem tracks_shape (drawing : Drawing α) (rest : List (Piece α γ)) :
    tracks (.shape drawing :: rest) = tracks rest := rfl

@[simp] theorem paths_piece (s : Sized α β) (x y slot : α) (rest : List (Piece α (Site α β))) :
    paths (s.piece x y slot :: rest) = paths rest := rfl

@[simp] theorem paths_titles (content : Option String) :
    paths ((Drawing.titles content).map (Piece.shape (γ := γ)) : List (Piece α γ)) = [] := by
  unfold Drawing.titles
  split <;> simp

/-- Other content stands where the content stood. -/
theorem paths_map {δ : Type} (f : γ → δ) (pieces : List (Piece α γ)) :
    paths (pieces.map (Piece.map f)) = paths pieces := by
  rw [paths, List.flatMap_map, paths]
  exact List.flatMap_congr fun p _ => congrArg (List.filterMap Drawing.path?) (p.own_map f)

/-- **Lines are paths.** -/
theorem sublist_paths (pieces : List (Piece α γ)) : (tracks pieces).Sublist (paths pieces) := by
  induction pieces with
  | nil => exact .slnil
  | cons p rest ih =>
    cases p with
    | track path => exact ih.cons_cons path
    | child content => exact ih
    | shape drawing => exact ih.trans (List.sublist_append_right _ _)

/-- Where nothing but lines is drawn, the paths are the lines. -/
theorem AllLines.paths_eq {radius : α} {pieces : List (Piece α γ)} (h : AllLines radius pieces) :
    paths pieces = tracks pieces := by
  induction pieces with
  | nil => rfl
  | cons p rest ih =>
    rw [allLines_cons] at h
    cases p with
    | track path => rw [paths_track, tracks_track, ih h.2]
    | child content => exact ih h.2
    | shape drawing => exact h.1.elim

variable [Scalar α] (o : Options α) (x y slot : α)

@[simp] theorem paths_sides (m : Metrics α) :
    paths (sides o m x y slot : List (Piece α γ)) =
      tracks (sides o m x y slot : List (Piece α γ)) := by
  have hlines : AllLines o.arcRadius (sides o m x y slot : List (Piece α γ)) :=
    allLines_sides o x y slot m
  exact hlines.paths_eq

theorem paths_boxPieces (rounded : Bool) (text : String) (given : Attributes String) :
    paths (boxPieces o rounded text given x y slot : List (Piece α γ)) =
      tracks (boxPieces o rounded text given x y slot : List (Piece α γ)) := by
  simp [boxPieces, tracks_map_shape]

theorem paths_remarkPieces (text : String) (href title : Option String) :
    paths (remarkPieces o text href title x y slot : List (Piece α γ)) =
      tracks (remarkPieces o text href title x y slot : List (Piece α γ)) := by
  simp [remarkPieces, tracks_map_shape]

theorem paths_startPieces (style : MarkerStyle) (label : String) :
    paths (startPieces o style label x y : List (Piece α γ)) =
      tracks (startPieces o style label x y : List (Piece α γ)) := by
  rw [startPieces]
  cases label.isEmpty <;> simp

theorem paths_framePieces (item : Sized α β) (label : Option (Sized α β)) :
    paths (framePieces o item label x y slot) = tracks (framePieces o item label x y slot) := by
  cases label <;> simp [framePieces]

end Layout

/-! ## Nodes -/

/-- The paths that a placed node draws itself. -/
def Placed.paths (p : Placed α) : List (Path α) := p.own.filterMap Drawing.path?

theorem Placed.paths_group (site : Site α Node.Kind) (attributes : Attributes (Value α))
    (pieces : List (Piece α (Placed α))) :
    (group site attributes pieces).paths = Layout.paths pieces := by
  rw [paths, own, List.filterMap_cons_none rfl, List.filterMap_flatMap]
  rfl

/-- **The lines of a node are paths** that it draws itself. -/
theorem Placed.sublist_paths (p : Placed α) : p.tracks.Sublist p.paths := by
  cases p with
  | group site attributes pieces =>
    rw [paths_group]
    exact Layout.sublist_paths pieces
  | bare site drawing =>
    cases drawing with
    | text tag attributes content =>
      have hpaths : (bare site (.text tag attributes content)).paths = _ :=
        Drawing.paths_text tag attributes content
      rw [hpaths]
      exact .refl _
    | group tag attributes children => exact List.nil_sublist _

theorem Layout.paths_figure [Scalar α] {kind : Node.Kind} {m : Metrics α}
    {attributes : Attributes (Value α)} {inside : List (Figure α)}
    {pieces : (x y slot : α) → List (Piece α (Site α (Drawable α)))} {x y slot : α}
    (h : paths (pieces x y slot) = tracks (pieces x y slot)) :
    let p := (figure kind m attributes inside pieces).item.place x y slot
    p.paths = p.tracks := by
  intro p
  have hpaths : p.paths = paths (pieces x y slot) :=
    (Placed.paths_group _ _ _).trans (paths_map settle _)
  have htracks : p.tracks = tracks (pieces x y slot) := tracks_map settle _
  rw [hpaths, htracks, h]

namespace Node

variable [Scalar α] {o : Options α}

/-- **All paths of a node are lines**, unless it has a badge. -/
theorem paths_place {n : Node α} (h : n.kind ≠ .multipleChoice) (x y slot : α) :
    (n.place o x y slot).paths = (n.place o x y slot).tracks := by
  -- most nodes draw lines alone
  by_cases hlines : n.kind.isLines
  · obtain ⟨site, attributes, pieces, hplace, hpieces, -⟩ := n.exists_place_eq hlines x y slot
    rw [hplace, Placed.paths_group, hpieces.paths_eq]
    rfl
  rw [place]
  cases n with
  | terminal text attributes =>
    rw [figure]
    exact paths_figure (paths_boxPieces o x y slot true text attributes)
  | nonTerminal text attributes =>
    rw [figure]
    exact paths_figure (paths_boxPieces o x y slot false text attributes)
  | comment text href title =>
    rw [figure]
    exact paths_figure (paths_remarkPieces o x y slot text href title)
  | start style label =>
    rw [figure]
    exact paths_figure (paths_startPieces o x y style label)
  | finish style =>
    rw [figure]
    exact Drawing.paths_text _ _ _
  | group item label =>
    rw [figure]
    exact paths_figure (paths_framePieces o x y slot _ _)
  | multipleChoice kind above straight below => exact absurd rfl h
  | block metrics =>
    rw [figure]
    rfl
  | _ => exact absurd rfl hlines

/-- **The paths in the picture of a node** are those of the nodes in it. -/
theorem paths_draw (n : Node α) (x y slot : α) :
    (n.draw o x y slot).paths.Perm ((n.place o x y slot).walk.flatMap Placed.paths) := by
  have hnode := (n.walk_draw (o := o) x y slot).filterMap Drawing.path?
  rwa [List.filterMap_flatMap] at hnode

/-- **The lines of all nodes in a node are drawn.** -/
theorem tracks_subset_paths (n : Node α) (x y slot : α) :
    ∀ q ∈ (n.place o x y slot).walk, q.tracks ⊆ (n.draw o x y slot).paths := by
  intro q hq path hpath
  refine (n.paths_draw x y slot).symm.subset (List.mem_flatMap.2 ⟨q, hq, ?_⟩)
  exact q.sublist_paths.subset hpath

end Node

/-! ## Diagrams -/

namespace Diagram

variable [Scalar α] (d : Diagram α) (x y : α) (padding : Padding α)

/-- **The paths in the picture of a diagram** are the lines between its items and the paths of the
nodes that are placed in it. -/
theorem paths_draw : (d.draw x y padding).paths.Perm
    (tracks (d.pieces x y padding) ++ (d.placed x y padding).flatMap Placed.paths) := by
  have hframes : (d.frames x y padding).filterMap Drawing.path? = [] := rfl
  have hpieces := (Placed.walks_drawPieces (d.pieces x y padding)).filterMap Drawing.path?
  have hlines : ((d.pieces x y padding).flatMap Piece.own).filterMap Drawing.path? =
      tracks (d.pieces x y padding) := by
    rw [List.filterMap_flatMap]
    exact (d.allLines_pieces x y padding).paths_eq
  rw [Drawing.paths, walk_draw, List.filterMap_append, hframes, List.nil_append]
  refine hpieces.trans ?_
  rw [List.filterMap_append, hlines, List.filterMap_flatMap, placed, List.flatMap_assoc]
  refine .append_left _ (.flatMap_left _ ?_)
  intro q hq
  obtain ⟨n, -, x', y', slot', rfl⟩ := mem_pieces.1 q hq
  exact n.paths_draw x' y' slot'

/-- **The lines of a diagram are drawn**: those between its items, and those of all nodes that are
placed in it. -/
theorem tracks_subset_paths :
    tracks (d.pieces x y padding) ⊆ (d.draw x y padding).paths ∧
      ∀ q ∈ d.placed x y padding, q.tracks ⊆ (d.draw x y padding).paths := by
  have hpaths := (d.paths_draw x y padding).symm.subset
  constructor
  · intro path hpath
    exact hpaths (List.mem_append_left _ hpath)
  · intro q hq path hpath
    refine hpaths (List.mem_append_right _ (List.mem_flatMap.2 ⟨q, hq, ?_⟩))
    exact q.sublist_paths.subset hpath

/-- **The lines of a diagram without badges** are the paths in its picture and what lies across the
texts in it. -/
theorem lines_perm {d : Diagram α} (h : ∀ m ∈ d.walk, m.kind ≠ .multipleChoice) :
    (d.lines x y padding).Perm ((d.draw x y padding).paths ++
      (d.placed x y padding).flatMap (Placed.across d.options)) := by
  have hplaced : (d.placed x y padding).flatMap Placed.paths =
      (d.placed x y padding).flatMap Placed.tracks := by
    refine List.flatMap_congr fun q hq => ?_
    obtain ⟨p, hp, hq⟩ := List.mem_flatMap.1 hq
    obtain ⟨n, hn, x', y', slot', rfl⟩ := mem_pieces.1 p hp
    obtain ⟨m, hm, x', y', slot', rfl⟩ := Node.exists_place_of_mem hq
    rw [walk_eq] at h
    exact Node.paths_place (h m (List.mem_flatMap.2 ⟨n, hn, hm⟩)) x' y' slot'
  have hlines : d.lines x y padding = tracks (d.pieces x y padding) ++
      (d.placed x y padding).flatMap fun q => q.tracks ++ q.across d.options := by
    rw [lines, placed, List.flatMap_assoc]
    rfl
  rw [hlines]
  refine .trans ?_ ((d.paths_draw x y padding).symm.append_right _)
  rw [hplaced, List.append_assoc]
  exact .append_left _ (List.flatMap_append_perm _ _ _).symm

end Diagram

/-- Expressions have no multiple choices. -/
theorem Node.Unwrapped.kind_ne {n : Node α} (h : n.Unwrapped) :
    ∀ m ∈ n.walk, m.kind ≠ .multipleChoice := by
  have hskip : ∀ m ∈ (skip : Node α).walk, m.kind ≠ .multipleChoice :=
    forall_mem_walk.2 ⟨by simp [kind], List.forall_mem_nil _⟩
  induction h with
  | terminal | nonTerminal | comment =>
    rw [forall_mem_walk]
    exact ⟨by simp [kind], List.forall_mem_nil _⟩
  | sequence _ ih =>
    rw [forall_mem_walk]
    exact ⟨by simp [kind], ih⟩
  | choice _ _ ihfirst ihothers =>
    rw [forall_mem_walk]
    exact ⟨by simp [kind], List.forall_mem_cons.2 ⟨ihfirst, ihothers⟩⟩
  | optional _ ih =>
    rw [forall_mem_walk]
    exact ⟨by simp [kind], List.forall_mem_cons.2 ⟨hskip, List.forall_mem_singleton.2 ih⟩⟩
  | @zeroOrMore item _ ih =>
    have hloop : ∀ m ∈ (oneOrMore item skip).walk, m.kind ≠ .multipleChoice := by
      rw [forall_mem_walk]
      exact ⟨by simp [kind], List.forall_mem_cons.2 ⟨ih, List.forall_mem_singleton.2 hskip⟩⟩
    rw [forall_mem_walk]
    exact ⟨by simp [kind], List.forall_mem_cons.2 ⟨hskip, List.forall_mem_singleton.2 hloop⟩⟩

/-- **The lines of the diagram of a rule** are the paths in its picture and what lies across the
texts in it, if its sequences are not broken into rows. -/
theorem Rule.lines_diagram [Scalar α] {o : Options α} (r : Rule) {style : RuleStyle α}
    (hwrap : style.wrapWidth = none) (x y : α) (padding : Padding α) :
    let d := r.diagram o style
    (d.lines x y padding).Perm ((d.draw x y padding).paths ++
      (d.placed x y padding).flatMap (Placed.across d.options)) := by
  refine Diagram.lines_perm x y padding ?_
  rw [Diagram.walk_eq, r.diagram_eq, hwrap]
  have hmarker {n : Node α} (hkind : n.kind ≠ .multipleChoice) (hchildren : n.children = []) :
      ∀ m ∈ n.walk, m.kind ≠ .multipleChoice := by
    rw [Node.forall_mem_walk, hchildren]
    exact ⟨hkind, List.forall_mem_nil _⟩
  intro m hm
  obtain ⟨n, hn, hm⟩ := List.mem_flatMap.1 hm
  simp only [List.mem_cons, List.not_mem_nil, or_false] at hn
  rcases hn with rfl | rfl | rfl
  · exact hmarker (by simp [Node.kind]) rfl m hm
  · exact (r.body.unwrapped_toNode o).kind_ne m hm
  · exact hmarker (by simp [Node.kind]) rfl m hm

end SyntaxDiagram
