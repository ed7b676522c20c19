import SyntaxDiagram.Proofs.Pictures

/-!
# Texts of pictures

What there is to read in the picture of a node is what the nodes in it write, each as often as it
stands there.

* `Drawing.texts`, `Element.texts`: what there is to read in a picture. Its tooltips and its paths
  have content too, but not in text elements.
* `Node.wording`: what a node writes itself. `Node.wording_place` says that it does.
* `Node.texts_draw`, `Diagram.texts_draw`: the texts in the picture of a node or of a diagram.
-/

namespace SyntaxDiagram

open Layout

variable {α β γ δ : Type}

/-! ## Pictures -/

namespace Drawing

/-- What an element shows if it is a text element. -/
def shown? (d : Drawing α) : Option String := if d.tag = "text" then d.text? else none

/-- The contents of the text elements of a picture. -/
def texts (d : Drawing α) : List String := d.walk.filterMap shown?

/-- The contents of the text elements of several pictures. -/
def allTexts (ds : List (Drawing α)) : List String := (walks ds).filterMap shown?

@[simp] theorem allTexts_nil : allTexts ([] : List (Drawing α)) = [] := rfl

@[simp] theorem allTexts_cons (d : Drawing α) (rest : List (Drawing α)) :
    allTexts (d :: rest) = d.texts ++ allTexts rest := List.filterMap_append

theorem texts_text (tag : String) (attributes : Attributes (Value α)) (content : String) :
    (text tag attributes content).texts = if tag = "text" then [content] else [] := by
  rw [texts, filterMap_walk_text, shown?, Drawing.tag, text?]
  split <;> rfl

theorem texts_group {tag : String} (htag : tag ≠ "text") (attributes : Attributes (Value α))
    (children : List (Drawing α)) : (group tag attributes children).texts = allTexts children := by
  have hnone : (group tag attributes children).shown? = none := if_neg htag
  rw [texts, walk, List.filterMap_cons_none hnone, allTexts]

@[simp] theorem texts_track (path : Path α) : (track path).texts = [] :=
  texts_text _ _ _

@[simp] theorem texts_trackWith (attributes : Attributes (Value α)) (path : Path α) :
    (trackWith attributes path).texts = [] :=
  texts_text _ _ _

@[simp] theorem texts_words (x y : α) (more : List (String × Value α)) (content : String) :
    (words x y more content).texts = [content] :=
  texts_text _ _ _

@[simp] theorem texts_title (content : String) : (title content : Drawing α).texts = [] :=
  texts_text _ _ _

/-- A link shows what it is put around. -/
@[simp] theorem texts_linkTo (target : Option String) (content : Drawing α) :
    (linkTo target content).texts = content.texts := by
  have htag : "a" ≠ "text" := by decide
  exact filterMap_walk_linkTo shown? (fun _ _ => if_neg htag) target content

end Drawing

/-- What an element shows if it is a text element. -/
def Element.shown? (e : Element) : Option String := if e.tag = "text" then e.text? else none

/-- The contents of the text elements of a tree. -/
def Element.texts (e : Element) : List String := e.walk.filterMap shown?

/-- Writing the numbers of a picture keeps its texts. -/
theorem Drawing.texts_toElement [Scalar α] (number : α → String) (d : Drawing α) :
    (d.toElement number).texts = d.texts := by
  have hshown (e : Drawing α) : (e.toElement number).shown? = e.shown? := by
    rw [Element.shown?, tag_toElement, text?_toElement, shown?]
  rw [Element.texts, walk_toElement, List.filterMap_map, texts]
  exact congrArg (d.walk.filterMap ·) (funext hshown)

/-! ## Pieces -/

/-- What a piece shows that is not an item. -/
def Piece.wording (p : Piece α γ) : List String := p.own.filterMap Drawing.shown?

@[simp] theorem Piece.wording_track (path : Path α) : (track path : Piece α γ).wording = [] :=
  Drawing.texts_track path

@[simp] theorem Piece.wording_child (content : γ) : (child content : Piece α γ).wording = [] := rfl

@[simp] theorem Piece.wording_shape (drawing : Drawing α) :
    (shape drawing : Piece α γ).wording = drawing.texts := rfl

namespace Layout

/-- What pieces show that are not items. -/
def wording (pieces : List (Piece α γ)) : List String := pieces.flatMap Piece.wording

@[simp] theorem wording_nil : wording ([] : List (Piece α γ)) = [] := rfl

@[simp] theorem wording_cons (p : Piece α γ) (rest : List (Piece α γ)) :
    wording (p :: rest) = p.wording ++ wording rest := List.flatMap_cons

@[simp] theorem wording_append (a b : List (Piece α γ)) :
    wording (a ++ b) = wording a ++ wording b := List.flatMap_append

/-- Other content stands where the content stood. -/
theorem wording_map (f : γ → δ) (pieces : List (Piece α γ)) :
    wording (pieces.map (Piece.map f)) = wording pieces := by
  rw [wording, List.flatMap_map, wording]
  exact List.flatMap_congr fun p _ => congrArg (List.filterMap Drawing.shown?) (p.own_map f)

/-- There is nothing to read on lines. -/
theorem AllLines.wording_eq_nil {radius : α} {pieces : List (Piece α γ)}
    (h : AllLines radius pieces) : wording pieces = [] := by
  refine List.flatMap_eq_nil_iff.2 fun p hp => ?_
  have hline := h p hp
  cases p with
  | track path => exact Piece.wording_track path
  | child content => rfl
  | shape drawing => exact hline.elim

@[simp] theorem wording_titles (content : Option String) :
    wording ((Drawing.titles content).map (Piece.shape (γ := γ)) : List (Piece α γ)) = [] := by
  unfold Drawing.titles
  split <;> simp

@[simp] theorem wording_piece (x y slot : α) (s : Sized α β) : (s.piece x y slot).wording = [] :=
  rfl

variable [Scalar α] (o : Options α) (x y slot : α)

@[simp] theorem wording_sides (m : Metrics α) :
    wording (sides o m x y slot : List (Piece α γ)) = [] := by
  have hlines : AllLines o.arcRadius (sides o m x y slot : List (Piece α γ)) :=
    allLines_sides o x y slot m
  exact hlines.wording_eq_nil

theorem wording_boxPieces (rounded : Bool) (text : String) (given : Attributes String) :
    wording (boxPieces o rounded text given x y slot : List (Piece α γ)) = [text] := by
  simp [boxPieces, Drawing.texts_text]

theorem wording_remarkPieces (text : String) (href title : Option String) :
    wording (remarkPieces o text href title x y slot : List (Piece α γ)) = [text] := by
  simp [remarkPieces]

theorem wording_startPieces (style : MarkerStyle) (label : String) :
    wording (startPieces o style label x y : List (Piece α γ)) =
      (Node.caption? (some label)).toList := by
  rw [startPieces, Node.caption?, Option.filter_some]
  cases label.isEmpty <;> simp

theorem wording_framePieces (item : Sized α β) (label : Option (Sized α β)) :
    wording (framePieces o item label x y slot) = [] := by
  cases label <;> simp [framePieces, Drawing.texts_text]

theorem texts_badgeDrawing (kind : ChoiceKind) (m : Metrics α) :
    (badgeDrawing kind m x y).texts = [ChoiceKind.badge kind] := by
  rw [badgeDrawing, Drawing.texts_group (by decide)]
  simp

theorem wording_multiplePieces (kind : ChoiceKind) (b : Branches (Sized α β)) :
    wording (multiplePieces o kind b x y slot) = [ChoiceKind.badge kind] := by
  obtain ⟨lines, left, hpieces, hlines⟩ := exists_multiplePieces_eq o x y slot kind b
  rw [hpieces, wording_append, hlines.wording_eq_nil, wording_cons, Piece.wording_shape,
    texts_badgeDrawing]
  rfl

end Layout

/-! ## Nodes -/

namespace Placed

/-- What a placed node shows itself. -/
def wording (p : Placed α) : List String := p.own.filterMap Drawing.shown?

theorem wording_group (site : Site α Node.Kind) (attributes : Attributes (Value α))
    (pieces : List (Piece α (Placed α))) :
    (group site attributes pieces).wording = Layout.wording pieces := by
  have hg : "g" ≠ "text" := by decide
  have hnone : (Drawing.group "g" attributes (drawPieces pieces)).shown? = none := if_neg hg
  rw [wording, own, List.filterMap_cons_none hnone, List.filterMap_flatMap]
  rfl

/-- What there is to read in the pictures of pieces. -/
theorem texts_drawPieces (pieces : List (Piece α (Placed α))) :
    (Drawing.allTexts (drawPieces pieces)).Perm
      (Layout.wording pieces ++ (contents pieces).flatMap (·.draw.texts)) := by
  have hwalks := (walks_drawPieces pieces).filterMap Drawing.shown?
  rwa [List.filterMap_append, List.filterMap_flatMap, List.filterMap_flatMap] at hwalks

/-- **What there is to read in the picture of a placed node** is what it shows itself and what there
is to read in the nodes right in it. -/
theorem texts_draw (p : Placed α) :
    p.draw.texts.Perm (p.wording ++ p.nodes.flatMap (·.draw.texts)) := by
  have hwalk := p.walk_draw.filterMap Drawing.shown?
  rwa [List.filterMap_append, List.filterMap_flatMap] at hwalk

end Placed

theorem Layout.wording_figure [Scalar α] {kind : Node.Kind} {m : Metrics α}
    {attributes : Attributes (Value α)} {inside : List (Figure α)}
    {pieces : (x y slot : α) → List (Piece α (Site α (Drawable α)))} (x y slot : α) :
    ((figure kind m attributes inside pieces).item.place x y slot).wording =
      wording (pieces x y slot) :=
  (Placed.wording_group _ _ _).trans (wording_map settle _)

namespace Node

/-- What a node has to write itself. -/
def wording : Node α → List String
  | terminal text _ | nonTerminal text _ | comment text .. => [text]
  | start _ label => (caption? (some label)).toList
  | multipleChoice kind .. => [Layout.ChoiceKind.badge kind]
  | _ => []

theorem wording_of_isLines {n : Node α} (h : n.kind.isLines) : n.wording = [] := by
  cases n with
  | terminal | nonTerminal | comment | start | multipleChoice => exact absurd h Bool.false_ne_true
  | _ => rfl

/-- All that the nodes of a tree have to write. -/
def texts (n : Node α) : List String := n.walk.flatMap wording

theorem texts_eq (n : Node α) : n.texts = n.wording ++ n.children.flatMap texts := by
  rw [texts, n.walk_eq, List.flatMap_cons, List.flatMap_assoc]
  rfl

variable [Scalar α] {o : Options α}

/-- **A node shows what it has to write**, wherever it stands. -/
theorem wording_place (n : Node α) (x y slot : α) : (n.place o x y slot).wording = n.wording := by
  -- most nodes draw lines alone, on which there is nothing to read
  by_cases hlines : n.kind.isLines
  · obtain ⟨site, attributes, pieces, hplace, hpieces, -⟩ := n.exists_place_eq hlines x y slot
    rw [hplace, Placed.wording_group, hpieces.wording_eq_nil, wording_of_isLines hlines]
  rw [place]
  cases n with
  | terminal text attributes =>
    rw [figure]
    exact (wording_figure x y slot).trans (wording_boxPieces o x y slot true text attributes)
  | nonTerminal text attributes =>
    rw [figure]
    exact (wording_figure x y slot).trans (wording_boxPieces o x y slot false text attributes)
  | comment text href title =>
    rw [figure]
    exact (wording_figure x y slot).trans (wording_remarkPieces o x y slot text href title)
  | start style label =>
    rw [figure]
    exact (wording_figure x y slot).trans (wording_startPieces o x y style label)
  | finish style =>
    rw [figure]
    exact Drawing.texts_text _ _ _
  | group item label =>
    rw [figure]
    exact (wording_figure x y slot).trans (wording_framePieces o x y slot _ _)
  | multipleChoice kind above straight below =>
    rw [figure]
    exact (wording_figure x y slot).trans (wording_multiplePieces o x y slot kind _)
  | block metrics =>
    rw [figure]
    exact Drawing.texts_group (by decide) _ []
  | _ => exact absurd rfl hlines

/-- **What there is to read in the picture of a node** is what the nodes of the tree have to write,
each as often as it stands there. -/
theorem texts_draw (n : Node α) (x y slot : α) : (n.draw o x y slot).texts.Perm n.texts := by
  induction n using Node.induction generalizing x y slot with
  | h n ih =>
    -- the children may be drawn in another order, and what they show comes behind the node
    rw [draw, n.texts_eq, ← n.wording_place x y slot]
    exact (Placed.texts_draw _).trans
      ((n.flatMap_nodes_place o _ texts x y slot ih).append_left _)

end Node

namespace Diagram

variable [Scalar α]

/-- **What there is to read in the picture of a diagram** is what its nodes have to write, each as
often as it stands there. -/
theorem texts_draw (d : Diagram α) (x y : α) (padding : Padding α) :
    (d.draw x y padding).texts.Perm (d.items.flatMap Node.texts) := by
  have hdraw : (d.draw x y padding).texts =
      Drawing.allTexts (Placed.drawPieces (d.pieces x y padding)) := by
    rw [draw, Drawing.texts_group (by decide), Drawing.allTexts_cons, Drawing.allTexts_nil,
      List.append_nil, Drawing.texts_group (by decide)]
  have hpieces := Placed.texts_drawPieces (d.pieces x y padding)
  rw [(d.allLines_pieces x y padding).wording_eq_nil, List.nil_append] at hpieces
  rw [hdraw]
  exact hpieces.trans
    (d.flatMap_contents_pieces _ _ x y padding fun n _ => n.texts_draw)

end Diagram
end SyntaxDiagram
