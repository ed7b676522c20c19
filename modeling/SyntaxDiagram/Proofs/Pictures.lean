import SyntaxDiagram.Proofs.Dom.Requests
import SyntaxDiagram.Proofs.Xml.Diagrams

/-!
# Elements of pictures

A picture is a tree of elements. Every element in the picture of a diagram is made by one of its
nodes, or it is one of the two groups around all nodes.

* `Drawing.walk`: the elements of a picture, each before those in it. `Drawing.walk_toElement` says
  that writing the numbers keeps them.
* `Placed.own`: the elements that a placed node makes itself. `Placed.walk_draw`: with those of the
  nodes in it they are all elements of its picture.
* `Node.walk_draw`: the picture of a node is what the nodes in it make themselves.
* `Node.mem_walk_draw`, `Diagram.mem_walk_draw`: the node that made an element.
-/

namespace SyntaxDiagram

open Layout

variable {α : Type}

/-! ## Drawings -/

namespace Drawing

/-- The name of an element. -/
def tag : Drawing α → String
  | text tag .. | group tag .. => tag

/-- The attributes of an element. -/
def attributes : Drawing α → Attributes (Value α)
  | text _ attributes _ | group _ attributes _ => attributes

/-- The text of an element that holds text, as an empty group does. -/
def text? : Drawing α → Option String
  | text _ _ content => some content
  | group _ _ [] => some ""
  | group .. => none

mutual

/-- The elements of a picture, each before those in it. -/
def walk : Drawing α → List (Drawing α)
  | text tag attributes content => [text tag attributes content]
  | group tag attributes children => group tag attributes children :: walks children

/-- The elements of several pictures. -/
def walks : List (Drawing α) → List (Drawing α)
  | [] => []
  | d :: rest => d.walk ++ walks rest

end

section Gather

variable {β : Type} (f : Drawing α → Option β)

theorem filterMap_walk_text (tag : String) (attributes : Attributes (Value α)) (content : String) :
    (text tag attributes content).walk.filterMap f = (f (text tag attributes content)).toList := by
  rw [walk]
  cases hf : f (text tag attributes content) with
  | none => rw [List.filterMap_cons_none hf, List.filterMap_nil, Option.toList_none]
  | some b => rw [List.filterMap_cons_some hf, List.filterMap_nil, Option.toList_some]

/-- There is as much in a link as in what it is put around. -/
theorem filterMap_walk_linkTo (h : ∀ attributes children, f (group "a" attributes children) = none)
    (target : Option String) (content : Drawing α) :
    (linkTo target content).walk.filterMap f = content.walk.filterMap f := by
  unfold linkTo
  split
  · rfl
  · rfl
  · rw [link, walk, List.filterMap_cons_none (h _ _), walks, walks, List.append_nil]

end Gather

section Write

variable [Scalar α] (number : α → String)

theorem tag_toElement (d : Drawing α) : (d.toElement number).tag = d.tag := by
  cases d with
  | text tag attributes content => rw [toElement, Element.tag, Drawing.tag]
  | group tag attributes children => rw [toElement, Element.tag_ofChildren, Drawing.tag]

theorem attributes_toElement (d : Drawing α) :
    (d.toElement number).attributes = d.attributes.map (·.write number) := by
  cases d with
  | text tag attributes content => rw [toElement, Element.attributes, Drawing.attributes]
  | group tag attributes children =>
    rw [toElement, Element.attributes_ofChildren, Drawing.attributes]

theorem text?_toElement (d : Drawing α) : (d.toElement number).text? = d.text? := by
  cases d with
  | text tag attributes content => rw [toElement, Element.text?, Drawing.text?]
  | group tag attributes children => cases children <;> rfl

mutual

/-- **Writing the numbers keeps the elements** and their order. -/
theorem walk_toElement : (d : Drawing α) →
    (d.toElement number).walk = d.walk.map (toElement number)
  | text tag attributes content => by rw [walk, toElement, Element.walk, List.map_singleton, toElement]
  | group tag attributes children => by
    rw [walk, List.map_cons, ← walks_toElements children, Element.walk_eq, toElement,
      Element.children_ofChildren]

theorem walks_toElements : (ds : List (Drawing α)) →
    Element.walks (toElements number ds) = (walks ds).map (toElement number)
  | [] => rfl
  | d :: rest => by
    rw [toElements, Element.walks, walk_toElement d, walks_toElements rest, walks, List.map_append]

end

end Write

end Drawing

/-! ## Placed nodes -/

/-- The elements of a piece that is not an item. -/
def Piece.own {γ : Type} : Piece α γ → List (Drawing α)
  | track path => [.track path]
  | child _ => []
  | shape drawing => drawing.walk

/-- Other content stands where the content stood. -/
theorem Piece.own_map {γ δ : Type} (f : γ → δ) (p : Piece α γ) : (p.map f).own = p.own := by
  cases p <;> rfl

namespace Placed

/-- The elements that a placed node makes itself. -/
def own : Placed α → List (Drawing α)
  | group _ attributes pieces =>
    .group "g" attributes (drawPieces pieces) :: pieces.flatMap Piece.own
  | bare _ drawing => drawing.walk

theorem walks_drawPieces (pieces : List (Piece α (Placed α))) :
    (Drawing.walks (drawPieces pieces)).Perm
      (pieces.flatMap Piece.own ++ (contents pieces).flatMap (·.draw.walk)) := by
  induction pieces with
  | nil => exact .nil
  | cons p rest ih =>
    rw [drawPieces, Drawing.walks, List.flatMap_cons, List.append_assoc]
    cases p with
    | track path => exact ih.append_left _
    | shape drawing => exact ih.append_left _
    | child content =>
      rw [contents_child, List.flatMap_cons, Piece.own, List.nil_append, drawPiece]
      refine (ih.append_left _).trans ?_
      rw [← List.append_assoc, ← List.append_assoc]
      exact List.perm_append_comm.append_right _

/-- **The picture of a placed node** is what it makes itself and the pictures of the nodes right in
it. -/
theorem walk_draw (p : Placed α) : p.draw.walk.Perm (p.own ++ p.nodes.flatMap (·.draw.walk)) := by
  cases p with
  | group site attributes pieces =>
    rw [draw, Drawing.walk, own, nodes, List.cons_append]
    exact (walks_drawPieces pieces).cons _
  | bare site drawing =>
    rw [draw, own, nodes, List.flatMap_nil, List.append_nil]

end Placed

/-- Lines are all that is made where there is nothing but lines and items. -/
theorem Layout.AllLines.exists_track {γ : Type} {radius : α} {pieces : List (Piece α γ)}
    (h : AllLines radius pieces) {e : Drawing α} (he : e ∈ pieces.flatMap Piece.own) :
    ∃ path : Path α, e = .track path ∧ path.IsCalled radius := by
  obtain ⟨p, hp, he⟩ := List.mem_flatMap.1 he
  have hline := h p hp
  cases p with
  | track path => exact ⟨path, List.mem_singleton.1 he, hline⟩
  | child content => exact absurd he List.not_mem_nil
  | shape drawing => exact hline.elim

/-! ## Nodes -/

/-- The names of the attributes that mark a node. -/
def markNames : List String := ["class", "data-updown", "data-type"]

theorem Layout.mem_debugMarks {o : Options α} {sizes : List α} {kind : String}
    {a : Attributes (Value α)} {e : String × Value α}
    (he : e ∈ (debugMarks o sizes kind a).entries) : e ∈ a.entries ∨ e.1 ∈ markNames := by
  rw [debugMarks] at he
  split at he
  · rcases Attributes.mem_upsertEntries he with he | ⟨hname, -⟩
    · rcases Attributes.mem_upsertEntries he with he | ⟨hname, -⟩
      · exact .inl he
      · exact .inr (hname ▸ by decide)
    · exact .inr (hname ▸ by decide)
  · exact .inl he

/-- Kinds of node that draw lines alone around the nodes in them. -/
def Node.Kind.isLines : Node.Kind → Bool
  | .terminal | .nonTerminal | .comment | .start | .finish | .group | .multipleChoice | .block =>
    false
  | _ => true

theorem Layout.exists_figure_eq {o : Options α} {kind : Node.Kind} {m : Metrics α}
    {attributes : Attributes (Value α)} {inside : List (Figure α)}
    {pieces : (x y slot : α) → List (Piece α (Site α (Drawable α)))}
    (hattributes : ∀ e ∈ attributes.entries, e.1 ∈ markNames)
    (hpieces : ∀ x y slot, AllLines o.arcRadius (pieces x y slot)) (x y slot : α) :
    ∃ site attributes' pieces', (figure kind m attributes inside pieces).item.place x y slot =
        .group site attributes' pieces' ∧
      AllLines o.arcRadius pieces' ∧ ∀ e ∈ attributes'.entries, e.1 ∈ markNames :=
  ⟨_, attributes, _, rfl, (allLines_map settle _).2 (hpieces x y slot), hattributes⟩

variable [Scalar α]

/-- Such a node is a group of lines and nodes, and has no attributes but marks. -/
theorem Node.exists_place_eq {o : Options α} {n : Node α} (h : n.kind.isLines) (x y slot : α) :
    ∃ site attributes pieces, n.place o x y slot = .group site attributes pieces ∧
      AllLines o.arcRadius pieces ∧ ∀ e ∈ attributes.entries, e.1 ∈ markNames := by
  have hmarks {sizes : List α} {kind : String} {a : Attributes (Value α)}
      (ha : ∀ e ∈ a.entries, e.1 ∈ markNames) :
      ∀ e ∈ (debugMarks o sizes kind a).entries, e.1 ∈ markNames := fun e he =>
    (mem_debugMarks he).elim (ha e) id
  have hnone : ∀ e ∈ (∅ : Attributes (Value α)).entries, e.1 ∈ markNames := nofun
  have hclassed (cls : String) : ∀ e ∈ (classed cls : Attributes (Value α)).entries,
      e.1 ∈ markNames := by
    simp [classed, markNames]
  have hpassing (m : Metrics α) : ∀ e ∈ (passingAttributes o m).entries, e.1 ∈ markNames := by
    refine hmarks fun e he => ?_
    rcases Attributes.mem_upsertEntries he with he | ⟨hname, -⟩
    · exact hmarks hnone e he
    · exact hname ▸ by decide
  rw [place]
  cases n with
  | terminal | nonTerminal | comment | start | finish | group | multipleChoice | block =>
    exact absurd h Bool.false_ne_true
  | skip =>
    have hskip : ∀ e ∈ (if o.debug then ⟨[("data-type", .text "skip")]⟩ else ∅ :
        Attributes (Value α)).entries, e.1 ∈ markNames := by
      split
      · simp [markNames]
      · exact hnone
    rw [figure]
    exact exists_figure_eq hskip (allLines_skipPieces _) x y slot
  | sequence items =>
    rw [figure]
    exact exists_figure_eq (hmarks hnone) (allLines_sequencePieces o · · · _) x y slot
  | stack first rest =>
    rw [figure]
    exact exists_figure_eq (hmarks hnone) (allLines_stackPieces o · · · _ _) x y slot
  | choice above straight below =>
    rw [figure]
    exact exists_figure_eq (hmarks hnone) (allLines_choicePieces o · · · _ _) x y slot
  | optional item bypass =>
    rw [figure]
    exact exists_figure_eq (hpassing _) (allLines_choicePieces o · · · _ _) x y slot
  | oneOrMore item separator =>
    rw [figure]
    exact exists_figure_eq (hmarks hnone) (allLines_loopPieces o · · · _ _) x y slot
  | zeroOrMore item separator =>
    rw [figure]
    exact exists_figure_eq (hmarks (hpassing _)) (allLines_choicePieces o · · · _ _) x y slot
  | horizontalChoice first middles last =>
    rw [figure]
    exact exists_figure_eq (hmarks (hclassed _)) (allLines_sidePieces o · · · _) x y slot
  | alternatingSequence first second =>
    rw [figure]
    exact exists_figure_eq (hmarks hnone) (allLines_crossingPieces o · · · _ _) x y slot
  | optionalSequence first second rest =>
    rw [figure]
    exact exists_figure_eq (hmarks (hclassed _)) (allLines_skipRowPieces o · · · _ _) x y slot
  | verticalSequence first rest =>
    rw [figure]
    exact exists_figure_eq (hmarks hnone) (allLines_columnPieces o · · · _ _) x y slot

/-- **The picture of a node** is what the nodes in it make themselves. -/
theorem Node.walk_draw {o : Options α} (n : Node α) (x y slot : α) :
    (n.draw o x y slot).walk.Perm ((n.place o x y slot).walk.flatMap Placed.own) := by
  induction n using Node.induction generalizing x y slot with
  | h n ih =>
    rw [draw, Placed.walk_eq, List.flatMap_cons, List.flatMap_assoc]
    refine (Placed.walk_draw _).trans (.append_left _ (.flatMap_left _ ?_))
    intro q hq
    obtain ⟨c, hc, x', y', slot', rfl⟩ := (mem_nodes_place o).1 q hq
    exact ih c hc x' y' slot'

/-- All nodes in a placed node are nodes of the tree that are placed. -/
theorem Node.exists_place_of_mem {o : Options α} {n : Node α} {x y slot : α} {q : Placed α}
    (hq : q ∈ (n.place o x y slot).walk) : ∃ m ∈ n.walk, ∃ x y slot, m.place o x y slot = q := by
  induction n using Node.induction generalizing x y slot with
  | h n ih =>
    rw [Placed.walk_eq] at hq
    rw [n.walk_eq]
    rcases List.mem_cons.1 hq with rfl | hq
    · exact ⟨n, List.mem_cons_self, x, y, slot, rfl⟩
    · obtain ⟨p, hp, hq⟩ := List.mem_flatMap.1 hq
      obtain ⟨c, hc, x', y', slot', rfl⟩ := (mem_nodes_place o).1 p hp
      obtain ⟨m, hm, hplace⟩ := ih c hc hq
      exact ⟨m, List.mem_cons_of_mem _ (List.mem_flatMap.2 ⟨c, hc, hm⟩), hplace⟩

/-- **Every element is made by a node**: it is one of those that some node of the tree makes itself
where it stands. -/
theorem Node.mem_walk_draw {o : Options α} {n : Node α} {x y slot : α} {e : Drawing α}
    (h : e ∈ (n.draw o x y slot).walk) :
    ∃ m ∈ n.walk, ∃ x y slot, e ∈ (m.place o x y slot).own := by
  obtain ⟨q, hq, he⟩ := List.mem_flatMap.1 ((n.walk_draw x y slot).subset h)
  obtain ⟨m, hm, x', y', slot', rfl⟩ := exists_place_of_mem hq
  exact ⟨m, hm, x', y', slot', he⟩

namespace Diagram

/-- The groups around all nodes: the root of the picture, and the one that moves it. -/
def frames (d : Diagram α) (x y : α) (padding : Padding α) : List (Drawing α) :=
  [d.draw x y padding,
   .group "g" (if d.options.strokeOddPixelLength then
      ⟨[("transform", .text "translate(.5 .5)")]⟩ else ∅)
     (Placed.drawPieces (d.pieces x y padding))]

theorem walk_draw (d : Diagram α) (x y : α) (padding : Padding α) :
    (d.draw x y padding).walk =
      d.frames x y padding ++ Drawing.walks (Placed.drawPieces (d.pieces x y padding)) := by
  rw [frames, draw]
  simp only [Drawing.walk, Drawing.walks, List.append_nil, List.cons_append, List.nil_append]

/-- Between the items of a diagram there are lines alone. -/
theorem allLines_pieces (d : Diagram α) (x y : α) (padding : Padding α) :
    AllLines d.options.arcRadius (d.pieces x y padding) :=
  (allLines_map settle _).2 (allLines_rowPieces _ _ _ _ _ _)

/-- **Every element of a diagram** is one of its frames, a line between two items, or it is in the
picture of an item. -/
theorem mem_walk_draw {d : Diagram α} {x y : α} {padding : Padding α} {e : Drawing α}
    (h : e ∈ (d.draw x y padding).walk) :
    e ∈ d.frames x y padding ∨
      (∃ path : Path α, e = .track path ∧ path.IsCalled d.options.arcRadius) ∨
      ∃ n ∈ d.items, ∃ x y slot, e ∈ (n.draw d.options x y slot).walk := by
  rw [walk_draw, List.mem_append, (Placed.walks_drawPieces _).mem_iff, List.mem_append] at h
  refine h.imp_right (.imp ?_ ?_)
  · exact (d.allLines_pieces x y padding).exists_track
  · intro hitem
    obtain ⟨q, hq, he⟩ := List.mem_flatMap.1 hitem
    obtain ⟨n, hn, x', y', slot', rfl⟩ := mem_pieces.1 q hq
    exact ⟨n, hn, x', y', slot', he⟩

end Diagram
end SyntaxDiagram
