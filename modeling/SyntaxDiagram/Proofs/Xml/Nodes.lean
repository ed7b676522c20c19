import SyntaxDiagram.Proofs.Placement
import SyntaxDiagram.Proofs.Xml.Layouts

/-!
# Legal trees

A tree is drawn legally if its texts may stand where they are drawn.

* `Node.Legal`: trees whose texts may stand in a document. The texts that become attribute values
  are of a class of characters.
* `Placed.legal_draw`: a placed node is drawn legally exactly if its own lines and shapes and the
  nodes right in it are.
* `Node.legalHere_place`: the lines and shapes of each kind of node.
* `Node.legal_draw`: legal trees are drawn legally, by induction over the tree.
* `Node.only_links_of_draw`: if a tree is drawn legally, its link targets and tooltips are legal.
-/

namespace SyntaxDiagram

open Text (Only isPlain)
open Layout

variable {α : Type} {P : Char → Prop}

/-! ## Trees -/

/-- The texts of a node itself. Labels and captions become character data, attributes and link
targets become attribute values. -/
def Node.LegalHere (P : Char → Prop) : Node α → Prop
  | terminal text attributes | nonTerminal text attributes =>
    Only (Xml.isChar ·) text ∧ attributes.Legal (Only P)
  | comment text href title =>
    Only (Xml.isChar ·) text ∧ (∀ t ∈ href, Only P t) ∧ ∀ t ∈ title, Only (Xml.isChar ·) t
  | start _ label => Only (Xml.isChar ·) label
  | _ => True

/-- The texts of all nodes in a tree. -/
def Node.Legal (P : Char → Prop) (n : Node α) : Prop := ∀ m ∈ n.walk, m.LegalHere P

theorem Node.legal_iff {n : Node α} :
    n.Legal P ↔ n.LegalHere P ∧ ∀ c ∈ n.children, c.Legal P :=
  forall_mem_walk

theorem Node.only_name (hP : Xml.Suits P) (kind : Node.Kind) : Only P kind.name := by
  cases kind <;> exact hP.only_of_all (by decide)

/-! ## Placed nodes -/

namespace Placed

/-- The attributes, lines and shapes of a placed node itself. -/
def LegalHere (P : Char → Prop) : Placed α → Prop
  | group _ attributes pieces => attributes.Legal (·.Legal P) ∧ Layout.AllLegal P pieces
  | bare _ drawing => drawing.Legal P

theorem legal_track {path : Path α} : (Drawing.track path).Legal P ↔ path.Legal P := by
  constructor
  · intro h
    simpa using h.2.1.values _ List.mem_cons_self
  · intro h
    refine ⟨by decide, ?_, Text.only_empty⟩
    exact .of_names ["d"] rfl (by decide) (by decide) (by simpa using h)

theorem legal_drawPieces {pieces : List (Piece α (Placed α))} :
    Drawing.AllLegal P (drawPieces pieces) ↔
      Layout.AllLegal P pieces ∧ ∀ p ∈ contents pieces, p.draw.Legal P := by
  induction pieces with
  | nil => exact iff_of_true trivial ⟨allLegal_nil, nofun⟩
  | cons p rest ih =>
    rw [drawPieces, Drawing.AllLegal, ih, allLegal_cons, and_assoc]
    cases p with
    | track path => exact and_congr legal_track .rfl
    | shape drawing => exact .rfl
    | child content =>
      rw [contents_child, List.forall_mem_cons]
      exact ⟨fun h => ⟨trivial, h.2.1, h.1, h.2.2⟩, fun h => ⟨h.2.2.1, h.2.1, h.2.2.2⟩⟩

/-- A placed node is drawn legally exactly if its own part of the picture is legal, and that of the
nodes right in it. -/
theorem legal_draw {p : Placed α} :
    p.draw.Legal P ↔ p.LegalHere P ∧ ∀ q ∈ p.nodes, q.draw.Legal P := by
  cases p with
  | group site attributes pieces =>
    rw [draw, Drawing.Legal, legal_drawPieces, ← and_assoc, ← and_assoc]
    exact and_congr_left' ⟨fun h => ⟨h.1.2, h.2⟩, fun h => ⟨⟨by decide, h.1⟩, h.2⟩⟩
  | bare site drawing => exact (and_iff_left nofun).symm

end Placed

/-! ## Figures -/

namespace Layout

theorem legal_classed {cls : String} (hcls : Only P cls) :
    (classed cls : Attributes (Value α)).Legal (·.Legal P) :=
  .of_names ["class"] rfl (by decide) (by decide) (by simpa using hcls)

section Marks

variable (hP : Xml.Suits P) (o : Options α)
include hP

theorem legal_flatMarks (m : Metrics α) (kind : Node.Kind) {a : Attributes (Value α)}
    (ha : a.Legal (·.Legal P)) : (flatMarks o m kind a).Legal (·.Legal P) :=
  legal_debugMarks o _ (Node.only_name hP kind) ha

theorem legal_dropMarks (m : Metrics α) (kind : Node.Kind) {a : Attributes (Value α)}
    (ha : a.Legal (·.Legal P)) : (dropMarks o m kind a).Legal (·.Legal P) :=
  legal_debugMarks o _ (Node.only_name hP kind) ha

theorem legal_passingAttributes (m : Metrics α) : (passingAttributes o m).Legal (·.Legal P) := by
  have hcls : Only P "optional" := hP.only_of_all (by decide)
  have hchoice := legal_dropMarks hP o m .choice Attributes.legal_empty
  exact legal_dropMarks hP o m .optional (hchoice.set (by decide) hcls)

theorem legal_boxAttributes [Scalar α] (kind : Node.Kind) {given : Attributes String}
    (hgiven : given.Legal (Only P)) :
    (boxAttributes o kind.name given).Legal (Value.Legal (α := α) P) := by
  have hname := Node.only_name hP kind
  have htexts : (given.map Value.text).Legal (Value.Legal (α := α) P) :=
    (Attributes.legal_map fun _ => .rfl).2 hgiven
  exact legal_debugMarks o _ hname (htexts.set (by decide) hname)

theorem legal_skipMarks :
    (if o.debug then ⟨[("data-type", .text "skip")]⟩ else ∅ :
      Attributes (Value α)).Legal (·.Legal P) := by
  have hskip : Only P "skip" := hP.only_of_all (by decide)
  split
  · exact .of_names ["data-type"] rfl (by decide) (by decide) (by simpa using hskip)
  · exact Attributes.legal_empty

end Marks

theorem legalHere_figure {kind : Node.Kind} {m : Metrics α} {attributes : Attributes (Value α)}
    {inside : List (Figure α)} {pieces : (x y slot : α) → List (Piece α (Site α (Drawable α)))}
    (hattributes : attributes.Legal (·.Legal P))
    (hpieces : ∀ x y slot, AllLegal P (pieces x y slot)) (x y slot : α) :
    ((figure kind m attributes inside pieces).item.place x y slot).LegalHere P :=
  ⟨hattributes, (allLegal_map settle _).2 (hpieces x y slot)⟩

end Layout

namespace Node

variable [Scalar α] (hP : Xml.Suits P) (o : Options α)

section Place

include hP

/-- **What a node draws itself is legal** if its own texts are. -/
theorem legalHere_place {n : Node α} (h : n.LegalHere P) (x y slot : α) :
    (n.place o x y slot).LegalHere P := by
  have hflat (m : Metrics α) (kind : Kind) := legal_flatMarks hP o m kind Attributes.legal_empty
  have hdrop (m : Metrics α) (kind : Kind) := legal_dropMarks hP o m kind Attributes.legal_empty
  have hclassed {cls : String} (hcls : cls.toList.all isPlain = true) :
      (classed cls : Attributes (Value α)).Legal (·.Legal P) := legal_classed (hP.only_of_all hcls)
  rw [place]
  cases n with
  | terminal text attributes =>
    rw [figure]
    exact legalHere_figure (legal_boxAttributes hP o .terminal h.2)
      (fun x y slot => allLegal_boxPieces o x y slot hP true h.1 h.2) x y slot
  | nonTerminal text attributes =>
    rw [figure]
    exact legalHere_figure (legal_boxAttributes hP o .nonTerminal h.2)
      (fun x y slot => allLegal_boxPieces o x y slot hP false h.1 h.2) x y slot
  | comment text href title =>
    rw [figure]
    exact legalHere_figure (hflat _ .comment)
      (fun x y slot => allLegal_remarkPieces o x y slot hP h.1 h.2.1 h.2.2) x y slot
  | skip =>
    rw [figure]
    exact legalHere_figure (legal_skipMarks hP o) (fun x y slot => (allLines_skipPieces o.arcRadius x y slot).allLegal) x y slot
  | start style label =>
    rw [figure]
    exact legalHere_figure (hflat _ .start)
      (fun x y _ => allLegal_startPieces o x y hP style h) x y slot
  | finish style =>
    rw [figure]
    exact legal_endDrawing o x y hP style
  | sequence items =>
    rw [figure]
    exact legalHere_figure (hflat _ .sequence)
      (fun x y slot => (allLines_sequencePieces o x y slot _).allLegal) x y slot
  | stack first rest =>
    rw [figure]
    exact legalHere_figure (hflat _ .stack)
      (fun x y slot => (allLines_stackPieces o x y slot _ _).allLegal) x y slot
  | choice above straight below =>
    rw [figure]
    exact legalHere_figure (hdrop _ .choice)
      (fun x y slot => (allLines_choicePieces o x y slot _ _).allLegal) x y slot
  | optional item bypass =>
    rw [figure]
    exact legalHere_figure (legal_passingAttributes hP o _)
      (fun x y slot => (allLines_choicePieces o x y slot _ _).allLegal) x y slot
  | oneOrMore item separator =>
    rw [figure]
    exact legalHere_figure (hdrop _ .oneOrMore)
      (fun x y slot => (allLines_loopPieces o x y slot _ _).allLegal) x y slot
  | zeroOrMore item separator =>
    rw [figure]
    exact legalHere_figure (legal_dropMarks hP o _ .zeroOrMore (legal_passingAttributes hP o _))
      (fun x y slot => (allLines_choicePieces o x y slot _ _).allLegal) x y slot
  | group item label =>
    rw [figure]
    exact legalHere_figure (hflat _ .group)
      (fun x y slot => allLegal_framePieces o x y slot hP _ _) x y slot
  | horizontalChoice first middles last =>
    rw [figure]
    exact legalHere_figure (legal_dropMarks hP o _ .horizontalChoice (hclassed (by decide)))
      (fun x y slot => (allLines_sidePieces o x y slot _).allLegal) x y slot
  | multipleChoice kind above straight below =>
    rw [figure]
    exact legalHere_figure (legal_dropMarks hP o _ .multipleChoice (hclassed (by decide)))
      (fun x y slot => allLegal_multiplePieces o x y slot hP kind _) x y slot
  | alternatingSequence first second =>
    rw [figure]
    exact legalHere_figure (hflat _ .alternatingSequence)
      (fun x y slot => (allLines_crossingPieces o x y slot _ _).allLegal) x y slot
  | optionalSequence first second rest =>
    rw [figure]
    exact legalHere_figure (legal_flatMarks hP o _ .optionalSequence (hclassed (by decide)))
      (fun x y slot => (allLines_skipRowPieces o x y slot _ _).allLegal) x y slot
  | verticalSequence first rest =>
    rw [figure]
    exact legalHere_figure (hflat _ .verticalSequence)
      (fun x y slot => (allLines_columnPieces o x y slot _ _).allLegal) x y slot
  | block metrics =>
    rw [figure]
    exact legal_blockDrawing x y slot

end Place

/-- What is placed at the sites of some nodes are those nodes. -/
theorem mem_settled {ns : List (Node α)} {sites : List (Site α (Drawable α))}
    (h : (sites.map Site.toSized).Perm (ns.map (figure o))) :
    (∀ q ∈ sites.map settle, ∃ n ∈ ns, ∃ x y slot, n.place o x y slot = q) ∧
      ∀ n ∈ ns, ∃ x y slot, n.place o x y slot ∈ sites.map settle := by
  -- a figure at a site is that of its node, wherever the site is
  have hsettle {n : Node α} {s : Site α (Drawable α)} (hs : n.figure o = s.toSized) :
      n.place o s.x s.y s.slot = settle s := by rw [place, hs, settle]
  constructor
  · intro q hq
    obtain ⟨s, hs, rfl⟩ := List.mem_map.1 hq
    obtain ⟨n, hn, hfigure⟩ := List.mem_map.1 (h.subset (List.mem_map_of_mem hs))
    exact ⟨n, hn, s.x, s.y, s.slot, hsettle hfigure⟩
  · intro n hn
    obtain ⟨s, hs, hfigure⟩ := List.mem_map.1 (h.symm.subset (List.mem_map_of_mem hn))
    exact ⟨s.x, s.y, s.slot, hsettle hfigure.symm ▸ List.mem_map_of_mem hs⟩

/-- What is placed right in a node are its children. -/
theorem mem_nodes_place {n : Node α} {x y slot : α} :
    (∀ q ∈ (n.place o x y slot).nodes, ∃ c ∈ n.children, ∃ x y slot, c.place o x y slot = q) ∧
      ∀ c ∈ n.children, ∃ x' y' slot', c.place o x' y' slot' ∈ (n.place o x y slot).nodes := by
  obtain ⟨sites, hnodes, hinside⟩ := (n.faithful_figure o).nodes x y slot
  rw [n.inside_figure] at hinside
  rw [place, hnodes]
  exact mem_settled o hinside

include hP in
/-- **Legal trees are drawn legally**, wherever they stand. The induction is over the tree: what a
node draws itself is legal, and what else there is in its picture are its children. -/
theorem legal_draw {n : Node α} (h : n.Legal P) (x y slot : α) : (n.draw o x y slot).Legal P := by
  induction n using Node.induction generalizing x y slot with
  | h n ih =>
    rw [legal_iff] at h
    refine Placed.legal_draw.2 ⟨legalHere_place hP o h.1 x y slot, fun q hq => ?_⟩
    obtain ⟨c, hc, x, y, slot, rfl⟩ := (mem_nodes_place o).1 q hq
    exact ih c hc (h.2 c hc) x y slot

/-! ## Links -/

/-- The texts of a node that stand in attributes: link targets, and the tooltips of boxed text. -/
def links : Node α → List String
  | terminal _ attributes | nonTerminal _ attributes =>
    (attributes.get? "href").toList ++ (attributes.get? "title").toList
  | comment _ href _ => href.toList
  | _ => []

theorem only_of_legal_boxAttributes {cls : String} {given : Attributes String}
    (h : (boxAttributes o cls given).Legal (Value.Legal (α := α) P)) {name value : String}
    (hname : name ∉ ["class", "data-updown", "data-type"]) (hvalue : given.get? name = some value) :
    Only P value := by
  simp only [List.mem_cons, List.not_mem_nil, or_false, not_or] at hname
  have hget : (boxAttributes o cls given).get? name = some (.text value) := by
    have hkept : ((given.map Value.text).set "class" (.text cls)).get? name =
        (some (.text value) : Option (Value α)) := by
      rw [Attributes.get?_set_of_ne _ hname.1, Attributes.get?_map, hvalue, Option.map_some]
    rw [boxAttributes, debugMarks]
    split
    · rw [Attributes.get?_set_of_ne _ hname.2.2, Attributes.get?_set_of_ne _ hname.2.1, hkept]
    · exact hkept
  exact h.get? hget

theorem only_links_of_place {n : Node α} {x y slot : α}
    (h : (n.place o x y slot).LegalHere P) : ∀ t ∈ n.links, Only P t := by
  have hbox {cls : String} {given : Attributes String}
      (h : (boxAttributes o cls given).Legal (Value.Legal (α := α) P)) :
      ∀ t ∈ (given.get? "href").toList ++ (given.get? "title").toList, Only P t := by
    refine List.forall_mem_append.2 ⟨fun t ht => ?_, fun t ht => ?_⟩
    · exact only_of_legal_boxAttributes o h (by decide) (Option.mem_toList.1 ht)
    · exact only_of_legal_boxAttributes o h (by decide) (Option.mem_toList.1 ht)
  rw [place] at h
  cases n with
  | terminal text attributes | nonTerminal text attributes =>
    rw [figure] at h
    exact hbox h.1
  | comment text href title =>
    rw [figure] at h
    have hpieces := (allLegal_map settle _).1 h.2
    simp only [remarkPieces, allLegal_append, allLegal_cons, legal_shape] at hpieces
    exact fun t ht => only_of_legal_linkTo hpieces.2.1 t (Option.mem_toList.1 ht)
  | _ => exact fun t ht => absurd ht List.not_mem_nil

/-- **Links get into the picture**: if it is legal, so are all link targets and tooltips. -/
theorem only_links_of_draw {n : Node α} {x y slot : α} (h : (n.draw o x y slot).Legal P) :
    ∀ m ∈ n.walk, ∀ t ∈ m.links, Only P t := by
  induction n using Node.induction generalizing x y slot with
  | h n ih =>
    obtain ⟨hhere, hnodes⟩ := Placed.legal_draw.1 h
    rw [n.walk_eq, List.forall_mem_cons]
    refine ⟨only_links_of_place o hhere, fun m hm => ?_⟩
    obtain ⟨c, hc, hm⟩ := List.mem_flatMap.1 hm
    obtain ⟨x', y', slot', hmem⟩ := (mem_nodes_place o).2 c hc
    exact ih c hc (hnodes _ hmem) m hm

end Node
end SyntaxDiagram
