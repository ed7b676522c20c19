import Mathlib.Data.List.Chain
import Mathlib.Data.List.Forall2
import SyntaxDiagram.Proofs.Connection.Columns
import SyntaxDiagram.Proofs.Layout.Sequences

/-!
# The items of a row

A row is sized by adding up its items and trimming its ends; it is drawn by going from item to item
with connectors in between. There are no gaps in it, whatever the sizes of the items are, whether
they need space or not, and whether they drop.

* `Layout.Unbroken`: pieces that are drawn from where the ones before them end.
* `Layout.InRow`: items in a row, with the points where each of them is entered.
* `Layout.inRow_rowPieces`: the pieces of a row are in a row.
* `Node.rows_unbroken`: the same for the items of a sequence and for those of a diagram, which end
  where the size of the sequence or the diagram says.
-/

namespace SyntaxDiagram

variable {K β γ δ : Type} [ExactScalar K]

/-- A placed node needs the connectors that its size asks for. -/
def Placed.lead (p : Placed K) : K := p.site.metrics.lead

namespace Layout

/-! ## Pieces without gaps -/

/-- Pieces that are drawn one after another from a point to a point. Each is a connector, which is a
line of 10 units to the right, or an item that is entered where the piece before it ends. -/
inductive Unbroken (ports : γ → Ports K) : List (Piece K γ) → K × K → K × K → Prop
  | nil (a : K × K) : Unbroken ports [] a a
  | connector {x y : K} {rest : List (Piece K γ)} {b : K × K}
      (h : Unbroken ports rest (x + 10, y) b) :
      Unbroken ports (.track ((start x y).h 10) :: rest) (x, y) b
  | item {content : γ} {rest : List (Piece K γ)} {b : K × K}
      (h : Unbroken ports rest (ports content).exit b) :
      Unbroken ports (.child content :: rest) (ports content).entry b

namespace Unbroken

variable {ports : γ → Ports K} {pieces more : List (Piece K γ)} {a b c : K × K}

theorem append (h : Unbroken ports pieces a b) (hmore : Unbroken ports more b c) :
    Unbroken ports (pieces ++ more) a c := by
  induction h with
  | nil => exact hmore
  | connector _ ih => exact .connector (ih hmore)
  | item _ ih => exact .item (ih hmore)

/-- An item in a slot of its own width. -/
theorem piece (s : Sized K β) (x y : K) {rest : List (Piece K (Site K β))}
    (h : Unbroken Site.ports rest (x + s.metrics.width, y + s.metrics.height) b) :
    Unbroken Site.ports (s.piece x y s.metrics.width :: rest) (x, y) b := .item h

/-- Other content with the same entries and exits is joined by the same lines. -/
theorem map {f : γ → δ} {ports' : δ → Ports K} (h : Unbroken ports pieces a b)
    (hf : ∀ content ∈ contents pieces, ports' (f content) = ports content) :
    Unbroken ports' (pieces.map (Piece.map f)) a b := by
  induction h with
  | nil a => exact .nil a
  | connector _ ih => exact .connector (ih hf)
  | item _ ih =>
    rw [contents_child, List.forall_mem_cons] at hf
    have hrest := ih hf.2
    rw [← hf.1] at hrest ⊢
    exact .item hrest

end Unbroken

/-! ## Items in a row -/

/-- Items in a row from a point to a point. With `edges` there are connectors at both ends of the
row. -/
structure InRow (ports : γ → Ports K) (lead : γ → K) (edges : Bool) (pieces : List (Piece K γ))
    (a b : K × K) : Prop where
  unbroken : Unbroken ports pieces a b
  first : ∀ p ∈ (contents pieces).head?,
    (ports p).entry = (a.1 + if edges then lead p else 0, a.2)
  next : (contents pieces).IsChain fun p q =>
    (ports q).entry = ((ports p).exit.1 + lead p + lead q, (ports p).exit.2)
  last : ∀ p ∈ (contents pieces).getLast?,
    b = ((ports p).exit.1 + if edges then lead p else 0, (ports p).exit.2)
  empty : contents pieces = [] → a = b

/-- Other content that is entered and left at the same points is in the same row. -/
theorem InRow.map {ports : γ → Ports K} {lead : γ → K} {edges : Bool} {pieces : List (Piece K γ)}
    {a b : K × K} {f : γ → δ} {ports' : δ → Ports K} {lead' : δ → K}
    (h : InRow ports lead edges pieces a b)
    (hports : ∀ p ∈ contents pieces, ports' (f p) = ports p)
    (hlead : ∀ p ∈ contents pieces, lead' (f p) = lead p) :
    InRow ports' lead' edges (pieces.map (Piece.map f)) a b where
  unbroken := h.unbroken.map hports
  first := by
    rw [contents_map, List.head?_map, Option.forall_mem_map]
    intro p hp
    have hmem := List.mem_of_mem_head? hp
    rw [hports p hmem, hlead p hmem]
    exact h.first p hp
  next := by
    rw [contents_map, List.isChain_map]
    refine h.next.imp_of_mem_imp fun p q hp hq hnext => ?_
    rw [hports p hp, hports q hq, hlead p hp, hlead q hq]
    exact hnext
  last := by
    rw [contents_map, List.getLast?_map, Option.forall_mem_map]
    intro p hp
    have hmem := List.mem_of_mem_getLast? hp
    rw [hports p hmem, hlead p hmem]
    exact h.last p hp
  empty hnil := by
    rw [contents_map, List.map_eq_nil_iff] at hnil
    exact h.empty hnil

/-! ## The pieces of a row -/

section

variable (edges inside : Bool)

/-- The end of the connector of an item that has one on a side. -/
theorem pastConnector_eq (m : Metrics K) (side : Bool) (x : K) :
    pastConnector (m.needsSpace && side) x = x + if side then m.lead else 0 := by
  cases h : m.needsSpace <;> cases side <;> simp [pastConnector, Metrics.lead, h]

theorem unbroken_connector (present : Bool) (x y : K) :
    Unbroken Site.ports (connector present x y : List (Piece K (Site K β))) (x, y)
      (pastConnector present x, y) := by
  cases present with
  | false => exact .nil _
  | true => exact .connector (.nil _)

/-- **A row has no gaps** up to the point where it ends. -/
theorem unbroken_rowPieces (items : List (Sized K β)) (x y : K) :
    Unbroken Site.ports (rowPieces edges inside items x y) (x, y)
      (rowEnd edges inside (items.map (·.metrics)) x y) := by
  induction items generalizing inside x y with
  | nil => exact .nil _
  | cons s rest ih =>
    rw [rowPieces, List.map_cons, rowEnd, List.isEmpty_map, List.append_assoc]
    refine (unbroken_connector _ x y).append ?_
    exact .piece s _ y ((unbroken_connector _ _ _).append (ih true _ _))

/-- Each item of a row is put somewhere in a slot of its own width. -/
theorem rowPieces_slots (items : List (Sized K β)) (x y : K) :
    List.Forall₂ (fun i s => ∃ x y, s = i.at x y i.metrics.width) items
      (contents (rowPieces edges inside items x y)) := by
  induction items generalizing inside x y with
  | nil => exact .nil
  | cons s rest ih =>
    simp only [rowPieces, contents_append, contents_connector, contents_piece, List.nil_append,
      List.cons_append]
    exact .cons ⟨_, _, rfl⟩ (ih true _ _)

/-- The first item of a row stands behind its connector, if it has one on that side. -/
theorem rowPieces_first (items : List (Sized K β)) (x y : K) :
    ∀ s ∈ (contents (rowPieces edges inside items x y)).head?,
      s.ports.entry = (x + if edges || inside then s.metrics.lead else 0, y) := by
  cases items with
  | nil => exact nofun
  | cons i rest =>
    simp only [rowPieces, contents_append, contents_connector, contents_piece, List.nil_append,
      List.cons_append, List.head?_cons]
    intro s hs
    obtain rfl := Option.some.inj hs
    exact Prod.ext (pastConnector_eq i.metrics _ x) rfl

/-- Between two items of a row there are the connectors of both. -/
theorem rowPieces_next (items : List (Sized K β)) (x y : K) :
    (contents (rowPieces edges inside items x y)).IsChain fun p q =>
      q.ports.entry = (p.ports.exit.1 + p.metrics.lead + q.metrics.lead, p.ports.exit.2) := by
  induction items generalizing inside x y with
  | nil => exact .nil
  | cons i rest ih =>
    simp only [rowPieces, contents_append, contents_connector, contents_piece, List.nil_append,
      List.cons_append]
    refine List.isChain_cons.2 ⟨fun q hq => ?_, ih true _ _⟩
    -- there is another item, so that the first one keeps the connector behind it
    have hrest : rest.isEmpty = false := by
      cases rest with
      | nil => cases hq
      | cons => rfl
    have hentry := rowPieces_first edges true rest _ _ q hq
    simp only [Bool.or_true, if_true, hrest, Bool.not_false, pastConnector_eq i.metrics true]
      at hentry
    exact hentry

/-- A row ends behind the connector of its last item, if it has one on that side. -/
theorem rowPieces_last (items : List (Sized K β)) (x y : K) :
    ∀ s ∈ (contents (rowPieces edges inside items x y)).getLast?,
      rowEnd edges inside (items.map (·.metrics)) x y =
        (s.ports.exit.1 + if edges then s.metrics.lead else 0, s.ports.exit.2) := by
  induction items generalizing inside x y with
  | nil => exact nofun
  | cons i rest ih =>
    simp only [rowPieces, contents_append, contents_connector, contents_piece, List.nil_append,
      List.cons_append, List.map_cons, rowEnd, List.isEmpty_map]
    cases rest with
    | nil =>
      intro s hs
      obtain rfl := Option.some.inj hs
      simp only [List.isEmpty_nil, Bool.not_true, Bool.or_false, pastConnector_eq i.metrics edges]
      rfl
    | cons next rest =>
      rw [List.getLast?_cons_of_ne_nil (by simp [rowPieces])]
      exact ih true _ _

/-- **The pieces of a row** are in a row, up to the point where the row ends. -/
theorem inRow_rowPieces (items : List (Sized K β)) (x y : K) :
    InRow Site.ports (·.metrics.lead) edges (rowPieces edges false items x y) (x, y)
      (rowEnd edges false (items.map (·.metrics)) x y) where
  unbroken := unbroken_rowPieces edges false items x y
  first p hp := by
    rw [rowPieces_first edges false items x y p hp, Bool.or_false]
  next := rowPieces_next edges false items x y
  last := rowPieces_last edges false items x y
  empty hnil := by
    have hitems := contents_rowPieces x y edges false items
    rw [hnil] at hitems
    rw [← hitems]
    rfl

end

end Layout

open Layout

/-! ## Nodes -/

/-- Pieces among which some nodes are placed in order, each in a slot of its own width. -/
def PlacedInOrder (o : Options K) (nodes : List (Node K)) (pieces : List (Piece K (Placed K))) :
    Prop :=
  List.Forall₂ (fun n p => ∃ x y, p = n.place o x y (n.metrics o).width) nodes (contents pieces)

section

variable (o : Options K) (edges : Bool) (items : List (Node K)) (x y : K)

/-- The nodes of a row at their places. -/
theorem placedInOrder_rowPieces :
    PlacedInOrder o items
      ((rowPieces edges false (items.map (Node.figure o)) x y).map (Piece.map settle)) := by
  have hslots := rowPieces_slots edges false (items.map (Node.figure o)) x y
  rw [PlacedInOrder, contents_map, List.forall₂_map_right_iff]
  rw [List.forall₂_map_left_iff] at hslots
  refine hslots.imp ?_
  rintro n s ⟨x, y, rfl⟩
  exact ⟨x, y, rfl⟩

/-- The nodes of a row are in a row. -/
theorem inRow_settle :
    InRow Placed.ports Placed.lead edges
      ((rowPieces edges false (items.map (Node.figure o)) x y).map (Piece.map settle)) (x, y)
      (rowEnd edges false (items.map (Node.metrics o)) x y) := by
  have hrow := inRow_rowPieces edges (items.map (Node.figure o)) x y
  have hsites := contents_rowPieces x y edges false (items.map (Node.figure o))
  rw [List.map_map] at hrow
  refine hrow.map (fun s hs => ?_) fun s hs => ?_
  · obtain ⟨n, -, hn⟩ := exists_node_of_mem hsites hs
    exact ports_settle hn
  · obtain ⟨n, -, hn⟩ := exists_node_of_mem hsites hs
    rw [Placed.lead, site_settle hn]

end

namespace Node

theorem sequence_laidOut (o : Options K) (items : List (Node K)) :
    (sequence items).LaidOut o (sequenceSize ((items.map (figure o)).map (·.metrics))) items
      (sequencePieces o (items.map (figure o))) where
  aligned := rfl
  figure := by
    rw [figure, figures_eq_map]
    exact ⟨_, _, rfl⟩
  contents x y slot := contents_sequencePieces o x y slot _

/-- **Rows are drawn without breaks**, whatever the sizes of their items are. The items of a
sequence and those of a diagram are placed in order, each where the item before it and the
connectors between them end. The row of a sequence leads from the end of its left gap to the start of
its right gap, and that of a diagram from its entry point, each as far to the right and down as the
sequence or the diagram was measured to be wide and high. -/
theorem rows_unbroken (o : Options K) (items : List (Node K)) :
    (∀ x y slot : K,
      let m := (sequence items).metrics o
      let left := x + (gaps o m slot).left
      let right := left + m.width
      ∃ front back row,
        ((sequence items).place o x y slot).pieces = .track front :: .track back :: row ∧
        front.Draws (x, y) (left, y) ∧ back.Draws (right, y + m.height) (x + slot, y + m.height) ∧
        PlacedInOrder o items row ∧
        InRow Placed.ports Placed.lead false row (left, y) (right, y + m.height)) ∧
    ∀ (x y : K) (padding : Padding K),
      let d : Diagram K := ⟨items, o⟩
      let top := padding.top.getD 20
      let left := x + padding.left.getD top
      let entry := y + top + d.metrics.up
      PlacedInOrder o items (d.pieces x y padding) ∧
        InRow Placed.ports Placed.lead true (d.pieces x y padding) (left, entry)
          (left + d.metrics.width, entry + d.metrics.height) := by
  constructor
  · intro x y slot m left right
    have hlaid := sequence_laidOut o items
    have hm : m = sequenceSize (items.map (metrics o)) := by
      refine hlaid.metrics_eq.trans ?_
      rw [List.map_map]
      rfl
    have hrow := inRow_settle o false items left y
    rw [rowEnd_sequence, ← hm] at hrow
    -- the row stands between the lines in the gaps
    have hpieces := hlaid.pieces_place x y slot
    rw [sequencePieces, List.map_append, ← hlaid.metrics_eq] at hpieces
    obtain ⟨front, back, hsides, hfront, hback⟩ := draws_sides (β := Drawable K) o m x y slot
    cases hsides
    exact ⟨_, _, _, hpieces, hfront, hback, placedInOrder_rowPieces o false items left y, hrow⟩
  · intro x y padding d top left entry
    have hd : d.metrics = rowSize (items.map (metrics o)) := by
      change rowSize ((figures o items).map (·.metrics)) = _
      rw [figures_eq_map, List.map_map]
      rfl
    have hpieces : d.pieces x y padding =
        (rowPieces true false (items.map (figure o)) left entry).map (Piece.map settle) := by
      rw [← figures_eq_map]
      rfl
    have hrow := inRow_settle o true items left entry
    rw [rowEnd_edges, ← rowSize_width, ← rowSize_height, ← hd] at hrow
    rw [hpieces]
    exact ⟨placedInOrder_rowPieces o true items left entry, hrow⟩

end Node
end SyntaxDiagram
