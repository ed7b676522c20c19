import SyntaxDiagram.Proofs.Layout.Choices
import SyntaxDiagram.Proofs.Placement

/-!
# No node is squeezed

A container hands its items slots of its own making: a share of its width, the width that is left
between its arcs, the width of the widest item. Each of these takes away what the size of the
container has added, so that no item gets less than it asks for.

* `Site.Roomy`: an item in a slot that is at least as wide as the item.
* `Layout.roomy_rowPieces` and its companions: the items of each layout have roomy slots.
* `Figure.Roomy`: a figure in which all slots are roomy, wherever it is placed.
* `Diagram.gaps_placed_nonneg`: no gap in the picture of a diagram is negative.
-/

namespace SyntaxDiagram

open Layout

variable {K β : Type} [ExactScalar K] {o : Options K}

/-- An item in a slot that is at least as wide as the item. -/
def Site.Roomy (s : Site K β) : Prop := s.metrics.width ≤ s.slot

namespace Layout

variable {x y slot : K}

/-! ## Rows and columns -/

theorem roomy_rowPieces (edges inside : Bool) (items : List (Sized K β)) :
    ∀ s ∈ contents (rowPieces edges inside items x y), s.Roomy := by
  induction items generalizing inside x y with
  | nil => exact fun _ hs => absurd hs List.not_mem_nil
  | cons item rest ih =>
    simp only [rowPieces, contents_append, contents_piece, contents_connector, List.nil_append,
      List.cons_append, List.forall_mem_cons]
    exact ⟨le_refl _, ih _⟩

theorem roomy_sequencePieces (items : List (Sized K β)) :
    ∀ s ∈ contents (sequencePieces o items x y slot), s.Roomy := by
  rw [sequencePieces, contents_append, contents_sides]
  exact roomy_rowPieces _ _ _

/-- The line of a stack that needs most room sets the width of the others. -/
theorem spacedWidth_le_widest (sizes : List (Metrics K)) (least : K) :
    least ≤ sizes.foldl (fun w m => max w m.spacedWidth) least ∧
      ∀ m ∈ sizes, m.spacedWidth ≤ sizes.foldl (fun w m => max w m.spacedWidth) least := by
  induction sizes generalizing least with
  | nil => exact ⟨le_refl _, fun _ hm => absurd hm List.not_mem_nil⟩
  | cons first rest ih =>
    obtain ⟨hleast, hrest⟩ := ih (max least first.spacedWidth)
    rw [List.foldl_cons, List.forall_mem_cons]
    exact ⟨(le_max_left _ _).trans hleast, (le_max_right _ _).trans hleast, hrest⟩

/-- No line of a stack is wider than the widest one. -/
theorem width_le_widest (items : List (Sized K β)) (least : K) : ∀ i ∈ items,
    i.metrics.width ≤ (items.map (·.metrics)).foldl (fun w m => max w m.spacedWidth) least :=
  fun i hi => i.metrics.width_le_spacedWidth.trans
    ((spacedWidth_le_widest _ _).2 i.metrics (List.mem_map_of_mem hi))

theorem roomy_stackLines {inner : K} {first : Sized K β} {rest : List (Sized K β)}
    (h : ∀ i ∈ first :: rest, i.metrics.width ≤ inner) :
    ∀ s ∈ contents (stackLines o inner x first rest y), s.Roomy := by
  induction rest generalizing first y with
  | nil => simpa [stackLines, Site.Roomy, Sized.at] using h
  | cons next rest ih =>
    simp only [stackLines, contents_piece, contents_track, List.forall_mem_cons]
    exact ⟨h first List.mem_cons_self, ih fun i hi => h i (List.mem_cons_of_mem _ hi)⟩

theorem roomy_stackPieces (first : Sized K β) (rest : List (Sized K β)) :
    ∀ s ∈ contents (stackPieces o first rest x y slot), s.Roomy := by
  rw [stackPieces]
  cases rest with
  | nil =>
    simp only [List.isEmpty_nil, if_true, contents_append, contents_track, contents_nil,
      List.append_nil, List.cons_append]
    refine roomy_stackLines fun i hi => ?_
    rw [ExactScalar.zero_eq, sub_zero]
    exact width_le_widest [first] _ i hi
  | cons next rest =>
    simp only [List.isEmpty_cons, Bool.false_eq_true, if_false, contents_append, contents_track,
      contents_nil, List.append_nil, List.cons_append]
    refine roomy_stackLines fun i hi => ?_
    -- the size of a stack has added the arcs on both sides
    exact (width_le_widest _ _ i hi).trans (add_sub_cancel_right _ _).ge

theorem roomy_columnItems (middle : K) (first : Sized K β) (rest : List (Sized K β)) :
    ∀ s ∈ contents (columnItems o middle x first rest y), s.Roomy := by
  induction rest generalizing first y with
  | nil => simp [columnItems, Site.Roomy, Sized.at]
  | cons next rest ih =>
    simp only [columnItems, contents_piece, contents_track, List.forall_mem_cons]
    exact ⟨le_refl _, ih _⟩

theorem roomy_columnPieces (first : Sized K β) (rest : List (Sized K β)) :
    ∀ s ∈ contents (columnPieces o first rest x y slot), s.Roomy := by
  rw [columnPieces]
  split <;> simpa using roomy_columnItems _ first rest

/-! ## Branches -/

variable {f : ChoiceFrame K} {items : List (Sized K β)} (h : ∀ i ∈ items, i.metrics.width ≤ f.inner)
include h

theorem roomy_choiceAbove (distance : K) :
    ∀ s ∈ contents (choiceAbove f items distance), s.Roomy := by
  induction items generalizing distance with
  | nil => exact fun _ hs => absurd hs List.not_mem_nil
  | cons item rest ih =>
    simp only [choiceAbove, contents_piece, contents_track, List.forall_mem_cons]
    exact ⟨h item List.mem_cons_self, ih (fun i hi => h i (List.mem_cons_of_mem _ hi)) _⟩

theorem roomy_choiceBelow (distance : K) :
    ∀ s ∈ contents (choiceBelow f items distance), s.Roomy := by
  induction items generalizing distance with
  | nil => exact fun _ hs => absurd hs List.not_mem_nil
  | cons item rest ih =>
    simp only [choiceBelow, contents_piece, contents_track, List.forall_mem_cons]
    exact ⟨h item List.mem_cons_self, ih (fun i hi => h i (List.mem_cons_of_mem _ hi)) _⟩

theorem roomy_multipleAbove (distance : K) :
    ∀ s ∈ contents (multipleAbove f items distance), s.Roomy := by
  induction items generalizing distance with
  | nil => exact fun _ hs => absurd hs List.not_mem_nil
  | cons item rest ih =>
    simp only [multipleAbove, contents_piece, contents_track, List.forall_mem_cons]
    exact ⟨h item List.mem_cons_self, ih (fun i hi => h i (List.mem_cons_of_mem _ hi)) _⟩

theorem roomy_multipleBelow (distance : K) :
    ∀ s ∈ contents (multipleBelow f items distance), s.Roomy := by
  induction items generalizing distance with
  | nil => exact fun _ hs => absurd hs List.not_mem_nil
  | cons item rest ih =>
    simp only [multipleBelow, contents_piece, contents_track, List.forall_mem_cons]
    exact ⟨h item List.mem_cons_self, ih (fun i hi => h i (List.mem_cons_of_mem _ hi)) _⟩

omit h

omit [ExactScalar K] in
/-- The branches on both sides of the straight one are branches. -/
theorem forall_branches {p : Sized K β → Prop} {b : Branches (Sized K β)}
    (h : ∀ i ∈ b.toList, p i) :
    (∀ i ∈ b.above.reverse, p i) ∧ p b.straight ∧ ∀ i ∈ b.below, p i := by
  have hsorted : ∀ i ∈ b.above.reverse ++ b.straight :: b.below, p i := fun i hi =>
    h i (Branches.mem_toList.2 hi)
  rwa [List.forall_mem_append, List.forall_mem_cons] at hsorted

/-- The branches of a choice have roomy slots if its width leaves them room between the arcs. -/
theorem roomy_choicePieces {m : Metrics K} {b : Branches (Sized K β)}
    (h : ∀ i ∈ b.toList, i.metrics.width ≤ m.width - 4 * o.arcRadius) :
    ∀ s ∈ contents (choicePieces o m b x y slot), s.Roomy := by
  obtain ⟨habove, hstraight, hbelow⟩ := forall_branches h
  simp only [choicePieces, contents_append, contents_sides, contents_track, contents_piece,
    List.nil_append, List.forall_mem_append, List.forall_mem_cons]
  exact ⟨roomy_choiceAbove habove _, hstraight, roomy_choiceBelow hbelow _⟩

/-- A branch is no wider than the widest one. -/
theorem Branches.item_le_widest (b : Branches (Sized K β)) :
    ∀ i ∈ b.toList, i.metrics.width ≤ (b.map (·.metrics)).widest := fun i hi =>
  Branches.width_le_widest _ i.metrics (Branches.toList_map _ b ▸ List.mem_map_of_mem hi)

/-- The size of a choice has added the arcs on both sides. -/
theorem item_le_choiceSize (b : Branches (Sized K β)) :
    ∀ i ∈ b.toList,
      i.metrics.width ≤ (choiceSize o (b.map (·.metrics))).width - 4 * o.arcRadius := fun i hi =>
  (b.item_le_widest i hi).trans (add_sub_cancel_right _ _).ge

theorem roomy_multiplePieces (kind : ChoiceKind) (b : Branches (Sized K β)) :
    ∀ s ∈ contents (multiplePieces o kind b x y slot), s.Roomy := by
  obtain ⟨habove, hstraight, hbelow⟩ := forall_branches b.item_le_widest
  simp only [multiplePieces, contents_append, contents_sides, contents_track, contents_piece,
    contents_shape, contents_nil, List.append_nil, List.nil_append, List.forall_mem_append,
    List.forall_mem_cons]
  exact ⟨roomy_multipleAbove habove _, hstraight, roomy_multipleBelow hbelow _⟩

/-! ## Loops, frames and rails -/

theorem roomy_loopPieces (item separator : Sized K β) :
    ∀ s ∈ contents (loopPieces o item separator x y slot), s.Roomy := by
  have hinner : (loopSize o item.metrics separator.metrics).width - 2 * o.arcRadius =
      max item.metrics.width separator.metrics.width := add_sub_cancel_right _ _
  simp only [loopPieces, contents_append, contents_sides, contents_piece, contents_track,
    contents_nil, List.nil_append, List.forall_mem_cons, Site.Roomy, Sized.at, hinner]
  exact ⟨le_max_left _ _, le_max_right _ _, fun _ hs => absurd hs List.not_mem_nil⟩

theorem roomy_framePieces (item : Sized K β) (label : Option (Sized K β)) :
    ∀ s ∈ contents (framePieces o item label x y slot), s.Roomy := by
  have hitem : item.metrics.width ≤ (frameSize o item.metrics (label.map (·.metrics))).width :=
    item.metrics.width_le_spacedWidth.trans ((le_max_left _ _).trans (le_max_left _ _))
  simp only [framePieces, contents_append, contents_sides, contents_piece, contents_shape,
    List.nil_append, List.forall_mem_cons]
  refine ⟨hitem, ?_⟩
  cases label with
  | none => exact fun _ hs => absurd hs List.not_mem_nil
  | some caption => simp [Site.Roomy, Sized.at]

theorem roomy_sideItems (upper lower : K) (isFirst : Bool) (items : List (Sized K β)) :
    ∀ s ∈ contents (sideItems o upper lower isFirst items x y), s.Roomy := by
  induction items generalizing isFirst x with
  | nil => exact fun _ hs => absurd hs List.not_mem_nil
  | cons item rest ih =>
    simp only [sideItems, contents_piece, contents_track, List.forall_mem_cons]
    exact ⟨item.metrics.width_le_spacedWidth, ih _⟩

theorem roomy_sidePieces (b : Beside (Sized K β)) :
    ∀ s ∈ contents (sidePieces o b x y slot), s.Roomy := by
  rw [sidePieces, contents_append, contents_sides, contents_track, contents_track]
  exact roomy_sideItems _ _ _ _

theorem roomy_skipRowItems (top : K) (items : List (Sized K β)) :
    ∀ s ∈ contents (skipRowItems o top items x y), s.Roomy := by
  induction items generalizing x y with
  | nil => exact fun _ hs => absurd hs List.not_mem_nil
  | cons item rest ih =>
    have hbridge (isLast : Bool) (bridge : Path K) :
        contents (if isLast then [] else [.track bridge] : List (Piece K (Site K β))) = [] := by
      cases isLast <;> rfl
    simp only [skipRowItems, contents_append, hbridge, contents_piece, contents_track,
      List.nil_append, List.forall_mem_cons]
    exact ⟨le_refl _, ih⟩

theorem roomy_skipRowPieces (first : Sized K β) (rest : List (Sized K β)) :
    ∀ s ∈ contents (skipRowPieces o first rest x y slot), s.Roomy := by
  simp only [skipRowPieces, contents_piece, contents_track, List.forall_mem_cons]
  exact ⟨le_refl _, roomy_skipRowItems _ _⟩

/-! ## Crossings -/

/-- The two bars of a crossing take up no negative room, if the square root of two is not too
large for that. -/
theorem crossX_nonneg (ho : o.Nonneg) (hpos : 0 < (Scalar.sqrtTwo : K))
    (hsmall : (Scalar.sqrtTwo : K) ≤ 4) : 0 ≤ (crossing o).crossX := by
  have hbar : o.arcRadius ≤ 4 * o.arcRadius / Scalar.sqrtTwo := by
    rw [le_div_iff₀ hpos, mul_comm]
    exact mul_le_mul_of_nonneg_right hsmall ho.arcRadius
  have hroom := le_max_left o.arcRadius o.verticalSeparation
  have hcross : (crossing o).crossX =
      max o.arcRadius o.verticalSeparation - 2 * o.arcRadius +
        4 * o.arcRadius / Scalar.sqrtTwo := by
    change max o.arcRadius o.verticalSeparation -
      2 * o.arcRadius * (@OfNat.ofNat K 1 (Scalar.instOfNat 1) -
        @OfNat.ofNat K 1 (Scalar.instOfNat 1) / Scalar.sqrtTwo) +
          2 * o.arcRadius / Scalar.sqrtTwo = _
    rw [show @OfNat.ofNat K 1 (Scalar.instOfNat 1) = 1 from Nat.cast_one]
    ring
  rw [hcross]
  linarith

theorem roomy_crossingPieces (hcross : 0 ≤ (crossing o).crossX) (first second : Sized K β) :
    ∀ s ∈ contents (crossingPieces o first second x y slot), s.Roomy := by
  have hinner : (crossingSize o first.metrics second.metrics).width - 4 * o.arcRadius =
      max (first.metrics.spacedWidth + (crossing o).crossX) second.metrics.spacedWidth :=
    add_sub_cancel_left _ _
  have hfirst := first.metrics.width_le_spacedWidth
  simp only [crossingPieces, contents_piece, contents_track, contents_nil, List.forall_mem_cons,
    Site.Roomy, Sized.at, hinner]
  refine ⟨le_max_of_le_left (by linarith), ?_, fun _ hs => absurd hs List.not_mem_nil⟩
  exact le_max_of_le_right second.metrics.width_le_spacedWidth

end Layout

/-! ## Nodes -/

/-- A figure that has room for all figures right in it, wherever it is placed. -/
def Figure.Roomy (f : Figure K) : Prop :=
  ∀ x y slot, ∀ c ∈ (f.item.place x y slot).nodes, c.site.Roomy

/-- A faithful figure asks for the same room when it is settled. -/
theorem Site.roomy_settle {s : Site K (Drawable K)} (h : Figure.Faithful s.toSized) :
    (settle s).site.Roomy ↔ s.Roomy := by
  have hsite : (settle s).site = ⟨⟨s.metrics, s.item.kind⟩, s.x, s.y, s.slot⟩ :=
    h.site s.x s.y s.slot
  rw [Site.Roomy, Site.Roomy, hsite]

namespace Layout

variable {kind : Node.Kind} {m : Metrics K} {attributes : Attributes (Value K)}
  {inside items : List (Figure K)}
  {pieces : (x y slot : K) → List (Piece K (Site K (Drawable K)))}

/-- **One level of a diagram.** A figure is roomy if its layout gives faithful figures roomy
slots. -/
theorem roomy_figure (hitems : ∀ f ∈ items, f.Faithful)
    (hcontents : ∀ x y slot, (contents (pieces x y slot)).map Site.toSized = items)
    (hroomy : ∀ x y slot, ∀ s ∈ contents (pieces x y slot), s.Roomy) :
    (figure kind m attributes inside pieces).Roomy := by
  intro x y slot c hc
  rw [show ((figure kind m attributes inside pieces).item.place x y slot).nodes =
    (contents (pieces x y slot)).map settle from contents_map _ _] at hc
  obtain ⟨s, hs, rfl⟩ := List.mem_map.1 hc
  have hitem := hitems s.toSized (hcontents x y slot ▸ List.mem_map_of_mem hs)
  exact (Site.roomy_settle hitem).2 (hroomy x y slot s hs)

/-- A figure without items is roomy. -/
theorem roomy_leaf (hcontents : ∀ x y slot, contents (pieces x y slot) = []) :
    (figure kind m attributes inside pieces).Roomy :=
  roomy_figure (fun f (hf : f ∈ []) => absurd hf List.not_mem_nil)
    (fun x y slot => congrArg (List.map _) (hcontents x y slot))
    fun x y slot _ hs => absurd (hcontents x y slot ▸ hs) List.not_mem_nil

theorem roomy_bareFigure (drawing : (x y slot : K) → Drawing K) :
    (bareFigure kind m drawing).Roomy := fun _ _ _ _ hc => absurd hc List.not_mem_nil

/-- A figure that is laid out as a choice is roomy if it is as wide as the choice. -/
theorem roomy_choiceFigure {b : Branches (Figure K)} (hitems : ∀ f ∈ b.toList, f.Faithful)
    (hm : m.width = (choiceSize o (b.map (·.metrics))).width) :
    (figure kind m attributes inside fun x y slot => choicePieces o m b x y slot).Roomy := by
  refine roomy_figure (fun f hf => hitems f (Branches.mem_toList.2 hf))
    (fun x y slot => contents_choicePieces o x y slot m b) fun x y slot => ?_
  refine roomy_choicePieces fun f hf => ?_
  rw [hm]
  exact item_le_choiceSize b f hf

end Layout

namespace Node

variable (o : Options K)

theorem faithful_figures (ns : List (Node K)) : ∀ f ∈ figures o ns, f.Faithful := by
  rw [figures_eq_map]
  exact List.forall_mem_map.2 fun n _ => n.faithful_figure o

/-- The figures of branches are faithful. -/
theorem faithful_branches (above : List (Node K)) (straight : Node K) (below : List (Node K)) :
    ∀ f ∈ (⟨figures o above, straight.figure o, figures o below⟩ : Branches (Figure K)).toList,
      f.Faithful := by
  rw [Branches.toList, List.forall_mem_append, List.forall_mem_cons]
  exact ⟨faithful_figures o above, straight.faithful_figure o, faithful_figures o below⟩

/-- An item that can be passed by is one of two branches. -/
theorem faithful_passing {item : Figure K} (h : item.Faithful) (bypass : Bool) :
    ∀ f ∈ (passing o item bypass).toList, f.Faithful := by
  have hbranches : (passing o item bypass).toList = [(skip : Node K).figure o, item] := by
    cases bypass <;> rfl
  rw [hbranches, List.forall_mem_cons, List.forall_mem_singleton]
  exact ⟨faithful_figure o skip, h⟩

variable {o}

/-- **Each node has room for the nodes in it.** -/
theorem roomy_nodes (ho : o.Nonneg) (hpos : 0 < (Scalar.sqrtTwo : K))
    (hsmall : (Scalar.sqrtTwo : K) ≤ 4) (n : Node K) : (n.figure o).Roomy := by
  cases n with
  | terminal text attributes =>
    rw [figure]
    exact roomy_leaf fun x y slot => contents_boxPieces o x y slot true text attributes
  | nonTerminal text attributes =>
    rw [figure]
    exact roomy_leaf fun x y slot => contents_boxPieces o x y slot false text attributes
  | comment text href title =>
    rw [figure]
    exact roomy_leaf fun x y slot => contents_remarkPieces o x y slot text href title
  | skip =>
    rw [figure]
    exact roomy_leaf fun _ _ _ => rfl
  | start style label =>
    rw [figure]
    exact roomy_leaf fun x y _ => contents_startPieces o x y style label
  | finish style =>
    rw [figure]
    exact roomy_bareFigure _
  | sequence items =>
    rw [figure]
    exact roomy_figure (faithful_figures o items)
      (fun x y slot => contents_sequencePieces o x y slot _) fun _ _ _ => roomy_sequencePieces _
  | stack first rest =>
    rw [figure]
    exact roomy_figure (faithful_figures o (first :: rest))
      (fun x y slot => contents_stackPieces o x y slot _ _) fun _ _ _ => roomy_stackPieces _ _
  | choice above straight below =>
    rw [figure]
    exact roomy_choiceFigure (faithful_branches o above straight below) rfl
  | optional item bypass =>
    rw [figure]
    exact roomy_choiceFigure (faithful_passing o (item.faithful_figure o) bypass) rfl
  | oneOrMore item separator =>
    rw [figure]
    exact roomy_figure (faithful_figures o [item, separator])
      (fun x y slot => contents_loopPieces o x y slot _ _) fun _ _ _ => roomy_loopPieces _ _
  | zeroOrMore item separator =>
    have hloop := (oneOrMore item separator).faithful_figure o
    rw [figure] at hloop
    rw [figure]
    exact roomy_choiceFigure (faithful_passing o hloop true) rfl
  | group item label =>
    rw [figure]
    refine roomy_figure ?_ (fun x y slot => contents_framePieces o x y slot _ _)
      fun _ _ _ => roomy_framePieces _ _
    cases caption? label with
    | none => exact faithful_figures o [item]
    | some text => exact faithful_figures o [item, comment text none none]
  | horizontalChoice first middles last =>
    rw [figure]
    refine roomy_figure ?_ (fun x y slot => contents_sidePieces o x y slot _)
      fun _ _ _ => roomy_sidePieces _
    rw [Beside.toList, List.forall_mem_cons, List.forall_mem_append, List.forall_mem_singleton]
    exact ⟨first.faithful_figure o, faithful_figures o middles, last.faithful_figure o⟩
  | multipleChoice kind above straight below =>
    rw [figure]
    exact roomy_figure
      (fun f hf => faithful_branches o above straight below f (Branches.mem_toList.2 hf))
      (fun x y slot => contents_multiplePieces o x y slot kind _)
      fun _ _ _ => roomy_multiplePieces _ _
  | alternatingSequence first second =>
    rw [figure]
    exact roomy_figure (faithful_figures o [first, second])
      (fun x y slot => contents_crossingPieces o x y slot _ _)
      fun _ _ _ => roomy_crossingPieces (crossX_nonneg ho hpos hsmall) _ _
  | optionalSequence first second rest =>
    rw [figure]
    exact roomy_figure (faithful_figures o (first :: second :: rest))
      (fun x y slot => contents_skipRowPieces o x y slot _ _) fun _ _ _ => roomy_skipRowPieces _ _
  | verticalSequence first rest =>
    rw [figure]
    exact roomy_figure (faithful_figures o (first :: rest))
      (fun x y slot => contents_columnPieces o x y slot _ _) fun _ _ _ => roomy_columnPieces _ _
  | block metrics =>
    rw [figure]
    exact roomy_bareFigure _

/-- **All nodes in a node have the room they ask for** if the node has, down to the leaves. -/
theorem roomy_walk (hnodes : ∀ n : Node K, (n.figure o).Roomy) (n : Node K) {x y slot : K}
    (hslot : (n.metrics o).width ≤ slot) : ∀ p ∈ (n.place o x y slot).walk, p.site.Roomy := by
  induction n using Node.induction generalizing x y slot with
  | h n ih =>
    have hfaithful := n.faithful_figure o
    obtain ⟨sites, hsites, hinside⟩ := hfaithful.nodes x y slot
    rw [n.inside_figure] at hinside
    rw [Placed.walk_eq, List.forall_mem_cons]
    constructor
    · rw [place, hfaithful.site]
      exact hslot
    · intro p hp
      obtain ⟨c, hc, hpc⟩ := List.mem_flatMap.1 hp
      have hroomy : c.site.Roomy := hnodes n x y slot c hc
      rw [place, hsites] at hc
      obtain ⟨s, hs, rfl⟩ := List.mem_map.1 hc
      -- the site belongs to a child, which is placed there
      obtain ⟨child, hchild, hfigure⟩ := List.mem_map.1 (hinside.subset (List.mem_map_of_mem hs))
      have hwidth : (child.metrics o).width ≤ s.slot := by
        have := (Site.roomy_settle (hfigure ▸ child.faithful_figure o)).1 hroomy
        rw [metrics, hfigure]
        exact this
      rw [settle_eq_place hfigure.symm] at hpc
      exact ih child hchild hwidth p hpc

end Node

namespace Diagram

/-- In the row of a diagram each node has a slot of its own width. -/
theorem roomy_placed (d : Diagram K) (hnodes : ∀ n : Node K, (n.figure d.options).Roomy)
    (x y : K) (padding : Padding K) : ∀ p ∈ d.placed x y padding, p.site.Roomy := by
  intro p hp
  rw [placed, pieces, contents_map, List.mem_flatMap] at hp
  obtain ⟨c, hc, hpc⟩ := hp
  obtain ⟨s, hs, rfl⟩ := List.mem_map.1 hc
  have hitem := List.mem_map_of_mem (f := Site.toSized) hs
  rw [contents_rowPieces, Node.figures_eq_map] at hitem
  obtain ⟨n, -, hfigure⟩ := List.mem_map.1 hitem
  have hroomy := roomy_rowPieces _ _ _ s hs
  rw [settle_eq_place hfigure.symm] at hpc
  refine n.roomy_walk hnodes ?_ p hpc
  rw [Node.metrics, hfigure]
  exact hroomy

/-- **No node is squeezed.** In the picture of a diagram whose measures are lengths, every node at
every depth is given a slot at least as wide as the node, so that neither of its gaps is negative,
whatever the alignment. The nodes of the picture are those of the diagram. -/
theorem gaps_placed_nonneg (d : Diagram Rat) (ho : d.options.Nonneg) (x y : Rat)
    (padding : Padding Rat) :
    ((d.placed x y padding).map Placed.sized).Perm (d.walk.map (Node.sized d.options)) ∧
      ∀ p ∈ d.placed x y padding, p.site.metrics.width ≤ p.site.slot ∧
        ∀ a : Alignment, 0 ≤ (a.gaps p.site.slot p.site.metrics.width).left ∧
          0 ≤ (a.gaps p.site.slot p.site.metrics.width).right := by
  have hpos : (0 : Rat) < ExactScalar.sqrtTwo := by
    change (0 : Rat) < 14142135623730951 / 10000000000000000
    norm_num
  have hsmall : (ExactScalar.sqrtTwo : Rat) ≤ 4 := by
    change (14142135623730951 / 10000000000000000 : Rat) ≤ 4
    norm_num
  refine ⟨d.walk_placed x y padding, fun p hp => ?_⟩
  have hroomy := d.roomy_placed (Node.roomy_nodes ho hpos hsmall) x y padding p hp
  exact ⟨hroomy, fun a => a.gaps_nonneg hroomy⟩

/-- Two terminals in turn, the upper one narrower than the track that the crossing leaves it. -/
theorem gaps_placed_nonneg_crossing :
    let d := simple Options.exact [.alternatingSequence (.ofText "a") (.ofText "bcd")]
    d.options.Nonneg ∧ ∀ p ∈ d.placed 0 0 {}, p.site.metrics.width ≤ p.site.slot ∧
      0 ≤ (Alignment.right.gaps p.site.slot p.site.metrics.width).left := by
  intro d
  refine ⟨Options.exact_nonneg, fun p hp => ?_⟩
  obtain ⟨hslot, hgaps⟩ := (gaps_placed_nonneg d Options.exact_nonneg 0 0 {}).2 p hp
  exact ⟨hslot, (hgaps .right).1⟩

end Diagram
end SyntaxDiagram
