import SyntaxDiagram.Proofs.Containment

/-!
# How far a row reaches

The items of a row that are not flat stand on different lines, each below the drops of the items
before it. The size of a row counts the drop of an item before it looks at the item: it takes that
drop off the extent above, and from the extent below it takes the whole drop so far. An item that
drops can stick out of the box of its row for this reason, but not to the sides and only so far.

* `Layout.overhang`: how far an item can reach below its row, given the items behind it.
* `Layout.rowPieces_within`: each item lies in the box of the row with its own drop as room above
  and its overhang as room below.
* `Node.sequence_within`, `Diagram.pieces_within`: the same for sequences and for diagrams.
* `Layout.one_sticks_out`, `Layout.first_sticks_out`: rows in which that room is needed.
-/

namespace SyntaxDiagram

variable {K β : Type} [ExactScalar K]

namespace Layout

/-- How far what stands behind a drop of `sofar` can reach below its row: each item behind it takes
the drops before itself off the extent below, and not only its own. -/
def overhang (sofar : K) : List (Metrics K) → K
  | [] => 0
  | m :: rest => sofar + overhang (sofar + m.height) rest

/-! ## Sizes -/

theorem le_up_foldl (m : Metrics K) (items : List (Metrics K)) :
    m.up ≤ (items.foldl extendRow m).up := by
  induction items generalizing m with
  | nil => exact le_refl _
  | cons item rest ih => exact (le_max_left _ _).trans (ih (extendRow m item))

/-- What more items leave of the extent below: they take their drops off it, as they should, and
the overhang. -/
theorem sub_le_down_foldl (m : Metrics K) (items : List (Metrics K)) :
    m.down - (items.map (·.height)).sum - overhang m.height items ≤
      (items.foldl extendRow m).down := by
  induction items generalizing m with
  | nil => exact (sub_zero _).trans (sub_zero _) |>.le
  | cons item rest ih =>
    have hstep : m.down - (m.height + item.height) ≤ (extendRow m item).down := le_max_left _ _
    have hrest := ih (extendRow m item)
    have hheight : (extendRow m item).height = m.height + item.height := rfl
    rw [hheight] at hrest
    rw [List.map_cons, List.sum_cons, overhang, List.foldl_cons]
    linarith

/-- The extents of a row, seen from one of its items. -/
theorem extents_of_split (front back : List (Metrics K)) (m : Metrics K) :
    let before := (front.map (·.height)).sum
    m.up - (before + m.height) ≤ (rowSize (front ++ m :: back)).up ∧
      m.down - (back.map (·.height)).sum - overhang (before + m.height) back ≤
        (rowSize (front ++ m :: back)).down := by
  intro before
  have hheight : (extendRow (rowSize front) m).height = before + m.height :=
    congrArg (· + m.height) (rowSize_height front)
  have hup := le_up_foldl (extendRow (rowSize front) m) back
  have hdown := sub_le_down_foldl (extendRow (rowSize front) m) back
  rw [hheight] at hdown
  rw [rowSize, List.foldl_append, List.foldl_cons]
  constructor
  · have hitem : m.up - (extendRow (rowSize front) m).height ≤ (extendRow (rowSize front) m).up :=
      le_max_right _ _
    rw [hheight] at hitem
    exact hitem.trans hup
  · have hitem : m.down ≤ (extendRow (rowSize front) m).down := le_max_right _ _
    exact (sub_le_sub_right (sub_le_sub_right hitem _) _).trans hdown

/-! ## Places -/

/-- **Each item lies in the box of its row with some room above and below it**: its own drop above,
and its overhang below. -/
theorem rowPieces_within {edges inside : Bool} {items : List (Sized K β)}
    (h : ∀ i ∈ items, i.metrics.Nonneg) {m : Metrics K} {x y : K}
    (hwidth : (rowEnd edges inside (items.map (·.metrics)) x y).1 = x + m.width)
    (hheight : m.height = (rowSize (items.map (·.metrics))).height)
    (hup : m.up = (rowSize (items.map (·.metrics))).up)
    (hdown : m.down = (rowSize (items.map (·.metrics))).down)
    {front back : List (Site K β)} {s : Site K β}
    (hs : contents (rowPieces edges inside items x y) = front ++ s :: back) :
    s.box.Within ((m.box x y).grow s.metrics.height
      (overhang ((front.map (·.metrics.height)).sum + s.metrics.height)
        (back.map (·.metrics)))) := by
  obtain ⟨hslot, hy, hleft, hright⟩ :=
    rowPieces_split edges inside (fun i hi => (h i hi).width) x y hs
  have hitems : items.map (·.metrics) =
      front.map (·.metrics) ++ s.metrics :: back.map (·.metrics) := by
    rw [← contents_rowPieces x y edges inside items, hs, List.map_map, List.map_append,
      List.map_cons]
    rfl
  obtain ⟨habove, hbelow⟩ :=
    extents_of_split (front.map (·.metrics)) (back.map (·.metrics)) s.metrics
  have hdrop := rowSize_height (front.map (·.metrics) ++ s.metrics :: back.map (·.metrics))
  rw [← hitems] at habove hbelow
  rw [List.map_append, List.sum_append, List.map_cons, List.sum_cons, ← hitems] at hdrop
  simp only [List.map_map, Function.comp_def] at habove hbelow hdrop
  refine ⟨hleft, ?_, ?_, ?_⟩
  · change y - m.up - s.metrics.height ≤ s.y - s.metrics.up
    linarith
  · change s.x + s.metrics.width ≤ x + m.width
    rw [← hwidth, ← hslot]
    exact hright
  · change s.y + s.metrics.height + s.metrics.down ≤ y + m.height + m.down +
      overhang ((front.map (·.metrics.height)).sum + s.metrics.height) (back.map (·.metrics))
    linarith

/-- The items of a sequence, in the box of the sequence with that room. -/
theorem sequencePieces_within (o : Options K) {items : List (Sized K β)}
    (h : ∀ i ∈ items, i.metrics.Nonneg) (x y slot : K) {front back : List (Site K β)}
    {s : Site K β} (hs : contents (sequencePieces o items x y slot) = front ++ s :: back) :
    let m := sequenceSize (items.map (·.metrics))
    s.box.Within ((m.box (x + (gaps o m slot).left) y).grow s.metrics.height
      (overhang ((front.map (·.metrics.height)).sum + s.metrics.height)
        (back.map (·.metrics)))) := by
  intro m
  have hm : m = _ := sequenceSize_eq _
  rw [sequencePieces, contents_append, contents_sides, List.nil_append] at hs
  refine rowPieces_within h ?_ ?_ ?_ ?_ hs
  · rw [rowEnd_sequence]
  · rw [hm]
  · rw [hm]
  · rw [hm]

/-- What the sites of nodes are like once the nodes are placed there. -/
theorem exists_sites_of_settled {o : Options K} {nodes : List (Node K)}
    {sites : List (Site K (Drawable K))} (hsites : sites.map Site.toSized = nodes.map (Node.figure o))
    {front back : List (Placed K)} {p : Placed K} (hp : sites.map settle = front ++ p :: back) :
    ∃ before s after, sites = before ++ s :: after ∧ p.site.box = s.box ∧
      p.site.metrics = s.metrics ∧
        front.map (·.site.metrics.height) = before.map (·.metrics.height) ∧
        back.map (·.site.metrics) = after.map (·.metrics) := by
  have hplaced : ∀ s ∈ sites, (settle s).site = ⟨⟨s.metrics, s.item.kind⟩, s.x, s.y, s.slot⟩ := by
    intro s hs
    obtain ⟨n, -, hn⟩ := List.mem_map.1 (hsites ▸ List.mem_map_of_mem hs)
    exact site_settle hn.symm
  obtain ⟨before, rest, rfl, rfl, hrest⟩ := List.map_eq_append_iff.1 hp
  obtain ⟨s, after, rfl, rfl, rfl⟩ := List.map_eq_cons_iff.1 hrest
  have hs := hplaced s (List.mem_append_right _ List.mem_cons_self)
  refine ⟨before, s, after, rfl, ?_, ?_, ?_, ?_⟩
  · rw [hs]
    rfl
  · rw [hs]
  · rw [List.map_map]
    refine List.map_congr_left fun t ht => ?_
    rw [Function.comp_apply, hplaced t (List.mem_append_left _ ht)]
  · rw [List.map_map]
    refine List.map_congr_left fun t ht => ?_
    rw [Function.comp_apply,
      hplaced t (List.mem_append_right _ (List.mem_cons_of_mem _ ht))]

end Layout

open Layout

/-- **How far the items of a sequence stick out of it**: not at all to the sides, above by no more
than their own drops, and below by no more than their overhangs. -/
theorem Node.sequence_within (o : Options K) {items : List (Node K)}
    (h : ∀ n ∈ items, (n.metrics o).Nonneg) (x y slot : K) {front back : List (Placed K)}
    {p : Placed K} (hp : ((Node.sequence items).place o x y slot).nodes = front ++ p :: back) :
    p.site.box.Within ((((Node.sequence items).place o x y slot).box o).grow p.site.metrics.height
      (overhang ((front.map (·.site.metrics.height)).sum + p.site.metrics.height)
        (back.map (·.site.metrics)))) := by
  have hfigures : ∀ f ∈ figures o items, f.metrics.Nonneg := by
    rw [figures_eq_map]
    exact List.forall_mem_map.2 h
  have hp' : (contents (sequencePieces o (figures o items) x y slot)).map settle =
      front ++ p :: back := by
    rw [place, figure] at hp
    exact (contents_map settle _).symm.trans hp
  obtain ⟨before, s, after, hs, hbox, hm, hfront, hback⟩ :=
    exists_sites_of_settled ((contents_sequencePieces o x y slot _).trans (figures_eq_map o items)) hp'
  rw [hbox, hm, hfront, hback, place, figure]
  exact sequencePieces_within o hfigures x y slot hs

/-- **How far the nodes of a diagram stick out of its box**, which the picture is made for: not at
all to the sides, above by no more than their own drops, and below by no more than their
overhangs. -/
theorem Diagram.pieces_within {d : Diagram K} (h : ∀ n ∈ d.items, (n.metrics d.options).Nonneg)
    (x y : K) (padding : Padding K) {front back : List (Placed K)} {p : Placed K}
    (hp : contents (d.pieces x y padding) = front ++ p :: back) :
    p.site.box.Within ((d.box x y padding).grow p.site.metrics.height
      (overhang ((front.map (·.site.metrics.height)).sum + p.site.metrics.height)
        (back.map (·.site.metrics)))) := by
  have hfigures : ∀ f ∈ Node.figures d.options d.items, f.metrics.Nonneg := by
    rw [Node.figures_eq_map]
    exact List.forall_mem_map.2 h
  rw [pieces, contents_map] at hp
  obtain ⟨before, s, after, hs, hbox, hm, hfront, hback⟩ :=
    exists_sites_of_settled ((contents_rowPieces _ _ true false _).trans (Node.figures_eq_map _ _)) hp
  rw [hbox, hm, hfront, hback]
  refine rowPieces_within hfigures ?_ rfl rfl rfl hs
  rw [rowEnd_edges, ← rowSize_width]

/-! ## Rows that need the room -/

namespace Layout

/-- An item that is alone in a sequence sticks out above by the whole drop, if it reaches that far
up. -/
theorem one_sticks_out (m : Metrics K) (x y : K) :
    (m.box x y).top = ((sequenceSize [m]).box x y).top - min m.up m.height := by
  have hupZero : (Metrics.zero : Metrics K).up = 0 := ExactScalar.zero_eq
  have hheightZero : (Metrics.zero : Metrics K).height = 0 := ExactScalar.zero_eq
  have hup : (sequenceSize [m]).up = max 0 (m.up - m.height) := by
    rw [sequenceSize_eq]
    change max Metrics.zero.up (m.up - (Metrics.zero.height + m.height)) = _
    rw [hupZero, hheightZero, zero_add]
  change y - m.up = y - (sequenceSize [m]).up - min m.up m.height
  rw [hup]
  rcases le_total m.up m.height with hle | hle
  · rw [min_eq_left hle, max_eq_left (sub_nonpos.2 hle), sub_zero]
  · rw [min_eq_right hle, max_eq_right (sub_nonneg.2 hle)]
    ring

/-- An item in front of one that does not drop sticks out below by the whole drop, if it reaches
that far below the other one. -/
theorem first_sticks_out {m next : Metrics K} (hm : m.Nonneg) (hnext : next.height = 0) (x y : K) :
    (m.box x y).bottom =
      ((sequenceSize [m, next]).box x y).bottom + min m.height (m.down - next.down) := by
  have hdownZero : (Metrics.zero : Metrics K).down = 0 := ExactScalar.zero_eq
  have hheightZero : (Metrics.zero : Metrics K).height = 0 := ExactScalar.zero_eq
  have hheight : (sequenceSize [m, next]).height = m.height := by
    rw [sequenceSize_eq, rowSize_height, List.map_cons, List.sum_cons, List.map_singleton,
      List.sum_singleton, hnext, add_zero]
  have hfirst : max (0 - m.height) m.down = m.down :=
    max_eq_right ((sub_nonpos.2 hm.height).trans hm.down)
  have hdown : (sequenceSize [m, next]).down = max (m.down - m.height) next.down := by
    rw [sequenceSize_eq]
    change max (max (Metrics.zero.down - (Metrics.zero.height + m.height)) m.down -
      (Metrics.zero.height + m.height + next.height)) next.down = _
    rw [hdownZero, hheightZero, zero_add, hfirst, hnext, add_zero]
  change y + m.height + m.down = y + (sequenceSize [m, next]).height +
    (sequenceSize [m, next]).down + min m.height (m.down - next.down)
  rw [hheight, hdown]
  rcases le_total m.height (m.down - next.down) with hle | hle
  · rw [min_eq_left hle, max_eq_left (by linarith)]
    ring
  · rw [min_eq_right hle, max_eq_right (by linarith)]
    ring

/-- A stack of two lines, alone in a sequence, reaches 11 units above a box that does not reach up
at all. -/
theorem stack_sticks_out :
    let stack : Node Rat := .stack (.ofText "a") [.ofText "b"]
    let sequence : Placed Rat := (Node.sequence [stack]).place Options.exact 0 0 68.5
    (stack.metrics Options.exact).height = 40 ∧ (sequence.box Options.exact).top = 0 ∧
      sequence.nodes.map (·.site.box.top) = [-11] := by
  decide +kernel

end Layout
end SyntaxDiagram
