import SyntaxDiagram.Proofs.Connection.Settled
import SyntaxDiagram.Proofs.Connection.Strokes
import SyntaxDiagram.Proofs.Layout.Rails

/-!
# Columns in their slots

A line leads to the end of the left gap of a column, but the items of the column stand at the start
of its slot. Its height is measured to the entry of the last item, and its track leaves on a line that
counts the drop of that item twice.

* `Layout.columnItems_ends`, `Layout.columnExit_eq`: where the last item stands, and where the track
  behind it lies.
* `Layout.column_indented_iff`, `Layout.column_height_iff`, `Layout.column_leaves_iff`: when the items
  stand to the right of the gap, when the height is that of the last exit line, and when the track
  behind the last item leads to the end of the slot.
* `Node.column_honours_iff`: the same for nodes.
-/

namespace SyntaxDiagram

variable {K β : Type} [ExactScalar K] {o : Options K}

/-- Some paths draw the level line from one point to another. -/
structure DrawLevel (paths : List (Path K)) (a b : K × K) : Prop where
  level : a.2 = b.2
  covered : ∀ v ∈ Set.uIcc a.1 b.1, ∃ path ∈ paths, path.OnHorizontal (v, a.2)

namespace Layout

/-- The points of a level line to the right. -/
theorem onHorizontal_start_h {x y length : K} (h : 0 ≤ length) (q : K × K) :
    ((start x y).h length).OnHorizontal q ↔ q.2 = y ∧ x ≤ q.1 ∧ q.1 ≤ x + length := by
  simp [Set.uIcc_of_le (le_add_of_nonneg_right h)]

omit [ExactScalar K] in
/-- Lines are not items. -/
theorem contents_map_track {γ : Type} (paths : List (Path K)) :
    contents (paths.map Piece.track : List (Piece K γ)) = [] := by
  induction paths with
  | nil => rfl
  | cons path rest ih => exact ih

/-! ## Places -/

/-- The items of a column stand one under the other, each in a slot of its own width. -/
theorem columnItems_sites (middle x : K) (first : Sized K β) (rest : List (Sized K β)) (y : K) :
    ∀ s ∈ contents (columnItems o middle x first rest y), s.x = x ∧ s.slot = s.metrics.width := by
  induction rest generalizing first y with
  | nil => exact List.forall_mem_singleton.2 ⟨rfl, rfl⟩
  | cons next rest ih => exact List.forall_mem_cons.2 ⟨⟨rfl, rfl⟩, ih next _⟩

/-- The last item of a column is drawn last, as far down as all drops lead. -/
theorem columnItems_ends (middle x : K) (first : Sized K β) (rest : List (Sized K β)) (y : K) :
    let last := rest.getLast?.getD first
    ∃ before, columnItems o middle x first rest y =
      before ++ [last.piece x (y + (columnDrops o first.metrics (rest.map (·.metrics))).sum)
        last.metrics.width] := by
  induction rest generalizing first y with
  | nil => exact ⟨[], by simp [columnItems, columnDrops]⟩
  | cons next rest ih =>
    obtain ⟨before, hbefore⟩ := ih next
      (y + first.metrics.height + first.metrics.down + (next.metrics.up + 2 * o.verticalSeparation))
    have hy : y + first.metrics.height + first.metrics.down +
        (next.metrics.up + 2 * o.verticalSeparation) +
          (columnDrops o next.metrics (rest.map (·.metrics))).sum =
        y + (columnDrops o first.metrics ((next :: rest).map (·.metrics))).sum := by
      rw [List.map_cons, columnDrops, List.sum_cons]
      ring
    rw [hy] at hbefore
    -- the first item, the short drop under it, and the rest
    obtain ⟨item, drop, hcons⟩ : ∃ item drop, columnItems o middle x first (next :: rest) y =
        item :: drop :: columnItems o middle x next rest (y + first.metrics.height +
          first.metrics.down + (next.metrics.up + 2 * o.verticalSeparation)) := ⟨_, _, rfl⟩
    refine ⟨item :: drop :: before, ?_⟩
    rw [hcons, hbefore, List.getLast?_cons]
    rfl

/-- The track behind a column lies under the entry line of its last item by twice its drop. -/
theorem columnExit_eq (first : Metrics K) (rest : List (Metrics K)) (y : K) :
    columnExit o first rest y =
      y + (columnDrops o first rest).sum + 2 * (rest.getLast?.getD first).height := by
  induction rest generalizing first y with
  | nil =>
    rw [columnExit, columnDrops, List.sum_nil, List.getLast?_nil]
    change y + first.height + first.height = y + 0 + 2 * first.height
    ring
  | cons next rest ih =>
    rw [columnExit, ih, columnDrops, List.sum_cons, List.getLast?_cons]
    change _ = y + _ + 2 * (rest.getLast?.getD next).height
    ring

section

variable (o) (first : Sized K β) (rest : List (Sized K β)) (x y slot : K)

/-- The size of a column of some items. -/
def columnMetrics : Metrics K := columnSize o first.metrics (rest.map (·.metrics))

/-- The last item of a column at its place. -/
def columnLast : Site K β :=
  let last := rest.getLast?.getD first
  last.at x (y + (columnMetrics o first rest).height) last.metrics.width

/-- The lines behind the last item of a column. -/
def columnTail : List (Path K) :=
  let m := columnMetrics o first rest
  let g := gaps o m slot
  let last := (rest.getLast?.getD first).metrics
  let exitX := x + last.width
  let exitY := y + m.height + 2 * last.height
  if rest.isEmpty then [(start exitX exitY).h g.right]
  else [(start exitX exitY).h (m.width - last.width), (start (exitX + o.arcRadius) exitY).h g.right]

theorem height_columnMetrics :
    (columnMetrics o first rest).height =
      (columnDrops o first.metrics (rest.map (·.metrics))).sum := Scalar.sum_eq _

/-- The items of a column, between the line into the gap and the lines behind them. -/
theorem columnPieces_eq :
    ∃ lead middle, columnPieces o first rest x y slot =
      .track lead :: columnItems o middle x first rest y ++
        (columnTail o first rest x y slot).map Piece.track := by
  have hlast : (rest.map (·.metrics)).getLast?.getD first.metrics =
      (rest.getLast?.getD first).metrics := by
    rw [List.getLast?_map]
    cases rest.getLast? <;> rfl
  have hexit : columnExit o first.metrics (rest.map (·.metrics)) y =
      y + (columnMetrics o first rest).height + 2 * (rest.getLast?.getD first).metrics.height := by
    rw [columnExit_eq, height_columnMetrics, hlast]
  rw [columnPieces, columnTail, hexit, hlast]
  cases rest with
  | nil => exact ⟨_, _, rfl⟩
  | cons next rest => exact ⟨_, _, rfl⟩

/-- **Behind the last item of a column** its tail is drawn, and nothing else. -/
theorem columnPieces_ends :
    ∃ before, columnPieces o first rest x y slot =
      before ++ .child (columnLast o first rest x y) ::
        (columnTail o first rest x y slot).map Piece.track := by
  obtain ⟨lead, middle, hpieces⟩ := columnPieces_eq o first rest x y slot
  obtain ⟨before, hitems⟩ := columnItems_ends (o := o) middle x first rest y
  rw [← height_columnMetrics] at hitems
  refine ⟨.track lead :: before, ?_⟩
  rw [hpieces, hitems]
  simp [columnLast, Sized.piece]

/-- The items of a column stand at the start of its slot. -/
theorem columnPieces_sites :
    ∀ s ∈ contents (columnPieces o first rest x y slot), s.x = x ∧ s.slot = s.metrics.width := by
  obtain ⟨lead, middle, hpieces⟩ := columnPieces_eq o first rest x y slot
  rw [hpieces, contents_append, contents_map_track, List.append_nil]
  exact columnItems_sites middle x first rest y

end

/-! ## When a column honours its slot -/

section

variable {first : Sized K β} {rest : List (Sized K β)} {x y slot : K}

/-- An item of a column is not wider than the column without its turns. -/
theorem spacedWidth_le_columnMetrics (o : Options K) (first : Sized K β) (rest : List (Sized K β)) :
    (rest.getLast?.getD first).metrics.spacedWidth +
      (if rest.isEmpty then 0 else 2 * o.arcRadius) ≤ (columnMetrics o first rest).width := by
  have hlast : (rest.getLast?.getD first).metrics.spacedWidth ∈
      first.metrics.spacedWidth :: (rest.map (·.metrics)).map (·.spacedWidth) := by
    cases hlast : rest.getLast? with
    | none => exact List.mem_cons_self
    | some i =>
      exact List.mem_cons_of_mem _
        (List.mem_map_of_mem (List.mem_map_of_mem (List.mem_of_getLast? hlast)))
  have hwidest := Scalar.le_largest _ hlast
  cases rest with
  | nil => exact (add_zero _).trans_le hwidest
  | cons next rest => exact add_le_add_left hwidest _

/-- The lines behind the last item of a column lead to the end of its slot. -/
def ColumnReaches (o : Options K) (first : Sized K β) (rest : List (Sized K β)) (slot : K) : Prop :=
  let m := columnMetrics o first rest
  let last := (rest.getLast?.getD first).metrics
  if rest.isEmpty then last.needsSpace = false ∧ (gaps o m slot).left = 0
  else slot = m.width ∨ o.arcRadius = 0 ∧ m.width = last.width ∧ (gaps o m slot).left = 0

/-- **The height of a column** leads to the exit line of its last item if that item does not drop. -/
theorem column_height_iff :
    (columnMetrics o first rest).height = (columnLast o first rest x y).ports.exit.2 - y ↔
      (rest.getLast?.getD first).metrics.height = 0 := by
  change _ = y + (columnMetrics o first rest).height +
    (rest.getLast?.getD first).metrics.height - y ↔ _
  constructor <;> intro h <;> linarith

variable (ho : o.Nonneg) (hslot : (columnMetrics o first rest).width ≤ slot)
include hslot

/-- **The items of a column** stand to the right of its left gap if there is none. -/
theorem column_indented_iff :
    (∀ s ∈ contents (columnPieces o first rest x y slot),
        x + (gaps o (columnMetrics o first rest) slot).left ≤ s.x) ↔
      (gaps o (columnMetrics o first rest) slot).left = 0 := by
  have hleft := (o.internalAlignment.gaps_nonneg hslot).1
  have hsites := columnPieces_sites o first rest x y slot
  constructor
  · intro hright
    obtain ⟨before, hpieces⟩ := columnPieces_ends o first rest x y slot
    have hlast : columnLast o first rest x y ∈ contents (columnPieces o first rest x y slot) := by
      rw [hpieces, contents_append]
      exact List.mem_append_right _ List.mem_cons_self
    have hx : x + _ ≤ x := hright _ hlast
    exact le_antisymm ((add_le_iff_nonpos_right x).1 hx) hleft
  · intro hzero s hs
    rw [(hsites s hs).1, hzero, add_zero]

include ho

/-- The points on the lines behind the last item of a column. -/
theorem columnTail_covers_iff (q : K × K) :
    let m := columnMetrics o first rest
    let last := (rest.getLast?.getD first).metrics
    let right := (gaps o m slot).right
    (∃ path ∈ columnTail o first rest x y slot, path.OnHorizontal q) ↔
      q.2 = y + m.height + 2 * last.height ∧
        (if rest.isEmpty then x + last.width ≤ q.1 ∧ q.1 ≤ x + last.width + right
        else (x + last.width ≤ q.1 ∧ q.1 ≤ x + m.width) ∨
          (x + last.width + o.arcRadius ≤ q.1 ∧ q.1 ≤ x + last.width + o.arcRadius + right)) := by
  intro m last right
  have hright : 0 ≤ right := (o.internalAlignment.gaps_nonneg hslot).2
  have hwidth := spacedWidth_le_columnMetrics o first rest
  have hspaced := last.width_le_spacedWidth
  cases rest with
  | nil =>
    simp only [columnTail, List.isEmpty_nil, if_true, List.mem_singleton, exists_eq_left]
    exact onHorizontal_start_h hright q
  | cons next rest =>
    have hrun : 0 ≤ m.width - last.width := by
      simp only [List.isEmpty_cons, Bool.false_eq_true, if_false] at hwidth
      linarith [ho.arcRadius]
    have hend : x + last.width + (m.width - last.width) = x + m.width := by ring
    simp only [columnTail, List.isEmpty_cons, Bool.false_eq_true, if_false, List.mem_cons,
      List.not_mem_nil, or_false, exists_eq_or_imp, exists_eq_left]
    rw [onHorizontal_start_h hrun, onHorizontal_start_h hright, ← and_or_left, hend]

/-- If the end of the slot is on a line behind the last item, these lines reach it as they should. -/
theorem columnReaches_of_covers
    (hend : ∃ path ∈ columnTail o first rest x y slot, path.OnHorizontal
      (x + slot, y + (columnMetrics o first rest).height +
        (rest.getLast?.getD first).metrics.height)) :
    ColumnReaches o first rest slot := by
  let m := columnMetrics o first rest
  let last := (rest.getLast?.getD first).metrics
  let g := gaps o m slot
  have hsum : g.left + g.right = slot - m.width := o.internalAlignment.left_add_right slot m.width
  have hleft : 0 ≤ g.left := (o.internalAlignment.gaps_nonneg hslot).1
  have hwidth : last.spacedWidth + (if rest.isEmpty then 0 else 2 * o.arcRadius) ≤ m.width :=
    spacedWidth_le_columnMetrics o first rest
  have hspaced := last.width_le_spacedWidth
  obtain ⟨-, hend⟩ := (columnTail_covers_iff ho hslot _).1 hend
  rw [ColumnReaches]
  by_cases hnil : rest.isEmpty
  · rw [if_pos hnil] at hend hwidth ⊢
    have hroom : last.spacedWidth + g.left ≤ last.width := by
      have hreach : x + slot ≤ x + last.width + g.right := hend.2
      linarith
    refine ⟨Bool.eq_false_iff.2 fun hspace => ?_, le_antisymm (by linarith) hleft⟩
    have htwenty : last.spacedWidth = last.width + 20 := by
      rw [Metrics.spacedWidth_eq, if_pos hspace]
    linarith
  · rw [if_neg hnil] at hend hwidth ⊢
    rcases hend with ⟨-, hend⟩ | ⟨-, hend⟩
    · exact .inl (le_antisymm ((add_le_add_iff_left x).1 hend) hslot)
    · -- the last line begins an arc behind the item, and the column is two arcs wider
      have hreach : x + slot ≤ x + last.width + o.arcRadius + g.right := hend
      have harc : o.arcRadius = 0 := le_antisymm (by linarith) ho.arcRadius
      rw [harc] at hreach hwidth
      exact .inr ⟨harc, le_antisymm (by linarith) (by linarith), le_antisymm (by linarith) hleft⟩

/-- Lines that reach the end of the slot cover all points on the way there. -/
theorem covers_of_columnReaches (hlast : (rest.getLast?.getD first).metrics.height = 0)
    (hreaches : ColumnReaches o first rest slot) {v : K}
    (hv : v ∈ Set.Icc (x + (rest.getLast?.getD first).metrics.width) (x + slot)) :
    ∃ path ∈ columnTail o first rest x y slot,
      path.OnHorizontal (v, y + (columnMetrics o first rest).height +
        (rest.getLast?.getD first).metrics.height) := by
  let m := columnMetrics o first rest
  let last := (rest.getLast?.getD first).metrics
  let g := gaps o m slot
  have hsum : g.left + g.right = slot - m.width := o.internalAlignment.left_add_right slot m.width
  obtain ⟨hstart, hend⟩ := hv
  refine (columnTail_covers_iff ho hslot _).2 ⟨by rw [hlast, mul_zero], ?_⟩
  rw [ColumnReaches] at hreaches
  by_cases hnil : rest.isEmpty
  · rw [if_pos hnil] at hreaches ⊢
    obtain ⟨hspace, hgap⟩ := hreaches
    have hfull : m.width = last.width := by
      obtain rfl := List.isEmpty_iff.1 hnil
      change last.spacedWidth = last.width
      rw [Metrics.spacedWidth_eq, hspace, if_neg Bool.false_ne_true, add_zero]
    have hgap : g.left = 0 := hgap
    refine ⟨hstart, ?_⟩
    change v ≤ x + last.width + g.right
    linarith
  · rw [if_neg hnil] at hreaches ⊢
    rcases hreaches with hfull | ⟨harc, hfull, hgap⟩
    · exact .inl ⟨hstart, hfull ▸ hend⟩
    · have hgap : g.left = 0 := hgap
      have hfull : m.width = last.width := hfull
      rw [harc, add_zero]
      refine .inr ⟨hstart, ?_⟩
      change v ≤ x + last.width + g.right
      linarith

/-- **The track behind the last item of a column** leads to the end of the slot if that item does not
drop and the lines behind it reach so far. -/
theorem column_leaves_iff :
    DrawLevel (columnTail o first rest x y slot) (columnLast o first rest x y).ports.exit
        (x + slot, y + (columnMetrics o first rest).height) ↔
      (rest.getLast?.getD first).metrics.height = 0 ∧ ColumnReaches o first rest slot := by
  let last := (rest.getLast?.getD first).metrics
  have hwidth := spacedWidth_le_columnMetrics o first rest
  have hspaced := last.width_le_spacedWidth
  have hle : x + last.width ≤ x + slot := by
    have harcs : 0 ≤ if rest.isEmpty then (0 : K) else 2 * o.arcRadius := by
      split <;> linarith [ho.arcRadius]
    linarith
  constructor
  · rintro ⟨hlevel, hcovered⟩
    -- it is enough to look at the end of the slot
    exact ⟨left_eq_add.1 hlevel.symm,
      columnReaches_of_covers ho hslot (hcovered (x + slot) Set.right_mem_uIcc)⟩
  · rintro ⟨hzero, hreaches⟩
    refine ⟨?_, fun v hv => covers_of_columnReaches ho hslot hzero hreaches ?_⟩
    · exact add_eq_left.2 hzero
    · rwa [← Set.uIcc_of_le hle]

end

end Layout

open Layout

/-! ## Nodes -/

/-- The pieces of a placed node. -/
def Placed.pieces {α : Type} : Placed α → List (Piece α (Placed α))
  | group _ _ pieces => pieces
  | bare .. => []

/-- A placed node whose picture ends with a node and some lines behind it. -/
def Placed.EndsWith {α : Type} (p last : Placed α) (tail : List (Path α)) : Prop :=
  ∃ before, p.pieces = before ++ .child last :: tail.map Piece.track

theorem Node.LaidOut.pieces_place {n : Node K} {m : Metrics K} {nodes : List (Node K)}
    {pieces : (x y slot : K) → List (Piece K (Site K (Drawable K)))}
    (h : n.LaidOut o m nodes pieces) (x y slot : K) :
    (n.place o x y slot).pieces = (pieces x y slot).map (Piece.map settle) := by
  obtain ⟨attributes, inside, hfigure⟩ := h.figure
  rw [place, hfigure]
  rfl

namespace Node

theorem verticalSequence_laidOut (first : Node K) (rest : List (Node K)) :
    (verticalSequence first rest).LaidOut o
      (columnMetrics o (first.figure o) (rest.map (figure o))) (first :: rest)
      (columnPieces o (first.figure o) (rest.map (figure o))) where
  aligned := rfl
  figure := by
    rw [figure, figures_eq_map]
    exact ⟨_, _, rfl⟩
  contents x y slot := contents_columnPieces o x y slot _ _

/-- **When a column honours its slot.** In a slot that is wide enough its items stand to the right of
the left gap if there is no gap on the left. Its height is that of the exit line of its last item if
that item does not drop. If so, the lines behind it lead on to the end of the slot if they reach so
far. -/
theorem column_honours_iff (ho : o.Nonneg) {first : Node K} {rest : List (Node K)} {slot : K}
    (hslot : ((verticalSequence first rest).metrics o).width ≤ slot) (x y : K) :
    let p := (verticalSequence first rest).place o x y slot
    let m := (verticalSequence first rest).metrics o
    let height := ((rest.getLast?.getD first).metrics o).height
    ∃ last tail, p.EndsWith last tail ∧ last.sized = (rest.getLast?.getD first).sized o ∧
      p.nodes.map Placed.sized = (first :: rest).map (sized o) ∧
      ((∀ q ∈ p.nodes, (p.inner o).entry.1 ≤ (q.box o).left) ↔ (gaps o m slot).left = 0) ∧
      (m.height = last.ports.exit.2 - y ↔ height = 0) ∧
      (DrawLevel tail last.ports.exit p.ports.exit ↔
        height = 0 ∧ ColumnReaches o (first.figure o) (rest.map (figure o)) slot) := by
  intro p m height
  have hlaid := verticalSequence_laidOut (o := o) first rest
  let s := columnLast o (first.figure o) (rest.map (figure o)) x y
  let tail := columnTail o (first.figure o) (rest.map (figure o)) x y slot
  have hm : m = columnMetrics o (first.figure o) (rest.map (figure o)) := hlaid.metrics_eq
  have hlast : (rest.map (figure o)).getLast?.getD (first.figure o) =
      (rest.getLast?.getD first).figure o := by
    rw [List.getLast?_map]
    cases rest.getLast? <;> rfl
  have hs : s.toSized = (rest.getLast?.getD first).figure o := hlast
  have hheight : ((rest.map (figure o)).getLast?.getD (first.figure o)).metrics.height = height :=
    congrArg (fun f => f.metrics.height) hlast
  change m.width ≤ slot at hslot
  rw [hm] at hslot
  refine ⟨settle s, tail, ?_, sized_settle hs, hlaid.map_sized_place x y slot, ?_, ?_, ?_⟩
  · obtain ⟨before, hpieces⟩ :=
      columnPieces_ends o (first.figure o) (rest.map (figure o)) x y slot
    refine ⟨before.map (Piece.map settle), ?_⟩
    rw [hlaid.pieces_place, hpieces, List.map_append, List.map_cons, List.map_map]
    rfl
  · rw [hlaid.inner_place, hlaid.nodes_place, List.forall_mem_map, hm,
      ← column_indented_iff (x := x) (y := y) hslot]
    refine forall₂_congr fun t ht => ?_
    obtain ⟨i, -, hi⟩ := exists_node_of_mem (hlaid.contents x y slot) ht
    rw [box_settle_of_slot hi (columnPieces_sites o _ _ x y slot t ht).2]
    rfl
  · rw [ports_settle hs, hm, ← hheight]
    exact column_height_iff
  · rw [ports_settle hs, hlaid.ports_place, ← hheight]
    exact column_leaves_iff ho hslot

/-- A terminal alone, in the middle of a slot that leaves 10 units on both sides: the line into the gap
ends at 10, the terminal stands at 0, and the line behind it ends 30 units before the slot. -/
theorem column_not_indented :
    let o := Options.exact
    let p : Placed Rat := (verticalSequence (.ofText "a") []).place o 0 0 (137 / 2)
    (p.inner o).entry = (10, 0) ∧ p.nodes.map (fun q => (q.box o).left) = [0] ∧
      p.tracks.map (fun path => ((path.x, path.y), path.finish)) =
        [((0, 0), (10, 0)), ((57 / 2, 0), (77 / 2, 0))] ∧ p.ports.exit = (137 / 2, 0) := by
  decide +kernel

/-- A stack alone: it drops by 40, its column does not, and the track behind it lies at 80. -/
theorem column_drops_twice :
    let o := Options.exact
    let stack : Node Rat := .stack (.ofText "a") [.ofText "b"]
    let p : Placed Rat := (verticalSequence stack []).place o 0 0 (177 / 2)
    p.nodes.map (fun q => q.ports.exit.2) = [40] ∧ p.ports.exit.2 = 0 ∧
      p.tracks.getLast?.map (fun path => path.y) = some 80 := by
  decide +kernel

end Node
end SyntaxDiagram
