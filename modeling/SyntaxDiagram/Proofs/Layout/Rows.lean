import Mathlib.Algebra.BigOperators.Group.List.Basic
import Mathlib.Tactic.Ring
import SyntaxDiagram.Layout.Row
import SyntaxDiagram.Proofs.Layout.Boxes
import SyntaxDiagram.Proofs.Layout.Contents

/-!
# Rows

The size of a row is added up from its items; their places are found by going along the row.

* `Layout.rowEnd_edges`, `Layout.rowEnd_sequence`: both come to the same end.
* `Layout.rowPieces_split`: where an item stands, given the items before it.
* `Layout.flat_rowSize`, `Layout.flat_sequenceSize`: a row of flat items is flat.
* `Layout.rowPieces_fits`, `Layout.sequencePieces_fits`: the items of a row lie in its box.
-/

namespace SyntaxDiagram.Layout

variable {K β : Type} [ExactScalar K]

/-! ## Sizes -/

/-- The widths of items with room for their connectors. -/
def spread (items : List (Metrics K)) : K := (items.map Metrics.spacedWidth).sum

/-- What a sequence saves at one of its ends, where the item there is known. -/
def trimmed (edge : Option (Metrics K)) : K := if edge.any (·.needsSpace) then 10 else 0

theorem foldl_extendRow (m : Metrics K) (items : List (Metrics K)) :
    (items.foldl extendRow m).width = m.width + spread items ∧
      (items.foldl extendRow m).height = m.height + (items.map (·.height)).sum := by
  induction items generalizing m with
  | nil => exact ⟨(add_zero _).symm, (add_zero _).symm⟩
  | cons item rest ih =>
    obtain ⟨hwidth, hheight⟩ := ih (extendRow m item)
    rw [List.foldl_cons, hwidth, hheight, spread, spread, List.map_cons, List.map_cons,
      List.sum_cons, List.sum_cons, ← add_assoc, ← add_assoc]
    exact ⟨rfl, rfl⟩

theorem rowSize_width (items : List (Metrics K)) : (rowSize items).width = spread items := by
  rw [rowSize, (foldl_extendRow _ _).1, Metrics.zero, ExactScalar.zero_eq, zero_add]

theorem rowSize_height (items : List (Metrics K)) :
    (rowSize items).height = (items.map (·.height)).sum := by
  rw [rowSize, (foldl_extendRow _ _).2, Metrics.zero, ExactScalar.zero_eq, zero_add]

/-- A sequence is a row that is cut at both ends. -/
theorem sequenceSize_eq (items : List (Metrics K)) :
    sequenceSize items =
      { rowSize items with
        width := spread items - trimmed items.head? - trimmed items.getLast?
        needsSpace := true } := by
  rw [← rowSize_width]
  cases hhead : items.head?.any (·.needsSpace) <;>
    cases hlast : items.getLast?.any (·.needsSpace) <;>
      simp [sequenceSize, trimmed, hhead, hlast]

/-! ## Ends -/

/-- **A row with connectors at its ends** ends where its size says. -/
theorem rowEnd_edges (inside : Bool) (items : List (Metrics K)) (x y : K) :
    rowEnd true inside items x y = (x + spread items, y + (items.map (·.height)).sum) := by
  induction items generalizing inside x y with
  | nil => exact (Prod.ext (add_zero x) (add_zero y)).symm
  | cons m rest ih =>
    rw [rowEnd, ih, spread, spread, List.map_cons, List.map_cons, List.sum_cons, List.sum_cons,
      m.spacedWidth_eq]
    cases m.needsSpace with
    | false => simp [pastConnector, add_assoc]
    | true =>
      refine Prod.ext ?_ (add_assoc _ _ _)
      change x + 10 + m.width + 10 + _ = x + (m.width + 20 + _)
      ring

/-- The same for a row without connectors at its ends, from the middle of it on if `inside`. -/
theorem rowEnd_inner (inside : Bool) (first : Metrics K) (rest : List (Metrics K)) (x y : K) :
    rowEnd false inside (first :: rest) x y =
      (x + spread (first :: rest) - (if inside then 0 else trimmed (some first)) -
          trimmed (first :: rest).getLast?,
        y + ((first :: rest).map (·.height)).sum) := by
  -- only the last item gives up the connector behind it
  induction rest generalizing inside first x y with
  | nil =>
    refine Prod.ext ?_ ?_
    · cases inside <;> cases h : first.needsSpace <;>
        simp [rowEnd, spread, trimmed, pastConnector, first.spacedWidth_eq, h]
      · ring
      · ring
    · simp [rowEnd]
  | cons next rest ih =>
    rw [rowEnd, ih, List.getLast?_cons_cons]
    refine Prod.ext ?_ ?_
    · cases inside <;> cases h : first.needsSpace <;>
        simp [spread, trimmed, pastConnector, first.spacedWidth_eq, h]
      · ring
      · ring
      · ring
      · ring
    · simp [add_assoc]

/-- **A sequence** ends where its size says. -/
theorem rowEnd_sequence (items : List (Metrics K)) (x y : K) :
    rowEnd false false items x y =
      (x + (sequenceSize items).width, y + (sequenceSize items).height) := by
  rw [sequenceSize_eq, rowSize_height]
  cases items with
  | nil => simp [rowEnd, spread, trimmed]
  | cons first rest =>
    rw [rowEnd_inner]
    refine Prod.ext ?_ rfl
    rw [List.head?_cons, if_neg Bool.false_ne_true]
    ring

/-! ## Flat rows -/

/-- One more flat item keeps a row flat and within its extents. -/
theorem flat_extendRow {m item : Metrics K} (hm : m.Flat) (hitem : item.Flat) :
    (extendRow m item).Flat ∧ (extendRow m item).up = max m.up item.up ∧
      (extendRow m item).down = max m.down item.down := by
  have hup : (extendRow m item).up = max m.up item.up := by
    change max m.up (item.up - (m.height + item.height)) = _
    rw [hm.level, hitem.level, add_zero, sub_zero]
  have hdown : (extendRow m item).down = max m.down item.down := by
    change max (m.down - (m.height + item.height)) item.down = _
    rw [hm.level, hitem.level, add_zero, sub_zero]
  refine ⟨.of ?_ ?_ ?_ ?_, hup, hdown⟩
  · exact (congrArg₂ (· + ·) hm.level hitem.level).trans (add_zero 0)
  · exact add_nonneg hm.width (hitem.width.trans item.width_le_spacedWidth)
  · exact hup ▸ hm.up.trans (le_max_left _ _)
  · exact hdown ▸ hm.down.trans (le_max_left _ _)

theorem flat_foldl_extendRow {m : Metrics K} {items : List (Metrics K)} (hm : m.Flat)
    (h : ∀ i ∈ items, i.Flat) :
    (items.foldl extendRow m).Flat ∧
      ∀ i ∈ m :: items, i.up ≤ (items.foldl extendRow m).up ∧
        i.down ≤ (items.foldl extendRow m).down := by
  induction items generalizing m with
  | nil =>
    refine ⟨hm, fun i hi => ?_⟩
    rw [List.mem_singleton.1 hi]
    exact ⟨le_refl _, le_refl _⟩
  | cons item rest ih =>
    obtain ⟨hflat, hup, hdown⟩ := flat_extendRow hm (h item List.mem_cons_self)
    obtain ⟨hrow, hextents⟩ := ih hflat fun i hi => h i (List.mem_cons_of_mem _ hi)
    obtain ⟨hrowUp, hrowDown⟩ := hextents _ List.mem_cons_self
    rw [hup] at hrowUp
    rw [hdown] at hrowDown
    refine ⟨hrow, fun i hi => ?_⟩
    rcases List.mem_cons.1 hi with rfl | hi
    · exact ⟨(le_max_left _ _).trans hrowUp, (le_max_left _ _).trans hrowDown⟩
    · rcases List.mem_cons.1 hi with rfl | hi
      · exact ⟨(le_max_right _ _).trans hrowUp, (le_max_right _ _).trans hrowDown⟩
      · exact hextents i (List.mem_cons_of_mem _ hi)

/-- **A row of flat items is flat**, and reaches as far up and down as each of them. -/
theorem flat_rowSize {items : List (Metrics K)} (h : ∀ i ∈ items, i.Flat) :
    (rowSize items).Flat ∧
      ∀ i ∈ items, i.up ≤ (rowSize items).up ∧ i.down ≤ (rowSize items).down := by
  obtain ⟨hflat, hextents⟩ := flat_foldl_extendRow Metrics.flat_zero h
  exact ⟨hflat, fun i hi => hextents i (List.mem_cons_of_mem _ hi)⟩

theorem le_pastConnector (present : Bool) (x : K) : x ≤ pastConnector present x := by
  rw [pastConnector]
  split
  · linarith
  · exact le_refl x

/-- Going along a row leads to the right. -/
theorem le_rowEnd (edges inside : Bool) {items : List (Metrics K)} (h : ∀ i ∈ items, 0 ≤ i.width)
    (x y : K) : x ≤ (rowEnd edges inside items x y).1 := by
  induction items generalizing inside x y with
  | nil => exact le_refl x
  | cons m rest ih =>
    refine le_trans ?_ (ih true (fun i hi => h i (List.mem_cons_of_mem _ hi)) _ _)
    refine le_trans ?_ (le_pastConnector _ _)
    exact le_add_of_le_of_nonneg (le_pastConnector _ x) (h m List.mem_cons_self)

/-- The items of a row stand between the start and the end of the row, each below the drops of the
items before it. -/
theorem rowPieces_split (edges inside : Bool) {items : List (Sized K β)}
    (h : ∀ i ∈ items, 0 ≤ i.metrics.width) (x y : K) {front back : List (Site K β)}
    {s : Site K β} (hs : contents (rowPieces edges inside items x y) = front ++ s :: back) :
    s.slot = s.metrics.width ∧ s.y = y + (front.map (·.metrics.height)).sum ∧ x ≤ s.x ∧
      s.x + s.slot ≤ (rowEnd edges inside (items.map (·.metrics)) x y).1 := by
  induction items generalizing front inside x y with
  | nil => exact absurd hs.symm (List.append_ne_nil_of_right_ne_nil _ (List.cons_ne_nil _ _))
  | cons first rest ih =>
    have hrest : ∀ i ∈ rest, 0 ≤ i.metrics.width := fun i hi => h i (List.mem_cons_of_mem _ hi)
    have hwidths : ∀ m ∈ rest.map (·.metrics), 0 ≤ m.width := List.forall_mem_map.2 hrest
    have hfirst := h first List.mem_cons_self
    rw [rowPieces] at hs
    rw [List.map_cons, rowEnd, List.isEmpty_map]
    simp only [contents_append, contents_connector, contents_piece, List.nil_append,
      List.cons_append] at hs
    -- where the first item starts, and where the row goes on behind it
    have hentry := le_pastConnector (first.metrics.needsSpace && (edges || inside)) x
    generalize pastConnector (first.metrics.needsSpace && (edges || inside)) x = entry at *
    have hnext := le_pastConnector (first.metrics.needsSpace && (edges || !rest.isEmpty))
      (entry + first.metrics.width)
    generalize pastConnector (first.metrics.needsSpace && (edges || !rest.isEmpty))
      (entry + first.metrics.width) = next at *
    cases front with
    | nil =>
      obtain ⟨rfl, -⟩ := List.cons.inj hs
      exact ⟨rfl, (add_zero y).symm, hentry, hnext.trans (le_rowEnd edges true hwidths next _)⟩
    | cons head front =>
      obtain ⟨rfl, hback⟩ := List.cons.inj hs
      obtain ⟨hslot, hy, hleft, hright⟩ := ih true hrest next _ hback
      refine ⟨hslot, ?_, by linarith, hright⟩
      rw [hy, List.map_cons, List.sum_cons, add_assoc]
      rfl

/-- The items of a flat row stand on its line. -/
theorem rowPieces_between (edges inside : Bool) {items : List (Sized K β)}
    (h : ∀ i ∈ items, i.metrics.Flat) (x y : K) :
    ∀ s ∈ contents (rowPieces edges inside items x y),
      s.slot = s.metrics.width ∧ s.y = y ∧ x ≤ s.x ∧
        s.x + s.slot ≤ (rowEnd edges inside (items.map (·.metrics)) x y).1 := by
  intro s hs
  obtain ⟨front, back, hsplit⟩ := List.append_of_mem hs
  obtain ⟨hslot, hy, hleft, hright⟩ :=
    rowPieces_split edges inside (fun i hi => (h i hi).width) x y hsplit
  have hlevel : ∀ i ∈ front, i.metrics.height = 0 := by
    intro i hi
    refine (h i.toSized ?_).level
    rw [← contents_rowPieces x y edges inside items, hsplit]
    exact List.mem_map_of_mem (List.mem_append_left _ hi)
  have hdrop : (front.map (·.metrics.height)).sum = 0 :=
    List.sum_eq_zero (List.forall_mem_map.2 hlevel)
  rw [hdrop, add_zero] at hy
  exact ⟨hslot, hy, hleft, hright⟩

/-- What a row of flat items takes up between two ends is enough for each of the items. -/
theorem rowPieces_fits {edges inside : Bool} {items : List (Sized K β)}
    (h : ∀ i ∈ items, i.metrics.Flat) {m : Metrics K} {x y : K}
    (hwidth : (rowEnd edges inside (items.map (·.metrics)) x y).1 = x + m.width)
    (hheight : m.height = 0)
    (hextents : ∀ i ∈ items, i.metrics.up ≤ m.up ∧ i.metrics.down ≤ m.down) :
    ∀ s ∈ contents (rowPieces edges inside items x y), s.Fits (m.box x y) := by
  intro s hs
  obtain ⟨hslot, rfl, hleft, hright⟩ := rowPieces_between edges inside h x y s hs
  have hmem : s.toSized ∈ items := by
    rw [← contents_rowPieces x s.y edges inside items]
    exact List.mem_map_of_mem hs
  obtain ⟨hup, hdown⟩ := hextents _ hmem
  have hlevel := (h _ hmem).level
  refine ⟨hslot.ge, hleft, ?_, hright.trans_eq hwidth, ?_⟩
  · exact sub_le_sub_left hup s.y
  · change s.y + s.metrics.height + s.metrics.down ≤ s.y + m.height + m.down
    rw [hlevel, hheight]
    exact add_le_add_right hdown _

/-- The extents of a row of items. -/
theorem extents_rowSize {items : List (Sized K β)} (h : ∀ i ∈ items, i.metrics.Flat) :
    (rowSize (items.map (·.metrics))).Flat ∧
      ∀ i ∈ items, i.metrics.up ≤ (rowSize (items.map (·.metrics))).up ∧
        i.metrics.down ≤ (rowSize (items.map (·.metrics))).down := by
  have hsizes : ∀ m ∈ items.map (·.metrics), m.Flat := by
    intro m hm
    obtain ⟨i, hi, rfl⟩ := List.mem_map.1 hm
    exact h i hi
  obtain ⟨hflat, hextents⟩ := flat_rowSize hsizes
  exact ⟨hflat, fun i hi => hextents _ (List.mem_map_of_mem hi)⟩

/-- **The items of a row with connectors at its ends lie in the box of the row.** -/
theorem edgedPieces_fits {items : List (Sized K β)} (h : ∀ i ∈ items, i.metrics.Flat) (x y : K) :
    ∀ s ∈ contents (rowPieces true false items x y),
      s.Fits ((rowSize (items.map (·.metrics))).box x y) := by
  obtain ⟨hflat, hextents⟩ := extents_rowSize h
  refine rowPieces_fits h ?_ hflat.level hextents
  rw [rowEnd_edges, rowSize_width]

/-- **A sequence of flat items is flat.** -/
theorem flat_sequenceSize {items : List (Sized K β)} (h : ∀ i ∈ items, i.metrics.Flat) :
    (sequenceSize (items.map (·.metrics))).Flat := by
  obtain ⟨hflat, -⟩ := extents_rowSize h
  have hwidths : ∀ m ∈ items.map (·.metrics), 0 ≤ m.width := by
    intro m hm
    obtain ⟨i, hi, rfl⟩ := List.mem_map.1 hm
    exact (h i hi).width
  -- the end of the sequence is not before its start
  have hend := le_rowEnd false false hwidths 0 0
  rw [rowEnd_sequence, zero_add] at hend
  rw [sequenceSize_eq] at hend ⊢
  exact .of hflat.level hend hflat.up hflat.down

/-- **The items of a sequence lie in its box.** -/
theorem sequencePieces_fits {items : List (Sized K β)} (h : ∀ i ∈ items, i.metrics.Flat)
    (o : Options K) (x y slot : K) :
    let m := sequenceSize (items.map (·.metrics))
    ∀ s ∈ contents (sequencePieces o items x y slot),
      s.Fits (m.box (x + (gaps o m slot).left) y) := by
  intro m
  have hm : m = _ := sequenceSize_eq _
  obtain ⟨-, hextents⟩ := extents_rowSize h
  rw [sequencePieces, contents_append, contents_sides, List.nil_append]
  refine rowPieces_fits h ?_ (flat_sequenceSize h).level ?_
  · rw [rowEnd_sequence]
  · intro i hi
    obtain ⟨hup, hdown⟩ := hextents i hi
    rw [hm]
    exact ⟨hup, hdown⟩

end SyntaxDiagram.Layout
