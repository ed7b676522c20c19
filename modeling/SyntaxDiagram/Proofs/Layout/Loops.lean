import Mathlib.Tactic.Linarith
import SyntaxDiagram.Layout.Loop
import SyntaxDiagram.Proofs.Layout.Boxes
import SyntaxDiagram.Proofs.Layout.Contents

/-!
# Loops

A loop has an item on its line and a separator under it.

* `Layout.flat_loopSize`: a loop over flat items is flat.
* `Layout.loopPieces_fits`: the item lies in the box of the loop, and so does a separator that is a
  bare line.
-/

namespace SyntaxDiagram.Layout

variable {K β : Type} [ExactScalar K] {o : Options K}

/-- A loop over an item without negative extents has none. -/
theorem nonneg_loopSize (ho : o.Nonneg) {item separator : Metrics K} (hitem : item.Nonneg) :
    (loopSize o item separator).Nonneg := by
  refine ⟨?_, hitem.height, hitem.up, ?_⟩
  · have hwidth := le_max_left item.width separator.width
    change 0 ≤ max item.width separator.width + 2 * o.arcRadius
    linarith [hitem.width, ho.arcRadius]
  · have hdown := le_max_left (2 * o.arcRadius)
      (item.down + o.verticalSeparation + separator.up + separator.height + separator.down)
    change 0 ≤ max (2 * o.arcRadius) _
    linarith [ho.arcRadius]

/-- **A loop over flat items is flat.** -/
theorem flat_loopSize (ho : o.Nonneg) {item separator : Metrics K} (hitem : item.Flat) :
    (loopSize o item separator).Flat :=
  ⟨nonneg_loopSize ho hitem.toNonneg, hitem.level⟩

/-- A bare line under a flat item is as far down as its loop reaches. -/
theorem loopDistance_eq_down {item separator : Metrics K} (hitem : item.height = 0)
    (hheight : separator.height = 0) (hdown : separator.down = 0) :
    loopDistance o item separator = (loopSize o item separator).down := by
  simp only [loopDistance, loopSize, hitem, hheight, hdown, zero_add, add_zero]

/-- **A flat item and a bare line under it lie in the box of their loop.** -/
theorem loopPieces_fits (ho : o.Nonneg) {item separator : Sized K β} (hitem : item.metrics.Flat)
    (hseparator : separator.metrics = Metrics.zero) (x y slot : K) :
    let m := loopSize o item.metrics separator.metrics
    ∀ s ∈ contents (loopPieces o item separator x y slot),
      s.Fits (m.box (x + (gaps o m slot).left) y) := by
  intro m s hs
  have hm : m.Flat := flat_loopSize ho hitem
  have hwidth : m.width = max item.metrics.width separator.metrics.width + 2 * o.arcRadius := rfl
  have hline : separator.metrics.up = 0 ∧ separator.metrics.height = 0 ∧
      separator.metrics.down = 0 := by
    rw [hseparator]
    exact ⟨ExactScalar.zero_eq, ExactScalar.zero_eq, ExactScalar.zero_eq⟩
  obtain ⟨hup, hheight, hdown⟩ := hline
  have hdistance : loopDistance o item.metrics separator.metrics = m.down :=
    loopDistance_eq_down hitem.level hheight hdown
  simp only [loopPieces, contents_append, contents_sides, contents_track, contents_piece,
    contents_nil, List.nil_append, List.mem_cons, List.not_mem_nil, or_false] at hs
  have hright : x + (gaps o m slot).left + o.arcRadius + (m.width - 2 * o.arcRadius) ≤
      x + (gaps o m slot).left + m.width := by linarith [ho.arcRadius]
  rcases hs with rfl | rfl
  · refine .of ?_ (le_add_of_nonneg_right ho.arcRadius) hright (le_refl _) ?_
    · change item.metrics.width ≤ m.width - 2 * o.arcRadius
      rw [hwidth, add_sub_cancel_right]
      exact le_max_left _ _
    · have hroom := le_max_right (2 * o.arcRadius) (item.metrics.height + item.metrics.down +
        o.verticalSeparation + separator.metrics.up)
      change y + item.metrics.height + item.metrics.down ≤ y + item.metrics.height + m.down
      rw [← hdistance, loopDistance]
      linarith [ho.verticalSeparation, hitem.height]
  · refine .of ?_ (le_add_of_nonneg_right ho.arcRadius) hright ?_ ?_
    · change separator.metrics.width ≤ m.width - 2 * o.arcRadius
      rw [hwidth, add_sub_cancel_right]
      exact le_max_right _ _
    · change y - m.up ≤ y + loopDistance o item.metrics separator.metrics - separator.metrics.up
      linarith [hm.up, hm.down]
    · change y + loopDistance o item.metrics separator.metrics + separator.metrics.height +
        separator.metrics.down ≤ y + m.height + m.down
      linarith [hm.level]

end SyntaxDiagram.Layout
