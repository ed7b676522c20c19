import Mathlib.Algebra.Order.BigOperators.Group.List
import SyntaxDiagram.Proofs.Layout.Rows

/-!
# The width of a sequence

A sequence is as wide as its items with their connectors, less the connectors at its ends. So it is
made of its first item, the connectors behind it, and the sequence of the others.

* `Metrics.lead`: the connector on one side of an item.
* `Layout.endWidth`: the first item of a sequence with the connectors behind it.
* `Layout.width_sequenceSize_cons`: a sequence from its first item and the others.
* `Layout.width_le_sequenceSize`: no item is wider than the sequence.
* `Layout.width_part_add_end_le`: a part of a sequence leaves one of its ends over.
-/

namespace SyntaxDiagram

variable {K : Type} [ExactScalar K]

namespace Metrics

/-- The length of the connector that an item needs on each side. -/
def lead (m : Metrics K) : K := if m.needsSpace then 10 else 0

theorem lead_nonneg (m : Metrics K) : 0 ≤ m.lead := by
  rw [lead]
  split
  · norm_num
  · exact le_refl 0

theorem lead_le (m : Metrics K) : m.lead ≤ 10 := by
  rw [lead]
  split
  · exact le_refl 10
  · norm_num

theorem spacedWidth_eq_lead (m : Metrics K) : m.spacedWidth = m.width + m.lead + m.lead := by
  rw [spacedWidth_eq, lead]
  split
  · ring
  · ring

end Metrics

namespace Layout

theorem trimmed_some (m : Metrics K) : trimmed (some m) = m.lead := rfl

theorem trimmed_le (edge : Option (Metrics K)) : trimmed edge ≤ 10 := by
  cases edge with
  | none => exact (by norm_num : (0 : K) ≤ 10)
  | some m => exact m.lead_le

theorem width_sequenceSize (items : List (Metrics K)) :
    (sequenceSize items).width = spread items - trimmed items.head? - trimmed items.getLast? := by
  rw [sequenceSize_eq]

theorem spread_cons (m : Metrics K) (rest : List (Metrics K)) :
    spread (m :: rest) = m.spacedWidth + spread rest := List.sum_cons

theorem spread_append (front back : List (Metrics K)) :
    spread (front ++ back) = spread front + spread back := by
  rw [spread, List.map_append, List.sum_append, spread, spread]

theorem spread_nonneg {items : List (Metrics K)} (h : ∀ m ∈ items, 0 ≤ m.width) :
    0 ≤ spread items := by
  refine List.sum_nonneg ?_
  rw [List.forall_mem_map]
  exact fun m hm => (h m hm).trans m.width_le_spacedWidth

/-- A sequence of one item is as wide as the item. -/
theorem width_sequenceSize_singleton (m : Metrics K) : (sequenceSize [m]).width = m.width := by
  rw [width_sequenceSize, spread_cons, List.head?_cons, List.getLast?_singleton, trimmed_some,
    m.spacedWidth_eq_lead]
  change m.width + m.lead + m.lead + 0 - m.lead - m.lead = m.width
  ring

/-- The first item of a sequence with the connectors between it and the next one. -/
def endWidth : List (Metrics K) → K
  | m :: next :: _ => m.width + m.lead + next.lead
  | _ => 0

/-- **A sequence** is made of its first item, the connectors behind it, and the others. -/
theorem width_sequenceSize_cons (m : Metrics K) {rest : List (Metrics K)} (h : rest ≠ []) :
    (sequenceSize (m :: rest)).width = endWidth (m :: rest) + (sequenceSize rest).width := by
  obtain ⟨next, others, rfl⟩ := List.exists_cons_of_ne_nil h
  rw [width_sequenceSize, width_sequenceSize, spread_cons, List.getLast?_cons_cons, List.head?_cons,
    List.head?_cons, trimmed_some, trimmed_some, m.spacedWidth_eq_lead, endWidth]
  ring

/-- A sequence is as wide in the other direction. -/
theorem width_sequenceSize_reverse (items : List (Metrics K)) :
    (sequenceSize items.reverse).width = (sequenceSize items).width := by
  have hspread : spread items.reverse = spread items := by
    rw [spread, spread, List.map_reverse, List.sum_reverse]
  rw [width_sequenceSize, width_sequenceSize, hspread, List.head?_reverse, List.getLast?_reverse]
  ring

/-! ## Parts -/

theorem endWidth_nonneg {items : List (Metrics K)} (h : ∀ m ∈ items, 0 ≤ m.width) :
    0 ≤ endWidth items := by
  match items with
  | [] | [_] => exact le_refl 0
  | m :: next :: rest =>
    have hm := h m List.mem_cons_self
    rw [endWidth]
    linarith [m.lead_nonneg, next.lead_nonneg]

/-- The items behind some others are not wider than all of them. -/
theorem width_back_le {front back : List (Metrics K)} (h : ∀ m ∈ front ++ back, 0 ≤ m.width)
    (hback : back ≠ []) : (sequenceSize back).width ≤ (sequenceSize (front ++ back)).width := by
  induction front with
  | nil => exact le_refl _
  | cons m front ih =>
    have hrest := ih fun i hi => h i (List.mem_cons_of_mem _ hi)
    have hend := endWidth_nonneg h
    rw [List.cons_append] at hend ⊢
    rw [width_sequenceSize_cons m (List.append_ne_nil_of_right_ne_nil front hback)]
    linarith

/-- The items in front of some others are not wider than all of them. -/
theorem width_front_le {front back : List (Metrics K)} (h : ∀ m ∈ front ++ back, 0 ≤ m.width)
    (hfront : front ≠ []) : (sequenceSize front).width ≤ (sequenceSize (front ++ back)).width := by
  rw [← width_sequenceSize_reverse front, ← width_sequenceSize_reverse (front ++ back),
    List.reverse_append]
  refine width_back_le (fun m hm => h m ?_) (List.reverse_ne_nil_iff.2 hfront)
  rwa [← List.reverse_append, List.mem_reverse] at hm

/-- **No item is wider than its sequence.** -/
theorem width_le_sequenceSize {items : List (Metrics K)} (h : ∀ m ∈ items, 0 ≤ m.width) :
    ∀ m ∈ items, m.width ≤ (sequenceSize items).width := by
  intro m hm
  obtain ⟨front, back, rfl⟩ := List.append_of_mem hm
  calc m.width = (sequenceSize [m]).width := (width_sequenceSize_singleton m).symm
    _ ≤ (sequenceSize ([m] ++ back)).width :=
        width_front_le (fun i hi => h i (List.mem_append_right front hi)) (List.cons_ne_nil m [])
    _ ≤ (sequenceSize (front ++ m :: back)).width := width_back_le h (List.cons_ne_nil m back)

theorem width_sequenceSize_nonneg {items : List (Metrics K)} (h : ∀ m ∈ items, 0 ≤ m.width) :
    0 ≤ (sequenceSize items).width := by
  cases items with
  | nil =>
    rw [width_sequenceSize]
    exact (by simp [spread, trimmed] : (0 : K) ≤ spread [] - trimmed none - trimmed none)
  | cons m rest =>
    exact (h m List.mem_cons_self).trans (width_le_sequenceSize h m List.mem_cons_self)

/-- What is behind the first item of a sequence leaves the end of the sequence over. -/
theorem endWidth_add_back_le {front back : List (Metrics K)} (h : ∀ m ∈ front ++ back, 0 ≤ m.width)
    (hfront : front ≠ []) (hback : back ≠ []) :
    endWidth (front ++ back) + (sequenceSize back).width ≤
      (sequenceSize (front ++ back)).width := by
  obtain ⟨m, front, rfl⟩ := List.exists_cons_of_ne_nil hfront
  rw [List.cons_append, width_sequenceSize_cons m (List.append_ne_nil_of_right_ne_nil front hback)]
  exact add_le_add_right (width_back_le (fun i hi => h i (List.mem_cons_of_mem _ hi)) hback) _

/-- **A part of a sequence** leaves at least one end of the sequence over. -/
theorem width_part_add_end_le {front row back : List (Metrics K)}
    (h : ∀ m ∈ front ++ row ++ back, 0 ≤ m.width) (hrow : row ≠ [])
    (hpart : front ≠ [] ∨ back ≠ []) :
    (sequenceSize row).width +
        min (endWidth (front ++ row ++ back)) (endWidth (front ++ row ++ back).reverse) ≤
      (sequenceSize (front ++ row ++ back)).width := by
  rcases hpart with hfront | hback
  · rw [List.append_assoc] at h ⊢
    have hrest := width_front_le (fun m hm => h m (List.mem_append_right front hm)) hrow
    have hend := endWidth_add_back_le h hfront (List.append_ne_nil_of_left_ne_nil hrow back)
    have hmin := min_le_left (endWidth (front ++ (row ++ back)))
      (endWidth (front ++ (row ++ back)).reverse)
    linarith
  · have hrest := width_back_le (fun m hm => h m (List.mem_append_left back hm)) hrow
    -- the other end is the first one in the other direction
    have hother : ∀ m ∈ back.reverse ++ (front ++ row).reverse, 0 ≤ m.width := by
      intro m hm
      rw [← List.reverse_append, List.mem_reverse] at hm
      exact h m hm
    have hreversed := endWidth_add_back_le hother (List.reverse_ne_nil_iff.2 hback)
      (List.reverse_ne_nil_iff.2 (List.append_ne_nil_of_right_ne_nil front hrow))
    rw [← List.reverse_append, width_sequenceSize_reverse, width_sequenceSize_reverse] at hreversed
    have hmin := min_le_right (endWidth (front ++ row ++ back))
      (endWidth (front ++ row ++ back).reverse)
    linarith

end Layout
end SyntaxDiagram
