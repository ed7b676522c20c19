import Mathlib.Tactic.Linarith
import SyntaxDiagram.Layout.Basic
import SyntaxDiagram.Proofs.Exact

/-!
# Boxes

Sizes and places over exact numbers.

* `Options.Nonneg`: measures that are lengths; `Options.exact`, the usual ones, are.
* `Metrics.Nonneg`, `Metrics.Flat`: no extent is negative, and the exit line is the entry line.
* `Box.Within`: one rectangle in another.
* `Site.area`: the room of a whole slot. An item that is not wider than its slot stands in it,
  wherever alignment puts it.
* `Site.Fits`: a slot that is wide enough and lies in a box.
-/

namespace SyntaxDiagram

variable {K β : Type} [ExactScalar K]

/-- Measures that are lengths. -/
structure Options.Nonneg (o : Options K) : Prop where
  arcRadius : 0 ≤ o.arcRadius
  verticalSeparation : 0 ≤ o.verticalSeparation

/-- The usual measures, as exact numbers. -/
def Options.exact : Options Rat where
  debug := false
  verticalSeparation := 8
  arcRadius := 10
  diagramClass := "railroad-diagram"
  strokeOddPixelLength := true
  internalAlignment := .center
  defaultCharWidth := 17 / 2
  commentCharWidth := 7

theorem Options.exact_nonneg : exact.Nonneg := ⟨by norm_num [exact], by norm_num [exact]⟩

namespace Metrics

/-- A size without negative extents. -/
structure Nonneg (m : Metrics K) : Prop where
  width : 0 ≤ m.width
  height : 0 ≤ m.height
  up : 0 ≤ m.up
  down : 0 ≤ m.down

instance (m : Metrics K) : Decidable m.Nonneg :=
  decidable_of_iff (0 ≤ m.width ∧ 0 ≤ m.height ∧ 0 ≤ m.up ∧ 0 ≤ m.down)
    ⟨fun ⟨width, height, up, down⟩ => ⟨width, height, up, down⟩,
      fun ⟨width, height, up, down⟩ => ⟨width, height, up, down⟩⟩

/-- A size whose exit line is its entry line. -/
structure Flat (m : Metrics K) : Prop extends m.Nonneg where
  level : m.height = 0

theorem Flat.of {m : Metrics K} (level : m.height = 0) (width : 0 ≤ m.width) (up : 0 ≤ m.up)
    (down : 0 ≤ m.down) : m.Flat := ⟨⟨width, level.ge, up, down⟩, level⟩

theorem flat_zero : (Metrics.zero : Metrics K).Flat :=
  .of ExactScalar.zero_eq ExactScalar.zero_eq.ge ExactScalar.zero_eq.ge ExactScalar.zero_eq.ge

theorem spacedWidth_eq (m : Metrics K) :
    m.spacedWidth = m.width + if m.needsSpace then 20 else 0 := by
  rw [spacedWidth, ExactScalar.zero_eq]

theorem width_le_spacedWidth (m : Metrics K) : m.width ≤ m.spacedWidth := by
  rw [spacedWidth_eq]
  split <;> linarith

end Metrics

/-- The first rectangle lies in the second. -/
structure Box.Within (a b : Box K) : Prop where
  left : b.left ≤ a.left
  top : b.top ≤ a.top
  right : a.right ≤ b.right
  bottom : a.bottom ≤ b.bottom

namespace Box.Within

theorem refl (a : Box K) : a.Within a := ⟨le_refl _, le_refl _, le_refl _, le_refl _⟩

theorem trans {a b c : Box K} (hab : a.Within b) (hbc : b.Within c) : a.Within c where
  left := hbc.left.trans hab.left
  top := hbc.top.trans hab.top
  right := hab.right.trans hbc.right
  bottom := hab.bottom.trans hbc.bottom

end Box.Within

/-- The same rectangle with more room above and below. -/
def Box.grow (b : Box K) (above below : K) : Box K :=
  { b with top := b.top - above, bottom := b.bottom + below }

theorem Box.grow_zero (b : Box K) : b.grow 0 0 = b := by
  rw [grow, sub_zero, add_zero]

/-- The gaps of a slot make up the room that it has left. -/
theorem Alignment.left_add_right (a : Alignment) (outer inner : K) :
    (a.gaps outer inner).left + (a.gaps outer inner).right = outer - inner := by
  cases a with
  | left => exact (congrArg (· + _) ExactScalar.zero_eq).trans (zero_add _)
  | center => exact add_halves _
  | right => exact ExactScalar.add_zero_eq _

/-- **A slot that is wide enough has room on both sides**, however it is shared out. -/
theorem Alignment.gaps_nonneg (a : Alignment) {outer inner : K} (h : inner ≤ outer) :
    0 ≤ (a.gaps outer inner).left ∧ 0 ≤ (a.gaps outer inner).right := by
  have hspare : 0 ≤ outer - inner := sub_nonneg.2 h
  have htwo : (0 : K) ≤ 2 := zero_le_two
  cases a with
  | left => exact ⟨ExactScalar.zero_eq.ge, hspare⟩
  | center => exact ⟨div_nonneg hspare htwo, div_nonneg hspare htwo⟩
  | right => exact ⟨hspare, ExactScalar.zero_eq.ge⟩

namespace Site

/-- The room from one end of a slot to the other. -/
def area (s : Site K β) : Box K :=
  ⟨s.x, s.y - s.metrics.up, s.x + s.slot, s.y + s.metrics.height + s.metrics.down⟩

/-- An item that has the room it needs, in a box. -/
structure Fits (s : Site K β) (b : Box K) : Prop where
  wide : s.metrics.width ≤ s.slot
  area : s.area.Within b

/-- An item fits in the box of a size at a point. -/
theorem Fits.of {s : Site K β} {m : Metrics K} {x y : K} (wide : s.metrics.width ≤ s.slot)
    (left : x ≤ s.x) (right : s.x + s.slot ≤ x + m.width) (top : y - m.up ≤ s.y - s.metrics.up)
    (bottom : s.y + s.metrics.height + s.metrics.down ≤ y + m.height + m.down) :
    s.Fits (m.box x y) :=
  ⟨wide, left, top, right, bottom⟩

/-- What stands anywhere in a slot is in the area of the slot. -/
theorem box_within_area (s : Site K β) {left : K} (hleft : s.x ≤ left)
    (hright : left + s.metrics.width ≤ s.x + s.slot) :
    (s.metrics.box left s.y).Within s.area :=
  ⟨hleft, le_refl _, hright, le_refl _⟩

/-- Alignment keeps an item in a slot that is wide enough. -/
theorem aligned_within_area (o : Options K) {s : Site K β} (h : s.metrics.width ≤ s.slot) :
    (s.metrics.box (s.x + (Layout.gaps o s.metrics s.slot).left) s.y).Within s.area := by
  obtain ⟨hleft, hright⟩ := o.internalAlignment.gaps_nonneg h
  have hsum := o.internalAlignment.left_add_right s.slot s.metrics.width
  refine s.box_within_area ?_ ?_ <;> rw [Layout.gaps]
  · linarith
  · linarith

end Site
end SyntaxDiagram
