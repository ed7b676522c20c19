import SyntaxDiagram.Proofs.Connection.Settled
import SyntaxDiagram.Proofs.Connection.Strokes
import SyntaxDiagram.Proofs.Layout.SkipRows

/-!
# Ways past an item

An item of a row that may be skipped is passed by on a rail over it or on a way under it. Both lead
along from the track and back to it through four quarters of circles, with lines between them that are
left out if there is no room for them.

* `Path.Within`: a path in a box, with one lemma for each way to go on.
* `Layout.railOverFirst`, `Layout.railOver`, `Layout.wayUnder`: the ways past an item. A lemma on each
  says between which points it leads.
* `Layout.rise_of_within`, `Layout.under_of_within`: what room a box has in which such a way is.
* `Layout.within_railOverFirst`, `Layout.within_railOver`, `Layout.within_wayUnder`: the room that is
  enough for it.
-/

namespace SyntaxDiagram

variable {K : Type} [ExactScalar K] {o : Options K}

/-! ## Paths in boxes -/

/-- A point in a rectangle. -/
structure Box.Contains (b : Box K) (q : K × K) : Prop where
  left : b.left ≤ q.1
  right : q.1 ≤ b.right
  top : b.top ≤ q.2
  bottom : q.2 ≤ b.bottom

@[simp] theorem Box.contains_mk (b : Box K) (x y : K) :
    b.Contains (x, y) ↔ (b.left ≤ x ∧ x ≤ b.right) ∧ b.top ≤ y ∧ y ≤ b.bottom :=
  ⟨fun h => ⟨⟨h.left, h.right⟩, h.top, h.bottom⟩, fun h => ⟨h.1.1, h.1.2, h.2.1, h.2.2⟩⟩

namespace Path

/-- A path whose commands all start in a rectangle, in which it also ends. Lines and quarters of
circles lie in the rectangle between their ends. -/
structure Within (p : Path K) (b : Box K) : Prop where
  starts : ∀ t ∈ p.strokes, b.Contains t.start
  finish : b.Contains p.finish

variable {p : Path K} {b : Box K}

theorem within_push (c : Command K) :
    (p.push c).Within b ↔ p.Within b ∧ b.Contains (p.push c).finish := by
  constructor
  · rintro ⟨hstarts, hfinish⟩
    rw [strokes_push, List.forall_mem_append, List.forall_mem_singleton] at hstarts
    exact ⟨⟨hstarts.1, hstarts.2⟩, hfinish⟩
  · rintro ⟨hp, hfinish⟩
    refine ⟨?_, hfinish⟩
    rw [strokes_push, List.forall_mem_append, List.forall_mem_singleton]
    exact ⟨hp.starts, hp.finish⟩

@[simp] theorem within_start (x y : K) : (Layout.start x y).Within b ↔ b.Contains (x, y) :=
  ⟨fun h => h.finish, fun h => ⟨nofun, h⟩⟩

@[simp] theorem finish_right (p : Path K) (length : K) :
    (p.right length).finish = (p.finish.1 + max length 0, p.finish.2) := by
  rw [Path.right, finish_h, clamp_eq_max]

@[simp] theorem finish_down (p : Path K) (length : K) :
    (p.down length).finish = (p.finish.1, p.finish.2 + max length 0) := by
  rw [Path.down, finish_v, clamp_eq_max]

@[simp] theorem finish_up (p : Path K) (length : K) :
    (p.up length).finish = (p.finish.1, p.finish.2 - max length 0) := by
  rw [Path.up, finish_v, clamp_eq_max, sub_eq_add_neg]

@[simp] theorem within_right (length : K) : (p.right length).Within b ↔
    p.Within b ∧ b.Contains (p.finish.1 + max length 0, p.finish.2) := by
  rw [← finish_right]
  exact within_push _

@[simp] theorem within_down (length : K) : (p.down length).Within b ↔
    p.Within b ∧ b.Contains (p.finish.1, p.finish.2 + max length 0) := by
  rw [← finish_down]
  exact within_push _

@[simp] theorem within_up (length : K) : (p.up length).Within b ↔
    p.Within b ∧ b.Contains (p.finish.1, p.finish.2 - max length 0) := by
  rw [← finish_up]
  exact within_push _

@[simp] theorem within_arc (radius : K) (source target : Cardinal) :
    (p.arc radius source target).Within b ↔ p.Within b ∧
      b.Contains (p.finish.1 + Command.arcX radius source target,
        p.finish.2 + Command.arcY radius source target) := by
  rw [← finish_arc]
  exact within_push _

end Path

namespace Layout

/-! ## Ways past an item -/

/-- The rail over the first item of a row: up from its entry, along, and down behind it. -/
def railOverFirst (o : Options K) (first : Metrics K) (top x y : K) : Path K :=
  let r := o.arcRadius
  let rise := (((start x y).arc r .south .east).up (y - top - 2 * r)).arc r .west .north
  (((rise.right (passWidth first - r)).arc r .north .east).down
    (y + first.height - top - 2 * r)).arc r .west .south

/-- The rail over an item behind the first: along from the rail before, and down behind the item. -/
def railOver (o : Options K) (m : Metrics K) (top x y : K) : Path K :=
  let r := o.arcRadius
  ((((start x top).right (passStride o m)).arc r .north .east).down
    (y - top + m.height - 2 * r)).arc r .west .south

/-- The way under an item behind the first. -/
def wayUnder (o : Options K) (m : Metrics K) (x y : K) : Path K :=
  let r := o.arcRadius
  let under := (((start x y).arc r .north .east).down
    (m.height + max (m.down + o.verticalSeparation) (2 * r) - 2 * r)).arc r .west .south
  (((under.right (passWidth m - r)).arc r .south .east).up
    (m.down + o.verticalSeparation - 2 * r)).arc r .west .north

section

variable {m : Metrics K} {top x y : K}

theorem draws_railOverFirst (hheight : 0 ≤ m.height) (hwide : o.arcRadius ≤ passWidth m)
    (hrise : 2 * o.arcRadius ≤ y - top) :
    (railOverFirst o m top x y).Draws (x, y)
      (x + (passWidth m + o.arcRadius) + 2 * o.arcRadius, y + m.height) := by
  have hup : 0 ≤ y - top - 2 * o.arcRadius := sub_nonneg.2 hrise
  have hdown : 0 ≤ y + m.height - top - 2 * o.arcRadius := by linarith
  refine (((((((Path.draws_start x y).arc _ .south .east).up hup).arc _ .west .north).right
    (sub_nonneg.2 hwide)).arc _ .north .east).down hdown).arc _ .west .south |>.to ?_ ?_
  · simp [Command.arcX]
    ring
  · simp [Command.arcY]
    ring

/-- The level part of the rail over the first item ends at the end of its track. -/
theorem onHorizontal_railOverFirst (hwide : o.arcRadius ≤ passWidth m)
    (hrise : 2 * o.arcRadius ≤ y - top) :
    (railOverFirst o m top x y).OnHorizontal (x + (passWidth m + o.arcRadius), top) := by
  have hturn : ((((start x y).arc o.arcRadius .south .east).up (y - top - 2 * o.arcRadius)).arc
      o.arcRadius .west .north).finish = (x + 2 * o.arcRadius, top) := by
    refine Path.Draws.finish ((((Path.draws_start x y).arc _ .south .east).up
      (sub_nonneg.2 hrise)).arc _ .west .north |>.to ?_ ?_)
    · simp [Command.arcX]
      ring
    · simp [Command.arcY]
      ring
  have hend : x + (passWidth m + o.arcRadius) =
      x + 2 * o.arcRadius + (passWidth m - o.arcRadius) := by ring
  simp only [railOverFirst, Path.right, Path.down, Path.onHorizontal_arc, Path.onHorizontal_v,
    Path.onHorizontal_h, hturn]
  rw [Path.clamp_of_nonneg (sub_nonneg.2 hwide), hend]
  exact .inr ⟨trivial, Set.right_mem_uIcc⟩

theorem draws_railOver (ho : o.Nonneg) (hdrop : 2 * o.arcRadius ≤ y - top + m.height) :
    (railOver o m top x y).Draws (x, top)
      (x + passStride o m + 2 * o.arcRadius, y + m.height) := by
  refine ((((Path.draws_start x top).right (passStride_nonneg ho m)).arc _ .north .east).down
    (sub_nonneg.2 hdrop)).arc _ .west .south |>.to ?_ ?_
  · simp [Command.arcX]
    ring
  · simp [Command.arcY]
    ring

/-- The level part of the rail over an item ends at the end of its track. -/
theorem onHorizontal_railOver (ho : o.Nonneg) :
    (railOver o m top x y).OnHorizontal (x + passStride o m, top) := by
  simp only [railOver, Path.right, Path.down, Path.onHorizontal_arc, Path.onHorizontal_v,
    Path.onHorizontal_h, Path.finish_start]
  rw [Path.clamp_of_nonneg (passStride_nonneg ho m)]
  exact .inr ⟨trivial, Set.right_mem_uIcc⟩

/-- On the way under an item there is room for two arcs down. -/
theorem fall_under_nonneg (hheight : 0 ≤ m.height) :
    0 ≤ m.height + max (m.down + o.verticalSeparation) (2 * o.arcRadius) - 2 * o.arcRadius := by
  have hdeep := le_max_right (m.down + o.verticalSeparation) (2 * o.arcRadius)
  linarith

/-- **The way under an item** always leads from the end of the item before to its own end. -/
theorem draws_wayUnder (hheight : 0 ≤ m.height) :
    (wayUnder o m x y).Draws (x, y) (x + passStride o m, y + m.height) := by
  have hdown := fall_under_nonneg (o := o) hheight
  have hwidth := Path.max_sub_add (passWidth m) o.arcRadius
  have hdepth := Path.max_sub_add (m.down + o.verticalSeparation) (2 * o.arcRadius)
  refine (((((((Path.draws_start x y).arc _ .north .east).down hdown).arc _ .west .south).rightTo
    (passWidth m - o.arcRadius)).arc _ .south .east).upTo
      (m.down + o.verticalSeparation - 2 * o.arcRadius)).arc _ .west .north |>.to ?_ ?_
  · simp [Command.arcX, passStride]
    linarith
  · simp [Command.arcY]
    linarith

end

/-! ## Ways past an item in a box -/

section

variable {m : Metrics K} {top x y : K} {b : Box K}

/-- A rail over the first item that does not leave a box over its level part has room for two arcs. -/
theorem rise_of_within (h : (railOverFirst o m top x y).Within b) (htop : b.top = top) :
    2 * o.arcRadius ≤ y - top := by
  have hclamp := le_max_left (y - top - 2 * o.arcRadius) 0
  have hzero := le_max_right (y - top - 2 * o.arcRadius) 0
  simp only [railOverFirst, Path.within_arc, Path.within_down, Path.within_right] at h
  -- the point where the rail begins to lead along
  obtain ⟨⟨⟨⟨⟨-, hturn⟩, -⟩, -⟩, -⟩, -⟩ := h
  have hover := hturn.top
  simp [Command.arcY] at hover
  linarith

/-- A way under an item that does not leave a box has room under the item there. -/
theorem under_of_within (h : (wayUnder o m x y).Within b) (hheight : 0 ≤ m.height) :
    y + m.height + max (m.down + o.verticalSeparation) (2 * o.arcRadius) ≤ b.bottom := by
  have hdown := max_eq_left (fall_under_nonneg (o := o) hheight)
  simp only [wayUnder, Path.within_arc, Path.within_up, Path.within_right] at h
  -- the point where the way begins to lead along
  obtain ⟨⟨⟨⟨⟨-, hturn⟩, -⟩, -⟩, -⟩, -⟩ := h
  have hunder := hturn.bottom
  simp [Command.arcY, hdown] at hunder
  linarith

variable (ho : o.Nonneg)
include ho

theorem within_railOverFirst (hheight : 0 ≤ m.height) (hwide : o.arcRadius ≤ passWidth m)
    (hrise : 2 * o.arcRadius ≤ y - top) (hleft : b.left ≤ x)
    (hright : x + (passWidth m + o.arcRadius) + 2 * o.arcRadius ≤ b.right) (htop : b.top ≤ top)
    (hbottom : y + m.height ≤ b.bottom) : (railOverFirst o m top x y).Within b := by
  have harc := ho.arcRadius
  have hup : max (y - top - 2 * o.arcRadius) 0 = y - top - 2 * o.arcRadius :=
    max_eq_left (sub_nonneg.2 hrise)
  have hrun : max (passWidth m - o.arcRadius) 0 = passWidth m - o.arcRadius :=
    max_eq_left (sub_nonneg.2 hwide)
  have hdown : max (y + m.height - top - 2 * o.arcRadius) 0 =
      y + m.height - top - 2 * o.arcRadius := max_eq_left (by linarith)
  simp [railOverFirst, Command.arcX, Command.arcY, hup, hrun, hdown]
  and_intros <;> linarith

theorem within_railOver (hdrop : 2 * o.arcRadius ≤ y - top + m.height)
    (hleft : b.left ≤ x) (hright : x + passStride o m + 2 * o.arcRadius ≤ b.right)
    (htop : b.top ≤ top) (hbottom : y + m.height ≤ b.bottom) :
    (railOver o m top x y).Within b := by
  have harc := ho.arcRadius
  have hstride := passStride_nonneg ho m
  have hrun : max (passStride o m) 0 = passStride o m := max_eq_left hstride
  have hdown : max (y - top + m.height - 2 * o.arcRadius) 0 =
      y - top + m.height - 2 * o.arcRadius := max_eq_left (sub_nonneg.2 hdrop)
  simp [railOver, Command.arcX, Command.arcY, hrun, hdown]
  and_intros <;> linarith

theorem within_wayUnder (hheight : 0 ≤ m.height) (hleft : b.left ≤ x)
    (hright : x + passStride o m ≤ b.right) (htop : b.top ≤ y)
    (hbottom : y + m.height + max (m.down + o.verticalSeparation) (2 * o.arcRadius) ≤ b.bottom) :
    (wayUnder o m x y).Within b := by
  have harc := ho.arcRadius
  have hdeep : 2 * o.arcRadius ≤ max (m.down + o.verticalSeparation) (2 * o.arcRadius) :=
    le_max_right _ _
  have hfall := max_eq_left (fall_under_nonneg (o := o) hheight)
  have hwidth := Path.max_sub_add (passWidth m) o.arcRadius
  have hdepth := Path.max_sub_add (m.down + o.verticalSeparation) (2 * o.arcRadius)
  have hrun := le_max_right (passWidth m - o.arcRadius) 0
  have hclimb := le_max_right (m.down + o.verticalSeparation - 2 * o.arcRadius) 0
  rw [passStride] at hright
  simp [wayUnder, Command.arcX, Command.arcY, hfall]
  and_intros <;> linarith

end

end Layout
end SyntaxDiagram
