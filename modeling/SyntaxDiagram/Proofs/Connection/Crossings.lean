import Mathlib.Analysis.SpecialFunctions.Trigonometric.Basic
import SyntaxDiagram.Proofs.Connection.Settled
import SyntaxDiagram.Proofs.Connection.Strokes
import SyntaxDiagram.Proofs.Slots

/-!
# Two items in turn

Around two items in turn there are two tracks, one over the other, and two slanted bars that lead
from each track to the other. A bar is made up of level lines, a slanted line and four bends, two of
which are eighths of a circle. Their sides and the measures of the bars come from the sine of 45
degrees and from the square root of two, so that bars and tracks meet if the one is the inverse of
the other.

* `ExactScalar.Octant`: numbers whose two constants fit together; the reals have them.
* `Path.Crosses`: a path from the upright part of a track to that of another.
* `Path.bars`, `Stroke.heights`: the heights that a path passes between its quarter bends.
* `Braid`: the lines around two items in turn. `Layout.braid_joins`, `Layout.braid_clear`: how they
  meet, and what they stay clear of.
* `Node.crossing_joined`: all of this for two nodes in turn.
-/

namespace SyntaxDiagram

/-- The real numbers, with the sine of 45 degrees and the square root of two. -/
noncomputable instance : ExactScalar ℝ where
  sin45 := Real.sin (Real.pi / 4)
  sqrtTwo := √2

/-- The constants of a layout fit together. -/
structure ExactScalar.Octant (K : Type) [ExactScalar K] : Prop where
  one_le : (1 : K) ≤ sqrtTwo
  le_two : (sqrtTwo : K) ≤ 2
  inverse : (sin45 : K) * sqrtTwo = 1

theorem ExactScalar.octant_real : Octant ℝ := by
  have hsquare : √2 * √2 = (2 : ℝ) := Real.mul_self_sqrt zero_le_two
  refine ⟨Real.one_le_sqrt.2 one_le_two, Real.sqrt_le_iff.2 ⟨zero_le_two, by norm_num⟩, ?_⟩
  change Real.sin (Real.pi / 4) * √2 = 1
  rw [Real.sin_pi_div_four]
  linarith

section

variable {α : Type}

/-- Whether a command is a quarter of a circle. -/
def Command.isQuarter : Command α → Bool
  | arc .. => true
  | _ => false

variable [Scalar α]

/-- The strokes of a path that are not quarters of a circle. -/
def Path.bars (p : Path α) : List (Stroke α) := p.strokes.filter fun s => !s.command.isQuarter

theorem Path.bars_push (p : Path α) (c : Command α) :
    (p.push c).bars = p.bars ++ if c.isQuarter then [] else [⟨p.finish, c⟩] := by
  rw [bars, strokes_push, List.filter_append, List.filter_singleton]
  cases c.isQuarter <;> rfl

end

variable {K β : Type} [ExactScalar K] {o : Options K}

/-! ## Bars -/

/-- The heights between the two ends of a stroke. Lines and eighths of a circle stay between them.
-/
def Stroke.heights (s : Stroke K) : Set K := Set.uIcc s.start.2 (s.start.2 + s.command.offset.2)

namespace Path

variable {p : Path K} {a b : K × K} {top bottom : K}

/-- What a path draws between its quarter bends keeps between two heights. -/
def Keeps (p : Path K) (top bottom : K) : Prop := ∀ bar ∈ p.bars, bar.heights ⊆ Set.Icc top bottom

theorem keeps_start (x y top bottom : K) : (Layout.start x y).Keeps top bottom :=
  List.forall_mem_nil _

theorem Keeps.arc (h : p.Keeps top bottom) (radius : K) (source target : Cardinal) :
    (p.arc radius source target).Keeps top bottom := by
  rw [Keeps, Path.arc, bars_push]
  exact (List.append_nil p.bars).symm ▸ h

/-- A path goes on between two heights if both ends of what is added are there. -/
theorem Keeps.push (h : p.Keeps top bottom) {c : Command K} (hp : p.Draws a b)
    (hstart : b.2 ∈ Set.Icc top bottom) (hend : b.2 + c.offset.2 ∈ Set.Icc top bottom) :
    (p.push c).Keeps top bottom := by
  rw [Keeps, bars_push, List.forall_mem_append]
  refine ⟨h, ?_⟩
  split
  · exact List.forall_mem_nil _
  · rw [List.forall_mem_singleton, Stroke.heights, hp.finish]
    exact Set.uIcc_subset_Icc hstart hend

theorem Keeps.right (h : p.Keeps top bottom) (hp : p.Draws a b) (hb : b.2 ∈ Set.Icc top bottom)
    (length : K) : (p.right length).Keeps top bottom :=
  h.push hp hb ((ExactScalar.add_zero_eq b.2).symm ▸ hb)

theorem Keeps.l (h : p.Keeps top bottom) (hp : p.Draws a b) (hstart : b.2 ∈ Set.Icc top bottom)
    (dx : K) {dy : K} (hend : b.2 + dy ∈ Set.Icc top bottom) : (p.l dx dy).Keeps top bottom :=
  h.push hp hstart hend

theorem Draws.eighth (h : p.Draws a b) (radius : K) (source : Compass) (spin : Spin) :
    (p.eighth radius source spin).Draws a
      (b.1 + (Command.eighth radius source spin).offset.1,
        b.2 + (Command.eighth radius source spin).offset.2) := by
  have hpush := h.push (c := .eighth radius source spin) rfl
  rw [finish_push, h.finish] at hpush
  exact hpush

/-- A path that turns off an upright part of one path and into an upright part of another. All that
it draws between these two bends are bars. -/
structure Crosses (p source target : Path K) : Prop where
  unbroken : p.Draws (p.x, p.y) p.finish
  leaves : source.OnVertical (p.x, p.y)
  arrives : target.OnVertical p.finish
  bars : ∃ turnOff turnInto, p.strokes = turnOff :: (p.bars ++ [turnInto])

theorem Draws.crosses {source target : Path K} (h : p.Draws a b)
    (hbars : ∃ turnOff turnInto, p.strokes = turnOff :: (p.bars ++ [turnInto]))
    (hleave : source.OnVertical a) (harrive : target.OnVertical b) : p.Crosses source target := by
  obtain ⟨hunbroken, rfl, rfl⟩ := h
  exact ⟨⟨hunbroken, rfl, rfl⟩, hleave, harrive, hbars⟩

end Path

namespace Layout

/-- The bar that leads from the upper track down to the lower one. -/
def fallingBar (r bar dx dy x y : K) : Path K :=
  let level := ((start x y).arc r .west .south).right bar
  let slanted := ((level.eighth r .north .clockwise).l dx dy).eighth r .southWest .counterClockwise
  (slanted.right bar).arc r .north .east

/-- The bar that leads from the lower track up to the upper one. -/
def risingBar (r bar dx dy x y : K) : Path K :=
  let level := ((start x y).arc r .west .north).right bar
  let slanted := ((level.eighth r .south .counterClockwise).l dx dy).eighth r .northWest .clockwise
  (slanted.right bar).arc r .south .east

section

variable {r bar dx dy : K} (hbar : 0 ≤ bar) (x y : K)
include hbar

theorem draws_fallingBar :
    (fallingBar r bar dx dy x y).Draws (x, y)
      (x + 2 * r + 2 * bar + (dx + 2 * Command.longSide r),
        y + 2 * r + (dy + 2 * Command.shortSide r)) := by
  refine (((((((Path.draws_start x y).arc r .west .south).right hbar).eighth r .north
    .clockwise).l dx dy).eighth r .southWest .counterClockwise).right hbar).arc r .north .east
      |>.to ?_ ?_
  · simp [Command.arcX, Command.offset, Compass.reach, Command.signed, Command.side]
    ring
  · simp [Command.arcY, Command.offset, Compass.reach, Command.signed, Command.side]
    ring

theorem draws_risingBar :
    (risingBar r bar dx dy x y).Draws (x, y)
      (x + 2 * r + 2 * bar + (dx + 2 * Command.longSide r),
        y - 2 * r + (dy - 2 * Command.shortSide r)) := by
  refine (((((((Path.draws_start x y).arc r .west .north).right hbar).eighth r .south
    .counterClockwise).l dx dy).eighth r .northWest .clockwise).right hbar).arc r .south .east
      |>.to ?_ ?_
  · simp [Command.arcX, Command.offset, Compass.reach, Command.signed, Command.side]
    ring
  · simp [Command.arcY, Command.offset, Compass.reach, Command.signed, Command.side]
    ring

/-- What lies between the quarter bends of a bar keeps between two heights if the ends of the
slanted line and of both eighths of a circle do. -/
theorem keeps_slanted {p : Path K} {a b : K × K} {top bottom : K} (h : p.Keeps top bottom)
    (hp : p.Draws a b) {source source' : Compass} {spin spin' : Spin} (rise fall : K)
    (hrise : (Command.eighth r source spin).offset.2 = rise)
    (hfall : (Command.eighth r source' spin').offset.2 = fall)
    (hstart : b.2 ∈ Set.Icc top bottom) (hfirst : b.2 + rise ∈ Set.Icc top bottom)
    (hsecond : b.2 + rise + dy ∈ Set.Icc top bottom)
    (hend : b.2 + rise + dy + fall ∈ Set.Icc top bottom) :
    (((((p.right bar).eighth r source spin).l dx dy).eighth r source' spin').right bar).Keeps
      top bottom := by
  subst hrise hfall
  have hlevel := hp.right hbar
  have hbend := hlevel.eighth r source spin
  have hline := hbend.l dx dy
  have hback := hline.eighth r source' spin'
  have hkeeps := ((h.right hp hstart bar).push hlevel hstart hfirst).l hbend hfirst dx hsecond
  exact (hkeeps.push hline hsecond hend).right hback hend bar

/-- A falling bar goes down all the way. -/
theorem keeps_fallingBar (hside : 0 ≤ Command.shortSide r) (hdy : 0 ≤ dy) :
    (fallingBar r bar dx dy x y).Keeps (y + r) (y + r + (dy + 2 * Command.shortSide r)) := by
  have hstart : ((start x y).arc r .west .south).Draws (x, y) (x + r, y + r) :=
    ((Path.draws_start x y).arc r .west .south).to (by simp [Command.arcX])
      (by simp [Command.arcY])
  refine Path.Keeps.arc (keeps_slanted hbar ((Path.keeps_start x y _ _).arc r .west .south) hstart
    (Command.shortSide r) (Command.shortSide r) rfl rfl ?_ ?_ ?_ ?_) r .north .east
  all_goals
    rw [Set.mem_Icc]
    constructor <;> linarith

/-- A rising bar goes up all the way. -/
theorem keeps_risingBar (hside : 0 ≤ Command.shortSide r) (hdy : dy ≤ 0) :
    (risingBar r bar dx dy x y).Keeps (y - r + (dy - 2 * Command.shortSide r)) (y - r) := by
  have hstart : ((start x y).arc r .west .north).Draws (x, y) (x + r, y - r) :=
    ((Path.draws_start x y).arc r .west .north).to (by simp [Command.arcX])
      (by simp [Command.arcY, sub_eq_add_neg])
  refine Path.Keeps.arc (keeps_slanted hbar ((Path.keeps_start x y _ _).arc r .west .north) hstart
    (-Command.shortSide r) (-Command.shortSide r) rfl rfl ?_ ?_ ?_ ?_) r .south .east
  all_goals
    rw [Set.mem_Icc]
    constructor <;> linarith

end

/-! ## Tracks -/

section

variable (r : K) {distance : K} (h : 2 * r ≤ distance) (x y : K) {v : K}
include h

/-- The heights between the two bends of a track that rises are on its upright part. -/
theorem onVertical_climb (hlow : v ≤ y - r) (hhigh : y - distance + r ≤ v) :
    ((((start x y).arc r .south .east).up (distance - 2 * r)).arc r .west .north).OnVertical
      (x + r, v) := by
  have hstart : ((start x y).arc r .south .east).finish = (x + r, y - r) := by
    simp [Command.arcX, Command.arcY, sub_eq_add_neg]
  rw [Path.onVertical_arc, Path.up, Path.onVertical_v, hstart,
    Path.clamp_of_nonneg (sub_nonneg.2 h)]
  refine .inr ⟨rfl, Set.mem_uIcc_of_ge ?_ hlow⟩
  linarith

/-- The heights between the two bends of a track that falls are on its upright part. -/
theorem onVertical_fall (hhigh : y + r ≤ v) (hlow : v ≤ y + distance - r) :
    ((((start x y).arc r .north .east).down (distance - 2 * r)).arc r .west .south).OnVertical
      (x + r, v) := by
  have hstart : ((start x y).arc r .north .east).finish = (x + r, y + r) := by
    simp [Command.arcX, Command.arcY]
  rw [Path.onVertical_arc, Path.down, Path.onVertical_v, hstart,
    Path.clamp_of_nonneg (sub_nonneg.2 h)]
  refine .inr ⟨rfl, Set.mem_uIcc_of_le hhigh ?_⟩
  linarith

end

/-! ## Measures -/

section

variable (hoct : ExactScalar.Octant K) (ho : o.Nonneg)
include hoct

theorem sqrtTwo_pos : 0 < (ExactScalar.sqrtTwo : K) := zero_lt_one.trans_le hoct.one_le

/-- The bends of a bar reach as far to the side as two eighths of a circle. -/
theorem crossing_arcX : (crossing o).arcX = 2 * Command.longSide o.arcRadius := by
  change 2 * o.arcRadius / ExactScalar.sqrtTwo = 2 * (o.arcRadius * ExactScalar.sin45)
  rw [div_eq_iff (sqrtTwo_pos hoct).ne']
  linear_combination -2 * o.arcRadius * hoct.inverse

/-- The bends of a bar reach as far down as two eighths of a circle. -/
theorem crossing_arcY : (crossing o).arcY = 2 * Command.shortSide o.arcRadius := by
  have hsides : (crossing o).arcY = 2 * o.arcRadius - (crossing o).arcX := by
    change 2 * o.arcRadius * (@OfNat.ofNat K 1 (Scalar.instOfNat 1) -
      @OfNat.ofNat K 1 (Scalar.instOfNat 1) / ExactScalar.sqrtTwo) =
        2 * o.arcRadius - 2 * o.arcRadius / ExactScalar.sqrtTwo
    rw [show @OfNat.ofNat K 1 (Scalar.instOfNat 1) = 1 from Nat.cast_one]
    ring
  rw [hsides, crossing_arcX hoct, Command.shortSide]
  ring

include ho

/-- No side of an eighth of a circle is negative, and the short one is at most half the radius. -/
theorem shortSide_bounds :
    0 ≤ Command.shortSide o.arcRadius ∧ 2 * Command.shortSide o.arcRadius ≤ o.arcRadius := by
  have hsine : 0 < (ExactScalar.sin45 : K) :=
    (pos_iff_pos_of_mul_pos (hoct.inverse ▸ one_pos)).2 (sqrtTwo_pos hoct)
  have hhigh : (ExactScalar.sin45 : K) ≤ 1 :=
    hoct.inverse ▸ le_mul_of_one_le_right hsine.le hoct.one_le
  have hlow : 1 ≤ (ExactScalar.sin45 : K) * 2 :=
    hoct.inverse ▸ mul_le_mul_of_nonneg_left hoct.le_two hsine.le
  change 0 ≤ o.arcRadius - o.arcRadius * ExactScalar.sin45 ∧
    2 * (o.arcRadius - o.arcRadius * ExactScalar.sin45) ≤ o.arcRadius
  have hlong := mul_le_mul_of_nonneg_left hhigh ho.arcRadius
  have hshort := mul_le_mul_of_nonneg_left hlow ho.arcRadius
  constructor <;> linarith

/-- A bar is at least as high as its bends. -/
theorem arcY_le_crossY : (crossing o).arcY ≤ (crossing o).crossY := by
  rw [crossing_arcY hoct]
  exact (shortSide_bounds hoct ho).2.trans (le_max_left _ _)

end

/-! ## Bars and tracks -/

/-- The lines around two things in turn. -/
structure Braid (α : Type) where
  front : Path α
  back : Path α
  intoUpper : Path α
  outOfUpper : Path α
  intoLower : Path α
  outOfLower : Path α
  falling : Path α
  rising : Path α

/-- The lines in the order in which they are drawn. -/
def Braid.tracks {α : Type} (b : Braid α) : List (Path α) :=
  [b.front, b.back, b.intoUpper, b.outOfUpper, b.intoLower, b.outOfLower, b.falling, b.rising]

/-- The lines join both things with the ends of what they are in, and the bars join their tracks.
Each bar ends on the height on which the other one starts. -/
structure Braid.Joins (b : Braid K) (outer inner upper lower : Ports K) : Prop where
  front : b.front.Draws outer.entry inner.entry
  back : b.back.Draws inner.exit outer.exit
  intoUpper : b.intoUpper.Draws inner.entry upper.entry
  outOfUpper : b.outOfUpper.Draws upper.exit inner.exit
  intoLower : b.intoLower.Draws inner.entry lower.entry
  outOfLower : b.outOfLower.Draws lower.exit inner.exit
  falling : b.falling.Crosses b.intoUpper b.outOfLower
  rising : b.rising.Crosses b.intoLower b.outOfUpper
  fallingLevel : b.falling.finish.2 = b.rising.y
  risingLevel : b.rising.finish.2 = b.falling.y

section

variable (o) (first second : Sized K β) (x y slot : K)

/-- The lines of a crossing. -/
def braid : Braid K :=
  let r := o.arcRadius
  let m := crossingSize o first.metrics second.metrics
  let c := crossing o
  let left := x + (gaps o m slot).left
  let farRight := left + m.width - 2 * r
  let firstIn := m.up - first.metrics.up
  let firstOut := m.up - first.metrics.up - first.metrics.height
  let secondIn := m.down - second.metrics.down - second.metrics.height
  let secondOut := m.down - second.metrics.down
  let bar := (m.width - 4 * r - c.crossX) / 2
  { front := (start x y).right (gaps o m slot).left
    back := (start (left + m.width) y).right (gaps o m slot).right
    intoUpper := (((start left y).arc r .south .east).up (firstIn - 2 * r)).arc r .west .north
    outOfUpper := (((start farRight (y - firstOut)).arc r .north .east).down
      (firstOut - 2 * r)).arc r .west .south
    intoLower := (((start left y).arc r .north .east).down (secondIn - 2 * r)).arc r .west .south
    outOfLower := (((start farRight (y + secondOut)).arc r .south .east).up
      (secondOut - 2 * r)).arc r .west .north
    falling := fallingBar r bar (c.crossX - c.arcX) (c.crossY - c.arcY) (left + r)
      (y - r - c.crossY / 2)
    rising := risingBar r bar (c.crossX - c.arcX) (c.arcY - c.crossY) (left + r)
      (y + r + c.crossY / 2) }

theorem tracks_crossingPieces :
    tracks (crossingPieces o first second x y slot) = (braid o first second x y slot).tracks := rfl

/-- The upper item of a crossing at its place. -/
def crossingUpper : Site K β :=
  let m := crossingSize o first.metrics second.metrics
  first.at (x + (gaps o m slot).left + 2 * o.arcRadius) (y - (m.up - first.metrics.up))
    (m.width - 4 * o.arcRadius)

/-- The lower item of a crossing at its place. -/
def crossingLower : Site K β :=
  let m := crossingSize o first.metrics second.metrics
  second.at (x + (gaps o m slot).left + 2 * o.arcRadius)
    (y + (m.down - second.metrics.down - second.metrics.height)) (m.width - 4 * o.arcRadius)

theorem contents_crossingPieces_eq :
    contents (crossingPieces o first second x y slot) =
      [crossingUpper o first second x y slot, crossingLower o first second x y slot] := rfl

end

/-- How far the exit of the upper item is over the line, and the entry of the lower one under it:
two bends and half a bar, and the separation and half a bar. -/
structure CrossingRoom (o : Options K) (first second m : Metrics K) : Prop where
  above : 2 * o.arcRadius + (crossing o).crossY / 2 ≤ m.up - first.up - first.height
  clearAbove : o.verticalSeparation + first.down + (crossing o).crossY / 2 ≤
    m.up - first.up - first.height
  below : 2 * o.arcRadius + (crossing o).crossY / 2 ≤ m.down - second.down - second.height
  clearBelow : o.verticalSeparation + second.up + (crossing o).crossY / 2 ≤
    m.down - second.down - second.height

theorem crossingSize_room (first second : Metrics K) :
    CrossingRoom o first second (crossingSize o first second) := by
  let half := (crossing o).crossY / 2
  have habove : (crossingSize o first second).up - first.up - first.height =
      max (2 * o.arcRadius + half) (o.verticalSeparation + first.down + half) := by
    change max (2 * o.arcRadius + half) (o.verticalSeparation + first.down + half) +
      first.height + first.up - first.up - first.height = _
    ring
  have hbelow : (crossingSize o first second).down - second.down - second.height =
      max (2 * o.arcRadius + half) (o.verticalSeparation + second.up + half) := by
    change max (2 * o.arcRadius + half) (o.verticalSeparation + second.up + half) +
      second.height + second.down - second.down - second.height = _
    ring
  exact ⟨habove ▸ le_max_left _ _, habove ▸ le_max_right _ _, hbelow ▸ le_max_left _ _,
    hbelow ▸ le_max_right _ _⟩

section

variable (hoct : ExactScalar.Octant K) (ho : o.Nonneg) {first second : Sized K β}
  (hfirst : first.metrics.Nonneg) (hsecond : second.metrics.Nonneg) (x y : K) {slot : K}

include ho in
theorem half_bar_nonneg : 0 ≤ (crossing o).crossY / 2 :=
  div_nonneg (ho.arcRadius.trans (le_max_left _ _)) zero_le_two

include hfirst in
/-- There is room for a bar beside the arcs. -/
theorem bar_nonneg :
    0 ≤ ((crossingSize o first.metrics second.metrics).width - 4 * o.arcRadius -
      (crossing o).crossX) / 2 := by
  have hwidth : (crossingSize o first.metrics second.metrics).width - 4 * o.arcRadius =
      max (first.metrics.spacedWidth + (crossing o).crossX) second.metrics.spacedWidth :=
    add_sub_cancel_left _ _
  have hroom := le_max_left (first.metrics.spacedWidth + (crossing o).crossX)
    second.metrics.spacedWidth
  have hspaced := hfirst.width.trans first.metrics.width_le_spacedWidth
  rw [hwidth]
  exact div_nonneg (by linarith) zero_le_two

section

include hoct hfirst

variable (slot)

/-- One bar falls from the left end of the upper track to the right end of the lower one. -/
theorem draws_braid_falling :
    let m := crossingSize o first.metrics second.metrics
    let left := x + (gaps o m slot).left
    (braid o first second x y slot).falling.Draws
      (left + o.arcRadius, y - o.arcRadius - (crossing o).crossY / 2)
      (left + m.width - 2 * o.arcRadius + o.arcRadius,
        y + o.arcRadius + (crossing o).crossY / 2) := by
  refine (draws_fallingBar (bar_nonneg hfirst) _ _).to ?_ ?_
  · linarith [crossing_arcX (o := o) hoct]
  · linarith [crossing_arcY (o := o) hoct]

/-- The other bar rises from the left end of the lower track to the right end of the upper one. -/
theorem draws_braid_rising :
    let m := crossingSize o first.metrics second.metrics
    let left := x + (gaps o m slot).left
    (braid o first second x y slot).rising.Draws
      (left + o.arcRadius, y + o.arcRadius + (crossing o).crossY / 2)
      (left + m.width - 2 * o.arcRadius + o.arcRadius,
        y - o.arcRadius - (crossing o).crossY / 2) := by
  refine (draws_risingBar (bar_nonneg hfirst) _ _).to ?_ ?_
  · linarith [crossing_arcX (o := o) hoct]
  · linarith [crossing_arcY (o := o) hoct]

end

include hoct ho hfirst hsecond

/-- **Two items in turn are joined with both ends, and the bars with the tracks.** -/
theorem braid_joins (hslot : (crossingSize o first.metrics second.metrics).width ≤ slot) :
    let m := crossingSize o first.metrics second.metrics
    (braid o first second x y slot).Joins (slotPorts m x y slot) (ownPorts o m x y slot)
      (crossingUpper o first second x y slot).ports
      (crossingLower o first second x y slot).ports := by
  intro m
  obtain ⟨habove, -, hbelow, -⟩ : CrossingRoom o first.metrics second.metrics m :=
    crossingSize_room _ _
  have hfirstHeight := hfirst.height
  have hsecondHeight := hsecond.height
  have hhalf := half_bar_nonneg ho
  obtain ⟨hleft, hright⟩ := o.internalAlignment.gaps_nonneg hslot
  have hsum := o.internalAlignment.left_add_right slot m.width
  let left := x + (gaps o m slot).left
  have hexit : (ownPorts o m x y slot).exit = (left + m.width, y) :=
    Prod.ext rfl ((congrArg (y + ·) ExactScalar.zero_eq).trans (add_zero y))
  have hend : (slotPorts m x y slot).exit = (x + slot, y) :=
    Prod.ext rfl ((congrArg (y + ·) ExactScalar.zero_eq).trans (add_zero y))
  let farRight := left + m.width - 2 * o.arcRadius
  have hupper : (crossingUpper o first second x y slot).ports.exit =
      (farRight, y - (m.up - first.metrics.up - first.metrics.height)) := by
    refine Prod.ext ?_ ?_
    · change left + 2 * o.arcRadius + (m.width - 4 * o.arcRadius) = left + m.width - 2 * o.arcRadius
      ring
    · change y - (m.up - first.metrics.up) + first.metrics.height = _
      ring
  have hlower : (crossingLower o first second x y slot).ports.exit =
      (farRight, y + (m.down - second.metrics.down)) := by
    refine Prod.ext ?_ ?_
    · change left + 2 * o.arcRadius + (m.width - 4 * o.arcRadius) = left + m.width - 2 * o.arcRadius
      ring
    · change y + (m.down - second.metrics.down - second.metrics.height) + second.metrics.height = _
      ring
  have hover : 2 * o.arcRadius ≤ m.up - first.metrics.up - first.metrics.height := by linarith
  have hfar : 2 * o.arcRadius ≤ m.up - first.metrics.up := by linarith
  have hunder : 2 * o.arcRadius ≤ m.down - second.metrics.down - second.metrics.height := by
    linarith
  have hdeep : 2 * o.arcRadius ≤ m.down - second.metrics.down := by linarith
  have hfalling : (braid o first second x y slot).falling.Draws _ _ :=
    draws_braid_falling hoct hfirst x y slot
  have hrising : (braid o first second x y slot).rising.Draws _ _ :=
    draws_braid_rising hoct hfirst x y slot
  refine ⟨(Path.draws_start x y).right hleft, ?_, ?_, ?_, ?_, ?_, ?_, ?_, ?_, ?_⟩
  · rw [hexit, hend]
    refine ((Path.draws_start _ _).right hright).to ?_ rfl
    change x + (gaps o m slot).left + m.width + (gaps o m slot).right = x + slot
    rw [gaps]
    linarith
  · exact draws_climb_by o.arcRadius hfar left y
  · rw [hexit, hupper]
    exact (draws_fall_by o.arcRadius hover farRight _).to (sub_add_cancel _ _) (sub_add_cancel _ _)
  · exact draws_fall_by o.arcRadius hunder left y
  · rw [hexit, hlower]
    exact (draws_climb_by o.arcRadius hdeep farRight _).to (sub_add_cancel _ _)
      (add_sub_cancel_right _ _)
  · refine hfalling.crosses ⟨_, _, rfl⟩ ?_ ?_
    · exact onVertical_climb o.arcRadius hfar left y (by linarith) (by linarith)
    · exact onVertical_climb o.arcRadius hdeep farRight _ (by linarith) (by linarith)
  · refine hrising.crosses ⟨_, _, rfl⟩ ?_ ?_
    · exact onVertical_fall o.arcRadius hunder left y (by linarith) (by linarith)
    · exact onVertical_fall o.arcRadius hover farRight _ (by linarith) (by linarith)
  · exact congrArg Prod.snd hfalling.finish
  · exact congrArg Prod.snd hrising.finish

omit hsecond in
/-- **The bars are clear of both items.** -/
theorem braid_clear (slot : K) :
    let b := braid o first second x y slot
    ∀ bar ∈ b.falling.bars ++ b.rising.bars, ∀ v ∈ bar.heights,
      (crossingUpper o first second x y slot).box.bottom + o.verticalSeparation ≤ v ∧
        v + o.verticalSeparation ≤ (crossingLower o first second x y slot).box.top := by
  intro b
  let m := crossingSize o first.metrics second.metrics
  obtain ⟨-, habove, -, hbelow⟩ : CrossingRoom o first.metrics second.metrics m :=
    crossingSize_room _ _
  have hshort := (shortSide_bounds hoct ho).1
  have hdown := arcY_le_crossY hoct ho
  have hsides := crossing_arcY (o := o) hoct
  have hfalling : b.falling.Keeps _ _ := keeps_fallingBar (bar_nonneg hfirst) _ _ hshort
    (sub_nonneg.2 hdown)
  have hrising : b.rising.Keeps _ _ := keeps_risingBar (bar_nonneg hfirst) _ _ hshort
    (sub_nonpos.2 hdown)
  intro bar hmem v hv
  change y - (m.up - first.metrics.up) + first.metrics.height + first.metrics.down + _ ≤ v ∧
    v + _ ≤ y + (m.down - second.metrics.down - second.metrics.height) - second.metrics.up
  rcases List.mem_append.1 hmem with hmem | hmem
  · obtain ⟨htop, hbottom⟩ := hfalling bar hmem hv
    constructor <;> linarith
  · obtain ⟨htop, hbottom⟩ := hrising bar hmem hv
    constructor <;> linarith

/-- **Both items lie in the box of their node.** -/
theorem crossingPieces_fits (slot : K) :
    let m := crossingSize o first.metrics second.metrics
    ∀ s ∈ contents (crossingPieces o first second x y slot),
      s.Fits (m.box (x + (gaps o m slot).left) y) := by
  intro m s hs
  have hcross := crossX_nonneg ho (sqrtTwo_pos hoct)
    (hoct.le_two.trans (show (2 : K) ≤ 4 by norm_num))
  have hwide := roomy_crossingPieces hcross first second s hs
  obtain ⟨habove, hclear, hbelow, hclear'⟩ : CrossingRoom o first.metrics second.metrics m :=
    crossingSize_room _ _
  have hhalf := half_bar_nonneg ho
  have hlevel : m.height = 0 := ExactScalar.zero_eq
  have harc := ho.arcRadius
  rw [contents_crossingPieces_eq, List.mem_pair] at hs
  have hleft : x + (gaps o m slot).left ≤ x + (gaps o m slot).left + 2 * o.arcRadius := by linarith
  have hright : x + (gaps o m slot).left + 2 * o.arcRadius + (m.width - 4 * o.arcRadius) ≤
      x + (gaps o m slot).left + m.width := by linarith
  rcases hs with rfl | rfl
  · refine .of hwide hleft hright ?_ ?_
    · change y - m.up ≤ y - (m.up - first.metrics.up) - first.metrics.up
      linarith
    · change y - (m.up - first.metrics.up) + first.metrics.height + first.metrics.down ≤ _
      linarith [ho.verticalSeparation, hsecond.height, hsecond.down]
  · refine .of hwide hleft hright ?_ ?_
    · change _ ≤ y + (m.down - second.metrics.down - second.metrics.height) - second.metrics.up
      linarith [ho.verticalSeparation, hfirst.height, hfirst.up]
    · change y + (m.down - second.metrics.down - second.metrics.height) + second.metrics.height +
        second.metrics.down ≤ _
      linarith

end

end Layout

open Layout

/-! ## Nodes -/

namespace Node

theorem alternatingSequence_laidOut (first second : Node K) :
    (alternatingSequence first second).LaidOut o
      (crossingSize o (first.metrics o) (second.metrics o)) [first, second]
      (crossingPieces o (first.figure o) (second.figure o)) := by
  refine ⟨rfl, ?_, fun x y slot => contents_crossingPieces o x y slot _ _⟩
  rw [figure]
  exact ⟨_, _, rfl⟩

/-- **Two nodes in turn**: each is joined with both ends, a bar leads from the track of each to that
of the other, both nodes lie in the box of what they are in, and the bars keep the vertical
separation from both of them. -/
theorem crossing_joined {o : Options ℝ} (ho : o.Nonneg) {first second : Node ℝ}
    (hfirst : (first.metrics o).Nonneg) (hsecond : (second.metrics o).Nonneg) (x y : ℝ) {slot : ℝ}
    (hslot : ((alternatingSequence first second).metrics o).width ≤ slot) :
    let p := (alternatingSequence first second).place o x y slot
    ∃ upper lower, ∃ braid : Braid ℝ,
      p.nodes = [upper, lower] ∧ upper.sized = first.sized o ∧ lower.sized = second.sized o ∧
      p.tracks = braid.tracks ∧ braid.Joins p.ports (p.inner o) upper.ports lower.ports ∧
      (upper.box o).Within (p.box o) ∧ (lower.box o).Within (p.box o) ∧
      ∀ bar ∈ braid.falling.bars ++ braid.rising.bars, ∀ height ∈ bar.heights,
        (upper.box o).bottom + o.verticalSeparation ≤ height ∧
          height + o.verticalSeparation ≤ (lower.box o).top := by
  intro p
  have hlaid := alternatingSequence_laidOut (o := o) first second
  have hoct := ExactScalar.octant_real
  rw [hlaid.metrics_eq] at hslot
  let upper := crossingUpper o (first.figure o) (second.figure o) x y slot
  let lower := crossingLower o (first.figure o) (second.figure o) x y slot
  have hnodes : p.nodes = [settle upper, settle lower] := hlaid.nodes_place x y slot
  have hupper : upper.toSized = first.figure o := rfl
  have hlower : lower.toSized = second.figure o := rfl
  have hwithin := hlaid.within_box x y slot (crossingPieces_fits hoct ho hfirst hsecond x y slot)
  rw [hnodes, List.forall_mem_cons, List.forall_mem_singleton] at hwithin
  refine ⟨settle upper, settle lower, braid o (first.figure o) (second.figure o) x y slot, hnodes,
    sized_settle hupper, sized_settle hlower, ?_, ?_, hwithin.1, hwithin.2, ?_⟩
  · rw [hlaid.tracks_place, tracks_crossingPieces]
  · rw [hlaid.ports_place, hlaid.inner_place, ports_settle hupper, ports_settle hlower]
    exact braid_joins hoct ho hfirst hsecond x y hslot
  · rw [(box_settle hupper).2, (box_settle hlower).1]
    exact braid_clear hoct ho hfirst x y slot

/-- Two terminals in turn, in a slot without gaps. -/
theorem crossing_joined_terminals :
    let o : Options ℝ := ⟨false, 8, 10, "railroad-diagram", true, .center, 17 / 2, 7⟩
    let n : Node ℝ := alternatingSequence (ofText "a") (ofText "bcd")
    let p := n.place o 0 0 (n.metrics o).width
    o.Nonneg ∧ (∀ text, ((ofText text : Node ℝ).metrics o).Nonneg) ∧
      ∃ upper lower, ∃ braid : Braid ℝ, p.nodes = [upper, lower] ∧ p.tracks = braid.tracks ∧
        braid.Joins p.ports (p.inner o) upper.ports lower.ports := by
  intro o n p
  have ho : o.Nonneg := ⟨by norm_num [o], by norm_num [o]⟩
  have hchar : 0 ≤ o.defaultCharWidth := by norm_num [o]
  have htext : ∀ text, ((ofText text : Node ℝ).metrics o).Nonneg := by
    intro text
    rw [ofText, metrics, figure]
    exact (flat_boxSize hchar text).toNonneg
  obtain ⟨upper, lower, braid, hnodes, -, -, htracks, hjoins, -⟩ :=
    crossing_joined ho (htext "a") (htext "bcd") 0 0 (le_refl _)
  exact ⟨ho, htext, upper, lower, braid, hnodes, htracks, hjoins⟩

end Node
end SyntaxDiagram
