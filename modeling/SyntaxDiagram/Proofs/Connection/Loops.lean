import SyntaxDiagram.Proofs.Connection.Settled

/-!
# Around a loop

A loop has a way down from the entry of its item to its separator, and a way back up from there to the
exit of its item. The way down always has the room it needs. The way back is not drawn downwards, and
the box of the loop is measured from the exit line of the item, so a tall item over a flat separator
makes both of them miss.

* `LoopParts`: what stands in a loop, and the lines between. `Placed.IsLoop`: a placed node made of
  them.
* `Layout.loop_ascends_iff`: when the way back ends at the exit of the item.
* `Layout.loop_covers_iff`: when the box of a loop covers its separator.
* `Node.loop_closes_iff`: the same for nodes, with what holds of all loops.
-/

namespace SyntaxDiagram

/-- What stands in a loop, with the line down to the separator and the line back up to the item. -/
structure LoopParts (α γ : Type) where
  item : γ
  separator : γ
  descent : Path α
  ascent : Path α

/-- The same lines between other things. -/
def LoopParts.map {α γ δ : Type} (f : γ → δ) (l : LoopParts α γ) : LoopParts α δ :=
  ⟨f l.item, f l.separator, l.descent, l.ascent⟩

variable {K β : Type} [ExactScalar K] {o : Options K}

namespace Layout

/-! ## Lines -/

/-- A track that turns back to the left and falls by a distance that has room for both turns. -/
theorem draws_descent_by (r : K) {distance : K} (h : 2 * r ≤ distance) (x y : K) :
    ((((start x y).arc r .north .west).down (distance - 2 * r)).arc r .west .south).Draws (x, y)
      (x, y + distance) := by
  refine (draws_descent r (sub_nonneg.2 h) x y).to rfl ?_
  change y + (distance - 2 * r) + 2 * r = y + distance
  ring

/-- A track that turns back to the left at the end rises as far as it should if it is not to rise
backwards. -/
theorem draws_ascent_iff (r length x y : K) :
    ((((start x y).arc r .south .east).up length).arc r .east .north).Draws (x, y)
      (x, y - length - 2 * r) ↔ 0 ≤ length := by
  refine ⟨fun h => ?_, fun h => draws_ascent r h x y⟩
  have hascent := draws_ascent r (le_max_right length 0) x y
  rw [up_clamp] at hascent
  have hend := congrArg Prod.snd (h.finish.symm.trans hascent.finish)
  exact left_eq_sup.1 (sub_right_injective (sub_left_injective hend))

/-! ## The parts of a loop -/

section

variable (o) (item separator : Sized K β) (x y slot : K)

/-- The parts of a loop in a slot. -/
def loopParts : LoopParts K (Site K β) :=
  let r := o.arcRadius
  let m := loopSize o item.metrics separator.metrics
  let left := x + (gaps o m slot).left
  let inner := m.width - 2 * r
  let distance := loopDistance o item.metrics separator.metrics
  { item := item.at (left + r) y inner
    separator := separator.at (left + r) (y + distance) inner
    descent := (((start (left + r) y).arc r .north .west).down (distance - 2 * r)).arc r
      .west .south
    ascent := (((start (left + m.width - r) (y + distance + separator.metrics.height)).arc r
      .south .east).up (distance - 2 * r + separator.metrics.height - item.metrics.height)).arc r
        .east .north }

/-- The lines of a loop: those in the gaps, those on both sides of the item, and the two around. -/
theorem tracks_loopPieces :
    let l := loopParts o item separator x y slot
    ∃ front back into out, tracks (loopPieces o item separator x y slot) =
      [front, back, into, out, l.descent, l.ascent] := ⟨_, _, _, _, rfl⟩

/-- **The way down** always ends where the separator is entered. -/
theorem loop_descends :
    let l := loopParts o item separator x y slot
    l.descent.Draws l.item.ports.entry l.separator.ports.entry :=
  draws_descent_by o.arcRadius (le_max_left _ _) _ _

/-- **The way back** ends where the item is left if the item does not end lower than the separator, or
if there is room for two arcs between their exit lines without its drop. -/
theorem loop_ascends_iff :
    let l := loopParts o item separator x y slot
    l.ascent.Draws l.separator.ports.exit l.item.ports.exit ↔
      item.metrics.height ≤ separator.metrics.height ∨ 2 * o.arcRadius ≤
        separator.metrics.height +
          (item.metrics.down + o.verticalSeparation + separator.metrics.up) := by
  intro l
  let r := o.arcRadius
  let m := loopSize o item.metrics separator.metrics
  let left := x + (gaps o m slot).left
  let distance := loopDistance o item.metrics separator.metrics
  let length := distance - 2 * r + separator.metrics.height - item.metrics.height
  have hright : left + m.width - r = left + r + (m.width - 2 * r) := by ring
  have hstart : l.separator.ports.exit =
      (left + m.width - r, y + distance + separator.metrics.height) := Prod.ext hright.symm rfl
  have hend : l.item.ports.exit =
      (left + m.width - r, y + distance + separator.metrics.height - length - 2 * r) := by
    refine Prod.ext hright.symm ?_
    change y + item.metrics.height = y + distance + separator.metrics.height -
      (distance - 2 * r + separator.metrics.height - item.metrics.height) - 2 * r
    ring
  have hlength : 0 ≤ length ↔
      item.metrics.height + 2 * r ≤ separator.metrics.height + distance := by
    constructor <;> intro h <;> linarith
  have hdistance : distance = max (2 * r) (item.metrics.down + o.verticalSeparation +
      separator.metrics.up + item.metrics.height) := by
    refine congrArg (max (2 * r)) ?_
    ring
  rw [hstart, hend]
  refine (draws_ascent_iff r length _ _).trans (hlength.trans ?_)
  rw [hdistance, add_le_add_max_iff]

end

/-! ## In the box of a loop -/

/-- Something under something else that is `a` away, or two arcs if that is more, is covered by room
for both if it is covered by the drop of the upper one, or if two arcs fit anyway. -/
theorem max_add_le_add_max_iff {height a b arcs : K} :
    max arcs (height + a) + b ≤ height + max arcs (a + b) ↔ arcs ≤ height + a ∨ b ≤ height := by
  have hsame : height + a + b ≤ max (height + arcs) (height + (a + b)) :=
    (add_assoc height a b).trans_le (le_max_right _ _)
  rw [← max_add_add_right, ← max_add_add_left, max_le_iff, and_iff_left hsame, le_max_iff, or_comm,
    ← add_assoc, add_le_add_iff_right, add_comm height arcs, add_le_add_iff_left]

section

variable (o) (item separator : Sized K β) (x y slot : K)

/-- The box of a loop in a slot. -/
def loopBox : Box K :=
  let m := loopSize o item.metrics separator.metrics
  m.box (x + (gaps o m slot).left) y

/-- **The box of a loop** reaches down to the separator if two arcs fit between the entry lines, or if
the separator is not larger than the drop of the item. -/
theorem loop_covers_iff :
    (loopParts o item separator x y slot).separator.box.bottom ≤
        (loopBox o item separator x y slot).bottom ↔
      2 * o.arcRadius ≤ item.metrics.height +
          (item.metrics.down + o.verticalSeparation + separator.metrics.up) ∨
        separator.metrics.height + separator.metrics.down ≤ item.metrics.height := by
  let room := item.metrics.down + o.verticalSeparation + separator.metrics.up
  let size := separator.metrics.height + separator.metrics.down
  have hdistance : loopDistance o item.metrics separator.metrics =
      max (2 * o.arcRadius) (item.metrics.height + room) := by
    refine congrArg (max _) ?_
    ring
  have hdown : (loopSize o item.metrics separator.metrics).down =
      max (2 * o.arcRadius) (room + size) := by
    refine congrArg (max _) ?_
    ring
  change y + loopDistance o item.metrics separator.metrics + separator.metrics.height +
    separator.metrics.down ≤
      y + item.metrics.height + (loopSize o item.metrics separator.metrics).down ↔ _
  rw [hdistance, hdown, add_assoc y, add_assoc y, add_assoc y, add_le_add_iff_left, add_assoc]
  exact max_add_le_add_max_iff

/-- The separator of a loop is under its item, with vertical separation between. -/
theorem loop_apart :
    let l := loopParts o item separator x y slot
    l.item.box.bottom + o.verticalSeparation ≤ l.separator.box.top := by
  have hroom := le_max_right (2 * o.arcRadius) (item.metrics.height + item.metrics.down +
    o.verticalSeparation + separator.metrics.up)
  change y + item.metrics.height + item.metrics.down + o.verticalSeparation ≤
    y + max (2 * o.arcRadius) _ - separator.metrics.up
  linarith

/-- What stands in a loop has room in its width, an arc away from both ends. -/
theorem loop_wide (ho : o.Nonneg) :
    let m := loopSize o item.metrics separator.metrics
    let left := x + (gaps o m slot).left
    let inner := m.width - 2 * o.arcRadius
    item.metrics.width ≤ inner ∧ separator.metrics.width ≤ inner ∧
      left ≤ left + o.arcRadius ∧ left + o.arcRadius + inner ≤ left + m.width := by
  intro m left inner
  have hinner : inner = max item.metrics.width separator.metrics.width :=
    add_sub_cancel_right _ _
  refine ⟨(le_max_left _ _).trans hinner.ge, (le_max_right _ _).trans hinner.ge,
    le_add_of_nonneg_right ho.arcRadius, ?_⟩
  change left + o.arcRadius + (m.width - 2 * o.arcRadius) ≤ left + m.width
  linarith [ho.arcRadius]

variable {o item separator} (ho : o.Nonneg)
include ho

/-- **The item of a loop** lies in the box of the loop. -/
theorem loop_item_fits (hseparator : separator.metrics.Nonneg) :
    (loopParts o item separator x y slot).item.Fits (loopBox o item separator x y slot) := by
  obtain ⟨hwide, -, hleft, hright⟩ := loop_wide o item separator x slot ho
  refine .of hwide hleft hright (le_refl _) ?_
  have hdown := le_max_right (2 * o.arcRadius) (item.metrics.down + o.verticalSeparation +
    separator.metrics.up + separator.metrics.height + separator.metrics.down)
  change y + item.metrics.height + item.metrics.down ≤ y + item.metrics.height +
    max (2 * o.arcRadius) _
  linarith [ho.verticalSeparation, hseparator.up, hseparator.height, hseparator.down]

/-- The separator lies in the box of a loop that reaches down to it. -/
theorem loop_separator_fits (hitem : item.metrics.Nonneg)
    (hbottom : (loopParts o item separator x y slot).separator.box.bottom ≤
      (loopBox o item separator x y slot).bottom) :
    (loopParts o item separator x y slot).separator.Fits (loopBox o item separator x y slot) := by
  obtain ⟨-, hwide, hleft, hright⟩ := loop_wide o item separator x slot ho
  refine .of hwide hleft hright ?_ hbottom
  have hroom := le_max_right (2 * o.arcRadius) (item.metrics.height + item.metrics.down +
    o.verticalSeparation + separator.metrics.up)
  change y - item.metrics.up ≤ y + max (2 * o.arcRadius) _ - separator.metrics.up
  linarith [ho.verticalSeparation, hitem.up, hitem.height, hitem.down]

end

end Layout

open Layout

/-! ## Nodes -/

/-- A placed node that is made of the parts of a loop. -/
structure Placed.IsLoop (p : Placed K) (l : LoopParts K (Placed K)) : Prop where
  nodes : p.nodes = [l.item, l.separator]
  tracks : ∃ front back into out, p.tracks = [front, back, into, out, l.descent, l.ascent]

namespace Node

theorem loop_laidOut (item separator : Node K) :
    (oneOrMore item separator).LaidOut o (loopSize o (item.metrics o) (separator.metrics o))
      [item, separator] (loopPieces o (item.figure o) (separator.figure o)) where
  aligned := rfl
  figure := by
    rw [figure]
    exact ⟨_, _, rfl⟩
  contents x y slot := contents_loopPieces o x y slot _ _

/-- **Around a loop.** The way down leads from the entry of the item to that of the separator, the
item lies in the box of the loop, and the separator is under the item. Which sizes make the way back
end at the exit of the item, and which ones make the box cover the separator, is said by the two
equivalences. -/
theorem loop_closes_iff (ho : o.Nonneg) {item separator : Node K}
    (hitem : (item.metrics o).Nonneg) (hseparator : (separator.metrics o).Nonneg) (x y slot : K) :
    let p := (oneOrMore item separator).place o x y slot
    let room := (item.metrics o).down + o.verticalSeparation + (separator.metrics o).up
    ∃ l : LoopParts K (Placed K), p.IsLoop l ∧
      l.item.sized = item.sized o ∧ l.separator.sized = separator.sized o ∧
      l.descent.Draws l.item.ports.entry l.separator.ports.entry ∧
      (l.ascent.Draws l.separator.ports.exit l.item.ports.exit ↔
        (item.metrics o).height ≤ (separator.metrics o).height ∨
          2 * o.arcRadius ≤ (separator.metrics o).height + room) ∧
      (l.item.box o).bottom + o.verticalSeparation ≤ (l.separator.box o).top ∧
      (l.item.box o).Within (p.box o) ∧
      ((l.separator.box o).Within (p.box o) ↔
        2 * o.arcRadius ≤ (item.metrics o).height + room ∨
          (separator.metrics o).height + (separator.metrics o).down ≤ (item.metrics o).height) := by
  intro p room
  have hlaid := loop_laidOut (o := o) item separator
  let l := loopParts o (item.figure o) (separator.figure o) x y slot
  have hi : l.item.toSized = item.figure o := rfl
  have hs : l.separator.toSized = separator.figure o := rfl
  refine ⟨l.map settle, ⟨?_, ?_⟩, sized_settle hi, sized_settle hs, ?_, ?_, ?_, ?_, ?_⟩
  · exact hlaid.nodes_place x y slot
  · rw [hlaid.tracks_place]
    exact tracks_loopPieces o _ _ x y slot
  · change l.descent.Draws (settle l.item).ports.entry (settle l.separator).ports.entry
    rw [ports_settle hi, ports_settle hs]
    exact loop_descends o _ _ x y slot
  · change l.ascent.Draws (settle l.separator).ports.exit (settle l.item).ports.exit ↔ _
    rw [ports_settle hi, ports_settle hs]
    exact loop_ascends_iff o _ _ x y slot
  · change ((settle l.item).box o).bottom + _ ≤ ((settle l.separator).box o).top
    rw [(box_settle hi).2, (box_settle hs).1]
    exact loop_apart o _ _ x y slot
  · rw [hlaid.box_place]
    exact (loop_item_fits x y slot ho hseparator).box_settle hi
  · rw [hlaid.box_place]
    refine Iff.trans ?_ (loop_covers_iff o (item.figure o) (separator.figure o) x y slot)
    refine ⟨fun hwithin => ?_, fun hbottom => ?_⟩
    · exact (box_settle hs).2.ge.trans hwithin.bottom
    · exact (loop_separator_fits x y slot ho hitem hbottom).box_settle hs

/-- A bare line over a terminal, which is put two arcs under it: the terminal reaches 31 units down,
and the box of the loop 30. -/
theorem loop_not_covered :
    let p : Placed Rat := (oneOrMore .skip (.ofText "a")).place Options.exact 0 0 (97 / 2)
    (p.box Options.exact).bottom = 30 ∧
      p.nodes.map (fun q => (q.box Options.exact).bottom) = [0, 31] := by
  decide +kernel

/-- A stack over a bare line: the way back should rise by 19 units with two turns of 10, and ends one
unit over the exit of the stack. -/
theorem loop_not_closed :
    let stack : Node Rat := .stack (.ofText "a") [.ofText "b"]
    let p : Placed Rat := (oneOrMore stack .skip).place Options.exact 0 0 (177 / 2)
    p.nodes.map (fun q => q.ports.exit.2) = [40, 59] ∧
      p.tracks.getLast?.map (fun path => (path.y, path.finish.2)) = some (59, 39) := by
  decide +kernel

end Node
end SyntaxDiagram
