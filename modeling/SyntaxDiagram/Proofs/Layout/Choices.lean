import SyntaxDiagram.Proofs.Layout.Branches

/-!
# Choices

The extents of a choice are added up from the outermost branch above and from the straight branch
below. Going outwards from the straight branch on both sides gives the same sums, and with them the
places of the branches.

* `Layout.choiceUp_eq`, `Layout.choiceDown_eq`: the extents of a choice in terms of how far its
  branches reach.
* `Layout.choicePieces_stands`: how the branches of a choice stand in its box.
* `Layout.flat_choiceSize`: a choice between flat branches is flat.
* `Layout.choicePieces_fits`: flat branches of a choice lie in its box.
-/

namespace SyntaxDiagram.Layout

variable {K β : Type} [ExactScalar K] {o : Options K}

/-! ## Extents -/

/-- Going down the branches above keeps count of how far those already passed reach over the next
one. They are kept nearest first. -/
theorem choiceUp_passed {straight m nearest : Metrics K} {passed rest below : List (Metrics K)}
    (h : (m :: below).reverse ++ passed = nearest :: rest) :
    choiceUp o straight (reachAbove o m passed) (m :: below) =
      max (2 * o.arcRadius)
        (straight.up + o.verticalSeparation + nearest.down + nearest.height) +
          reachAbove o nearest rest := by
  induction below generalizing m passed with
  | nil =>
    obtain ⟨rfl, rfl⟩ := List.cons.inj h
    have hroom : m.height + m.down + o.verticalSeparation + straight.up =
        straight.up + o.verticalSeparation + m.down + m.height := by ring
    rw [add_comm, ← hroom]
    rfl
  | cons next below ih =>
    have hroom : m.height + m.down + o.verticalSeparation + next.up =
        next.up + o.verticalSeparation + (m.down + m.height) := by ring
    have hnext : (next :: below).reverse ++ m :: passed = nearest :: rest := by
      rw [← h]
      simp
    rw [← ih hnext, reachAbove, add_comm, ← hroom]
    rfl

/-- **The extent above**, from the straight branch outwards. -/
theorem choiceUp_eq {straight nearest : Metrics K} {above rest : List (Metrics K)}
    (h : above.reverse = nearest :: rest) :
    choiceUp o straight (above.head?.getD straight).up above =
      max (2 * o.arcRadius)
        (straight.up + o.verticalSeparation + nearest.down + nearest.height) +
          reachAbove o nearest rest := by
  cases above with
  | nil => cases h
  | cons outermost below => exact choiceUp_passed ((List.append_nil _).trans h)

/-- The extents below add up, wherever the sum starts. -/
theorem choiceDown_add (adjacent : Bool) (previous : Metrics K) (down more : K)
    (below : List (Metrics K)) :
    choiceDown o adjacent previous (down + more) below =
      choiceDown o adjacent previous down below + more := by
  induction below generalizing adjacent previous down with
  | nil => rfl
  | cons m rest ih => rw [choiceDown, choiceDown, ← ih, add_right_comm]

theorem choiceDown_reach (m : Metrics K) (rest : List (Metrics K)) :
    choiceDown o false m (rest.getLast?.getD m).down rest + (rest.getLast?.getD m).height =
      reachBelow o m rest := by
  induction rest generalizing m with
  | nil => exact add_comm _ _
  | cons next rest ih =>
    have hlast : (next :: rest).getLast?.getD m = rest.getLast?.getD next := by
      rw [List.getLast?_cons]
      rfl
    rw [hlast, reachBelow, ← ih, choiceDown, choiceDown_add, arcRoom, if_neg Bool.false_ne_true]
    ring

/-- **The extent below**, from the straight branch outwards. The height of the last branch is left
out of it. -/
theorem choiceDown_eq (straight nearest : Metrics K) (rest : List (Metrics K)) :
    choiceDown o true straight ((nearest :: rest).getLast?.getD straight).down
        (nearest :: rest) + (rest.getLast?.getD nearest).height =
      max (2 * o.arcRadius)
        (straight.height + straight.down + o.verticalSeparation + nearest.up) +
          reachBelow o nearest rest := by
  have hlast : (nearest :: rest).getLast?.getD straight = rest.getLast?.getD nearest := by
    rw [List.getLast?_cons]
    rfl
  rw [hlast, ← choiceDown_reach, choiceDown, choiceDown_add, arcRoom, if_pos rfl]
  ring

variable {b : Branches (Sized K β)}

/-- The nearest branch above is as far up as the size of the choice leaves room for. -/
theorem up_choiceSize {nearest : Sized K β} {rest : List (Sized K β)}
    (h : b.above.reverse = nearest :: rest) :
    (choiceSize o (b.map (·.metrics))).up =
      choiceRise o b.straight.metrics (nearest :: rest) +
        reachAbove o nearest.metrics (rest.map (·.metrics)) := by
  have hsizes : (b.above.map (·.metrics)).reverse =
      nearest.metrics :: rest.map (·.metrics) := by
    rw [← List.map_reverse, h, List.map_cons]
  exact choiceUp_eq hsizes

theorem top_choiceSize :
    (choiceSize o (b.map (·.metrics))).up =
      b.top o (choiceRise o b.straight.metrics b.above.reverse) := by
  rw [Branches.top]
  cases hnearest : b.above.reverse with
  | nil =>
    rw [List.reverse_eq_nil_iff] at hnearest
    simp [choiceSize, Branches.map, hnearest, choiceUp]
  | cons nearest rest => exact up_choiceSize hnearest

omit [ExactScalar K] in
/-- The size of the last branch, if there are branches below. -/
theorem last_of_below {nearest : Sized K β} {rest : List (Sized K β)}
    (h : b.below = nearest :: rest) :
    (rest.map (·.metrics)).getLast?.getD nearest.metrics = b.last.metrics := by
  rw [Branches.last, h, List.getLast?_cons, List.getLast?_map]
  cases rest.getLast? <;> rfl

/-- **The box of a choice ends over the lowest line by the drop of its last branch.** -/
theorem bottom_choiceSize :
    let m := choiceSize o (b.map (·.metrics))
    m.height + m.down + b.last.metrics.height =
      b.bottom o (choiceDrop o m.height b.straight.metrics b.below) := by
  intro m
  change b.straight.metrics.height + (choiceDown o true b.straight.metrics
    ((b.below.map (·.metrics)).getLast?.getD b.straight.metrics).down (b.below.map (·.metrics)) -
      b.straight.metrics.height) + b.last.metrics.height = _
  rw [add_sub_cancel, Branches.bottom]
  cases hbelow : b.below with
  | nil =>
    rw [Branches.last, hbelow]
    exact add_comm _ _
  | cons nearest rest =>
    have hdown := choiceDown_eq (o := o) b.straight.metrics nearest.metrics (rest.map (·.metrics))
    rw [last_of_below hbelow] at hdown
    exact hdown

/-! ## Branches in their box -/

theorem apart_choice (ho : o.Nonneg) (b : Branches (Sized K β)) :
    b.Apart (choiceRise o b.straight.metrics b.above.reverse)
      (choiceDrop o b.straight.metrics.height b.straight.metrics b.below) := by
  refine .of_max ho (2 * o.arcRadius) (fun i hi => ?_) fun i hi => ?_
  · obtain ⟨rest, hrest⟩ := List.head?_eq_some_iff.1 hi
    rw [hrest, choiceRise]
  · obtain ⟨rest, hrest⟩ := List.head?_eq_some_iff.1 hi
    rw [hrest, choiceDrop]

/-- **The branches of a choice in its box.** -/
theorem choicePieces_stands (ho : o.Nonneg) (h : ∀ i ∈ b.toList, i.metrics.Nonneg) (x y slot : K) :
    let m := choiceSize o (b.map (·.metrics))
    b.Stands m (x + (gaps o m slot).left) y (contents (choicePieces o m b x y slot)) := by
  intro m
  have hinner : m.width - 4 * o.arcRadius = (b.map (·.metrics)).widest := add_sub_cancel_right _ _
  let f : ChoiceFrame K :=
    ⟨o, m.height, m.width - 4 * o.arcRadius, x + (gaps o m slot).left, y⟩
  have hsites : contents (choicePieces o m b x y slot) =
      branchSites f (choiceRise o b.straight.metrics b.above.reverse)
        (choiceDrop o m.height b.straight.metrics b.below) b := by
    simp [choicePieces, branchSites, f]
  rw [hsites]
  refine stands_of_extents (m := m) (f := f) ho h (apart_choice ho b) rfl hinner ?_ ?_ rfl
    top_choiceSize bottom_choiceSize
  · exact le_add_of_nonneg_right (by linarith [ho.arcRadius])
  · change x + _ + 2 * o.arcRadius + (m.width - 4 * o.arcRadius) ≤ x + _ + m.width
    linarith [ho.arcRadius]

/-! ## Flat choices -/

section

variable (h : ∀ i ∈ b.toList, i.metrics.Flat)
include h

theorem flat_straight : b.straight.metrics.Flat := h _ (Branches.mem_toList.2 (by simp))

theorem flat_below : ∀ i ∈ b.below, i.metrics.Flat := fun i hi =>
  h i (Branches.mem_toList.2 (by simp [hi]))

theorem flat_nearest : ∀ i ∈ b.above.reverse, i.metrics.Flat := fun i hi =>
  h i (Branches.mem_toList.2 (List.mem_append_left _ hi))

variable (ho : o.Nonneg)
include ho

/-- **A choice between flat branches is flat.** -/
theorem flat_choiceSize : (choiceSize o (b.map (·.metrics))).Flat := by
  have hstraight := flat_straight h
  have hwidth : b.straight.metrics.width ≤ (b.map (·.metrics)).widest :=
    Branches.width_le_widest _ _ (by simp [Branches.toList, Branches.map])
  have hstands := choicePieces_stands ho (fun i hi => (h i hi).toNonneg) 0 0 0
  refine .of hstraight.level ?_ hstands.up ?_
  · change 0 ≤ (b.map (·.metrics)).widest + 4 * o.arcRadius
    linarith [ho.arcRadius, hstraight.width]
  · exact hstands.down.trans (by rw [(h _ b.last_mem).level, add_zero])

/-- **Flat branches of a choice lie in its box.** -/
theorem choicePieces_fits (x y slot : K) :
    let m := choiceSize o (b.map (·.metrics))
    ∀ s ∈ contents (choicePieces o m b x y slot),
      s.Fits (m.box (x + (gaps o m slot).left) y) := by
  intro m s hs
  have hfits := (choicePieces_stands ho (fun i hi => (h i hi).toNonneg) x y slot).within s hs
  rw [(h _ b.last_mem).level, Box.grow_zero] at hfits
  exact hfits

end

end SyntaxDiagram.Layout
