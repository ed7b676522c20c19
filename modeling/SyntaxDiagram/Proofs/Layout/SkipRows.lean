import SyntaxDiagram.Proofs.Layout.Rails

/-!
# Sizes of rows of passable items

The track through a row of passable items drops by each of them. The extents of the row are worked out
item by item: for each item the drop of the track behind it is taken off the extent above, and the drop
of the whole row off the extent below.

* `Layout.passStride`, `Layout.skipRowSize_width`: how far the track leads past each item.
* `Layout.lowered`: items with the drop of the track before them.
* `Layout.skipRowExtents_room`: what the extents leave room for.
* `Layout.Passable`: sizes for which the row is joined and covered. `Layout.passable_iff_of_flat`: if
  no item drops, only the widths matter.
-/

namespace SyntaxDiagram.Layout

variable {K : Type} [ExactScalar K] {o : Options K}

/-- How far the track leads past an item behind the first. -/
def passStride (o : Options K) (m : Metrics K) : K := 3 * o.arcRadius + max (passWidth m) o.arcRadius

/-- Sizes with the drop of the track before each of them. -/
def lowered : (before : K) → List (Metrics K) → List (K × Metrics K)
  | _, [] => []
  | before, m :: rest => (before, m) :: lowered (before + m.height) rest

theorem passSpace_nonneg (m : Metrics K) : 0 ≤ passSpace m := by
  rw [passSpace]
  split
  · exact (by norm_num : (0 : K) ≤ 10)
  · exact ExactScalar.zero_eq.ge

theorem width_le_passWidth (m : Metrics K) : m.width ≤ passWidth m :=
  le_add_of_nonneg_right (passSpace_nonneg m)

theorem passStride_nonneg (ho : o.Nonneg) (m : Metrics K) : 0 ≤ passStride o m := by
  have hmax := le_max_right (passWidth m) o.arcRadius
  rw [passStride]
  linarith [ho.arcRadius]

theorem mem_of_mem_lowered {before : K} {sizes : List (Metrics K)} {p : K × Metrics K}
    (h : p ∈ lowered before sizes) : p.2 ∈ sizes := by
  induction sizes generalizing before with
  | nil => exact absurd h List.not_mem_nil
  | cons m rest ih =>
    rcases List.mem_cons.1 h with rfl | h
    · exact List.mem_cons_self
    · exact List.mem_cons_of_mem _ (ih h)

theorem exists_mem_lowered (before : K) {sizes : List (Metrics K)} {m : Metrics K}
    (h : m ∈ sizes) : ∃ drop, (drop, m) ∈ lowered before sizes := by
  induction sizes generalizing before with
  | nil => exact absurd h List.not_mem_nil
  | cons first rest ih =>
    rcases List.mem_cons.1 h with rfl | h
    · exact ⟨before, List.mem_cons_self⟩
    · obtain ⟨drop, hdrop⟩ := ih (before + first.height) h
      exact ⟨drop, List.mem_cons_of_mem _ hdrop⟩

/-! ## The size of a row -/

theorem foldl_passStride (start : K) (rest : List (Metrics K)) :
    rest.foldl (fun w m => w + max (passWidth m) o.arcRadius + 3 * o.arcRadius) start =
      start + (rest.map (passStride o)).sum := by
  induction rest generalizing start with
  | nil => exact (add_zero _).symm
  | cons m rest ih =>
    rw [List.foldl_cons, ih, List.map_cons, List.sum_cons, passStride]
    ring

theorem skipRowSize_width (first : Metrics K) (rest : List (Metrics K)) :
    (skipRowSize o first rest).width =
      max (passWidth first) o.arcRadius + o.arcRadius + (rest.map (passStride o)).sum := by
  refine (foldl_passStride _ rest).trans ?_
  rw [ExactScalar.zero_eq, zero_add]

theorem skipRowSize_height (first : Metrics K) (rest : List (Metrics K)) :
    (skipRowSize o first rest).height = first.height + (rest.map (·.height)).sum := by
  refine (Scalar.sum_eq _).trans ?_
  rw [List.map_cons, List.sum_cons]

/-- **What the extents of a row leave room for**: what was there before, and behind each item two arcs
and the item itself, from where the track lies behind it above and from the end of the row below. -/
theorem skipRowExtents_room {total : K} (htotal : 0 ≤ total) (sofar up down : K)
    (rest : List (Metrics K)) :
    let extents := skipRowExtents o total sofar up down rest
    up ≤ extents.1 ∧ down ≤ extents.2 ∧ ∀ p ∈ lowered sofar rest,
      2 * o.arcRadius ≤ extents.1 + (p.1 + p.2.height) ∧
      p.2.up + o.verticalSeparation ≤ extents.1 + (p.1 + p.2.height) ∧
      max (p.2.down + o.verticalSeparation) (2 * o.arcRadius) ≤ total + extents.2 := by
  induction rest generalizing sofar up down with
  | nil => exact ⟨le_refl _, le_refl _, List.forall_mem_nil _⟩
  | cons m rest ih =>
    let up' := max (max up (2 * o.arcRadius - (sofar + m.height)))
      (m.up + o.verticalSeparation - (sofar + m.height))
    let down' := max (max (total + down) (2 * o.arcRadius - total))
      (m.down + o.verticalSeparation - total)
    obtain ⟨hup, hdown, hrest⟩ := ih (sofar + m.height) up' down'
    have hup' : up ≤ up' ∧ 2 * o.arcRadius - (sofar + m.height) ≤ up' ∧
        m.up + o.verticalSeparation - (sofar + m.height) ≤ up' :=
      ⟨(le_max_left _ _).trans (le_max_left _ _), (le_max_right _ _).trans (le_max_left _ _),
        le_max_right _ _⟩
    have hdown' : total + down ≤ down' ∧ 2 * o.arcRadius - total ≤ down' ∧
        m.down + o.verticalSeparation - total ≤ down' :=
      ⟨(le_max_left _ _).trans (le_max_left _ _), (le_max_right _ _).trans (le_max_left _ _),
        le_max_right _ _⟩
    intro extents
    change up' ≤ extents.1 at hup
    change down' ≤ extents.2 at hdown
    refine ⟨hup'.1.trans hup, by linarith, List.forall_mem_cons.2 ⟨⟨?_, ?_, max_le ?_ ?_⟩, hrest⟩⟩
    · linarith
    · linarith
    · linarith
    · linarith

/-- What the extents of a row leave room for above each item, and below all but the first. -/
theorem skipRowSize_room {first : Metrics K} {rest : List (Metrics K)}
    (h : 0 ≤ (skipRowSize o first rest).height) :
    let size := skipRowSize o first rest
    (∀ p ∈ lowered 0 (first :: rest), 2 * o.arcRadius ≤ size.up + (p.1 + p.2.height) ∧
      p.2.up + o.verticalSeparation ≤ size.up + (p.1 + p.2.height)) ∧
    first.down ≤ size.down ∧ ∀ m ∈ rest,
      max (m.down + o.verticalSeparation) (2 * o.arcRadius) ≤ size.height + size.down := by
  intro size
  let up := max (max 0 (2 * o.arcRadius - (0 + first.height)))
    (first.up + o.verticalSeparation - (0 + first.height))
  have hroom := skipRowExtents_room (o := o) h (0 + first.height) up first.down rest
  have hsize : skipRowExtents o size.height (0 + first.height) up first.down rest =
      (size.up, size.down) := by
    simp only [up, ← ExactScalar.zero_eq]
    rfl
  rw [hsize] at hroom
  obtain ⟨hup, hdown, hrest⟩ := hroom
  have hfirst : 2 * o.arcRadius - (0 + first.height) ≤ size.up ∧
      first.up + o.verticalSeparation - (0 + first.height) ≤ size.up :=
    ⟨((le_max_right _ _).trans (le_max_left _ _)).trans hup, (le_max_right _ _).trans hup⟩
  refine ⟨List.forall_mem_cons.2 ⟨⟨by linarith, by linarith⟩, fun p hp => ?_⟩, hdown,
    fun m hm => ?_⟩
  · exact ⟨(hrest p hp).1, (hrest p hp).2.1⟩
  · obtain ⟨before, hp⟩ := exists_mem_lowered (0 + first.height) hm
    exact (hrest _ hp).2.2

/-! ## When a row is joined and covered -/

/-- Sizes of items for which a row of them is joined and covered. -/
structure Passable (o : Options K) (first : Metrics K) (rest : List (Metrics K)) : Prop where
  /-- no item is too narrow for the arc of a track that passes it by -/
  wide : ∀ m ∈ first :: rest, o.arcRadius ≤ passWidth m
  /-- there is room for the two arcs of the rail above -/
  rise : 2 * o.arcRadius ≤ (skipRowSize o first rest).up
  /-- the box reaches up to each item, from the track in front of it -/
  above : ∀ p ∈ lowered 0 (first :: rest), p.2.up ≤ (skipRowSize o first rest).up + p.1
  /-- the box reaches down to the track under each item, from the track behind it -/
  under : ∀ p ∈ lowered first.height rest,
    p.1 + p.2.height + max (p.2.down + o.verticalSeparation) (2 * o.arcRadius) ≤
      (skipRowSize o first rest).height + (skipRowSize o first rest).down

theorem lowered_of_level {before : K} {sizes : List (Metrics K)}
    (h : ∀ m ∈ sizes, m.height = 0) : ∀ p ∈ lowered before sizes, p.1 = before := by
  induction sizes with
  | nil => exact List.forall_mem_nil _
  | cons m rest ih =>
    obtain ⟨hm, hrest⟩ := List.forall_mem_cons.1 h
    rw [lowered, hm, add_zero]
    exact List.forall_mem_cons.2 ⟨rfl, ih hrest⟩

/-- **If no item drops, a row is joined and covered if no item is too narrow.** -/
theorem passable_iff_of_flat (ho : o.Nonneg) {first : Metrics K} {rest : List (Metrics K)}
    (h : ∀ m ∈ first :: rest, m.Flat) :
    Passable o first rest ↔ ∀ m ∈ first :: rest, o.arcRadius ≤ passWidth m := by
  have hlevel : ∀ m ∈ first :: rest, m.height = 0 := fun m hm => (h m hm).level
  obtain ⟨hfirst, hrest⟩ := List.forall_mem_cons.1 hlevel
  have hheight : (skipRowSize o first rest).height = 0 := by
    have hdrops : ∀ d ∈ rest.map (·.height), d = 0 := List.forall_mem_map.2 hrest
    rw [skipRowSize_height, hfirst, List.sum_eq_zero hdrops, add_zero]
  obtain ⟨hover, -, hunder⟩ := skipRowSize_room (o := o) hheight.ge
  refine ⟨fun hpass => hpass.wide, fun hwide => ⟨hwide, ?_, fun p hp => ?_, fun p hp => ?_⟩⟩
  · have hroom := (hover _ List.mem_cons_self).1
    rwa [hfirst, add_zero, add_zero] at hroom
  · have hroom := (hover p hp).2
    rw [hlevel _ (mem_of_mem_lowered hp), add_zero] at hroom
    linarith [ho.verticalSeparation]
  · have hmem := mem_of_mem_lowered hp
    rw [lowered_of_level hrest p hp, hrest _ hmem, hfirst, add_zero, zero_add]
    exact hunder _ hmem

end SyntaxDiagram.Layout
