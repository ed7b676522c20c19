import Mathlib.Algebra.Order.BigOperators.Group.List
import Mathlib.Tactic.Linarith
import Mathlib.Tactic.Ring
import SyntaxDiagram.Layout.Rails
import SyntaxDiagram.Proofs.Layout.Branches
import SyntaxDiagram.Proofs.Layout.Rows

/-!
# Items side by side

Items side by side stand on the entry line, each but the first behind a drop as wide as two arcs.
How far the rails are from the line is the largest of what the items ask for; the width and the
lengths of the rails are added up from the items, as their places are.

* `Scalar.sum_eq`: a sum from left to right is the sum.
* `Layout.strides`: the width of items with their drops.
* `Layout.sideSize_width`, `Layout.upperSpan_eq`, `Layout.lowerSpan_eq`: what is added up in other
  ways.
* `Layout.up_le_upperRail` and its companions: what the rails leave room for.
* `Layout.sidePieces_fits`, `Layout.sidePieces_apart`: the items lie in the box of their node, one
  behind the other.
-/

namespace SyntaxDiagram

variable {K β : Type} [ExactScalar K] {o : Options K}

theorem Scalar.sum_eq (values : List K) : Scalar.sum values = values.sum := by
  rw [Scalar.sum, ExactScalar.zero_eq, neg_zero, List.sum_eq_foldl]

namespace Layout

namespace Beside

variable {γ : Type} (f : β → γ) (b : Beside β)

theorem toList_map : (b.map f).toList = b.toList.map f := by
  simp [toList, map]

theorem map_map {δ : Type} (g : γ → δ) : (b.map f).map g = b.map (g ∘ f) := by
  simp [map]

theorem front_map : (b.map f).front = b.front.map f := rfl

theorem back_map : (b.map f).back = b.back.map f := by
  simp [back, map]

theorem mem_toList_of_mem_front {i : β} (h : i ∈ b.front) : i ∈ b.toList := by
  rcases List.mem_cons.1 h with rfl | h
  · exact List.mem_cons_self
  · exact List.mem_cons_of_mem _ (List.mem_append_left _ h)

theorem mem_toList_of_mem_back {i : β} (h : i ∈ b.back) : i ∈ b.toList := List.mem_cons_of_mem _ h

theorem map_congr {f g : β → γ} {b : Beside β} (h : ∀ i ∈ b.toList, f i = g i) :
    b.map f = b.map g := by
  rw [toList, List.forall_mem_cons, List.forall_mem_append, List.forall_mem_singleton] at h
  obtain ⟨hfirst, hmiddles, hlast⟩ := h
  rw [map, map, hfirst, hlast, List.map_congr_left hmiddles]

end Beside

/-! ## Widths -/

/-- The width of an item with the drop in front of it. -/
def stride (o : Options K) (m : Metrics K) : K := 2 * o.arcRadius + m.spacedWidth

/-- The width of items with the drops in front of them. -/
def strides (o : Options K) (items : List (Metrics K)) : K := (items.map (stride o)).sum

theorem strides_cons (m : Metrics K) (rest : List (Metrics K)) :
    strides o (m :: rest) = stride o m + strides o rest := List.sum_cons

theorem strides_concat (items : List (Metrics K)) (last : Metrics K) :
    strides o (items ++ [last]) = strides o items + stride o last := by
  rw [strides, List.map_append, List.sum_append]
  exact congrArg (_ + ·) (add_zero _)

theorem strides_eq (items : List (Metrics K)) :
    strides o items = spread items + 2 * o.arcRadius * items.length := by
  induction items with
  | nil => simp [strides, spread]
  | cons m rest ih =>
    rw [strides_cons, ih, stride, spread, spread, List.map_cons, List.sum_cons, List.length_cons,
      Nat.cast_add_one]
    ring

theorem strides_nonneg (harc : 0 ≤ o.arcRadius) {items : List (Metrics K)}
    (h : ∀ m ∈ items, 0 ≤ m.width) : 0 ≤ strides o items := by
  refine List.sum_nonneg (List.forall_mem_map.2 fun m hm => ?_)
  have hspaced := (h m hm).trans m.width_le_spacedWidth
  rw [stride]
  linarith

/-- Some items have room for the drop in front of one of them. -/
theorem arcs_le_strides (harc : 0 ≤ o.arcRadius) {items : List (Metrics K)}
    (h : ∀ m ∈ items, 0 ≤ m.width) (hitems : items ≠ []) : 2 * o.arcRadius ≤ strides o items := by
  cases items with
  | nil => exact absurd rfl hitems
  | cons m rest =>
    obtain ⟨hm, hrest⟩ := List.forall_mem_cons.1 h
    have hspaced := hm.trans m.width_le_spacedWidth
    have hbehind := strides_nonneg harc hrest
    rw [strides_cons, stride]
    linarith

section

variable (b : Beside (Metrics K))

/-- The room of the arc behind the last item is at most that of an arc. -/
theorem lastArc_bounds (harc : 0 ≤ o.arcRadius) (last : Metrics K) :
    0 ≤ lastArc o last ∧ lastArc o last ≤ o.arcRadius := by
  rw [lastArc, ExactScalar.zero_eq]
  split
  · exact ⟨harc, le_refl _⟩
  · exact ⟨le_refl _, harc⟩

/-- **The width of items side by side** is that of the first item and of the others with their
drops, between an arc on the left and one or two on the right. -/
theorem sideSize_width :
    (sideSize o b).width = o.arcRadius + b.first.spacedWidth + strides o b.back +
      lastArc o b.last + o.arcRadius := by
  have hsum : Scalar.sum (b.toList.map (·.spacedWidth)) = b.first.spacedWidth + spread b.back := by
    rw [Scalar.sum_eq]
    exact List.sum_cons
  have hlength : b.back.length = b.middles.length + 1 := by simp [Beside.back]
  change o.arcRadius + 2 * o.arcRadius * ((b.middles.length + 1 : Nat) : K) +
    Scalar.sum (b.toList.map (·.spacedWidth)) + lastArc o b.last + o.arcRadius = _
  rw [hsum, strides_eq, hlength]
  ring

/-- The rail above leads as far as the last drop. -/
theorem upperSpan_eq :
    Scalar.sum (b.front.map (·.spacedWidth)) + (b.middles.length : K) * 2 * o.arcRadius -
      o.arcRadius = b.first.spacedWidth + strides o b.middles - o.arcRadius := by
  have hsum : Scalar.sum (b.front.map (·.spacedWidth)) =
      b.first.spacedWidth + spread b.middles := by
    rw [Scalar.sum_eq]
    exact List.sum_cons
  rw [hsum, strides_eq]
  ring

/-- The rail below leads as far as the last item, without the arcs. -/
theorem lowerSpan_eq :
    Scalar.sum (b.back.map (·.spacedWidth)) + (b.middles.length : K) * 2 * o.arcRadius +
      lastArc o b.last - o.arcRadius =
        strides o b.middles + b.last.spacedWidth + lastArc o b.last - o.arcRadius := by
  have hsum : Scalar.sum (b.back.map (·.spacedWidth)) = spread b.middles + b.last.spacedWidth := by
    rw [Scalar.sum_eq, Beside.back, List.map_append, List.sum_append]
    exact congrArg (_ + ·) (add_zero _)
  rw [hsum, strides_eq]
  ring

/-! ## Depths -/

/-- The rail above keeps the separation from all items but the last. -/
theorem up_le_upperRail : ∀ m ∈ b.front, m.up + o.verticalSeparation ≤ upperRail o b := by
  intro m hm
  refine le_trans (add_le_add_left ?_ _) (le_max_right _ _)
  exact Scalar.le_largest m.up (List.mem_map_of_mem (f := Metrics.up) hm)

/-- What all items but the first ask of the rail below. -/
def backDepth (o : Options K) (b : Beside (Metrics K)) : K :=
  max (match b.middles.map (middleDepth o) with
    | [] => o.verticalSeparation
    | first :: rest => max o.verticalSeparation (Scalar.largest first rest))
    (b.last.height + b.last.down + o.verticalSeparation)

theorem lowerRail_eq : lowerRail o b = if b.first.height < backDepth o b then
    max (backDepth o b) (b.first.height + 2 * o.arcRadius) else backDepth o b := rfl

theorem backDepth_le_lowerRail : backDepth o b ≤ lowerRail o b := by
  rw [lowerRail_eq]
  split
  · exact le_max_left _ _
  · exact le_refl _

/-- The rail below has room for both arcs behind every middle item. -/
theorem middleDepth_le_lowerRail : ∀ m ∈ b.middles, middleDepth o m ≤ lowerRail o b := by
  intro m hm
  refine le_trans ?_ (backDepth_le_lowerRail b)
  refine le_trans ?_ (le_max_left _ _)
  have hmem := List.mem_map_of_mem (f := middleDepth o) hm
  split
  · rename_i hnil
    exact absurd (hnil ▸ hmem) List.not_mem_nil
  · rename_i first rest hcons
    exact (Scalar.le_largest _ (hcons ▸ hmem)).trans (le_max_right _ _)

/-- The rail below keeps the separation from the last item. -/
theorem last_le_lowerRail :
    b.last.height + b.last.down + o.verticalSeparation ≤ lowerRail o b :=
  (le_max_right _ _).trans (backDepth_le_lowerRail b)

/-- The rail below keeps the separation from all items but the first. -/
theorem down_le_lowerRail :
    ∀ m ∈ b.back, m.height + m.down + o.verticalSeparation ≤ lowerRail o b := by
  intro m hm
  rcases List.mem_append.1 hm with hm | hm
  · have hdepth := middleDepth_le_lowerRail (o := o) b m hm
    have hroom := le_max_left (m.down + o.verticalSeparation) (2 * o.arcRadius)
    rw [middleDepth] at hdepth
    linarith
  · rw [List.mem_singleton.1 hm]
    exact last_le_lowerRail b

/-- Over a rail that is below its exit line the first item has room for both arcs. -/
theorem first_le_lowerRail (hlow : b.first.height < lowerRail o b) :
    b.first.height + 2 * o.arcRadius ≤ lowerRail o b := by
  rw [lowerRail_eq] at hlow ⊢
  split
  · exact le_max_right _ _
  · rename_i hhigh
    rw [if_neg hhigh] at hlow
    exact absurd hlow hhigh

/-- The box of items side by side has room for each of them. -/
theorem extents_sideSize (ho : o.Nonneg) :
    ∀ m ∈ b.toList, m.up ≤ (sideSize o b).up ∧ m.height + m.down ≤ (sideSize o b).down := by
  have hseparation := ho.verticalSeparation
  intro m hm
  constructor
  · -- the rail above is over all but the last, whose extent counts apart
    rw [Beside.toList, ← List.cons_append] at hm
    rcases List.mem_append.1 hm with hm | hm
    · have hup := up_le_upperRail (o := o) b m hm
      exact le_trans (by linarith) (le_max_left (upperRail o b) b.last.up)
    · rw [List.mem_singleton.1 hm]
      exact le_max_right _ _
  · -- the rail below is under all but the first, whose extent counts apart
    rcases List.mem_cons.1 hm with rfl | hm
    · exact le_max_right _ _
    · have hdown := down_le_lowerRail (o := o) b m hm
      exact le_trans (by linarith) (le_max_left (lowerRail o b) (b.first.height + b.first.down))

end

/-! ## Places -/

/-- Items behind the first at their places. -/
def sideSites (o : Options K) : List (Sized K β) → (x y : K) → List (Site K β)
  | [], _, _ => []
  | s :: rest, x, y =>
    s.at (x + 2 * o.arcRadius) y s.metrics.spacedWidth ::
      sideSites o rest (x + 2 * o.arcRadius + s.metrics.spacedWidth) y

theorem contents_sideItems_back (upper lower : K) (items : List (Sized K β)) (x y : K) :
    contents (sideItems o upper lower false items x y) = sideSites o items x y := by
  induction items generalizing x with
  | nil => rfl
  | cons s rest ih => exact congrArg (_ :: ·) (ih _)

/-- The items stand in slots one behind the other. -/
theorem contents_sidePieces_eq (b : Beside (Sized K β)) (x y slot : K) :
    let left := x + (gaps o (sideSize o (b.map (·.metrics))) slot).left
    contents (sidePieces o b x y slot) =
      b.first.at (left + o.arcRadius) y b.first.metrics.spacedWidth ::
        sideSites o b.back (left + o.arcRadius + b.first.metrics.spacedWidth) y :=
  congrArg (_ :: ·) (contents_sideItems_back _ _ _ _ _)

/-- Items behind the first stand between the end of the first and the end of the last. -/
theorem sideSites_between (harc : 0 ≤ o.arcRadius) {items : List (Sized K β)}
    (h : ∀ i ∈ items, 0 ≤ i.metrics.width) (x y : K) :
    ∀ s ∈ sideSites o items x y, s.y = y ∧ s.slot = s.metrics.spacedWidth ∧ x ≤ s.x ∧
      s.x + s.slot ≤ x + strides o (items.map (·.metrics)) := by
  induction items generalizing x with
  | nil => exact List.forall_mem_nil _
  | cons i rest ih =>
    obtain ⟨hi, hrest⟩ := List.forall_mem_cons.1 h
    have hspaced := hi.trans i.metrics.width_le_spacedWidth
    have hbehind := strides_nonneg harc (List.forall_mem_map.2 hrest)
    rw [List.map_cons, strides_cons, stride]
    refine List.forall_mem_cons.2 ⟨⟨rfl, rfl, ?_, ?_⟩, fun s hs => ?_⟩
    · change x ≤ x + 2 * o.arcRadius
      linarith
    · change x + 2 * o.arcRadius + i.metrics.spacedWidth ≤ _
      linarith
    · obtain ⟨hy, hslot, hstart, hend⟩ := ih hrest _ s hs
      refine ⟨hy, hslot, ?_, ?_⟩ <;> linarith

/-- Items behind the first stand in slots that do not overlap. -/
theorem sideSites_apart (harc : 0 ≤ o.arcRadius) {items : List (Sized K β)}
    (h : ∀ i ∈ items, 0 ≤ i.metrics.width) (x y : K) :
    (sideSites o items x y).Pairwise fun s t => s.x + s.slot ≤ t.x := by
  induction items generalizing x with
  | nil => exact .nil
  | cons i rest ih =>
    obtain ⟨-, hrest⟩ := List.forall_mem_cons.1 h
    refine List.pairwise_cons.2 ⟨fun s hs => ?_, ih hrest _⟩
    exact (sideSites_between harc hrest _ y s hs).2.2.1

section

variable {b : Beside (Sized K β)} (ho : o.Nonneg) (h : ∀ i ∈ b.toList, i.metrics.Nonneg)
  (x y slot : K)
include ho h

omit ho in
theorem back_width_nonneg : ∀ i ∈ b.back, 0 ≤ i.metrics.width :=
  fun i hi => (h i (b.mem_toList_of_mem_back hi)).width

/-- All items stand on the entry line. -/
theorem sidePieces_level : ∀ s ∈ contents (sidePieces o b x y slot), s.y = y := by
  rw [contents_sidePieces_eq]
  exact List.forall_mem_cons.2 ⟨rfl, fun s hs =>
    (sideSites_between ho.arcRadius (back_width_nonneg h) _ _ s hs).1⟩

/-- **Items side by side lie in the box of their node.** -/
theorem sidePieces_fits :
    let m := sideSize o (b.map (·.metrics))
    ∀ s ∈ contents (sidePieces o b x y slot), s.Fits (m.box (x + (gaps o m slot).left) y) := by
  intro m s hs
  have harc := ho.arcRadius
  have hback := back_width_nonneg h
  have hfirst := (h b.first List.mem_cons_self).width.trans b.first.metrics.width_le_spacedWidth
  have hstrides := strides_nonneg harc (List.forall_mem_map.2 hback)
  have hlast := (lastArc_bounds harc (b.map (·.metrics)).last).1
  have hwidth : m.width = o.arcRadius + b.first.metrics.spacedWidth +
      strides o (b.back.map (·.metrics)) + lastArc o (b.map (·.metrics)).last + o.arcRadius := by
    rw [← Beside.back_map]
    exact sideSize_width _
  have hextents := extents_sideSize (b.map (·.metrics)) ho s.metrics (by
    rw [Beside.toList_map, ← contents_sidePieces o x y slot b, List.map_map]
    exact List.mem_map_of_mem hs)
  have hlevel := sidePieces_level ho h x y slot s hs
  have hzero : m.height = 0 := ExactScalar.zero_eq
  have hspaced := s.metrics.width_le_spacedWidth
  rw [contents_sidePieces_eq] at hs
  have hbounds : s.slot = s.metrics.spacedWidth ∧ x + (gaps o m slot).left ≤ s.x ∧
      s.x + s.slot ≤ x + (gaps o m slot).left + m.width := by
    rcases List.mem_cons.1 hs with rfl | hs
    · refine ⟨rfl, ?_, ?_⟩
      · change x + (gaps o m slot).left ≤ x + (gaps o m slot).left + o.arcRadius
        linarith
      · change x + (gaps o m slot).left + o.arcRadius + b.first.metrics.spacedWidth ≤ _
        linarith
    · obtain ⟨-, hslot, hstart, hend⟩ := sideSites_between harc hback _ _ s hs
      refine ⟨hslot, ?_, ?_⟩ <;> linarith
  refine .of (hbounds.1 ▸ hspaced) hbounds.2.1 hbounds.2.2 ?_ ?_
  · linarith [hextents.1]
  · linarith [hextents.2]

/-- **Items side by side stand in slots that do not overlap.** -/
theorem sidePieces_apart :
    (contents (sidePieces o b x y slot)).Pairwise fun s t => s.x + s.slot ≤ t.x := by
  have hback := back_width_nonneg h
  rw [contents_sidePieces_eq]
  refine List.pairwise_cons.2 ⟨fun s hs => ?_, sideSites_apart ho.arcRadius hback _ _⟩
  exact (sideSites_between ho.arcRadius hback _ _ s hs).2.2.1

end

end Layout
end SyntaxDiagram
