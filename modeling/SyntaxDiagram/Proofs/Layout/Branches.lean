import Mathlib.Tactic.Ring
import SyntaxDiagram.Layout.Branches
import SyntaxDiagram.Proofs.Layout.Boxes
import SyntaxDiagram.Proofs.Layout.Contents

/-!
# Branches at their places

Branches stand over and under a straight one, at distances that grow from it outwards. Their sizes
may drop: the last branch leaves on a line of its own, which the size of a choice does not count.

* `Layout.reachAbove`, `Layout.reachBelow`: how far the branches from one of them outwards reach.
* `Layout.branchSites`: all branches at their places, and `Layout.branchSites_between`: the two lines
  between which they stand, which `Branches.top` and `Branches.bottom` say.
* `Branches.Stands`: how branches stand in the box of a choice. `Branches.Stands.covered_iff`: the box
  covers them if and only if the last one does not drop.
* `Layout.stands_of_extents`: which extents make them stand so.
-/

namespace SyntaxDiagram

variable {K β : Type} [ExactScalar K]

/-- Every value is at most the largest one. -/
theorem Scalar.le_largest {first : K} {rest : List K} :
    ∀ v ∈ first :: rest, v ≤ Scalar.largest first rest :=
  (List.max?_le_iff rfl).1 (le_refl (rest.foldl max first))

namespace Layout

/-- Every branch has room in the width of the widest one. -/
theorem Branches.width_le_widest (b : Branches (Metrics K)) :
    ∀ m ∈ b.toList, m.width ≤ b.widest := by
  intro m hm
  rw [toList] at hm
  rw [widest]
  split
  · rename_i hnil
    rw [hnil] at hm
    exact absurd hm List.not_mem_nil
  · rename_i first rest hcons
    rw [hcons] at hm
    exact Scalar.le_largest m.width (List.mem_map_of_mem hm)

theorem Branches.toList_map {γ : Type} (f : β → γ) (b : Branches β) :
    (b.map f).toList = b.toList.map f := by
  rw [toList, toList, List.map_append, List.map_cons]
  rfl

/-- The branches of a choice, sorted as they are drawn. -/
theorem Branches.mem_toList {b : Branches β} {i : β} :
    i ∈ b.toList ↔ i ∈ b.above.reverse ++ b.straight :: b.below := by
  rw [toList, List.mem_append, List.mem_append, List.mem_reverse]

/-- The last branch from top to bottom. -/
def Branches.last (b : Branches β) : β := b.below.getLast?.getD b.straight

theorem Branches.last_mem (b : Branches β) : b.last ∈ b.toList := by
  rw [toList, last]
  cases hlast : b.below.getLast? with
  | none => exact List.mem_append_right _ List.mem_cons_self
  | some i =>
    exact List.mem_append_right _ (List.mem_cons_of_mem _ (List.mem_of_getLast? hlast))

theorem Branches.last_map {γ : Type} (f : β → γ) (b : Branches β) : (b.map f).last = f b.last := by
  rw [last, last, map, List.getLast?_map]
  cases b.below.getLast? <;> rfl

variable (o : Options K)

/-! ## From the straight branch outwards -/

/-- How far the branches from `m` on reach over the entry line of `m`, the nearest branch first. -/
def reachAbove : Metrics K → List (Metrics K) → K
  | m, [] => m.up
  | m, next :: rest =>
    max o.arcRadius (m.up + o.verticalSeparation + (next.down + next.height)) + reachAbove next rest

/-- How far the branches from `m` on reach under the entry line of `m`, the nearest branch first. -/
def reachBelow : Metrics K → List (Metrics K) → K
  | m, [] => m.height + m.down
  | m, next :: rest =>
    max o.arcRadius (m.height + m.down + o.verticalSeparation + next.up) + reachBelow next rest

variable {o}

theorem up_le_reachAbove (ho : o.Nonneg) {m : Metrics K} {rest : List (Metrics K)}
    (h : ∀ i ∈ rest, i.Nonneg) : m.up ≤ reachAbove o m rest := by
  cases rest with
  | nil => exact le_refl _
  | cons next rest =>
    have hnext := h next List.mem_cons_self
    have hreach : next.up ≤ reachAbove o next rest :=
      up_le_reachAbove ho fun i hi => h i (List.mem_cons_of_mem _ hi)
    have hmax := le_max_right o.arcRadius
      (m.up + o.verticalSeparation + (next.down + next.height))
    rw [reachAbove]
    linarith [ho.verticalSeparation, hnext.up, hnext.down, hnext.height]

theorem down_le_reachBelow (ho : o.Nonneg) {m : Metrics K} {rest : List (Metrics K)}
    (h : ∀ i ∈ rest, i.Nonneg) : m.height + m.down ≤ reachBelow o m rest := by
  cases rest with
  | nil => exact le_refl _
  | cons next rest =>
    have hnext := h next List.mem_cons_self
    have hreach : next.height + next.down ≤ reachBelow o next rest :=
      down_le_reachBelow ho fun i hi => h i (List.mem_cons_of_mem _ hi)
    have hmax := le_max_right o.arcRadius (m.height + m.down + o.verticalSeparation + next.up)
    rw [reachBelow]
    linarith [ho.verticalSeparation, hnext.up, hnext.down, hnext.height]

/-! ## Places -/

/-- The branches above stand over the entry line, each in a slot as wide as the others. -/
theorem choiceAbove_between {f : ChoiceFrame K} (ho : f.options.Nonneg) {first : Sized K β}
    {rest : List (Sized K β)} (h : ∀ i ∈ first :: rest, i.metrics.Nonneg) (distance : K) :
    ∀ s ∈ contents (choiceAbove f (first :: rest) distance),
      s.x = f.x + 2 * f.options.arcRadius ∧ s.slot = f.inner ∧
        f.y - distance - reachAbove f.options first.metrics (rest.map (·.metrics)) ≤
          s.y - s.metrics.up ∧
        s.y + s.metrics.height + s.metrics.down ≤
          f.y - distance + first.metrics.height + first.metrics.down := by
  intro s hs
  have hsizes : ∀ m ∈ rest.map (·.metrics), m.Nonneg :=
    List.forall_mem_map.2 fun i hi => h i (List.mem_cons_of_mem _ hi)
  have hreach := up_le_reachAbove ho (m := first.metrics) hsizes
  induction rest generalizing first distance with
  | nil =>
    rcases List.mem_cons.1 hs with rfl | hs
    · exact ⟨rfl, rfl, sub_le_sub_left hreach _, le_refl _⟩
    · exact absurd hs List.not_mem_nil
  | cons next rest ih =>
    rcases List.mem_cons.1 hs with rfl | hs
    · exact ⟨rfl, rfl, sub_le_sub_left hreach _, le_refl _⟩
    · have hfirst := h first List.mem_cons_self
      have hrest : ∀ i ∈ next :: rest, i.metrics.Nonneg :=
        fun i hi => h i (List.mem_cons_of_mem _ hi)
      have hnext : ∀ m ∈ rest.map (·.metrics), m.Nonneg :=
        fun m hm => hsizes m (List.mem_cons_of_mem _ hm)
      have hroom := le_max_right f.options.arcRadius (first.metrics.up +
        f.options.verticalSeparation + (next.metrics.down + next.metrics.height))
      -- the next branch is moved up by at least what is between the two entry lines
      obtain ⟨hx, hslot, htop, hbottom⟩ := ih hrest _ hs hnext (up_le_reachAbove ho hnext)
      refine ⟨hx, hslot, ?_, ?_⟩
      · rw [List.map_cons, reachAbove]
        linarith
      · linarith [ho.verticalSeparation, hfirst.up, hfirst.height, hfirst.down]

/-- The branches below stand under the entry line, each in a slot as wide as the others. -/
theorem choiceBelow_between {f : ChoiceFrame K} (ho : f.options.Nonneg) {first : Sized K β}
    {rest : List (Sized K β)} (h : ∀ i ∈ first :: rest, i.metrics.Nonneg) (distance : K) :
    ∀ s ∈ contents (choiceBelow f (first :: rest) distance),
      s.x = f.x + 2 * f.options.arcRadius ∧ s.slot = f.inner ∧
        f.y + distance - first.metrics.up ≤ s.y - s.metrics.up ∧
        s.y + s.metrics.height + s.metrics.down ≤
          f.y + distance + reachBelow f.options first.metrics (rest.map (·.metrics)) := by
  intro s hs
  have hsizes : ∀ m ∈ rest.map (·.metrics), m.Nonneg :=
    List.forall_mem_map.2 fun i hi => h i (List.mem_cons_of_mem _ hi)
  have hreach := down_le_reachBelow ho (m := first.metrics) hsizes
  rw [← add_le_add_iff_left (f.y + distance), ← add_assoc] at hreach
  induction rest generalizing first distance with
  | nil =>
    rcases List.mem_cons.1 hs with rfl | hs
    · exact ⟨rfl, rfl, le_refl _, hreach⟩
    · exact absurd hs List.not_mem_nil
  | cons next rest ih =>
    rcases List.mem_cons.1 hs with rfl | hs
    · exact ⟨rfl, rfl, le_refl _, hreach⟩
    · have hfirst := h first List.mem_cons_self
      have hrest : ∀ i ∈ next :: rest, i.metrics.Nonneg :=
        fun i hi => h i (List.mem_cons_of_mem _ hi)
      have hnext : ∀ m ∈ rest.map (·.metrics), m.Nonneg :=
        fun m hm => hsizes m (List.mem_cons_of_mem _ hm)
      have hroom := le_max_right f.options.arcRadius (first.metrics.height + first.metrics.down +
        f.options.verticalSeparation + next.metrics.up)
      obtain ⟨hx, hslot, htop, hbottom⟩ := ih hrest _ hs hnext (by
        rw [add_assoc, add_le_add_iff_left]
        exact down_le_reachBelow ho hnext)
      refine ⟨hx, hslot, ?_, ?_⟩
      · linarith [ho.verticalSeparation, hfirst.up, hfirst.height, hfirst.down]
      · rw [List.map_cons, reachBelow]
        linarith

/-- All branches at their places, if the nearest ones are so far from the entry line. -/
def branchSites (f : ChoiceFrame K) (rise drop : K) (b : Branches (Sized K β)) :
    List (Site K β) :=
  contents (choiceAbove f b.above.reverse rise) ++
    b.straight.at (f.x + 2 * f.options.arcRadius) f.y f.inner ::
      contents (choiceBelow f b.below drop)

/-- How far branches reach over the entry line. -/
def Branches.top (o : Options K) (rise : K) (b : Branches (Sized K β)) : K :=
  match b.above.reverse with
  | [] => b.straight.metrics.up
  | nearest :: rest => rise + reachAbove o nearest.metrics (rest.map (·.metrics))

/-- How far branches reach under the entry line. -/
def Branches.bottom (o : Options K) (drop : K) (b : Branches (Sized K β)) : K :=
  match b.below with
  | [] => b.straight.metrics.height + b.straight.metrics.down
  | nearest :: rest => drop + reachBelow o nearest.metrics (rest.map (·.metrics))

/-- The nearest branches leave room for the straight one. -/
structure Branches.Apart (rise drop : K) (b : Branches (Sized K β)) : Prop where
  above : ∀ i ∈ b.above.reverse.head?,
    b.straight.metrics.up + i.metrics.down + i.metrics.height ≤ rise
  below : ∀ i ∈ b.below.head?,
    b.straight.metrics.height + b.straight.metrics.down + i.metrics.up ≤ drop

/-- Branches are apart if the nearest ones are at least as far as vertical separation asks. -/
theorem Branches.Apart.of_max (ho : o.Nonneg) {b : Branches (Sized K β)} {rise drop : K} (near : K)
    (hrise : ∀ i ∈ b.above.reverse.head?, rise = max near
      (b.straight.metrics.up + o.verticalSeparation + i.metrics.down + i.metrics.height))
    (hdrop : ∀ i ∈ b.below.head?, drop = max near (b.straight.metrics.height +
      b.straight.metrics.down + o.verticalSeparation + i.metrics.up)) :
    b.Apart rise drop := by
  constructor
  · intro i hi
    have hroom := le_max_right near
      (b.straight.metrics.up + o.verticalSeparation + i.metrics.down + i.metrics.height)
    rw [hrise i hi]
    linarith [ho.verticalSeparation]
  · intro i hi
    have hroom := le_max_right near (b.straight.metrics.height + b.straight.metrics.down +
      o.verticalSeparation + i.metrics.up)
    rw [hdrop i hi]
    linarith [ho.verticalSeparation]

section

variable {b : Branches (Sized K β)} {rise drop : K} (ho : o.Nonneg)
  (h : ∀ i ∈ b.toList, i.metrics.Nonneg) (hapart : b.Apart rise drop)
include ho h hapart

theorem straight_up_le_top : b.straight.metrics.up ≤ b.top o rise := by
  rw [Branches.top]
  cases hnearest : b.above.reverse with
  | nil => exact le_refl _
  | cons nearest rest =>
    have hitems : ∀ i ∈ nearest :: rest, i.metrics.Nonneg := fun i hi =>
      h i (Branches.mem_toList.2 (List.mem_append_left _ (hnearest ▸ hi)))
    have hreach := up_le_reachAbove ho (m := nearest.metrics) (List.forall_mem_map.2 fun i hi =>
      hitems i (List.mem_cons_of_mem _ hi))
    have hroom := hapart.above nearest (by rw [hnearest]; rfl)
    have hfirst := hitems nearest List.mem_cons_self
    change _ ≤ rise + reachAbove o nearest.metrics (rest.map (·.metrics))
    linarith [hfirst.up, hfirst.down, hfirst.height]

theorem straight_down_le_bottom :
    b.straight.metrics.height + b.straight.metrics.down ≤ b.bottom o drop := by
  rw [Branches.bottom]
  cases hbelow : b.below with
  | nil => exact le_refl _
  | cons nearest rest =>
    have hitems : ∀ i ∈ nearest :: rest, i.metrics.Nonneg := fun i hi =>
      h i (Branches.mem_toList.2 (List.mem_append_right _ (List.mem_cons_of_mem _ (hbelow ▸ hi))))
    have hreach := down_le_reachBelow ho (m := nearest.metrics) (List.forall_mem_map.2 fun i hi =>
      hitems i (List.mem_cons_of_mem _ hi))
    have hroom := hapart.below nearest (by rw [hbelow]; rfl)
    have hfirst := hitems nearest List.mem_cons_self
    change _ ≤ drop + reachBelow o nearest.metrics (rest.map (·.metrics))
    linarith [hfirst.up, hfirst.down, hfirst.height]

/-- **All branches lie between the two lines that they reach**, in slots one under the other. -/
theorem branchSites_between {f : ChoiceFrame K} (hf : f.options = o) :
    ∀ s ∈ branchSites f rise drop b,
      s.x = f.x + 2 * o.arcRadius ∧ s.slot = f.inner ∧
        f.y - b.top o rise ≤ s.y - s.metrics.up ∧
        s.y + s.metrics.height + s.metrics.down ≤ f.y + b.bottom o drop := by
  subst hf
  intro s hs
  have hstraight : b.straight.metrics.Nonneg := h _ (Branches.mem_toList.2 (by simp))
  have htop := straight_up_le_top ho h hapart
  have hbottom := straight_down_le_bottom ho h hapart
  rw [branchSites, List.mem_append, List.mem_cons] at hs
  rcases hs with hs | rfl | hs
  · cases hnearest : b.above.reverse with
    | nil =>
      rw [hnearest] at hs
      exact absurd hs List.not_mem_nil
    | cons nearest rest =>
      rw [hnearest] at hs
      have hitems : ∀ i ∈ nearest :: rest, i.metrics.Nonneg := fun i hi =>
        h i (Branches.mem_toList.2 (List.mem_append_left _ (hnearest ▸ hi)))
      obtain ⟨hx, hslot, hover, hunder⟩ := choiceAbove_between ho hitems rise s hs
      have hroom := hapart.above nearest (by rw [hnearest]; rfl)
      refine ⟨hx, hslot, ?_, ?_⟩
      · rw [Branches.top, hnearest, ← sub_sub]
        exact hover
      · linarith [hstraight.up, hstraight.height, hstraight.down]
  · refine ⟨rfl, rfl, sub_le_sub_left htop _, ?_⟩
    change f.y + b.straight.metrics.height + b.straight.metrics.down ≤ _
    rw [add_assoc]
    exact add_le_add_right hbottom _
  · cases hbelow : b.below with
    | nil =>
      rw [hbelow] at hs
      exact absurd hs List.not_mem_nil
    | cons nearest rest =>
      rw [hbelow] at hs
      have hitems : ∀ i ∈ nearest :: rest, i.metrics.Nonneg := fun i hi =>
        h i (Branches.mem_toList.2 (List.mem_append_right _ (List.mem_cons_of_mem _ (hbelow ▸ hi))))
      obtain ⟨hx, hslot, hover, hunder⟩ := choiceBelow_between ho hitems drop s hs
      have hroom := hapart.below nearest (by rw [hbelow]; rfl)
      refine ⟨hx, hslot, ?_, ?_⟩
      · linarith [hstraight.up, hstraight.height, hstraight.down]
      · rw [Branches.bottom, hbelow, ← add_assoc]
        exact hunder

end

/-- The last of some branches below reaches as far down as they all do. -/
theorem exists_last_choiceBelow (f : ChoiceFrame K) (first : Sized K β) (rest : List (Sized K β))
    (distance : K) :
    ∃ s ∈ contents (choiceBelow f (first :: rest) distance),
      s.toSized = rest.getLast?.getD first ∧
        s.y + s.metrics.height + s.metrics.down =
          f.y + distance + reachBelow f.options first.metrics (rest.map (·.metrics)) := by
  induction rest generalizing first distance with
  | nil => exact ⟨_, List.mem_cons_self, rfl, add_assoc _ _ _⟩
  | cons next rest ih =>
    obtain ⟨s, hs, hitem, hbottom⟩ := ih next (distance + max f.options.arcRadius
      (first.metrics.height + first.metrics.down + f.options.verticalSeparation +
        next.metrics.up))
    refine ⟨s, List.mem_cons_of_mem _ hs, ?_, ?_⟩
    · rw [hitem, List.getLast?_cons]
      rfl
    · rw [hbottom, List.map_cons, reachBelow]
      ring

/-- **The last branch reaches the line under all branches.** -/
theorem last_reaches (f : ChoiceFrame K) (rise drop : K) (b : Branches (Sized K β)) :
    ∃ s ∈ branchSites f rise drop b, s.toSized = b.last ∧
      s.y + s.metrics.height + s.metrics.down = f.y + b.bottom f.options drop := by
  rw [branchSites, Branches.last, Branches.bottom]
  cases b.below with
  | nil => exact ⟨_, List.mem_append_right _ List.mem_cons_self, rfl, add_assoc _ _ _⟩
  | cons first rest =>
    obtain ⟨s, hs, hitem, hbottom⟩ := exists_last_choiceBelow f first rest drop
    refine ⟨s, List.mem_append_right _ (List.mem_cons_of_mem _ hs), ?_, ?_⟩
    · rw [hitem, List.getLast?_cons]
      rfl
    · rw [hbottom, add_assoc]

/-! ## In the box of a choice -/

/-- How the branches of a choice of size `m` stand in its box: the box reaches up as far as they do,
and none of them sticks out below by more than the drop of the last one, which does so. -/
structure Branches.Stands (b : Branches (Sized K β)) (m : Metrics K) (left y : K)
    (sites : List (Site K β)) : Prop where
  up : 0 ≤ m.up
  down : 0 ≤ m.down + b.last.metrics.height
  within : ∀ s ∈ sites, s.Fits ((m.box left y).grow 0 b.last.metrics.height)
  reached : ∃ s ∈ sites, s.box.bottom = (m.box left y).bottom + b.last.metrics.height

namespace Branches.Stands

variable {b : Branches (Sized K β)} {m : Metrics K} {left y : K} {sites : List (Site K β)}
  (h : b.Stands m left y sites)
include h

theorem box_within {s : Site K β} (hs : s ∈ sites) :
    s.box.Within ((m.box left y).grow 0 b.last.metrics.height) := by
  have hfits := h.within s hs
  exact (s.box_within_area (le_refl _) (add_le_add_right hfits.wide _)).trans hfits.area

/-- The box of a choice covers its branches if and only if the last one does not drop. -/
theorem covered_iff (hlast : 0 ≤ b.last.metrics.height) :
    (∀ s ∈ sites, s.box.Within (m.box left y)) ↔ b.last.metrics.height = 0 := by
  constructor
  · intro hwithin
    obtain ⟨s, hs, hbottom⟩ := h.reached
    have hcovered := (hwithin s hs).bottom
    rw [hbottom] at hcovered
    exact le_antisymm (by linarith) hlast
  · intro hzero s hs
    have hbox := h.box_within hs
    rwa [hzero, Box.grow_zero] at hbox

end Branches.Stands

variable {b : Branches (Sized K β)}

/-- Branches stand in a box that is as wide and high as they need. -/
theorem stands_of_extents (ho : o.Nonneg) (h : ∀ i ∈ b.toList, i.metrics.Nonneg) {rise drop : K}
    (hapart : b.Apart rise drop) {m : Metrics K} {left : K} {f : ChoiceFrame K}
    (hf : f.options = o) (hinner : f.inner = (b.map (·.metrics)).widest)
    (hleft : left ≤ f.x + 2 * o.arcRadius)
    (hright : f.x + 2 * o.arcRadius + f.inner ≤ left + m.width)
    (hheight : m.height = b.straight.metrics.height) (hup : m.up = b.top o rise)
    (hbottom : m.height + m.down + b.last.metrics.height = b.bottom o drop) :
    b.Stands m left f.y (branchSites f rise drop b) := by
  have hstraight : b.straight.metrics.Nonneg := h _ (Branches.mem_toList.2 (by simp))
  have hover := straight_up_le_top ho h hapart
  have hunder := straight_down_le_bottom ho h hapart
  refine ⟨hup ▸ hstraight.up.trans hover, ?_, fun s hs => ?_, ?_⟩
  · linarith [hstraight.down]
  · obtain ⟨hx, hslot, htop, hlow⟩ := branchSites_between ho h hapart hf s hs
    have hitem : s.toSized ∈ b.toList := by
      have hmap := List.mem_map_of_mem (f := Site.toSized) hs
      rw [branchSites, List.map_append, List.map_cons, contents_choiceAbove,
        contents_choiceBelow] at hmap
      exact Branches.mem_toList.2 hmap
    have hwide : s.metrics.width ≤ f.inner := by
      rw [hinner]
      refine Branches.width_le_widest _ _ ?_
      rw [Branches.toList_map]
      exact List.mem_map_of_mem hitem
    refine ⟨hslot ▸ hwide, hleft.trans hx.ge, ?_, ?_, ?_⟩
    · change f.y - m.up - 0 ≤ s.y - s.metrics.up
      rw [sub_zero, hup]
      exact htop
    · change s.x + s.slot ≤ left + m.width
      rw [hx, hslot]
      exact hright
    · change s.y + s.metrics.height + s.metrics.down ≤
        f.y + m.height + m.down + b.last.metrics.height
      linarith
  · obtain ⟨s, hs, -, hlow⟩ := last_reaches f rise drop b
    refine ⟨s, hs, ?_⟩
    change s.y + s.metrics.height + s.metrics.down =
      f.y + m.height + m.down + b.last.metrics.height
    rw [hlow, hf, ← hbottom]
    ring

end Layout
end SyntaxDiagram
