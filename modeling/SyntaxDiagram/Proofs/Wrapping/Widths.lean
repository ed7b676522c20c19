import Mathlib.Algebra.Order.BigOperators.Group.List
import SyntaxDiagram.Proofs.Layout.Branches
import SyntaxDiagram.Proofs.Layout.Sequences
import SyntaxDiagram.Proofs.Slots
import SyntaxDiagram.Proofs.Wrapping.Rows

/-!
# What rows do to widths

A sequence that is broken into rows becomes a stack, which is as wide as its widest row and has
turns on both sides. This may be wider than the sequence without rows. Everything that is made wider
is nearly as wide as a row may be, so that no row has two such items, and widths do not add up.

* `Metrics.Widened`: how a size with a limit compares to the size without one.
* `Layout.spread_le_of_fits`: in a row that fits at most one item is wider than without a limit.
* `Layout.shortfall`: what the narrower end of a sequence lacks of the room that a stack needs.
* `Layout.widened_rowsSize`: a sequence in rows is wider by its shortfall and by one item.
* `Layout.widened_choiceSize`, `Layout.widened_loopSize`: other containers pass on what is in them.
-/

namespace SyntaxDiagram

variable {K : Type} [ExactScalar K] {o : Options K} {limit extra : K}

/-- How the size of something that is broken into rows by a limit compares to its size without one.
If it is wider, it is nearly as wide as the limit and not narrow at all. -/
structure Metrics.Widened (limit extra : K) (m plain : Metrics K) : Prop where
  needsSpace : m.needsSpace = plain.needsSpace
  nonneg : 0 ≤ m.width
  plain_nonneg : 0 ≤ plain.width
  bound : m.width ≤ plain.width + extra
  wide : plain.width < m.width → limit < m.width + 20 ∧ 20 ≤ m.width

namespace Metrics.Widened

variable {m plain : Metrics K}

theorem refl (h : 0 ≤ m.width) (hextra : 0 ≤ extra) : m.Widened limit extra m where
  needsSpace := rfl
  nonneg := h
  plain_nonneg := h
  bound := le_add_of_nonneg_right hextra
  wide hlt := absurd hlt (lt_irrefl _)

theorem mono {more : K} (h : m.Widened limit extra plain) (hmore : extra ≤ more) :
    m.Widened limit more plain :=
  { h with bound := h.bound.trans (add_le_add_right hmore _) }

theorem lead_eq (h : m.Widened limit extra plain) : m.lead = plain.lead := by
  rw [lead, lead, h.needsSpace]

theorem spacedWidth_le (h : m.Widened limit extra plain) :
    m.spacedWidth ≤ plain.spacedWidth + extra := by
  rw [m.spacedWidth_eq_lead, plain.spacedWidth_eq_lead, h.lead_eq]
  linarith [h.bound]

end Metrics.Widened

namespace Layout

/-! ## Items in a row -/

/-- Over exact numbers it does not matter from where a total is added up. -/
theorem rowTotal_eq_spread {β : Type} (f : β → Metrics K) (row : List β) :
    rowTotal (fun i => (f i).spacedWidth) row = spread (row.map f) := by
  rw [rowTotal, ExactScalar.zero_eq, spread, List.map_map, ← List.sum_eq_foldl]
  rfl

section

variable {items : List (Metrics K × Metrics K)} (h : ∀ p ∈ items, p.1.Widened limit extra p.2)
include h

/-- A row is wider than without a limit only if one of its items is. -/
theorem exists_widened (hlt : spread (items.map Prod.snd) < spread (items.map Prod.fst)) :
    ∃ p ∈ items, p.2.width < p.1.width := by
  by_contra! hnone
  refine absurd hlt (not_lt.2 ?_)
  rw [spread, spread, List.map_map, List.map_map]
  refine List.sum_le_sum fun p hp => ?_
  change p.1.spacedWidth ≤ p.2.spacedWidth
  rw [p.1.spacedWidth_eq_lead, p.2.spacedWidth_eq_lead, (h p hp).lead_eq]
  linarith [hnone p hp]

theorem width_le_spread (p : Metrics K × Metrics K) (hp : p ∈ items) :
    p.1.width ≤ spread (items.map Prod.fst) := by
  refine p.1.width_le_spacedWidth.trans ?_
  refine List.single_le_sum ?_ _ (List.mem_map_of_mem (List.mem_map_of_mem hp))
  rw [List.forall_mem_map, List.forall_mem_map]
  exact fun q hq => (h q hq).nonneg.trans q.1.width_le_spacedWidth

/-- **At most one item of a row that fits is wider than without a limit.** -/
theorem spread_le_of_fits (hextra : 0 ≤ extra) (hfits : spread (items.map Prod.fst) ≤ limit) :
    spread (items.map Prod.fst) ≤ spread (items.map Prod.snd) + extra := by
  induction items with
  | nil => exact le_add_of_nonneg_right hextra
  | cons p rest ih =>
    obtain ⟨hp, hrest⟩ := List.forall_mem_cons.1 h
    have hspaced := p.1.spacedWidth_eq_lead
    rw [hp.lead_eq] at hspaced
    rw [List.map_cons, spread_cons, hspaced] at hfits
    rw [List.map_cons, List.map_cons, spread_cons, spread_cons, hspaced, p.2.spacedWidth_eq_lead]
    have hlead := p.2.lead_nonneg
    have hnonneg := hp.nonneg
    rcases le_or_gt p.1.width p.2.width with hle | hlt
    · linarith [ih hrest (by linarith)]
    · -- the others would not fit if one of them were wider as well
      have hothers : spread (rest.map Prod.fst) ≤ spread (rest.map Prod.snd) := by
        by_contra! hwider
        obtain ⟨q, hq, hqlt⟩ := exists_widened hrest hwider
        have hqwide := ((hrest q hq).wide hqlt).1
        have hqle := width_le_spread hrest q hq
        linarith [(hp.wide hlt).2]
      linarith [hp.bound]

/-- A row loses the same connectors at its ends with a limit as without. -/
theorem width_add_spread :
    (sequenceSize (items.map Prod.fst)).width + spread (items.map Prod.snd) =
      (sequenceSize (items.map Prod.snd)).width + spread (items.map Prod.fst) := by
  have hedge : ∀ edge : Option (Metrics K × Metrics K), (∀ p ∈ edge, p ∈ items) →
      trimmed (edge.map Prod.fst) = trimmed (edge.map Prod.snd) := by
    intro edge hedge
    cases edge with
    | none => rfl
    | some p => exact (h p (hedge p rfl)).lead_eq
  rw [width_sequenceSize, width_sequenceSize, List.head?_map, List.head?_map, List.getLast?_map,
    List.getLast?_map, hedge _ fun p hp => List.mem_of_mem_head? hp,
    hedge _ fun p hp => List.mem_of_mem_getLast? hp]
  ring

/-- **A row that was filled up to a limit** is wider than without the limit by no more than an item
is. -/
theorem width_le_of_rowFits (hextra : 0 ≤ extra)
    (hfits : RowFits (fun p => p.1.spacedWidth) limit items) :
    (sequenceSize (items.map Prod.fst)).width ≤
      (sequenceSize (items.map Prod.snd)).width + extra := by
  have hspread : spread (items.map Prod.fst) ≤ spread (items.map Prod.snd) + extra := by
    match items with
    | [] => exact le_add_of_nonneg_right hextra
    | [p] =>
      -- a row of one item need not fit
      have hp := (h p List.mem_cons_self).spacedWidth_le
      rw [List.map_singleton, List.map_singleton, spread_cons, spread_cons]
      change _ + 0 ≤ _ + 0 + extra
      linarith
    | p :: q :: rest =>
      have htotal := hfits.total_le (by simp)
      rw [rowTotal_eq_spread] at htotal
      exact spread_le_of_fits h hextra htotal
  have := width_add_spread h
  linarith

theorem widths_nonneg :
    (∀ m ∈ items.map Prod.fst, 0 ≤ m.width) ∧ ∀ m ∈ items.map Prod.snd, 0 ≤ m.width := by
  rw [List.forall_mem_map, List.forall_mem_map]
  exact ⟨fun p hp => (h p hp).nonneg, fun p hp => (h p hp).plain_nonneg⟩

/-- A row is a sequence. -/
theorem widened_row (hextra : 0 ≤ extra)
    (hfits : RowFits (fun p => p.1.spacedWidth) limit items) :
    (sequenceSize (items.map Prod.fst)).Widened limit extra
      (sequenceSize (items.map Prod.snd)) where
  needsSpace := by rw [sequenceSize_eq, sequenceSize_eq]
  nonneg := width_sequenceSize_nonneg (widths_nonneg h).1
  plain_nonneg := width_sequenceSize_nonneg (widths_nonneg h).2
  bound := width_le_of_rowFits h hextra hfits
  wide hlt := by
    have hspread := width_add_spread h
    obtain ⟨p, hp, hwider⟩ := exists_widened h (by linarith)
    obtain ⟨hlimit, hwide⟩ := (h p hp).wide hwider
    have hle := width_le_sequenceSize (widths_nonneg h).1 p.1 (List.mem_map_of_mem hp)
    exact ⟨by linarith, by linarith⟩

end

/-! ## Rows below one another -/

/-- The size of a sequence in rows. -/
def rowsSize (o : Options K) : List (List (Metrics K)) → Metrics K
  | [] => sequenceSize []
  | [row] => sequenceSize row
  | row :: rows => stackSize o (sequenceSize row) (rows.map sequenceSize)

/-- What the narrower end of a sequence lacks of the room that a stack needs for its turns and the
connectors of a row. -/
def shortfall (o : Options K) (items : List (Metrics K)) : K :=
  max 0 (2 * o.arcRadius + 20 - min (endWidth items) (endWidth items.reverse))

/-- A sequence needs space, in however many rows it is. -/
theorem needsSpace_rowsSize (rows : List (List (Metrics K))) :
    (rowsSize o rows).needsSpace = true := by
  match rows with
  | [] | [_] => rw [rowsSize, sequenceSize_eq]
  | _ :: _ :: _ => rfl

theorem widest_le {lines : List (Metrics K)} {least widest : K} (hleast : least ≤ widest)
    (h : ∀ m ∈ lines, m.spacedWidth ≤ widest) :
    lines.foldl (fun w m => max w m.spacedWidth) least ≤ widest := by
  induction lines generalizing least with
  | nil => exact hleast
  | cons m rest ih =>
    obtain ⟨hm, hrest⟩ := List.forall_mem_cons.1 h
    exact ih (max_le hleast hm) hrest

/-- **A stack of rows** has room for the connectors of each row and for its own turns, and no more
than that. -/
theorem width_rowsSize {β : Type} (f : β → Metrics K) {rows : List (List β)}
    (hrows : 1 < rows.length) :
    (∀ row ∈ rows, (sequenceSize (row.map f)).width + 20 + 2 * o.arcRadius ≤
        (rowsSize o (rows.map (List.map f))).width) ∧
      ∀ widest, 0 ≤ widest + 20 → (∀ row ∈ rows, (sequenceSize (row.map f)).width ≤ widest) →
        (rowsSize o (rows.map (List.map f))).width ≤ widest + 20 + 2 * o.arcRadius := by
  have hspaced : ∀ row : List β,
      (sequenceSize (row.map f)).spacedWidth = (sequenceSize (row.map f)).width + 20 := by
    intro row
    rw [Metrics.spacedWidth_eq, sequenceSize_eq, if_pos rfl]
  match rows with
  | first :: next :: rest =>
    let lines := ((first :: next :: rest).map (List.map f)).map sequenceSize
    have hwidth : (rowsSize o ((first :: next :: rest).map (List.map f))).width =
        lines.foldl (fun w m => max w m.spacedWidth) 0 + 2 * o.arcRadius := by
      rw [← ExactScalar.zero_eq]
      rfl
    rw [hwidth]
    constructor
    · intro row hrow
      have hline := (spacedWidth_le_widest lines 0).2 _
        (List.mem_map_of_mem (List.mem_map_of_mem hrow))
      rw [hspaced] at hline
      exact add_le_add_left hline _
    · intro widest hnonneg hle
      refine add_le_add_left (widest_le hnonneg ?_) _
      rw [List.forall_mem_map, List.forall_mem_map]
      intro row hrow
      rw [hspaced]
      exact add_le_add_left (hle row hrow) 20

section

variable {items : List (Metrics K × Metrics K)} {rows : List (List (Metrics K × Metrics K))}
  (hitems : ∀ p ∈ items, p.1.Widened limit extra p.2)
  (hgreedy : Greedy (fun p => p.1.spacedWidth) limit items rows)
include hitems hgreedy

theorem widened_of_mem_row {row : List (Metrics K × Metrics K)} (hrow : row ∈ rows) :
    ∀ p ∈ row, p.1.Widened limit extra p.2 := by
  intro p hp
  refine hitems p ?_
  rw [← hgreedy.inOrder]
  exact List.mem_flatten_of_mem hrow hp

variable (ho : o.Nonneg) (hrows : 1 < rows.length)

include hrows in
/-- **Several rows** are wider than the items without a limit by the shortfall of these and by no
more than an item is. -/
theorem width_rowsSize_le (hextra : 0 ≤ extra) :
    (rowsSize o (rows.map (List.map Prod.fst))).width ≤
      (sequenceSize (items.map Prod.snd)).width + (shortfall o (items.map Prod.snd) + extra) := by
  let plain := items.map Prod.snd
  let ends := min (endWidth plain) (endWidth plain.reverse)
  have hshort : 2 * o.arcRadius + 20 - ends ≤ shortfall o plain := le_max_right _ _
  have hpart : ∀ row ∈ rows, (sequenceSize (row.map Prod.fst)).width ≤
      (sequenceSize plain).width - ends + extra := by
    intro row hrow
    have hwidened := widened_of_mem_row hitems hgreedy hrow
    have hwider := width_le_of_rowFits hwidened hextra (hgreedy.fits row hrow)
    obtain ⟨front, back, rfl, hends⟩ := hgreedy.part hrows hrow
    have hplain := (widths_nonneg hitems).2
    rw [List.map_append, List.map_append] at hplain
    have hleft := width_part_add_end_le hplain
      (fun hnil => hgreedy.nonempty row hrow (List.map_eq_nil_iff.1 hnil))
      (hends.imp (mt List.map_eq_nil_iff.1) (mt List.map_eq_nil_iff.1))
    rw [← List.map_append, ← List.map_append] at hleft
    change _ + ends ≤ _ at hleft
    linarith
  obtain ⟨first, hfirst⟩ := List.exists_mem_of_length_pos (Nat.zero_lt_of_lt hrows)
  have hnonneg := width_sequenceSize_nonneg
    (widths_nonneg (widened_of_mem_row hitems hgreedy hfirst)).1
  have hwidth := (width_rowsSize (o := o) Prod.fst hrows).2
    ((sequenceSize plain).width - ends + extra) (by linarith [hpart first hfirst]) hpart
  change _ ≤ (sequenceSize plain).width + (shortfall o plain + extra)
  linarith

include hrows in
/-- Items that do not fit in one row have a total beyond the limit. -/
theorem limit_lt_spread : limit < spread (items.map Prod.fst) := by
  obtain ⟨first, next, rest, rfl⟩ : ∃ first next rest, rows = first :: next :: rest := by
    match rows, hrows with
    | first :: next :: rest, _ => exact ⟨first, next, rest, rfl⟩
  have hbehind : (next :: rest).flatten ≠ [] := fun hnil =>
    hgreedy.nonempty next (List.mem_cons_of_mem _ List.mem_cons_self)
      (List.flatten_eq_nil_iff.1 hnil next List.mem_cons_self)
  obtain ⟨item, others, hothers⟩ := List.exists_cons_of_ne_nil hbehind
  have hover := hgreedy.overflow hothers
  rw [rowTotal_eq_spread] at hover
  rw [← hgreedy.inOrder, List.flatten_cons, hothers] at hitems ⊢
  rw [List.map_append, spread_append, List.map_cons, spread_cons]
  have hrest := spread_nonneg (widths_nonneg (List.forall_mem_cons.1
    (List.forall_mem_append.1 hitems).2).2).1
  linarith

include ho hrows in
/-- If several rows are wider than the items without a limit, they are nearly as wide as the
limit. -/
theorem limit_lt_width_rowsSize
    (hlt : (sequenceSize (items.map Prod.snd)).width <
      (rowsSize o (rows.map (List.map Prod.fst))).width) :
    limit < (rowsSize o (rows.map (List.map Prod.fst))).width + 20 := by
  by_contra! hle
  have hrowWidth := (width_rowsSize (o := o) Prod.fst hrows).1
  -- every item is far from the limit, so that none is wider than without it
  have hspread : spread (items.map Prod.fst) ≤ spread (items.map Prod.snd) := by
    by_contra! hwider
    obtain ⟨p, hp, hplt⟩ := exists_widened hitems hwider
    rw [← hgreedy.inOrder] at hp
    obtain ⟨row, hrow, hprow⟩ := List.mem_flatten.1 hp
    have hwidened := widened_of_mem_row hitems hgreedy hrow
    have hitem := width_le_sequenceSize (widths_nonneg hwidened).1 p.1 (List.mem_map_of_mem hprow)
    linarith [hrowWidth row hrow, ((hwidened p hprow).wide hplt).1, ho.arcRadius]
  -- yet the first row and the item behind it get beyond the limit
  have hbeyond := limit_lt_spread hitems hgreedy hrows
  have hplain := width_sequenceSize (items.map Prod.snd)
  have hhead := trimmed_le (items.map Prod.snd).head?
  have hlast := trimmed_le (items.map Prod.snd).getLast?
  linarith

include ho in
/-- **A sequence in rows** is wider than without a limit by no more than an item is, and if there
are several rows, by its shortfall on top of that. -/
theorem widened_rowsSize (hextra : 0 ≤ extra) :
    (rowsSize o (rows.map (List.map Prod.fst))).Widened limit
      ((if 1 < rows.length then shortfall o (items.map Prod.snd) else 0) + extra)
      (sequenceSize (items.map Prod.snd)) := by
  split
  · rename_i hrows
    -- one row is enough to see that a stack is not narrow
    obtain ⟨first, hfirst⟩ := List.exists_mem_of_length_pos (Nat.zero_lt_of_lt hrows)
    have hrow := width_sequenceSize_nonneg
      (widths_nonneg (widened_of_mem_row hitems hgreedy hfirst)).1
    have hwidth := (width_rowsSize (o := o) Prod.fst hrows).1 first hfirst
    have hradius := ho.arcRadius
    exact
      { needsSpace := by rw [needsSpace_rowsSize, sequenceSize_eq]
        nonneg := by linarith
        plain_nonneg := width_sequenceSize_nonneg (widths_nonneg hitems).2
        bound := width_rowsSize_le hitems hgreedy hrows hextra
        wide := fun hlt =>
          ⟨limit_lt_width_rowsSize hitems hgreedy ho hrows hlt, by linarith⟩ }
  · rename_i hrows
    rw [zero_add]
    match rows with
    | [] =>
      obtain rfl : [] = items := hgreedy.inOrder
      exact widened_row hitems hextra fun front hfront hlong => by
        rw [List.prefix_nil.1 hfront] at hlong
        cases hlong
    | [row] =>
      obtain rfl : row = items := (List.flatten_singleton (l := row)).symm.trans hgreedy.inOrder
      exact widened_row hitems hextra (hgreedy.fits row List.mem_cons_self)
    | _ :: _ :: _ => exact absurd (by simp) hrows

end

/-! ## Other containers -/

/-- Lists that are compared element by element are one list of pairs. -/
theorem exists_pairs {β γ : Type} {R : β → γ → Prop} {items : List β} {others : List γ}
    (h : List.Forall₂ R items others) :
    ∃ pairs : List (β × γ),
      pairs.map Prod.fst = items ∧ pairs.map Prod.snd = others ∧ ∀ p ∈ pairs, R p.1 p.2 := by
  obtain ⟨hlength, hpairs⟩ := List.forall₂_iff_zip.1 h
  exact ⟨items.zip others, List.map_fst_zip hlength.le, List.map_snd_zip hlength.ge,
    fun p hp => hpairs hp⟩

/-- One branch is as wide as the widest. -/
theorem Branches.exists_widest (b : Branches (Metrics K)) : ∃ m ∈ b.toList, m.width = b.widest := by
  rw [← List.mem_map, toList, widest]
  split
  · rename_i hnil
    exact absurd hnil (List.append_ne_nil_of_right_ne_nil _ (List.cons_ne_nil _ _))
  · rename_i first rest hcons
    rw [hcons]
    exact List.max?_mem rfl

/-- **A choice** is wider than without a limit by no more than a branch is. -/
theorem widened_choiceSize (ho : o.Nonneg) {b plain : Branches (Metrics K)}
    (h : List.Forall₂ (Metrics.Widened limit extra) b.toList plain.toList) :
    (choiceSize o b).Widened limit extra (choiceSize o plain) := by
  obtain ⟨pairs, hfst, hsnd, hpairs⟩ := exists_pairs h
  have hradius := ho.arcRadius
  -- the widest branch with the limit, and the same branch without it
  obtain ⟨m, hm, hwidest⟩ := b.exists_widest
  rw [← hfst] at hm
  obtain ⟨p, hp, rfl⟩ := List.mem_map.1 hm
  have hbranch := hpairs p hp
  have hplain := plain.width_le_widest p.2 (hsnd ▸ List.mem_map_of_mem hp)
  have hwidth : (choiceSize o b).width = p.1.width + 4 * o.arcRadius :=
    congrArg (· + 4 * o.arcRadius) hwidest.symm
  have hplainWidth : (choiceSize o plain).width = plain.widest + 4 * o.arcRadius := rfl
  refine ⟨rfl, ?_, ?_, ?_, fun hlt => ?_⟩
  · linarith [hbranch.nonneg]
  · linarith [hbranch.plain_nonneg]
  · linarith [hbranch.bound]
  · obtain ⟨hlimit, hwide⟩ := hbranch.wide (by linarith)
    exact ⟨by linarith, by linarith⟩

/-- **A loop** is wider than without a limit by no more than its item is. -/
theorem widened_loopSize (ho : o.Nonneg) {item plain : Metrics K}
    (h : item.Widened limit extra plain) :
    (loopSize o item Metrics.zero).Widened limit extra (loopSize o plain Metrics.zero) := by
  have hwidth : ∀ m : Metrics K, 0 ≤ m.width →
      (loopSize o m Metrics.zero).width = m.width + 2 * o.arcRadius := by
    intro m hm
    have hzero : (Metrics.zero : Metrics K).width = 0 := ExactScalar.zero_eq
    exact congrArg (· + 2 * o.arcRadius) (max_eq_left (hzero.trans_le hm))
  have hradius := ho.arcRadius
  have hitem := hwidth item h.nonneg
  have hplain := hwidth plain h.plain_nonneg
  refine ⟨rfl, ?_, ?_, ?_, fun hlt => ?_⟩
  · linarith [h.nonneg]
  · linarith [h.plain_nonneg]
  · linarith [h.bound]
  · obtain ⟨hlimit, hwide⟩ := h.wide (by linarith)
    exact ⟨by linarith, by linarith⟩

end Layout
end SyntaxDiagram
