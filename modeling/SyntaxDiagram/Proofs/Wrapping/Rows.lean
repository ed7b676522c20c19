import Mathlib.Data.List.Chain
import Mathlib.Data.List.Infix
import SyntaxDiagram.Proofs.Layout.Boxes
import SyntaxDiagram.Proofs.Translation

/-!
# Greedy rows

A sequence is broken into rows by going through its items with a running total and a pending row.
The rows are those of the greedy partition: each is as long as fits, and there is no other partition
like that.

* `rowTotal`: the width of a row, added up from the left. `RowFits` says that a row is not found to
  be too wide at any item but its first.
* `Greedy`: what the rows of a list of items are to be. `Greedy.unique` says that this leaves no
  choice.
* `greedy_wrapRows`: what breaking a list into rows comes to.
* `Expr.operands`: the operands of nested sequences. `Expr.rows_greedy` is about their nodes.
-/

namespace SyntaxDiagram

open Node

variable {α β : Type} [Scalar α] {width : β → α} {limit : α}

/-- The width of a row, added up from the left. -/
def rowTotal (width : β → α) (row : List β) : α := (row.map width).foldl (· + ·) 0

theorem rowTotal_concat (row : List β) (item : β) :
    rowTotal width (row ++ [item]) = rowTotal width row + width item := by
  rw [rowTotal, List.map_append, List.foldl_append]
  rfl

/-- No total of a row is beyond the limit, from the second item of the row on. -/
def RowFits (width : β → α) (limit : α) (row : List β) : Prop :=
  ∀ front, front <+: row → 1 < front.length → ¬ rowTotal width front > limit

/-- Rows that are filled from the left, each up to the first item that is too much for it. A row has
one item at least, however wide it is. -/
structure Greedy (width : β → α) (limit : α) (items : List β) (rows : List (List β)) : Prop where
  inOrder : rows.flatten = items
  nonempty : ∀ row ∈ rows, row ≠ []
  fits : ∀ row ∈ rows, RowFits width limit row
  full : rows.IsChain fun row next => ∀ item ∈ next.head?, rowTotal width row + width item > limit

theorem rowFits_singleton (item : β) : RowFits width limit [item] := by
  intro front hfront hlong
  have := hfront.length_le
  rw [List.length_singleton] at this
  omega

/-- One more item fits in a row if the total does not get beyond the limit. -/
theorem RowFits.concat {row : List β} (h : RowFits width limit row) {item : β}
    (hitem : ¬ rowTotal width row + width item > limit) : RowFits width limit (row ++ [item]) := by
  intro front hfront hlong
  rcases List.prefix_concat_iff.1 hfront with rfl | hfront
  · rwa [rowTotal_concat]
  · exact h front hfront hlong

/-- Over exact numbers a row of more than one item totals at most the limit. -/
theorem RowFits.total_le {K : Type} [ExactScalar K] {width : β → K} {limit : K} {row : List β}
    (h : RowFits width limit row) (hlong : 1 < row.length) : rowTotal width row ≤ limit :=
  not_lt.1 (h row (List.prefix_refl row) hlong)

/-! ## There is one greedy partition -/

namespace Greedy

variable {items row : List β} {rows rows' : List (List β)}

theorem nil (h : Greedy width limit [] rows) : rows = [] := by
  cases rows with
  | nil => rfl
  | cons row rows =>
    have hrow : row = [] := (List.append_eq_nil_iff.1 h.inOrder).1
    exact absurd hrow (h.nonempty row List.mem_cons_self)

/-- The rows behind the first are those of the items behind it. -/
theorem tail (h : Greedy width limit items (row :: rows)) :
    Greedy width limit rows.flatten rows where
  inOrder := rfl
  nonempty r hr := h.nonempty r (List.mem_cons_of_mem _ hr)
  fits r hr := h.fits r (List.mem_cons_of_mem _ hr)
  full := (List.isChain_cons.1 h.full).2

/-- The first row has no room for the item behind it. -/
theorem overflow (h : Greedy width limit items (row :: rows)) {item : β} {others : List β}
    (hbehind : rows.flatten = item :: others) : rowTotal width row + width item > limit := by
  cases rows with
  | nil => cases hbehind
  | cons next rest =>
    -- the item is the first of the next row
    obtain ⟨first, next, rfl⟩ :=
      List.exists_cons_of_ne_nil (h.nonempty next (List.mem_cons_of_mem _ List.mem_cons_self))
    obtain ⟨rfl, -⟩ := List.cons.inj hbehind
    exact (List.isChain_cons_cons.1 h.full).1 first rfl

/-- No row that fits goes on where the first row of a greedy partition ends. -/
theorem not_longer (h : Greedy width limit items (row :: rows)) {item : β} {more others : List β}
    (hbehind : rows.flatten = item :: others) :
    ¬ RowFits width limit (row ++ item :: more) := by
  intro hfits
  have hwide := h.overflow hbehind
  rw [← rowTotal_concat] at hwide
  refine hfits (row ++ [item]) ?_ ?_ hwide
  · exact ⟨more, by rw [List.append_assoc, List.singleton_append]⟩
  · have := List.length_pos_iff.2 (h.nonempty row List.mem_cons_self)
    rw [List.length_append, List.length_singleton]
    omega

/-- If there are several rows, each of them is only a part of the items. -/
theorem part (h : Greedy width limit items rows) (hrows : 1 < rows.length) (hrow : row ∈ rows) :
    ∃ front back, items = front ++ row ++ back ∧ (front ≠ [] ∨ back ≠ []) := by
  have hne : ∀ {others : List (List β)}, others ⊆ rows → others ≠ [] → others.flatten ≠ [] := by
    intro others hothers hnonempty hnil
    obtain ⟨other, hother⟩ := List.exists_mem_of_ne_nil others hnonempty
    exact h.nonempty other (hothers hother) (List.flatten_eq_nil_iff.1 hnil other hother)
  obtain ⟨before, behind, rfl⟩ := List.append_of_mem hrow
  refine ⟨before.flatten, behind.flatten, ?_, ?_⟩
  · rw [← h.inOrder, List.flatten_append, List.flatten_cons, List.append_assoc]
  · cases before with
    | cons first others =>
      exact .inl (hne (List.subset_append_left _ _) (List.cons_ne_nil first others))
    | nil =>
      have hbehind : behind ≠ [] := by
        rintro rfl
        exact absurd hrows (lt_irrefl 1)
      exact .inr (hne (List.subset_cons_self row behind) hbehind)

/-- **There is only one greedy partition** of a list. -/
theorem unique (h : Greedy width limit items rows) (h' : Greedy width limit items rows') :
    rows = rows' := by
  induction rows generalizing items rows' with
  | nil =>
    obtain rfl : [] = items := h.inOrder
    exact h'.nil.symm
  | cons row rows ih =>
    cases rows' with
    | nil =>
      obtain rfl : [] = items := h'.inOrder
      exact h.nil
    | cons row' rows' =>
      have hitems := h.inOrder.trans h'.inOrder.symm
      rw [List.flatten_cons, List.flatten_cons, List.append_eq_append_iff] at hitems
      -- if one of the first rows were longer, it would not fit
      rcases hitems with ⟨_ | ⟨item, more⟩, hrow, hrest⟩ | ⟨_ | ⟨item, more⟩, hrow, hrest⟩
      · rw [List.append_nil] at hrow
        rw [List.nil_append] at hrest
        rw [hrow, ih h.tail (hrest ▸ h'.tail)]
      · exact absurd (hrow ▸ h'.fits row' List.mem_cons_self) (h.not_longer hrest)
      · rw [List.append_nil] at hrow
        rw [List.nil_append] at hrest
        rw [hrow, ih h.tail (hrest ▸ h'.tail)]
      · exact absurd (hrow ▸ h.fits row List.mem_cons_self) (h'.not_longer hrest)

end Greedy

/-! ## Breaking into rows -/

/-- What breaking comes to from a pending row on, which is kept last item first. The row goes on and
is put in front of the others. -/
theorem greedy_wrapRows_pending (row : List β) (sofar : α) (items : List β) (hrow : row ≠ [])
    (hsofar : sofar = rowTotal width row.reverse) (hfits : RowFits width limit row.reverse) :
    Greedy width limit (row.reverse ++ items) (wrapRows width limit row sofar items) ∧
      ∀ first ∈ (wrapRows width limit row sofar items).head?, row.reverse <+: first := by
  fun_induction wrapRows width limit row sofar items with
  | case1 row =>
    refine ⟨⟨?_, ?_, ?_, List.isChain_singleton _⟩, ?_⟩
    · rw [List.flatten_singleton, List.append_nil]
    · rw [List.forall_mem_singleton]
      exact fun hnil => hrow (List.reverse_eq_nil_iff.1 hnil)
    · rw [List.forall_mem_singleton]
      exact hfits
    · intro first hfirst
      obtain rfl := Option.some.inj hfirst
      exact List.prefix_refl _
  | case2 row sofar item rest more hbreak ih =>
    obtain ⟨hrest, hhead⟩ := ih (List.cons_ne_nil _ _) rfl (rowFits_singleton item)
    refine ⟨⟨?_, ?_, ?_, ?_⟩, ?_⟩
    · rw [List.flatten_cons, hrest.inOrder]
      rfl
    · rw [List.forall_mem_cons]
      exact ⟨fun hnil => hrow (List.reverse_eq_nil_iff.1 hnil), hrest.nonempty⟩
    · rw [List.forall_mem_cons]
      exact ⟨hfits, hrest.fits⟩
    · refine List.isChain_cons.2 ⟨fun next hnext first hfirst => ?_, hrest.full⟩
      -- the next row begins with the item that was too much for this one
      obtain ⟨others, rfl⟩ := hhead next hnext
      obtain rfl : item = first := Option.some.inj hfirst
      rw [Bool.and_eq_true, decide_eq_true_eq] at hbreak
      rw [← hsofar]
      exact hbreak.2
    · intro first hfirst
      obtain rfl := Option.some.inj hfirst
      exact List.prefix_refl _
  | case3 row sofar item rest more hfit ih =>
    have hitem : ¬ rowTotal width row.reverse + width item > limit := by
      intro hwide
      refine hfit ?_
      rw [Bool.and_eq_true, decide_eq_true_eq, hsofar]
      refine ⟨?_, hwide⟩
      cases row with
      | nil => exact absurd rfl hrow
      | cons => rfl
    rw [List.reverse_cons, List.append_assoc, List.singleton_append] at ih
    obtain ⟨hgreedy, hhead⟩ := ih (List.cons_ne_nil _ _) (by rw [rowTotal_concat, hsofar])
      (hfits.concat hitem)
    exact ⟨hgreedy, fun first hfirst => (List.prefix_append _ _).trans (hhead first hfirst)⟩

/-- **Breaking into rows is greedy.** -/
theorem greedy_wrapRows {items : List β} (h : items ≠ []) :
    Greedy width limit items (wrapRows width limit [] 0 items) := by
  obtain ⟨item, rest, rfl⟩ := List.exists_cons_of_ne_nil h
  have hfits : RowFits width limit [item] := rowFits_singleton item
  have hpending :=
    (greedy_wrapRows_pending [item] (0 + width item) rest (List.cons_ne_nil _ _) rfl hfits).1
  have hfirst : wrapRows width limit [] 0 (item :: rest) =
      wrapRows width limit [item] (0 + width item) rest := by
    rw [wrapRows, List.isEmpty_nil, Bool.not_true, Bool.false_and, if_neg Bool.false_ne_true]
  rw [hfirst]
  exact hpending

/-! ## Expressions -/

namespace Expr

/-- The operands of nested sequences from left to right. -/
def operands : Expr → List Expr
  | sequence left right => left.operands ++ right.operands
  | e => [e]

theorem operands_ne_nil (e : Expr) : e.operands ≠ [] := by
  induction e with
  | sequence left right ihl ihr => exact List.append_ne_nil_of_left_ne_nil ihl _
  | _ => exact List.cons_ne_nil _ _

/-- What an expression brings into a sequence are the nodes of its operands. -/
theorem nodes_items (o : Options α) (wrap : Option α) (e : Expr) :
    Measured.nodes ((e.parts o wrap).items wrap).toList =
      e.operands.map fun operand => ((operand.parts o wrap).node wrap).node := by
  induction e with
  | sequence left right ihl ihr =>
    rw [parts, Parts.items_followedBy, Measured.nodes_append, ihl, ihr, operands, List.map_append]
  | _ => rfl

/-- A limit that is positive is kept. -/
theorem toNode_some (o : Options α) {limit : α} (hlimit : limit > 0) (e : Expr) :
    e.toNode o (some limit) = ((e.parts o (some limit)).node (some limit)).node := by
  rw [toNode, Option.filter_some, if_pos (decide_eq_true hlimit)]

/-- A limit that is not positive does not matter. -/
theorem toNode_cases (o : Options α) (wrap : Option α) (e : Expr) :
    e.toNode o wrap = e.toNode o none ∨ ∃ limit, wrap = some limit ∧ limit > 0 := by
  cases wrap with
  | none => exact .inl rfl
  | some limit =>
    by_cases hlimit : limit > 0
    · exact .inr ⟨limit, rfl, hlimit⟩
    · refine .inl ?_
      rw [toNode, toNode, Option.filter_some, if_neg (by rwa [decide_eq_true_eq])]
      rfl

/-- **Rows are the greedy partition** of the operands of a sequence. There is a row at least, all of
them put end to end are the nodes of the operands, and the sequence is the row if there is one and a
stack of the rows if there are more. It always has a node. -/
theorem rows_greedy (o : Options α) {limit : α} (hlimit : limit > 0) (left right : Expr) :
    let e := sequence left right
    let items := e.operands.map (toNode o (some limit))
    let width (n : Node α) := (n.metrics o).spacedWidth
    2 ≤ items.length ∧
    ∃ rows, Greedy width limit items rows ∧
      (∀ others, Greedy width limit items others → others = rows) ∧
      e.build? o (some limit) = .ok (e.toNode o (some limit)) ∧
      ((∃ row, rows = [row] ∧ e.toNode o (some limit) = .sequence row) ∨
        ∃ first next rest, rows = first :: next :: rest ∧
          e.toNode o (some limit) = .stack (.sequence first) ((next :: rest).map .sequence)) := by
  intro e items width
  have hitems : items = Measured.nodes ((e.parts o (some limit)).items (some limit)).toList := by
    rw [nodes_items]
    exact List.map_congr_left fun operand _ => toNode_some o hlimit operand
  have hlength : 2 ≤ items.length := by
    have hleft := List.length_pos_iff.2 left.operands_ne_nil
    have hright := List.length_pos_iff.2 right.operands_ne_nil
    simp only [items, e, List.length_map, operands, List.length_append]
    omega
  have hne : items ≠ [] := List.ne_nil_of_length_pos (by omega)
  refine ⟨hlength, _, greedy_wrapRows hne, fun others h => h.unique (greedy_wrapRows hne),
    build?_eq o _ e, ?_⟩
  -- the node is made of the rows by operations that may refuse, and do not
  have hnode : ofRows? (wrapRows width limit [] 0 items) = .ok (e.toNode o (some limit)) := by
    rw [hitems, toNode_some o hlimit]
    exact wrapped?_eq (some limit) _
  match hrows : wrapRows width limit [] 0 items with
  | [] => exact absurd hrows (wrapRows_ne_nil _ _ _ _ _)
  | [row] =>
    rw [hrows] at hnode
    exact .inl ⟨row, rfl, (Except.ok.inj hnode).symm⟩
  | first :: next :: rest =>
    rw [hrows] at hnode
    exact .inr ⟨first, next, rest, rfl, (Except.ok.inj hnode).symm⟩

/-- Three terminals of which two fit in a row. -/
theorem rows_greedy_three :
    let o := Options.exact
    let e := sequence (terminal "a") (sequence (terminal "b") (terminal "c"))
    ∃ first next rest,
      Greedy (fun n => (n.metrics o).spacedWidth) 100 (e.operands.map (toNode o (some 100)))
        (first :: next :: rest) ∧
      e.toNode o (some 100) = .stack (.sequence first) ((next :: rest).map .sequence) := by
  intro o e
  have hkind : (e.toNode o (some 100)).kind = .stack := by decide +kernel
  have hlimit : (0 : Rat) < 100 := by norm_num
  obtain ⟨-, rows, hgreedy, -, -, hnode⟩ := rows_greedy o (ExactScalar.zero_eq.trans_lt hlimit)
    (terminal "a") (sequence (terminal "b") (terminal "c"))
  rcases hnode with ⟨row, -, hnode⟩ | ⟨first, next, rest, rfl, hnode⟩
  · rw [hnode] at hkind
    cases hkind
  · exact ⟨first, next, rest, hgreedy, hnode⟩

end Expr
end SyntaxDiagram
