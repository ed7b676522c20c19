import SyntaxDiagram.Grammar.Diagram
import SyntaxDiagram.Proofs.Language

/-!
# Expressions keep their meaning as diagrams

The node of an expression describes the words of the expression, holds its symbols in their order,
and is always there.

* `Expr.build?`: the node of an expression by way of the operations that refuse a choice without
  branches and a stack without rows.
* `Expr.build?_eq`: they are never given either.
* `Expr.language_parts`, `Expr.symbols_parts`: words and symbols are those of the expression,
  wherever its sequences are broken into rows.
-/

namespace SyntaxDiagram

open Computability Node

variable {α : Type} [Scalar α] {o : Options α}

/-! ## Rows -/

/-- Breaking items into rows neither loses nor moves one. -/
theorem flatten_wrapRows {β : Type} (itemWidth : β → α) (limit : α) (row : List β) (width : α)
    (items : List β) :
    (wrapRows itemWidth limit row width items).flatten = row.reverse ++ items := by
  fun_induction wrapRows itemWidth limit row width items with
  | case1 row => rw [List.flatten_singleton, List.append_nil]
  | case2 row width item rest more hbreak ih =>
    rw [List.flatten_cons, ih, List.reverse_singleton, List.singleton_append]
  | case3 row width item rest more hfits ih =>
    rw [ih, List.reverse_cons, List.append_assoc, List.singleton_append]

/-- There is a last row at least. -/
theorem wrapRows_ne_nil {β : Type} (itemWidth : β → α) (limit : α) (row : List β) (width : α)
    (items : List β) : wrapRows itemWidth limit row width items ≠ [] := by
  fun_induction wrapRows itemWidth limit row width items with
  | case1 | case2 => exact List.cons_ne_nil _ _
  | case3 row width item rest more hfits ih => exact ih

/-- The widths of items are all that breaking into rows looks at. -/
theorem wrapRows_map {β γ : Type} (f : β → γ) (itemWidth : γ → α) (limit : α) (row : List β)
    (width : α) (items : List β) :
    wrapRows itemWidth limit (row.map f) width (items.map f) =
      (wrapRows (itemWidth ∘ f) limit row width items).map (List.map f) := by
  fun_induction wrapRows (itemWidth ∘ f) limit row width items with
  | case1 row => simp only [List.map_nil, wrapRows, List.map_cons, List.map_reverse]
  | case2 row width item rest more hbreak ih =>
    rw [List.map_cons, wrapRows, if_pos (by rwa [List.isEmpty_map]), List.map_cons, ← ih,
      List.map_reverse]
    rfl
  | case3 row width item rest more hfits ih =>
    rw [List.map_cons, wrapRows, if_neg (by rwa [List.isEmpty_map]), ← ih]
    rfl

/-! ## Building with refusals -/

/-- Rows as a node. A single row stands for itself, and a stack refuses to have no rows. -/
def Node.ofRows? : List (List (Node α)) → Except Error (Node α)
  | [row] => .ok (.sequence row)
  | rows => Node.stack? (rows.map .sequence)

/-- Nodes in sequence, in rows if there is a limit. -/
def Node.wrapped? (o : Options α) (wrap : Option α) (items : List (Node α)) :
    Except Error (Node α) :=
  match wrap with
  | none => .ok (.sequence items)
  | some limit => ofRows? (wrapRows (fun n => (n.metrics o).spacedWidth) limit [] 0 items)

namespace Expr

mutual

/-- The node of an expression, built by operations that may refuse. -/
def buildIn? (o : Options α) (wrap : Option α) : Expr → Except Error (Node α)
  | identifier name => .ok (.nonTerminal name ∅)
  | terminal text => .ok (.terminal text ∅)
  | special text => .ok (.comment text none none)
  | group inner => inner.buildIn? o wrap
  | repetition inner => do return .zeroOrMore (← inner.buildIn? o wrap) .skip
  | optional inner => do return .optional (← inner.buildIn? o wrap) false
  | choice left right => do
    Node.choice? 0 ((← left.branches? o wrap) ++ (← right.branches? o wrap))
  | sequence left right => do
    Node.wrapped? o wrap ((← left.operands? o wrap) ++ (← right.operands? o wrap))
termination_by e => (sizeOf e, 0)

/-- The nodes of the branches of nested choices from left to right. -/
def branches? (o : Options α) (wrap : Option α) : Expr → Except Error (List (Node α))
  | choice left right => do return (← left.branches? o wrap) ++ (← right.branches? o wrap)
  | e => do return [← e.buildIn? o wrap]
termination_by e => (sizeOf e, 1)

/-- The nodes of the operands of nested sequences from left to right. -/
def operands? (o : Options α) (wrap : Option α) : Expr → Except Error (List (Node α))
  | sequence left right => do return (← left.operands? o wrap) ++ (← right.operands? o wrap)
  | e => do return [← e.buildIn? o wrap]
termination_by e => (sizeOf e, 1)

end

/-- The node of an expression. A limit that is not positive is none. -/
def build? (o : Options α) (wrap : Option α) (e : Expr) : Except Error (Node α) :=
  e.buildIn? o (wrap.filter fun limit => limit > 0)

end Expr

/-! ## Nothing is refused -/

theorem ok_bind {ε β γ : Type} (a : β) (f : β → Except ε γ) : (Except.ok a >>= f) = f a := rfl

theorem Node.ofRows?_eq {rows : List (List (Measured o))} (h : rows ≠ []) :
    ofRows? (rows.map Measured.nodes) = .ok (Measured.ofRows rows).node := by
  match rows with
  | [] => exact absurd rfl h
  | [row] => rfl
  | row :: next :: rows =>
    simp only [List.map_cons, ofRows?, stack?, Measured.ofRows, Measured.stack, Measured.sequence,
      Measured.nodes, List.map_map]
    rfl

theorem Node.wrapped?_eq (wrap : Option α) (items : List (Measured o)) :
    wrapped? o wrap (Measured.nodes items) = .ok (Measured.wrapped wrap items).node := by
  cases wrap with
  | none => rfl
  | some limit =>
    have hwidth : (fun n : Node α => (n.metrics o).spacedWidth) ∘ Measured.node =
        Measured.spacedWidth (o := o) := by
      funext m
      exact m.spacedWidth_eq.symm
    have hrows := wrapRows_map (Measured.node (o := o))
      (fun n => (n.metrics o).spacedWidth) limit [] 0 items
    rw [List.map_nil, hwidth] at hrows
    rw [wrapped?, Measured.nodes, hrows]
    exact ofRows?_eq (wrapRows_ne_nil _ _ _ _ _)

theorem Node.Measured.nodes_append (a b : List (Measured o)) :
    Measured.nodes (a ++ b) = Measured.nodes a ++ Measured.nodes b := List.map_append

namespace Expr

/-- The nodes that an expression brings into a choice. -/
def Parts.branches (wrap : Option α) (p : Parts o) : List (Measured o) :=
  p.firstBranch wrap :: p.otherBranches.toList

theorem Parts.branches_either (wrap : Option α) (left right : Parts o) :
    (left.either wrap right).branches wrap = left.branches wrap ++ right.branches wrap := by
  simp [Parts.branches, Parts.either, Parts.firstBranch, Parts.otherBranches]

theorem Parts.items_followedBy (wrap : Option α) (left right : Parts o) :
    ((left.followedBy wrap right).items wrap).toList =
      (left.items wrap).toList ++ (right.items wrap).toList := by
  simp [Parts.followedBy, Parts.items]

/-- An expression is built as whatever is around it wants to have it: as one node, as branches or
as operands. -/
theorem buildIn?_eq (o : Options α) (wrap : Option α) (e : Expr) :
    e.buildIn? o wrap = .ok ((e.parts o wrap).node wrap).node ∧
      e.branches? o wrap = .ok (Measured.nodes ((e.parts o wrap).branches wrap)) ∧
      e.operands? o wrap = .ok (Measured.nodes ((e.parts o wrap).items wrap).toList) := by
  -- an operator takes the parts of its operands, so that all three go by one induction
  induction e with
  | identifier | terminal | special =>
    refine ⟨by rw [buildIn?]; rfl, ?_, ?_⟩
    · simp only [branches?, buildIn?]
      rfl
    · simp only [operands?, buildIn?]
      rfl
  | group inner ih | repetition inner ih | optional inner ih =>
    refine ⟨by rw [buildIn?, ih.1]; rfl, ?_, ?_⟩
    · simp only [branches?, buildIn?, ih.1]
      rfl
    · simp only [operands?, buildIn?, ih.1]
      rfl
  | choice left right ihl ihr =>
    have hbranches : (choice left right).branches? o wrap =
        .ok (Measured.nodes (((choice left right).parts o wrap).branches wrap)) := by
      rw [branches?, ihl.2.1, ihr.2.1, parts, Parts.branches_either, Measured.nodes_append]
      rfl
    have hbuild : (choice left right).buildIn? o wrap =
        .ok (((choice left right).parts o wrap).node wrap).node := by
      rw [buildIn?, ihl.2.1, ihr.2.1, ok_bind, ok_bind, ← Measured.nodes_append,
        ← Parts.branches_either]
      rfl
    refine ⟨hbuild, hbranches, ?_⟩
    rw [operands?, hbuild]
    · rfl
    · nofun
  | sequence left right ihl ihr =>
    have hoperands : (sequence left right).operands? o wrap =
        .ok (Measured.nodes (((sequence left right).parts o wrap).items wrap).toList) := by
      rw [operands?, ihl.2.2, ihr.2.2, parts, Parts.items_followedBy, Measured.nodes_append]
      rfl
    have hbuild : (sequence left right).buildIn? o wrap =
        .ok (((sequence left right).parts o wrap).node wrap).node := by
      rw [buildIn?, ihl.2.2, ihr.2.2, ok_bind, ok_bind, ← Measured.nodes_append,
        ← Parts.items_followedBy, Node.wrapped?_eq]
      rfl
    refine ⟨hbuild, ?_, hoperands⟩
    rw [branches?, hbuild]
    · rfl
    · nofun

/-- **Every expression has a node**: no choice is without branches and no stack without rows. -/
theorem build?_eq (o : Options α) (wrap : Option α) (e : Expr) :
    e.build? o wrap = .ok (e.toNode o wrap) :=
  (buildIn?_eq o _ e).1

end Expr

/-! ## Words -/

theorem Node.inTurn_rows (rows : List (List (Measured o))) :
    inTurn (Measured.nodes (rows.map Measured.sequence)) =
      inTurn (Measured.nodes rows.flatten) := by
  induction rows with
  | nil => rfl
  | cons row rows ih =>
    rw [List.flatten_cons, Measured.nodes_append, inTurn_append, ← ih]
    rfl

/-- The words of rows are those of their items, put end to end. -/
theorem Node.language_ofRows {rows : List (List (Measured o))} :
    (Measured.ofRows rows).node.language = inTurn (Measured.nodes rows.flatten) := by
  match rows with
  | [] => rfl
  | [row] => rw [List.flatten_singleton]; rfl
  | row :: next :: rows => rw [← inTurn_rows]; rfl

theorem Node.language_wrapped (wrap : Option α) (items : List (Measured o)) :
    (Measured.wrapped wrap items).node.language = inTurn (Measured.nodes items) := by
  cases wrap with
  | none => rfl
  | some limit =>
    rw [Measured.wrapped, language_ofRows, flatten_wrapRows, List.reverse_nil, List.nil_append]

namespace Expr

theorem Parts.anyOf_branches (wrap : Option α) (p : Parts o) :
    anyOf (Measured.nodes (p.branches wrap)) = (p.node wrap).node.language := by
  cases p with
  | single n => exact add_zero _
  | choice first others => exact (zero_add _).symm
  | sequence items => exact add_zero _

theorem Parts.inTurn_items (wrap : Option α) (p : Parts o) :
    inTurn (Measured.nodes (p.items wrap).toList) = (p.node wrap).node.language := by
  cases p with
  | single n => exact mul_one _
  | choice first others => exact mul_one _
  | sequence items => exact (language_wrapped wrap _).symm

theorem language_parts (o : Options α) (wrap : Option α) (e : Expr) :
    ((e.parts o wrap).node wrap).node.language = e.language := by
  induction e with
  | identifier | terminal | special => rfl
  | group inner ih => exact ih
  | repetition inner ih => rw [parts, language, ← ih]; exact language_zeroOrMore_skip _
  | optional inner ih => rw [parts, language, ← ih]; rfl
  | choice left right ihl ihr =>
    rw [language, ← ihl, ← ihr, parts, ← Parts.anyOf_branches, Parts.branches_either,
      Measured.nodes_append, anyOf_append, Parts.anyOf_branches, Parts.anyOf_branches]
  | sequence left right ihl ihr =>
    rw [language, ← ihl, ← ihr, parts, ← Parts.inTurn_items, Parts.items_followedBy,
      Measured.nodes_append, inTurn_append, Parts.inTurn_items, Parts.inTurn_items]

end Expr

/-! ## Symbols -/

namespace Node

theorem symbolsOf_rows (rows : List (List (Measured o))) :
    symbolsOf (Measured.nodes (rows.map Measured.sequence)) =
      symbolsOf (Measured.nodes rows.flatten) := by
  induction rows with
  | nil => rfl
  | cons row rows ih =>
    rw [List.flatten_cons, Measured.nodes_append, symbolsOf_append, ← ih,
      ← symbols_sequence (Measured.nodes row)]
    rfl

theorem symbols_ofRows {rows : List (List (Measured o))} :
    (Measured.ofRows rows).node.symbols = symbolsOf (Measured.nodes rows.flatten) := by
  match rows with
  | [] => exact symbols_sequence []
  | [row] => rw [List.flatten_singleton]; exact symbols_sequence _
  | row :: next :: rows => rw [← symbolsOf_rows, symbols_eq]; rfl

theorem symbols_wrapped (wrap : Option α) (items : List (Measured o)) :
    (Measured.wrapped wrap items).node.symbols = symbolsOf (Measured.nodes items) := by
  cases wrap with
  | none => exact symbols_sequence _
  | some limit =>
    rw [Measured.wrapped, symbols_ofRows, flatten_wrapRows, List.reverse_nil, List.nil_append]

end Node

namespace Expr

theorem Parts.symbolsOf_branches (wrap : Option α) (p : Parts o) :
    symbolsOf (Measured.nodes (p.branches wrap)) = (p.node wrap).node.symbols := by
  cases p with
  | single n => exact symbolsOf_singleton _
  | choice first others => rw [symbols_eq]; rfl
  | sequence items => exact symbolsOf_singleton _

theorem Parts.symbolsOf_items (wrap : Option α) (p : Parts o) :
    symbolsOf (Measured.nodes (p.items wrap).toList) = (p.node wrap).node.symbols := by
  cases p with
  | single n => exact symbolsOf_singleton _
  | choice first others => exact symbolsOf_singleton _
  | sequence items => exact (symbols_wrapped wrap _).symm

theorem symbols_parts (o : Options α) (wrap : Option α) (e : Expr) :
    ((e.parts o wrap).node wrap).node.symbols = e.leaves := by
  induction e with
  | identifier | terminal | special => rw [symbols_eq]; rfl
  | group inner ih => exact ih
  | repetition inner ih =>
    rw [leaves, ← ih]
    exact symbols_zeroOrMore_skip _
  | optional inner ih =>
    rw [leaves, ← ih]
    exact symbols_optional _ _
  | choice left right ihl ihr =>
    rw [leaves, ← ihl, ← ihr, parts, ← Parts.symbolsOf_branches, Parts.branches_either,
      Measured.nodes_append, symbolsOf_append, Parts.symbolsOf_branches, Parts.symbolsOf_branches]
  | sequence left right ihl ihr =>
    rw [leaves, ← ihl, ← ihr, parts, ← Parts.symbolsOf_items, Parts.items_followedBy,
      Measured.nodes_append, symbolsOf_append, Parts.symbolsOf_items, Parts.symbolsOf_items]

/-- **Translation preserves meaning.** Whatever the measures and the limit of a row are, an
expression has a node, the tracks of the node describe the words of the expression, and a walk comes
to the symbols of the expression from left to right. -/
theorem toNode_preserves_meaning (o : Options α) (wrap : Option α) (e : Expr) :
    e.build? o wrap = .ok (e.toNode o wrap) ∧
      (e.toNode o wrap).language = e.language ∧
      (e.toNode o wrap).walk.filterMap symbol? = e.leaves :=
  ⟨build?_eq o wrap e, language_parts o _ e, symbols_parts o _ e⟩

end Expr
end SyntaxDiagram
