import SyntaxDiagram.Proofs.Containment
import SyntaxDiagram.Proofs.RuleDiagram
import SyntaxDiagram.Proofs.Wrapping.Widths

/-!
# Limits and the width of rules

A limit on the width of rows may make a diagram wider: a stack needs room for its turns and for the
connectors of its rows, which may be more than the items that the widest row leaves to the others.

* `Expr.widening`: by how much a limit may widen an expression.
* `Expr.widened_parts`: an expression is widened by no more than that, whatever is around it.
* `Rule.width_diagram_le`: the diagram of a rule. `Rule.wrapping_widens` is a rule that does get
  wider.
-/

namespace SyntaxDiagram

open Layout

open Node (Measured)

variable {K : Type} [ExactScalar K] {o : Options K} {limit extra : K}

/-! ## Measured nodes -/

namespace Node.Measured

/-- How a node that is made with a limit compares to the node that is made without one. -/
def Widened (limit extra : K) (m plain : Measured o) : Prop :=
  m.figure.metrics.Widened limit extra plain.figure.metrics

theorem Widened.mono {m plain : Measured o} {more : K} (h : m.Widened limit extra plain)
    (hmore : extra ≤ more) : m.Widened limit more plain :=
  Metrics.Widened.mono h hmore

theorem widened_all_mono {items plain : List (Measured o)} {more : K}
    (h : List.Forall₂ (Widened limit extra) items plain) (hmore : extra ≤ more) :
    List.Forall₂ (Widened limit more) items plain :=
  h.imp fun _ _ h => h.mono hmore

/-- The sizes of measured nodes. -/
def sizes (items : List (Measured o)) : List (Metrics K) := items.map (·.figure.metrics)

theorem metrics_node (m : Measured o) : m.node.metrics o = m.figure.metrics :=
  congrArg Sized.metrics m.figure_eq.symm

theorem sizes_eq (items : List (Measured o)) : sizes items = (nodes items).map (metrics o) := by
  rw [sizes, nodes, List.map_map]
  exact List.map_congr_left fun m _ => m.metrics_node.symm

theorem metrics_sequence (items : List (Measured o)) :
    (sequence items).figure.metrics = sequenceSize (sizes items) :=
  congrArg sequenceSize (List.map_map ..)

theorem metrics_ofRows (rows : List (List (Measured o))) :
    (ofRows rows).figure.metrics = rowsSize o (rows.map sizes) := by
  have hlines : ∀ rows : List (List (Measured o)),
      ((rows.map sequence).map (·.figure)).map (·.metrics) = (rows.map sizes).map sequenceSize := by
    intro rows
    rw [List.map_map, List.map_map, List.map_map]
    exact List.map_congr_left fun row _ => metrics_sequence row
  match rows with
  | [] => exact metrics_sequence []
  | [row] => exact metrics_sequence row
  | row :: next :: rest =>
    exact congrArg₂ (stackSize o) (metrics_sequence row) (hlines (next :: rest))

/-- Rows are a stack if there are several of them. -/
theorem kind_ofRows (rows : List (List (Measured o))) :
    (ofRows rows).node.kind = .stack ↔ 1 < rows.length := by
  match rows with
  | [] | [_] => exact ⟨nofun, nofun⟩
  | _ :: _ :: _ => exact iff_of_true rfl (by simp)

/-- Only the sizes of items are looked at to break them into rows. -/
theorem map_sizes_wrapRows (items : List (Measured o)) :
    (wrapRows spacedWidth limit [] 0 items).map sizes =
      wrapRows Metrics.spacedWidth limit [] 0 (sizes items) :=
  (wrapRows_map (fun m : Measured o => m.figure.metrics) Metrics.spacedWidth limit [] 0 items).symm

/-- **Items in rows** compared to the same items in one sequence. -/
theorem widened_wrapped (ho : o.Nonneg) (hextra : 0 ≤ extra) {items plain : List (Measured o)}
    (hitems : items ≠ []) (h : List.Forall₂ (Widened limit extra) items plain) :
    (wrapped (some limit) items).Widened limit
      ((if (wrapped (some limit) items).node.kind = .stack then shortfall o (sizes plain) else 0) +
        extra)
      (wrapped none plain) := by
  have hsizes : List.Forall₂ (Metrics.Widened limit extra) (sizes items) (sizes plain) := by
    rw [sizes, sizes, List.forall₂_map_left_iff, List.forall₂_map_right_iff]
    exact h
  obtain ⟨pairs, hfst, hsnd, hpairs⟩ := exists_pairs hsizes
  have hpairsNe : pairs ≠ [] := by
    rintro rfl
    exact hitems (List.map_eq_nil_iff.1 hfst.symm)
  -- the rows of the pairs are the rows of the items
  let rows := wrapRows (fun p : Metrics K × Metrics K => p.1.spacedWidth) limit [] 0 pairs
  have hrows :
      (wrapRows spacedWidth limit [] 0 items).map sizes = rows.map (List.map Prod.fst) := by
    rw [map_sizes_wrapRows, ← hfst]
    exact wrapRows_map Prod.fst Metrics.spacedWidth limit [] 0 pairs
  have hlength : (wrapRows spacedWidth limit [] 0 items).length = rows.length := by
    rw [← List.length_map (f := sizes), hrows, List.length_map]
  have hgreedy : Greedy (fun p : Metrics K × Metrics K => p.1.spacedWidth) limit pairs rows := by
    change Greedy _ _ _ (wrapRows _ limit [] 0 pairs)
    rw [← ExactScalar.zero_eq]
    exact greedy_wrapRows hpairsNe
  have hwidened := widened_rowsSize hpairs hgreedy ho hextra
  rw [hsnd] at hwidened
  rw [Widened, wrapped, wrapped, ExactScalar.zero_eq, metrics_ofRows, metrics_sequence, hrows]
  simp only [kind_ofRows, hlength]
  exact hwidened

theorem widened_choice (ho : o.Nonneg) {first first' : Measured o}
    {others others' : List (Measured o)}
    (h : List.Forall₂ (Widened limit extra) (first :: others) (first' :: others')) :
    (choice first others).Widened limit extra (choice first' others') := by
  refine widened_choiceSize ho ?_
  rw [Branches.toList_map, Branches.toList_map, List.forall₂_map_left_iff,
    List.forall₂_map_right_iff]
  obtain ⟨hfirst, hothers⟩ := List.forall₂_cons.1 h
  refine .cons hfirst ?_
  rw [List.forall₂_map_left_iff, List.forall₂_map_right_iff]
  exact hothers

/-- A bare line is the same with a limit. -/
theorem widened_zero (hextra : 0 ≤ extra) :
    (Metrics.zero : Metrics K).Widened limit extra Metrics.zero :=
  .refl Metrics.flat_zero.width hextra

/-- The branches of an item that can be passed by. -/
theorem widened_passing (hextra : 0 ≤ extra) {item plain : Figure K}
    (h : item.metrics.Widened limit extra plain.metrics) (bypass : Bool) :
    List.Forall₂ (Metrics.Widened limit extra) ((passing o item bypass).map (·.metrics)).toList
      ((passing o plain bypass).map (·.metrics)).toList := by
  cases bypass with
  | false | true => exact .cons (widened_zero hextra) (.cons h .nil)

theorem widened_optional (ho : o.Nonneg) (hextra : 0 ≤ extra) {item plain : Measured o}
    (h : item.Widened limit extra plain) : item.optional.Widened limit extra plain.optional :=
  widened_choiceSize ho (widened_passing hextra h false)

theorem widened_zeroOrMore (ho : o.Nonneg) (hextra : 0 ≤ extra) {item plain : Measured o}
    (h : item.Widened limit extra plain) :
    item.zeroOrMore.Widened limit extra plain.zeroOrMore := by
  have hloop : (loopFigure o item.figure (skipFigure o)).metrics.Widened limit extra
      (loopFigure o plain.figure (skipFigure o)).metrics := widened_loopSize ho h
  have hchoice := widened_choiceSize ho (widened_passing (o := o) hextra hloop true)
  exact ⟨hchoice.needsSpace, hchoice.nonneg, hchoice.plain_nonneg, hchoice.bound, hchoice.wide⟩

end Node.Measured

/-! ## Expressions -/

namespace Expr

/-- By how much a limit may widen an expression. A sequence that is broken into rows is widened by
its shortfall, and everything by as much as the part of it that is widened most. What a sequence
brings into a sequence around it, `inside` that one, is not broken into rows of its own. -/
def widening (o : Options K) (wrap : Option K) (inside : Bool) : Expr → K
  | identifier _ | terminal _ | special _ => 0
  | group inner | repetition inner | optional inner => inner.widening o wrap false
  | choice left right => max (left.widening o wrap false) (right.widening o wrap false)
  | sequence left right =>
    let operands := (left.operands ++ right.operands).map fun e => (e.toNode o none).metrics o
    let broken := ((sequence left right).toNode o wrap).kind = .stack
    (if inside = false ∧ broken then shortfall o operands else 0) +
      max (left.widening o wrap true) (right.widening o wrap true)

theorem widening_nonneg (o : Options K) (wrap : Option K) (inside : Bool) (e : Expr) :
    0 ≤ e.widening o wrap inside := by
  induction e generalizing inside with
  | identifier | terminal | special => exact le_refl 0
  | group inner ih | repetition inner ih | optional inner ih => exact ih false
  | choice left right ihl ihr => exact (ihl false).trans (le_max_left _ _)
  | sequence left right ihl ihr =>
    have hparts := (ihl true).trans
      (le_max_left (left.widening o wrap true) (right.widening o wrap true))
    rw [widening]
    split
    · exact add_nonneg (le_max_left _ _) hparts
    · exact add_nonneg (le_refl 0) hparts

theorem widening_inside (o : Options K) (wrap : Option K) (left right : Expr) :
    (sequence left right).widening o wrap true =
      max (left.widening o wrap true) (right.widening o wrap true) := by
  rw [widening, if_neg fun h => Bool.noConfusion h.1, zero_add]

/-- The widening of a sequence that is not in a sequence around it. -/
theorem widening_sequence (hlimit : 0 < limit) (left right : Expr) :
    let e := sequence left right
    e.widening o (some limit) false =
      (if ((e.parts o (some limit)).node (some limit)).node.kind = .stack
        then shortfall o (Measured.sizes ((e.parts o none).items none).toList) else 0) +
        e.widening o (some limit) true := by
  intro e
  have hkept := toNode_some o (ExactScalar.zero_eq.trans_lt hlimit) (sequence left right)
  rw [widening_inside, widening, hkept, Measured.sizes_eq, nodes_items, List.map_map]
  simp only [true_and]
  rfl

/-- An expression brings an item at least into a sequence around it. -/
theorem items_ne_nil (o : Options K) (wrap : Option K) (e : Expr) :
    ((e.parts o wrap).items wrap).toList ≠ [] := by
  intro hnil
  have hnodes := nodes_items o wrap e
  rw [hnil] at hnodes
  exact e.operands_ne_nil (List.map_eq_nil_iff.1 hnodes.symm)

/-- How what is made of an expression with a limit compares to what is made of it without one,
whatever is around the expression. -/
structure Parts.Widened (limit extra inside : K) (p plain : Parts o) : Prop where
  node : (p.node (some limit)).Widened limit extra (plain.node none)
  branches : List.Forall₂ (Measured.Widened limit extra) (p.branches (some limit))
    (plain.branches none)
  items : List.Forall₂ (Measured.Widened limit inside) (p.items (some limit)).toList
    (plain.items none).toList

namespace Parts.Widened

theorem single {m plain : Measured o} (h : m.Widened limit extra plain) :
    Widened limit extra extra (.single m) (.single plain) where
  node := h
  branches := .cons h .nil
  items := .cons h .nil

variable {p plain q plainq : Parts o} {more inside insideq : K}

theorem either (ho : o.Nonneg) (hp : Widened limit extra inside p plain)
    (hq : Widened limit more insideq q plainq) :
    Widened limit (max extra more) (max extra more) (p.either (some limit) q)
      (plain.either none plainq) := by
  have hbranches : List.Forall₂ (Measured.Widened limit (max extra more))
      ((p.either (some limit) q).branches (some limit))
      ((plain.either none plainq).branches none) := by
    rw [branches_either, branches_either]
    exact List.rel_append (Measured.widened_all_mono hp.branches (le_max_left _ _))
      (Measured.widened_all_mono hq.branches (le_max_right _ _))
  have hnode : ((p.either (some limit) q).node (some limit)).Widened limit (max extra more)
      ((plain.either none plainq).node none) := Measured.widened_choice ho hbranches
  exact ⟨hnode, hbranches, .cons hnode .nil⟩

end Parts.Widened

/-- **A limit widens no expression by more than its widening**, whatever is around it. -/
theorem widened_parts (ho : o.Nonneg) (hchar : 0 ≤ o.defaultCharWidth) (hlimit : 0 < limit)
    (e : Expr) :
    Parts.Widened limit (e.widening o (some limit) false) (e.widening o (some limit) true)
      (e.parts o (some limit)) (e.parts o none) := by
  induction e with
  | identifier name =>
    exact .single (.refl (flat_boxSize hchar name).width (le_refl 0))
  | terminal text =>
    exact .single (.refl (flat_boxSize hchar text).width (le_refl 0))
  | special text =>
    exact .single (.refl (flat_remarkSize hchar text).width (le_refl 0))
  | group inner ih => exact .single ih.node
  | repetition inner ih =>
    exact .single (Measured.widened_zeroOrMore ho (widening_nonneg o _ _ inner) ih.node)
  | optional inner ih =>
    exact .single (Measured.widened_optional ho (widening_nonneg o _ _ inner) ih.node)
  | choice left right ihl ihr => exact ihl.either ho ihr
  | sequence left right ihl ihr =>
    have hitems : List.Forall₂
        (Measured.Widened limit ((sequence left right).widening o (some limit) true))
        (((sequence left right).parts o (some limit)).items (some limit)).toList
        (((sequence left right).parts o none).items none).toList := by
      rw [widening_inside, parts, parts, Parts.items_followedBy, Parts.items_followedBy]
      exact List.rel_append (Measured.widened_all_mono ihl.items (le_max_left _ _))
        (Measured.widened_all_mono ihr.items (le_max_right _ _))
    have hnode := Measured.widened_wrapped ho (widening_nonneg o _ true _)
      (items_ne_nil o (some limit) (sequence left right)) hitems
    rw [widening_sequence hlimit]
    exact ⟨hnode, .cons hnode .nil, hitems⟩

/-- **A limit widens no node by more than the widening of its expression.** -/
theorem spacedWidth_toNode_le (ho : o.Nonneg) (hchar : 0 ≤ o.defaultCharWidth) (wrap : Option K)
    (e : Expr) :
    ((e.toNode o wrap).metrics o).spacedWidth ≤
      ((e.toNode o none).metrics o).spacedWidth + e.widening o wrap false := by
  rcases e.toNode_cases o wrap with hsame | ⟨limit, rfl, hlimit⟩
  · rw [hsame]
    exact le_add_of_nonneg_right (widening_nonneg o wrap false e)
  · have hplain : e.toNode o none = ((e.parts o none).node none).node := rfl
    have hnode := (widened_parts ho hchar (ExactScalar.zero_eq.symm.trans_lt hlimit) e).node
    rw [toNode_some o hlimit, hplain, Measured.metrics_node, Measured.metrics_node]
    exact Metrics.Widened.spacedWidth_le hnode

end Expr

/-! ## Rules -/

/-- A diagram of a rule is as wide as its markers and the node between them. -/
theorem Rule.width_diagram (r : Rule) (style : RuleStyle K) :
    (r.diagram o style).metrics.width =
      ((Node.start style.marker (style.label r)).metrics o).spacedWidth +
        (((r.body.toNode o style.wrapWidth).metrics o).spacedWidth +
          ((Node.finish style.marker).metrics o).spacedWidth) := by
  rw [r.diagram_eq, Diagram.metrics, rowSize_width]
  simp only [Node.figures, List.map_cons, List.map_nil, spread_cons]
  exact congrArg _ (congrArg _ (add_zero _))

/-- **A limit widens no rule by more than its widening**: by the most that a broken sequence in it,
and the broken sequences around that one, fall short of the room that their stacks need. -/
theorem Rule.width_diagram_le (ho : o.Nonneg) (hchar : 0 ≤ o.defaultCharWidth) (r : Rule)
    (style : RuleStyle K) :
    (r.diagram o style).metrics.width ≤
      (r.diagram o { style with wrapWidth := none }).metrics.width +
        r.body.widening o style.wrapWidth false := by
  let front := ((Node.start style.marker (style.label r)).metrics o).spacedWidth
  let back := ((Node.finish style.marker).metrics o).spacedWidth
  have hbody := r.body.spacedWidth_toNode_le ho hchar style.wrapWidth
  have hwidth : (r.diagram o style).metrics.width =
      front + (((r.body.toNode o style.wrapWidth).metrics o).spacedWidth + back) :=
    r.width_diagram style
  have hplain : (r.diagram o { style with wrapWidth := none }).metrics.width =
      front + (((r.body.toNode o none).metrics o).spacedWidth + back) := r.width_diagram _
  linarith

/-- A choice between two terminals, and a terminal behind it. -/
def Rule.narrowEnd : Rule :=
  ⟨"a", .sequence (.choice (.terminal "b") (.terminal "c")) (.terminal "d")⟩

/-- A limit does make this rule wider: its last terminal takes up less than a stack needs. -/
theorem Rule.wrapping_widens :
    let o := Options.exact
    let plain := (Rule.narrowEnd.diagram o { wrapWidth := none }).metrics.width
    let wrapped := (Rule.narrowEnd.diagram o { wrapWidth := some 100 }).metrics.width
    plain = 167 ∧ wrapped = 337 / 2 ∧ ¬ wrapped ≤ plain := by
  decide +kernel

/-- The widening of this rule is how much wider it gets. -/
theorem Rule.width_diagram_le_narrowEnd :
    let o := Options.exact
    let plain := (Rule.narrowEnd.diagram o { wrapWidth := none }).metrics.width
    let wrapped := (Rule.narrowEnd.diagram o { wrapWidth := some 100 }).metrics.width
    Rule.narrowEnd.body.widening o (some 100) false = 3 / 2 ∧ wrapped ≤ plain + 3 / 2 := by
  intro o plain wrapped
  have hchar : 0 ≤ o.defaultCharWidth := by norm_num [o, Options.exact]
  have hwidening : Rule.narrowEnd.body.widening o (some 100) false = 3 / 2 := by decide +kernel
  have hwidth := Rule.width_diagram_le Options.exact_nonneg hchar Rule.narrowEnd
    { wrapWidth := some 100 }
  rw [hwidening] at hwidth
  exact ⟨hwidening, hwidth⟩

end SyntaxDiagram
