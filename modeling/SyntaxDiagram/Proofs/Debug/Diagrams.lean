import SyntaxDiagram.Proofs.Debug.Figures
import SyntaxDiagram.Proofs.Xml.Rules

/-!
# Diagrams with and without marks

The diagrams of rules and of descriptions are made of the same nodes with and without the debug
flag, although sequences are broken into rows by the widths of nodes that were measured with it.

* `Expr.toNode_congr`: options that agree on the sizes of nodes give the same nodes.
* `Diagram.OnlyMarks`: two diagrams that differ in the marks of their pictures only.
* `Options.debug_only_adds`: the diagrams of rules and descriptions.
-/

namespace SyntaxDiagram

variable {α : Type} [Scalar α]

/-! ## Nodes of expressions -/

/-- Widths that agree on the items give the same rows. -/
theorem wrapRows_congr {β : Type} {itemWidth otherWidth : β → α} (limit : α) (row : List β)
    (width : α) {items : List β} (h : ∀ b ∈ items, itemWidth b = otherWidth b) :
    wrapRows itemWidth limit row width items = wrapRows otherWidth limit row width items := by
  induction items generalizing row width with
  | nil => rfl
  | cons item rest ih =>
    obtain ⟨hitem, hrest⟩ := List.forall_mem_cons.1 h
    rw [wrapRows, wrapRows, hitem, ih _ _ hrest, ih _ _ hrest]

section Congr

variable {o o' : Options α} {wrap : Option α}

theorem Node.wrapped?_congr {items : List (Node α)}
    (h : ∀ n ∈ items, n.metrics o = n.metrics o') :
    wrapped? o wrap items = wrapped? o' wrap items := by
  cases wrap with
  | none => rfl
  | some limit =>
    rw [wrapped?, wrapped?, wrapRows_congr limit [] 0 fun n hn => by rw [h n hn]]

namespace Expr

variable {S : Node α → Prop}

/-- The operands of nested sequences are of a sort that contains what expressions make of it. -/
theorem exists_operands (hS : Parts.Closed o wrap (fun _ => True) S) (e : Expr) :
    ∃ ns, e.operands? o wrap = .ok ns ∧ ∀ n ∈ ns, S n := by
  refine ⟨_, (buildIn?_eq o wrap e).2.2, fun n hn => ?_⟩
  obtain ⟨m, hm, rfl⟩ := List.mem_map.1 hn
  exact (all_parts hS fun _ _ => trivial).items hS m (Array.mem_toList_iff.1 hm)

/-- Whatever is around an expression, options that agree on the sizes of nodes build it in the same
way. Sizes are looked at where a sequence is broken into rows. -/
theorem buildIn?_congr (hS : Parts.Closed o wrap (fun _ => True) S)
    (h : ∀ n, S n → n.metrics o = n.metrics o') (e : Expr) :
    e.buildIn? o wrap = e.buildIn? o' wrap ∧ e.branches? o wrap = e.branches? o' wrap ∧
      e.operands? o wrap = e.operands? o' wrap := by
  induction e with
  | identifier | terminal | special =>
    simp only [buildIn?, branches?, operands?, true_and]
  | group inner ih | repetition inner ih | optional inner ih =>
    simp only [buildIn?, branches?, operands?, ih.1, true_and]
  | choice left right ihl ihr =>
    simp only [buildIn?, branches?, operands?, ihl.2.1, ihr.2.1, true_and]
  | sequence left right ihl ihr =>
    obtain ⟨nl, hnl, hsl⟩ := left.exists_operands hS
    obtain ⟨nr, hnr, hsr⟩ := right.exists_operands hS
    have hbuild : (sequence left right).buildIn? o wrap =
        (sequence left right).buildIn? o' wrap := by
      rw [buildIn?, buildIn?, ← ihl.2.2, ← ihr.2.2, hnl, hnr]
      exact Node.wrapped?_congr (List.forall_mem_append.2
        ⟨fun n hn => h n (hsl n hn), fun n hn => h n (hsr n hn)⟩)
    refine ⟨hbuild, ?_, ?_⟩
    · simp only [branches?, hbuild]
    · simp only [operands?, ihl.2.2, ihr.2.2]

/-- **The node of an expression** is the same for options that agree on the sizes of the nodes that
expressions have. -/
theorem toNode_congr (hS : ∀ wrap, Parts.Closed o wrap (fun _ => True) S)
    (h : ∀ n, S n → n.metrics o = n.metrics o') (wrap : Option α) (e : Expr) :
    e.toNode o wrap = e.toNode o' wrap := by
  have hbuild : e.build? o wrap = e.build? o' wrap := (buildIn?_congr (hS _) h e).1
  rw [build?_eq, build?_eq] at hbuild
  exact Except.ok.inj hbuild

end Expr

end Congr

/-! ## Diagrams -/

namespace Diagram

/-- The same diagram with the given debug flag. -/
def withDebug (d : Diagram α) (debug : Bool) : Diagram α :=
  { d with options := d.options.withDebug debug }

/-- A diagram and the same one without the debug flag: both have the same nodes, all sizes are
equal, and so are the pictures once the marks of all elements are left out. -/
structure OnlyMarks (number : α → String) (marked plain : Diagram α) : Prop where
  items : marked.items = plain.items
  sizes : ∀ n ∈ marked.walk, n.metrics marked.options = n.metrics plain.options
  metrics : marked.metrics = plain.metrics
  picture : ∀ x y padding, ((marked.draw x y padding).toElement number).unmarked =
    (plain.draw x y padding).toElement number

section Draw

variable {d : Diagram α} (h : ∀ n ∈ d.items, n.MarkedOnly d.options)
include h

theorem metrics_withDebug : (d.withDebug true).metrics = (d.withDebug false).metrics :=
  congrArg Layout.rowSize (Layout.metrics_of_maps (Node.unmarked_figures h))

theorem unmarkeds_pieces (x y : α) (padding : Padding α) :
    Drawing.unmarkeds (Placed.drawPieces ((d.withDebug true).pieces x y padding)) =
      Placed.drawPieces ((d.withDebug false).pieces x y padding) := by
  have hfigures := Node.unmarked_figures h
  refine (Layout.unmarkeds_rowPieces hfigures _ _).trans ?_
  change Placed.drawPieces ((Layout.rowPieces _ _ _ _ (y + _ + (Layout.rowSize
    ((Node.figures (d.options.withDebug true) d.items).map (·.metrics))).up)).map _) = _
  rw [Layout.metrics_of_maps hfigures]
  rfl

/-- **The picture of a diagram** is made of those of its nodes. -/
theorem unmarked_draw (x y : α) (padding : Padding α) :
    ((d.withDebug true).draw x y padding).unmarked = (d.withDebug false).draw x y padding := by
  have hshift (debug : Bool) :
      (if (d.withDebug debug).options.strokeOddPixelLength then
          ⟨[("transform", .text "translate(.5 .5)")]⟩ else ∅ : Attributes (Value α)).unmarked =
        if d.options.strokeOddPixelLength then
          ⟨[("transform", .text "translate(.5 .5)")]⟩ else ∅ := by
    change Attributes.unmarked (if d.options.strokeOddPixelLength then _ else _) = _
    split <;> rfl
  rw [draw, Drawing.unmarked, Drawing.unmarkeds, Drawing.unmarked, hshift, unmarkeds_pieces h,
    draw, canvasWidth, canvasHeight, metrics_withDebug h]
  rfl

end Draw

/-- Diagrams of nodes that were not given marks. -/
theorem onlyMarks_withDebug (number : α → String) {d : Diagram α}
    (hfree : ∀ n ∈ d.items, ∀ m ∈ n.walk, m.MarksFree) :
    OnlyMarks number (d.withDebug true) (d.withDebug false) := by
  have hwalk : ∀ n ∈ d.walk, n.MarkedOnly d.options := by
    intro n hn
    rw [walk_eq] at hn
    obtain ⟨root, hroot, hn⟩ := List.mem_flatMap.1 hn
    exact Node.markedOnly (hfree root hroot) n hn
  have hitems : ∀ n ∈ d.items, n.MarkedOnly d.options := fun n hn =>
    Node.markedOnly (hfree n hn) n n.self_mem_walk
  exact
    { items := rfl
      sizes := fun n hn => Layout.metrics_of_map (hwalk n hn)
      metrics := metrics_withDebug hitems
      picture := fun x y padding => by rw [Drawing.unmarked_toElement, unmarked_draw hitems] }

end Diagram

/-! ## Rules -/

/-- The attributes that a description gives to boxed text. -/
theorem Description.names_linkAttributes {href title : Option String} {name : String}
    (h : name ∈ (linkAttributes href title).names) : name = "href" ∨ name = "title" := by
  have hnames : (linkAttributes href title).names =
      href.toList.map (fun _ => "href") ++ title.toList.map (fun _ => "title") := by
    cases href <;> cases title <;> rfl
  rw [hnames, List.mem_append] at h
  exact h.imp (fun h => List.eq_of_mem_map_const h) fun h => List.eq_of_mem_map_const h

/-- No text of a description is the name of an attribute. -/
theorem Description.tells_marksFree {α : Type} :
    Tells (fun _ _ => True) (Node.MarksFree (α := α)) := by
  have hlink (href title : Option String) :
      ∀ name ∈ (linkAttributes href title).names, Attributes.isDebugMark name = false := by
    intro name hname
    rcases names_linkAttributes hname with rfl | rfl <;> rfl
  exact
    { empty := trivial
      terminal := fun {_ href title} => iff_of_true (hlink href title) (by simp)
      nonTerminal := fun {_ href title} => iff_of_true (hlink href title) (by simp)
      comment := iff_of_true trivial (by simp)
      start := iff_of_true trivial trivial
      other := fun {n} h => by
        cases n with
        | terminal | nonTerminal => cases h
        | _ => trivial }

variable (o : Options α)

/-- The nodes of an expression are the same with and without the flag: rows are broken at widths
that do not depend on it. -/
theorem Expr.toNode_withDebug (wrap : Option α) (e : Expr) :
    e.toNode (o.withDebug true) wrap = e.toNode (o.withDebug false) wrap :=
  e.toNode_congr (Description.tells_marksFree.closed _)
    (fun n hn => Layout.metrics_of_map (Node.markedOnly hn n n.self_mem_walk)) wrap

/-- So the diagram of a rule is the same one, but for the flag. -/
theorem Rule.diagram_withDebug (style : RuleStyle α) (r : Rule) :
    r.diagram (o.withDebug true) style = (r.diagram (o.withDebug false) style).withDebug true := by
  rw [r.diagram_eq, r.diagram_eq, r.body.toNode_withDebug]
  rfl

theorem Rule.onlyMarks (number : α → String) (style : RuleStyle α) (r : Rule) :
    (r.diagram (o.withDebug true) style).OnlyMarks number (r.diagram (o.withDebug false) style) := by
  have hfree : ∀ n ∈ (r.diagram (o.withDebug false) style).items, ∀ m ∈ n.walk, m.MarksFree :=
    r.forall_walk_items Description.tells_marksFree trivial fun _ _ => trivial
  have honly := Diagram.onlyMarks_withDebug number hfree
  have hplain : (r.diagram (o.withDebug false) style).withDebug false =
      r.diagram (o.withDebug false) style := by
    rw [r.diagram_eq]
    rfl
  rwa [← r.diagram_withDebug, hplain] at honly

/-! ## Descriptions -/

namespace Description.TopLevel

omit [Scalar α] in
/-- What is described does not depend on the flag, and neither does an error. -/
theorem toDiagram_withDebug (debug : Bool) (top : TopLevel) :
    top.toDiagram (o.withDebug debug) = (top.toDiagram o).map (Diagram.withDebug · debug) := by
  have hbuilt {β : Type} (x : Except Error β) (make : Options α → β → Diagram α)
      (hmake : ∀ b, make (o.withDebug debug) b = (make o b).withDebug debug) :
      (x >>= fun b => pure (make (o.withDebug debug) b) : Except Error (Diagram α)) =
        (x >>= fun b => pure (make o b)).map (Diagram.withDebug · debug) := by
    cases x with
    | error e => rfl
    | ok b => exact congrArg Except.ok (hmake b)
  cases top with
  | row items => exact hbuilt (buildAll items) .simple fun _ => rfl
  | one d =>
    cases d with
    | diagram items complex =>
      cases complex with
      | true => exact hbuilt (buildAll items) .fragment fun _ => rfl
      | false => exact hbuilt (buildAll items) .simple fun _ => rfl
    | _ => exact hbuilt (build _) (fun o n => .simple o [n]) fun _ => rfl

/-- A description has a diagram with the flag if it has one without, and then they differ in marks
only. -/
theorem onlyMarks (number : α → String) {top : TopLevel} {d : Diagram α}
    (hd : top.toDiagram o = .ok d) : (d.withDebug true).OnlyMarks number (d.withDebug false) :=
  Diagram.onlyMarks_withDebug number
    (forall_walk_items tells_marksFree hd fun _ _ => trivial)

end Description.TopLevel

/-- **The debug flag only adds.** Whatever the other options are, the diagram of a rule, or of a
description, has the same nodes with the flag as without it. All nodes have the same sizes, and so
have the diagrams, wherever rows are broken. The picture with the flag becomes the one without it
when the sizes and kinds that were recorded are taken out of every element. A description that has
no diagram has none for the same reason. -/
theorem Options.debug_only_adds (number : α → String) :
    (∀ (style : RuleStyle α) (r : Rule),
      (r.diagram (o.withDebug true) style).OnlyMarks number
        (r.diagram (o.withDebug false) style)) ∧
    ∀ top : Description.TopLevel,
      (∃ error, top.toDiagram (o.withDebug true) = .error error ∧
        top.toDiagram (o.withDebug false) = .error error) ∨
      ∃ marked plain, top.toDiagram (o.withDebug true) = .ok marked ∧
        top.toDiagram (o.withDebug false) = .ok plain ∧ marked.OnlyMarks number plain := by
  refine ⟨fun style r => r.onlyMarks o number style, fun top => ?_⟩
  rw [top.toDiagram_withDebug, top.toDiagram_withDebug]
  cases hd : top.toDiagram o with
  | error error => exact .inl ⟨error, rfl, rfl⟩
  | ok d => exact .inr ⟨_, _, rfl, rfl, top.onlyMarks o number hd⟩

end SyntaxDiagram
