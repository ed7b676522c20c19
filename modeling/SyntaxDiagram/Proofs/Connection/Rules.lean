import SyntaxDiagram.Proofs.Connection.Nodes

/-!
# Ways through the diagrams of rules

* `Path.HasStroke`: a path that leads from one point to another on its way.
* `Diagram.lines`: all lines of a diagram.
* `Rule.diagram_connected`: lines join the marker at the start of the diagram of a rule with the one
  at its end, through everything in between.
-/

namespace SyntaxDiagram

open Layout

/-- A stroke of a path leads from one point to another. Unlike a line, the path may start and end
elsewhere, as those of the markers do. -/
def Path.HasStroke {α : Type} [Scalar α] (p : Path α) (a b : α × α) : Prop :=
  ∃ (front : Path α) (stroke : Command α) (after : List (Command α)),
    p = after.foldl push (front.push stroke) ∧ stroke.isStroke ∧
      front.finish = a ∧ (front.push stroke).finish = b

/-- All lines of a diagram. -/
def Diagram.lines {α : Type} [Scalar α] (d : Diagram α) (x y : α) (padding : Padding α) :
    List (Path α) :=
  tracks (d.pieces x y padding) ++
    (contents (d.pieces x y padding)).flatMap (Placed.lines d.options)

variable {K : Type} [ExactScalar K] {o : Options K}

/-! ## Markers -/

/-- The ticks of the marker at the start end where it is entered. -/
theorem finish_startTicks (style : MarkerStyle) (x y : K) :
    (startTicks style (start x (y - 10))).finish = (x, y) := by
  have hlong : Scalar.clamp (20 : K) = 20 := Path.clamp_of_nonneg (by norm_num)
  cases style with
  | simple =>
    rw [startTicks, Path.finish_m, Path.down, Path.finish_v, Path.finish_m, Path.down,
      Path.finish_v]
    refine Prod.ext ?_ ?_
    · change x + 10 + -10 = x
      ring
    · change y - 10 + Scalar.clamp 20 + -20 + Scalar.clamp 20 + -10 = y
      rw [hlong]
      ring
  | complex =>
    rw [startTicks, Path.finish_m, Path.down, Path.finish_v]
    refine Prod.ext ?_ ?_
    · exact ExactScalar.add_zero_eq x
    · change y - 10 + Scalar.clamp 20 + -10 = y
      rw [hlong]
      ring

/-- **The marker at the start** has a stroke through its slot: its last one. -/
theorem hasStroke_startFigure (style : MarkerStyle) (label : String) (x y : K) :
    let p := (startFigure o style label).item.place x y (startSize o label).width
    ∃ path ∈ p.tracks, path.HasStroke p.ports.entry p.ports.exit := by
  intro p
  have hlevel : (startSize o label).height = 0 := (flat_startSize label).level
  have htracks : p.tracks = tracks (startPieces o style label x y) := tracks_map _ _
  have hticks := finish_startTicks style x y
  rw [htracks]
  refine ⟨_, List.mem_cons_self, _, .horizontal _, [], rfl, rfl, hticks, ?_⟩
  refine (Path.finish_h _ _).trans (Prod.ext ?_ ?_)
  · rw [hticks, Path.clamp_of_nonneg (flat_startSize label).width]
    rfl
  · rw [hticks]
    change y = y + (startSize o label).height
    rw [hlevel, add_zero]

/-- **The marker at the end** has a stroke through its slot: its first one. -/
theorem hasStroke_endFigure (style : MarkerStyle) (x y : K) :
    let p := (endFigure o style).item.place x y (endSize : Metrics K).width
    ∃ path ∈ p.tracks, path.HasStroke p.ports.entry p.ports.exit := by
  intro p
  have htracks : p.tracks = [endPath style x y] := by
    change (endDrawing o style x y).path?.toList = _
    rw [endDrawing, debugMarks]
    -- marks of its size may stand in front of the path
    cases o.debug <;> rfl
  have hstroke : ((start x y).push (.horizontal 20)).finish = p.ports.exit := by
    refine (Path.finish_h _ _).trans (Prod.ext rfl ?_)
    exact (ExactScalar.add_zero_eq y).symm
  rw [htracks]
  refine ⟨_, List.mem_singleton_self _, start x y, .horizontal 20, ?_⟩
  cases style with
  | simple =>
    exact ⟨[.move (-10) (-10), .vertical 20, .move 10 (-20), .vertical 20], rfl, rfl, rfl, hstroke⟩
  | complex => exact ⟨[.move (Scalar.ofNat 0) (-10), .vertical 20], rfl, rfl, rfl, hstroke⟩

/-! ## Rows -/

/-- Three nodes in the row of a diagram are placed on one line, and lines lead from each of them to
the next one. -/
theorem Diagram.pieces_three {first middle last : Node K}
    (h : ∀ n ∈ [first, middle, last], Figure.Contained o (n.figure o)) (x y : K)
    (padding : Padding K) :
    let d : Diagram K := ⟨[first, middle, last], o⟩
    ∃ x₁ x₂ x₃ y' : K,
      let p := first.place o x₁ y' (first.metrics o).width
      let q := middle.place o x₂ y' (middle.metrics o).width
      let r := last.place o x₃ y' (last.metrics o).width
      contents (d.pieces x y padding) = [p, q, r] ∧
        Leads (tracks (d.pieces x y padding)) p.ports.exit q.ports.entry ∧
        Leads (tracks (d.pieces x y padding)) q.ports.exit r.ports.entry := by
  intro d
  have hcontained : ∀ f ∈ [first, middle, last].map (Node.figure o), Figure.Contained o f :=
    List.forall_mem_map.2 h
  rw [pieces, Node.figures_eq_map, tracks_map, contents_map]
  generalize x + padding.left.getD (padding.top.getD 20) = left
  generalize y + padding.top.getD 20 + _ = line
  -- the sites of the three figures
  obtain ⟨hchain, -⟩ := rowPieces_chained true false
    ([first, middle, last].map (Node.figure o)) left line
  have hplaces := rowPieces_between true false (fun f hf => (hcontained f hf).flat) left line
  have hsites := contents_rowPieces left line true false
    ([first, middle, last].map (Node.figure o))
  rw [parts] at hchain
  obtain ⟨s₁, rest₁, heq, hs₁, hrest₁⟩ := List.map_eq_cons_iff.1 hsites
  obtain ⟨s₂, rest₂, rfl, hs₂, hrest₂⟩ := List.map_eq_cons_iff.1 hrest₁
  obtain ⟨s₃, rest₃, rfl, hs₃, hrest₃⟩ := List.map_eq_cons_iff.1 hrest₂
  obtain rfl := List.map_eq_nil_iff.1 hrest₃
  rw [heq] at hchain hplaces ⊢
  have hsettle : ∀ {n : Node K} {s : Site K (Drawable K)}, n ∈ [first, middle, last] →
      s ∈ [s₁, s₂, s₃] → s.toSized = n.figure o →
        settle s = n.place o s.x line (n.metrics o).width ∧ (settle s).ports = s.ports := by
    intro n s hn hs hfigure
    obtain ⟨hslot, hline, -⟩ := hplaces s hs
    refine ⟨?_, Figure.Contained.ports_settle (hfigure ▸ h n hn)⟩
    rw [settle_eq_place hfigure, Node.metrics, ← hfigure, hslot, hline]
  obtain ⟨h₁, hports₁⟩ := hsettle (by simp) (by simp) hs₁
  obtain ⟨h₂, hports₂⟩ := hsettle (by simp) (by simp) hs₂
  obtain ⟨h₃, hports₃⟩ := hsettle (by simp) (by simp) hs₃
  obtain ⟨-, hto₂, hto₃, -⟩ := hchain
  refine ⟨s₁.x, s₂.x, s₃.x, line, ?_⟩
  rw [← h₁, ← h₂, ← h₃]
  refine ⟨rfl, ?_, ?_⟩
  · rw [hports₁, hports₂]
    exact hto₂
  · rw [hports₂, hports₃]
    exact hto₃

/-- **Drawings are connected.** In the diagram of a rule whose sequences are not broken into rows,
the lines of every node meet the nodes in it and lead through all of them, from the left end of the
slot of the node to its right end on the same line, and loops lead back. So lines lead from the
marker at the start to every node, through it, and on to the marker at the end. -/
theorem Rule.diagram_connected (r : Rule) {style : RuleStyle K} (hwrap : style.wrapWidth = none)
    (ho : o.Nonneg) (hchar : 0 ≤ o.defaultCharWidth) (x y : K) (padding : Padding K) :
    let d := r.diagram o style
    ∃ start body finish : Placed K,
      contents (d.pieces x y padding) = [start, body, finish] ∧
      start.site.item = .start ∧ finish.site.item = .finish ∧
      (body.walk.map Placed.sized).Perm ((r.body.toNode o none).walk.map (Node.sized o)) ∧
      body.Connected o ∧
      (∃ path ∈ start.tracks, path.HasStroke start.ports.entry start.ports.exit) ∧
      (∃ path ∈ finish.tracks, path.HasStroke finish.ports.entry finish.ports.exit) ∧
      ∀ q ∈ body.walk,
        Ports.Passes (d.lines x y padding) ⟨start.ports.exit, finish.ports.entry⟩ q.ports := by
  intro d
  have hd : d = ⟨[.start style.marker (style.label r), r.body.toNode o none,
      .finish style.marker], o⟩ := by
    rw [← hwrap]
    exact r.diagram_eq o style
  have hitems := r.contained_items hwrap ho hchar
  rw [show (r.diagram o style).items = _ from congrArg Diagram.items hd] at hitems
  obtain ⟨x₁, x₂, x₃, y', hcontents, hstart, hfinish⟩ := Diagram.pieces_three hitems x y padding
  rw [← hd] at hcontents hstart hfinish
  let node := r.body.toNode o none
  let body := node.place o x₂ y' (node.metrics o).width
  have hbody : body.Connected o :=
    ((r.body.unwrapped_toNode o).connected ho hchar).connected x₂ y' _ (le_refl _)
  have hpieces : tracks (d.pieces x y padding) ⊆ d.lines x y padding :=
    List.subset_append_left _ _
  have hlines : body.lines o ⊆ d.lines x y padding := by
    intro path hpath
    rw [Diagram.lines, hcontents, show d.options = o from congrArg Diagram.options hd]
    exact List.mem_append_right _ (List.mem_flatMap.2 ⟨body, by simp [body, node], hpath⟩)
  refine ⟨_, body, _, hcontents, ?_, ?_, node.walk_place o x₂ y' _, hbody, ?_, ?_, fun q hq => ?_⟩
  · exact congrArg Sized.item (Placed.sized_place o (.start _ _) x₁ y' _)
  · exact congrArg Sized.item (Placed.sized_place o (.finish _) x₃ y' _)
  · rw [Node.place, Node.metrics, Node.figure]
    exact hasStroke_startFigure style.marker (style.label r) x₁ y'
  · rw [Node.place, Node.metrics, Node.figure]
    exact hasStroke_endFigure style.marker x₃ y'
  · -- through the whole body, and in it through the node
    have hwhole : Ports.Passes (d.lines x y padding) ⟨_, _⟩ body.ports :=
      ⟨hstart.mono hpieces, hbody.leads.mono hlines, hfinish.mono hpieces⟩
    exact hwhole.trans ((hbody.passes body body.self_mem_walk q hq).mono hlines)

/-- A loop over a choice, with the usual measures and some room on the left. -/
theorem Rule.diagram_connected_loop :
    ∃ o : Options Rat, o.arcRadius = 10 ∧ o.verticalSeparation = 8 ∧ o.defaultCharWidth = 17 / 2 ∧
      let padding : Padding Rat := { left := some 5 }
      let d := (Rule.mk "list" (.repetition (.choice (.identifier "item") (.terminal ",")))).diagram
        o {}
      ∃ start body finish : Placed Rat, contents (d.pieces 0 0 padding) = [start, body, finish] ∧
        ∀ q ∈ body.walk,
          Ports.Passes (d.lines 0 0 padding) ⟨start.ports.exit, finish.ports.entry⟩ q.ports := by
  let o : Options Rat :=
    { debug := false, verticalSeparation := 8, arcRadius := 10, diagramClass := "railroad-diagram",
      strokeOddPixelLength := true, internalAlignment := .center, defaultCharWidth := 17 / 2,
      commentCharWidth := 7 }
  have hwrap : ({} : RuleStyle Rat).wrapWidth = none := rfl
  have ho : o.Nonneg := ⟨by norm_num [o], by norm_num [o]⟩
  obtain ⟨start, body, finish, hcontents, -, -, -, -, -, -, hpasses⟩ := Rule.diagram_connected
    (Rule.mk "list" (.repetition (.choice (.identifier "item") (.terminal ",")))) hwrap ho
    (by norm_num [o]) 0 0 { left := some 5 }
  exact ⟨o, rfl, rfl, rfl, start, body, finish, hcontents, hpasses⟩

end SyntaxDiagram
