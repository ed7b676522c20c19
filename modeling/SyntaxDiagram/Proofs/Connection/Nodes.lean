import SyntaxDiagram.Proofs.Connection.Layouts
import SyntaxDiagram.Proofs.Containment

/-!
# Ways through nodes

What holds of the layout of one node is carried through all nodes in it.

* `Placed.lines`: the lines in a node, at any depth, with those across the texts in it.
* `Placed.Wired`: the lines of one node meet the nodes in it.
* `Placed.LoopsBack`: a way back under an item, through a separator.
* `Placed.Connected`, `Figure.Connected`: all nodes in a node are wired, and the lines in each of
  them lead through every node in it.
* `Node.Unwrapped.connected`: nodes without rows are so, wherever they are placed.
-/

namespace SyntaxDiagram

open Layout

theorem Node.Kind.isAligned_of_isJoined {kind : Node.Kind} (h : kind.isJoined) :
    kind.isAligned := by
  cases kind <;> first | rfl | cases h

/-- Whether a node is a text, which is drawn on the track. -/
def Node.Kind.isText : Node.Kind → Bool
  | .terminal | .nonTerminal | .comment => true
  | _ => false

/-- The path that an element draws, if it draws one. -/
def Drawing.path? {α : Type} : Drawing α → Option (Path α)
  | text "path" attributes _ =>
    match attributes.get? "d" with
    | some (.path _ path) => some path
    | _ => none
  | _ => none

section

variable {α : Type}

/-- The lines that are drawn right in a node. -/
def Placed.tracks : Placed α → List (Path α)
  | group _ _ pieces => Layout.tracks pieces
  | bare _ drawing => drawing.path?.toList

variable [Scalar α]

/-- The ends of the slot of a node. -/
def Placed.ports (p : Placed α) : Ports α := p.site.ports

/-- The ends of a node itself, between the gaps on both sides of it. -/
def Placed.inner (o : Options α) (p : Placed α) : Ports α :=
  ⟨(p.left o, p.site.y), (p.left o + p.site.metrics.width, p.site.y + p.site.metrics.height)⟩

/-- The line across a text, from one side of its box to the other. -/
def Placed.across (o : Options α) (p : Placed α) : List (Path α) :=
  if p.site.item.isText then [(start (p.left o) p.site.y).h p.site.metrics.width] else []

/-- All lines in a node. -/
def Placed.lines (o : Options α) (p : Placed α) : List (Path α) :=
  p.walk.flatMap fun q => q.tracks ++ q.across o

/-- The lines of a node meet the nodes in it. -/
def Placed.Wired (o : Options α) (p : Placed α) : Prop :=
  p.site.item.Wired p.tracks p.ports (p.inner o) (p.nodes.map Placed.ports)

/-- Lines lead through a node, and from the ends of another one to those of this one. -/
structure Ports.Passes (paths : List (Path α)) (outer p : Ports α) : Prop where
  reach : Leads paths outer.entry p.entry
  through : Leads paths p.entry p.exit
  leave : Leads paths p.exit outer.exit

/-- An item with a way back from its end to its start, through a separator under it. Its lines are
drawn from the start to the end as all others are, so the way back goes against them. -/
def Placed.LoopsBack (o : Options α) (p : Placed α) : Prop :=
  ∃ item separator, p.nodes = [item, separator] ∧
    Line p.tracks separator.ports.exit item.ports.exit ∧
    Leads (separator.lines o) separator.ports.entry separator.ports.exit ∧
    Line p.tracks item.ports.entry separator.ports.entry

/-- A placed node in which every node is wired, and has lines in it that lead through everything
in it. -/
structure Placed.Connected (o : Options α) (p : Placed α) : Prop where
  wired : ∀ q ∈ p.walk, q.Wired o
  passes : ∀ q ∈ p.walk, ∀ c ∈ q.walk, q.ports.Passes (q.lines o) c.ports
  loops : ∀ q ∈ p.walk, q.site.item = .oneOrMore → q.LoopsBack o

end

section

variable {α : Type} [Scalar α] {o : Options α} {paths more : List (Path α)} {outer p q : Ports α}

theorem Ports.Passes.mono (h : outer.Passes paths p) (hmore : paths ⊆ more) :
    outer.Passes more p :=
  ⟨h.reach.mono hmore, h.through.mono hmore, h.leave.mono hmore⟩

theorem Ports.Passes.trans (h : outer.Passes paths p) (h' : p.Passes paths q) :
    outer.Passes paths q :=
  ⟨h.reach.trans h'.reach, h'.through, h'.leave.trans h.leave⟩

namespace Placed

variable {p c : Placed α}

theorem lines_eq (p : Placed α) :
    p.lines o = p.tracks ++ p.across o ++ p.nodes.flatMap (lines o) := by
  rw [lines, walk_eq, List.flatMap_cons, List.flatMap_assoc]
  rfl

theorem tracks_subset_lines (p : Placed α) : p.tracks ⊆ p.lines o := by
  intro path hpath
  rw [lines_eq]
  exact List.mem_append_left _ (List.mem_append_left _ hpath)

theorem across_subset_lines (p : Placed α) : p.across o ⊆ p.lines o := by
  intro path hpath
  rw [lines_eq]
  exact List.mem_append_left _ (List.mem_append_right _ hpath)

theorem lines_subset_lines (hc : c ∈ p.nodes) : c.lines o ⊆ p.lines o := by
  intro path hpath
  rw [lines_eq]
  exact List.mem_append_right _ (List.mem_flatMap.2 ⟨c, hc, hpath⟩)

omit [Scalar α] in
theorem self_mem_walk (p : Placed α) : p ∈ p.walk := by
  rw [walk_eq]
  exact List.mem_cons_self

/-- The lines in a connected node lead through it. -/
theorem Connected.leads (h : p.Connected o) : Leads (p.lines o) p.ports.entry p.ports.exit :=
  (h.passes p p.self_mem_walk p p.self_mem_walk).through

/-- A loop that is wired leads back, if there is a way through its separator. -/
theorem Wired.loopsBack (h : p.Wired o)
    (hnodes : ∀ c ∈ p.nodes, Leads (c.lines o) c.ports.entry c.ports.exit)
    (hkind : p.site.item = .oneOrMore) : p.LoopsBack o := by
  have hjoins := h.joins
  rw [hkind] at hjoins
  obtain ⟨_, _, hparts, -, hdown, hup⟩ := hjoins
  obtain ⟨item, rest, heq, rfl, hrest⟩ := List.map_eq_cons_iff.1 hparts
  obtain ⟨separator, others, rfl, rfl, hothers⟩ := List.map_eq_cons_iff.1 hrest
  obtain rfl := List.map_eq_nil_iff.1 hothers
  exact ⟨item, separator, heq, hup, hnodes separator (by simp [heq]), hdown⟩

/-- It is enough to look at the nodes that are drawn right in a node. -/
theorem Connected.of_nodes (hwired : p.Wired o)
    (hthrough : Leads (p.lines o) p.ports.entry p.ports.exit)
    (hnodes : ∀ c ∈ p.nodes, c.Connected o ∧ p.ports.Passes (p.lines o) c.ports) :
    p.Connected o := by
  have hwalk : ∀ q ∈ p.walk, q = p ∨ ∃ c ∈ p.nodes, q ∈ c.walk := by
    intro q hq
    rw [walk_eq] at hq
    exact (List.mem_cons.1 hq).imp id List.mem_flatMap.1
  refine ⟨fun q hq => ?_, fun q hq => ?_, fun q hq => ?_⟩
  · rcases hwalk q hq with rfl | ⟨c, hc, hqc⟩
    · exact hwired
    · exact (hnodes c hc).1.wired q hqc
  · rcases hwalk q hq with rfl | ⟨c, hc, hqc⟩
    · intro b hb
      rcases hwalk b hb with rfl | ⟨c, hc, hbc⟩
      · exact ⟨.refl _ _, hthrough, .refl _ _⟩
      · -- to the node right in it that it is in, and from there on in that one
        obtain ⟨hconnected, hpasses⟩ := hnodes c hc
        have hinner := hconnected.passes c c.self_mem_walk b hbc
        exact hpasses.trans (hinner.mono (lines_subset_lines hc))
    · exact (hnodes c hc).1.passes q hqc
  · rcases hwalk q hq with rfl | ⟨c, hc, hqc⟩
    · exact hwired.loopsBack fun c hc => (hnodes c hc).1.leads
    · exact (hnodes c hc).1.loops q hqc

end Placed

end

variable {K : Type} [ExactScalar K] {o : Options K}

/-- The line across a text leads from one side of it to the other. -/
theorem Placed.line_across (p : Placed K) (hkind : p.site.item.isText)
    (hlevel : p.site.metrics.height = 0) :
    Line (p.across o) (p.inner o).entry (p.inner o).exit := by
  rw [across, if_pos hkind]
  refine ⟨_, List.mem_singleton_self _, ((Path.draws_start _ _).h _).to rfl ?_⟩
  change p.site.y = p.site.y + p.site.metrics.height
  rw [hlevel, add_zero]

/-- A figure in which all nodes are connected wherever the figure is put, as long as its slot is
wide enough. -/
structure Figure.Connected (o : Options K) (f : Figure K) : Prop extends Figure.Contained o f where
  connected (x y slot : K) (hslot : f.metrics.width ≤ slot) : (f.item.place x y slot).Connected o

theorem Figure.Contained.ports_settle {s : Site K (Drawable K)}
    (h : Figure.Contained o s.toSized) : (settle s).ports = s.ports := by
  have hsite : (settle s).site = ⟨⟨s.metrics, s.item.kind⟩, s.x, s.y, s.slot⟩ :=
    h.site s.x s.y s.slot
  rw [Placed.ports, hsite]
  rfl

namespace Layout

variable {kind : Node.Kind} {m : Metrics K} {attributes : Attributes (Value K)}
  {inside items : List (Figure K)}
  {pieces : (x y slot : K) → List (Piece K (Site K (Drawable K)))}

omit [ExactScalar K] in
theorem nodes_figure (x y slot : K) :
    ((figure kind m attributes inside pieces).item.place x y slot).nodes =
      (contents (pieces x y slot)).map settle := contents_map _ _

omit [ExactScalar K] in
theorem tracks_figure (x y slot : K) :
    ((figure kind m attributes inside pieces).item.place x y slot).tracks =
      tracks (pieces x y slot) := tracks_map _ _

theorem inner_figure (hkind : kind.isAligned) (x y slot : K) :
    ((figure kind m attributes inside pieces).item.place x y slot).inner o =
      ownPorts o m x y slot := by
  rw [Placed.inner, Placed.left]
  exact congrArg (fun left => slotPorts m left y m.width) (if_pos hkind)

/-- A placed node is wired as its pieces are. -/
theorem wired_place {x y slot : K} (hkind : kind.isAligned)
    (hitems : ∀ s ∈ contents (pieces x y slot), Figure.Contained o s.toSized)
    (hwired : kind.Wired (tracks (pieces x y slot)) (slotPorts m x y slot)
      (ownPorts o m x y slot) (parts (pieces x y slot))) :
    ((figure kind m attributes inside pieces).item.place x y slot).Wired o := by
  have hports : (contents (pieces x y slot)).map (Placed.ports ∘ settle) =
      parts (pieces x y slot) := List.map_congr_left fun s hs => (hitems s hs).ports_settle
  rw [Placed.Wired, tracks_figure, nodes_figure, inner_figure hkind, List.map_map, hports]
  exact hwired

/-- **One level of a diagram.** A figure is connected if the figures in it are, have slots that are
wide enough, and are joined by its lines. -/
theorem connected_figure (hkind : kind.isJoined)
    (hfigure : Figure.Contained o (figure kind m attributes inside pieces))
    (hitems : ∀ f ∈ items, Figure.Connected o f) (hsome : items = [] → kind = .sequence)
    (hcontents : ∀ x y slot, (contents (pieces x y slot)).map Site.toSized = items)
    (hwide : ∀ x y slot, ∀ s ∈ contents (pieces x y slot), s.metrics.width ≤ s.slot)
    (hwired : ∀ x y slot, kind.Wired (tracks (pieces x y slot)) (slotPorts m x y slot)
      (ownPorts o m x y slot) (parts (pieces x y slot))) :
    Figure.Connected o (figure kind m attributes inside pieces) := by
  refine ⟨hfigure, fun x y slot _ => ?_⟩
  have hitem : ∀ s ∈ contents (pieces x y slot), Figure.Connected o s.toSized :=
    fun s hs => hitems _ (hcontents x y slot ▸ List.mem_map_of_mem hs)
  let p := (figure kind m attributes inside pieces).item.place x y slot
  have hnodes : p.nodes = (contents (pieces x y slot)).map settle := nodes_figure x y slot
  have hpwired : p.Wired o := wired_place (Node.Kind.isAligned_of_isJoined hkind)
    (fun s hs => (hitem s hs).toContained) (hwired x y slot)
  have hconnected : ∀ c ∈ p.nodes, c.Connected o := by
    rw [hnodes]
    refine List.forall_mem_map.2 fun s hs => ?_
    exact (hitem s hs).connected s.x s.y s.slot (hwide x y slot s hs)
  -- the ways through the nodes in it, with the lines of this one
  have hthrough : ∀ part ∈ p.nodes.map Placed.ports, Leads (p.lines o) part.entry part.exit := by
    refine List.forall_mem_map.2 fun c hc => ?_
    exact (hconnected c hc).leads.mono (Placed.lines_subset_lines hc)
  have hempty : p.nodes.map Placed.ports = [] → kind = .sequence := by
    intro hnil
    rw [hnodes, List.map_map, List.map_eq_nil_iff] at hnil
    exact hsome (by rw [← hcontents x y slot, hnil, List.map_nil])
  have hjoins := hpwired.joins.mono (Placed.tracks_subset_lines (o := o) p)
  obtain ⟨hlead, hparts⟩ := hjoins.leads hkind hempty hthrough
  refine .of_nodes hpwired hlead fun c hc => ⟨hconnected c hc, ?_⟩
  have hport := List.mem_map_of_mem (f := Placed.ports) hc
  exact ⟨(hparts _ hport).1, hthrough _ hport, (hparts _ hport).2⟩

/-! ## Texts and bare lines -/

/-- A text is connected: lines lead to its box and from its box to the end of its slot. -/
theorem connected_text (hkind : kind.isText)
    (hfigure : Figure.Contained o (figure kind m attributes inside pieces))
    (hpieces : ∀ x y slot, ∃ drawings : List (Drawing K),
      pieces x y slot = sides o m x y slot ++ drawings.map Piece.shape) :
    Figure.Connected o (figure kind m attributes inside pieces) := by
  refine ⟨hfigure, fun x y slot _ => ?_⟩
  obtain ⟨drawings, hdrawings⟩ := hpieces x y slot
  have hlevel : m.height = 0 := hfigure.flat.level
  have haligned : kind.isAligned := by
    cases kind <;> first | rfl | cases hkind
  have hempty : contents (pieces x y slot) = [] := by
    rw [hdrawings, contents_append, contents_sides, contents_map_shape]
    rfl
  have hwired : kind.Wired (tracks (pieces x y slot)) (slotPorts m x y slot)
      (ownPorts o m x y slot) (parts (pieces x y slot)) := by
    rw [hdrawings]
    refine wired_sides hlevel ?_ ?_
    · rw [tracks_map_shape]
      exact nofun
    · cases kind <;> first | exact trivial | cases hkind
  let p := (figure kind m attributes inside pieces).item.place x y slot
  refine .of_nodes (wired_place haligned (by simp [hempty]) hwired) ?_ ?_
  · obtain ⟨front, back, hsides, hfront, hback⟩ := draws_sides (β := Drawable K) o m x y slot
    have htracks : p.tracks = [front, back] := by
      rw [show p.tracks = _ from tracks_figure x y slot, hdrawings, tracks_append, hsides,
        tracks_map_shape]
      rfl
    have hlines : [front, back] ⊆ p.lines o := htracks ▸ p.tracks_subset_lines
    have hinner : p.inner o = ownPorts o m x y slot := inner_figure haligned x y slot
    have hacross : Line (p.lines o) (p.inner o).entry (p.inner o).exit :=
      (p.line_across hkind hlevel).mono p.across_subset_lines
    rw [hinner] at hacross
    have hin : Line (p.lines o) _ _ := ⟨front, hlines (by simp), hfront⟩
    have hout : Line (p.lines o) _ _ := ⟨back, hlines (by simp), hback⟩
    exact (hin.leads.trans hacross.leads).trans hout.leads
  · rw [nodes_figure, hempty]
    exact nofun

/-- A bare line leads through its slot. -/
theorem connected_skipFigure : Figure.Connected o (skipFigure o) := by
  refine ⟨contained_skipFigure, fun x y slot hslot => ?_⟩
  let p := (skipFigure o).item.place x y slot
  have hslot' : 0 ≤ slot := ExactScalar.zero_eq.ge.trans hslot
  have hlevel : y + (Metrics.zero : Metrics K).height = y := ExactScalar.add_zero_eq y
  have hwidth : x + (Metrics.zero : Metrics K).width = x := ExactScalar.add_zero_eq x
  have hdraws : ((start x y).right slot).Draws p.ports.entry p.ports.exit :=
    ((Path.draws_start x y).right hslot').to rfl hlevel.symm
  -- the node itself has no width and stands at the start of its slot
  have hinner : p.ports.entry = (p.inner o).exit := Prod.ext hwidth.symm hlevel.symm
  refine .of_nodes ⟨hlevel, fun path hpath => ?_, trivial⟩ ?_ ?_
  · obtain rfl := List.mem_singleton.1 hpath
    exact .inr (.inl (hinner ▸ hdraws))
  · exact Line.leads ⟨_, p.tracks_subset_lines (List.mem_singleton_self _), hdraws⟩
  · exact fun c hc => absurd hc List.not_mem_nil

/-! ## Containers -/

theorem connected_sequenceFigure {items : List (Figure K)}
    (h : ∀ f ∈ items, Figure.Connected o f) : Figure.Connected o (sequenceFigure o items) := by
  have hcontained : ∀ f ∈ items, Figure.Contained o f := fun f hf => (h f hf).toContained
  have hflat : ∀ f ∈ items, f.metrics.Flat := fun f hf => (hcontained f hf).flat
  exact connected_figure rfl (contained_sequenceFigure hcontained) h (fun _ => rfl)
    (fun x y slot => contents_sequencePieces o x y slot items)
    (fun x y slot s hs => (sequencePieces_fits hflat o x y slot s hs).wide)
    (wired_sequencePieces hflat)

/-- A figure that is laid out as a choice. -/
theorem connected_choicePieces (hkind : kind.isChoice) (ho : o.Nonneg) {b : Branches (Figure K)}
    (h : ∀ f ∈ b.toList, Figure.Connected o f) :
    Figure.Connected o (figure kind (choiceSize o (b.map (·.metrics))) attributes inside
      (choicePieces o (choiceSize o (b.map (·.metrics))) b)) := by
  have hcontained : ∀ f ∈ b.toList, Figure.Contained o f := fun f hf => (h f hf).toContained
  have hflat : ∀ f ∈ b.toList, f.metrics.Flat := fun f hf => (hcontained f hf).flat
  have hjoined : kind.isJoined ∧ kind.isAligned := by
    cases kind <;> first | exact ⟨rfl, rfl⟩ | cases hkind
  refine connected_figure hjoined.1 (contained_choicePieces hjoined.2 ho hcontained)
    (fun f hf => h f (Branches.mem_toList.2 hf)) ?_
    (fun x y slot => contents_choicePieces o x y slot _ b)
    (fun x y slot s hs => (choicePieces_fits hflat ho x y slot s hs).wide)
    (wired_choicePieces hkind ho hflat)
  -- there is a straight branch at least
  simp

theorem connected_loopFigure (ho : o.Nonneg) {item : Figure K} (h : Figure.Connected o item) :
    Figure.Connected o (loopFigure o item (skipFigure o)) := by
  refine connected_figure rfl (contained_loopFigure ho h.toContained) (fun f hf => ?_) ?_
    (fun x y slot => contents_loopPieces o x y slot item (skipFigure o))
    (fun x y slot s hs => (loopPieces_fits ho h.flat rfl x y slot s hs).wide)
    (wired_loopPieces ho h.flat ExactScalar.zero_eq)
  · rcases List.mem_pair.1 hf with rfl | rfl
    · exact h
    · exact connected_skipFigure
  · exact nofun

/-- The branches of an item that can be passed by are connected if the item is. -/
theorem connected_passing {item : Figure K} (h : Figure.Connected o item) (bypass : Bool) :
    ∀ f ∈ (passing o item bypass).toList, Figure.Connected o f := by
  have hbranches : (passing o item bypass).toList = [skipFigure o, item] := by
    cases bypass <;> rfl
  intro f hf
  rw [hbranches] at hf
  rcases List.mem_pair.1 hf with rfl | rfl
  · exact connected_skipFigure
  · exact h

theorem connected_freeLoopFigure (ho : o.Nonneg) {item : Figure K} (h : Figure.Connected o item) :
    Figure.Connected o (freeLoopFigure o item (skipFigure o)) := by
  rw [freeLoopFigure_eq ho h.toContained]
  exact connected_choicePieces rfl ho (connected_passing (connected_loopFigure ho h) true)

end Layout

/-- **Every node is connected** with everything in it, if the node is that of an expression whose
sequences are not broken into rows. -/
theorem Node.Unwrapped.connected (ho : o.Nonneg) (hchar : 0 ≤ o.defaultCharWidth) {n : Node K}
    (h : n.Unwrapped) : Figure.Connected o (n.figure o) := by
  induction h with
  | terminal text attributes =>
    have hfigure := (Node.Unwrapped.terminal text attributes).contained ho hchar
    rw [Node.figure] at hfigure ⊢
    exact connected_text rfl hfigure fun x y slot => ⟨_ :: _ :: _, rfl⟩
  | nonTerminal text attributes =>
    have hfigure := (Node.Unwrapped.nonTerminal text attributes).contained ho hchar
    rw [Node.figure] at hfigure ⊢
    exact connected_text rfl hfigure fun x y slot => ⟨_ :: _ :: _, rfl⟩
  | comment text href title =>
    have hfigure := (Node.Unwrapped.comment text href title).contained ho hchar
    rw [Node.figure] at hfigure ⊢
    exact connected_text rfl hfigure fun x y slot => ⟨_ :: _, rfl⟩
  | sequence h ih =>
    rw [Node.figure, figures_eq_map]
    exact connected_sequenceFigure (List.forall_mem_map.2 ih)
  | @choice first others hfirst hothers ihfirst ihothers =>
    rw [Node.figure, figures_eq_map, figures_eq_map]
    refine connected_choicePieces rfl ho fun f hf => ?_
    rcases List.mem_cons.1 hf with rfl | hf
    · exact ihfirst
    · exact List.forall_mem_map.2 ihothers f hf
  | optional h ih =>
    rw [Node.figure]
    exact connected_choicePieces rfl ho (connected_passing ih false)
  | zeroOrMore h ih =>
    rw [Node.figure, Node.figure]
    exact connected_freeLoopFigure ho ih

end SyntaxDiagram
