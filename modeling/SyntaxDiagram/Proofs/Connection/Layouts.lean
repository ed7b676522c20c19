import Mathlib.Tactic.Linarith
import SyntaxDiagram.Node
import SyntaxDiagram.Proofs.Connection.Ways
import SyntaxDiagram.Proofs.Layout.Choices
import SyntaxDiagram.Proofs.Layout.Loops
import SyntaxDiagram.Proofs.Layout.Rows

/-!
# The lines of a layout meet its items

Lines are drawn by relative moves, and items fill their slots by gaps. Over exact numbers the ends
of both meet.

* `Path.Attached`: a line that ends where an item is entered or starts where one is left.
* `Node.Kind.Joins`, `Node.Kind.Wired`: the ways that the lines of a node of each kind make up, and
  where each of its lines ends or starts.
* `Layout.draws_sides`, `Layout.wired_sides`: the lines in the gaps on both sides lead to what is
  between them.
* `Layout.rowPieces_chained`, `Layout.wired_sequencePieces`: the items of a row follow one another.
* `Layout.wired_choicePieces`: there are ways to each branch and from each branch.
* `Layout.wired_loopPieces`: lines join the ends of the item with those of the separator.
-/

namespace SyntaxDiagram

/-- A line that ends where one of some things is entered or starts where one is left. -/
def Path.Attached {α : Type} [Scalar α] (path : Path α) (parts : List (Ports α)) : Prop :=
  ∃ a b, path.Draws a b ∧ ∃ part ∈ parts, b = part.entry ∨ a = part.exit

theorem Path.Attached.mono {α : Type} [Scalar α] {path : Path α} {parts more : List (Ports α)}
    (h : path.Attached parts) (hmore : parts ⊆ more) : path.Attached more := by
  obtain ⟨a, b, hdraws, part, hpart, hends⟩ := h
  exact ⟨a, b, hdraws, part, hmore hpart, hends⟩

/-- Whether the lines of a node join the nodes in it. -/
def Node.Kind.isJoined : Node.Kind → Bool
  | .sequence | .choice | .optional | .zeroOrMore | .oneOrMore => true
  | _ => false

/-- The ways that the lines of a node of each kind make up between the ends of its slot and what is
in it. The lines that lead back in a loop are drawn from the front to the back as well. -/
def Node.Kind.Joins {α : Type} [Scalar α] (kind : Node.Kind) (paths : List (Path α))
    (outer : Ports α) (parts : List (Ports α)) : Prop :=
  match kind with
  | .sequence => Chained paths outer.entry parts outer.exit
  | .choice | .optional | .zeroOrMore => Fanned paths outer parts
  | .oneOrMore =>
    ∃ item separator, parts = [item, separator] ∧ Fanned paths outer [item] ∧
      Line paths item.entry separator.entry ∧ Line paths separator.exit item.exit
  | _ => True

namespace Node.Kind.Joins

variable {α : Type} [Scalar α] {kind : Node.Kind} {paths more : List (Path α)}
  {outer inner : Ports α} {parts : List (Ports α)}

theorem mono (h : kind.Joins paths outer parts) (hmore : paths ⊆ more) :
    kind.Joins more outer parts := by
  cases kind with
  | sequence => exact Chained.mono h hmore
  | choice | optional | zeroOrMore => exact Fanned.mono h hmore
  | oneOrMore =>
    obtain ⟨item, separator, hparts, hitem, hdown, hup⟩ := h
    exact ⟨item, separator, hparts, hitem.mono hmore, hdown.mono hmore, hup.mono hmore⟩
  | _ => exact trivial

/-- The same ways, with lines in front of them and behind them. -/
theorem widen (h : kind.Joins paths inner parts) (hfront : Leads paths outer.entry inner.entry)
    (hback : Leads paths inner.exit outer.exit) : kind.Joins paths outer parts := by
  cases kind with
  | sequence => exact Chained.head hfront (Chained.tail h hback)
  | choice | optional | zeroOrMore => exact Fanned.widen h hfront hback
  | oneOrMore =>
    obtain ⟨item, separator, hparts, hitem, hloop⟩ := h
    exact ⟨item, separator, hparts, hitem.widen hfront hback, hloop⟩
  | _ => exact trivial

/-- **The ways of a node lead through it and through everything in it**, if there are ways through
the parts themselves. -/
theorem leads (hkind : kind.isJoined) (h : kind.Joins paths outer parts)
    (hparts : parts = [] → kind = .sequence)
    (hthrough : ∀ part ∈ parts, Leads paths part.entry part.exit) :
    Leads paths outer.entry outer.exit ∧ Fanned paths outer parts := by
  cases kind with
  | sequence => exact Chained.leads h hthrough
  | choice | optional | zeroOrMore =>
    exact ⟨Fanned.leads h (fun hnil => nomatch hparts hnil) hthrough, h⟩
  | oneOrMore =>
    obtain ⟨item, separator, rfl, hitem, hdown, hup⟩ := h
    -- the separator is reached through the entry of the item, and left through its exit
    obtain ⟨⟨hinto, hout⟩, -⟩ := List.forall_mem_cons.1 hitem
    have hfan : Fanned paths outer [item, separator] := by
      intro part hpart
      rcases List.mem_pair.1 hpart with rfl | rfl
      · exact ⟨hinto, hout⟩
      · exact ⟨hinto.trans hdown.leads, hup.leads.trans hout⟩
    exact ⟨hfan.leads (List.cons_ne_nil _ _) hthrough, hfan⟩
  | _ => cases hkind

end Node.Kind.Joins

/-- Whether the parts of a node are branches, any of which may be taken. -/
def Node.Kind.isChoice : Node.Kind → Bool
  | .choice | .optional | .zeroOrMore => true
  | _ => false

/-- How the lines of a node are wired: the node is left on the line on which it is entered, every
line of it fills a gap of its slot or is attached to something in it, and together they make up the
ways that nodes of its kind have. -/
structure Node.Kind.Wired {α : Type} [Scalar α] (kind : Node.Kind) (paths : List (Path α))
    (outer inner : Ports α) (parts : List (Ports α)) : Prop where
  level : outer.exit.2 = outer.entry.2
  attached : ∀ path ∈ paths,
    path.Draws outer.entry inner.entry ∨ path.Draws inner.exit outer.exit ∨ path.Attached parts
  joins : kind.Joins paths outer parts

namespace Layout

variable {K β : Type} [ExactScalar K] {o : Options K}

/-- The ends of a slot. -/
def slotPorts (m : Metrics K) (x y slot : K) : Ports K := ⟨(x, y), (x + slot, y + m.height)⟩

/-- The ends of a node that stands in a slot as alignment asks. -/
def ownPorts (o : Options K) (m : Metrics K) (x y slot : K) : Ports K :=
  slotPorts m (x + (gaps o m slot).left) y m.width

/-- The places where the items among pieces are entered and left. -/
def parts (pieces : List (Piece K (Site K β))) : List (Ports K) :=
  (contents pieces).map Site.ports

@[simp] theorem parts_append (a b : List (Piece K (Site K β))) :
    parts (a ++ b) = parts a ++ parts b := by
  rw [parts, contents_append, List.map_append, parts, parts]

@[simp] theorem parts_piece (s : Sized K β) (x y slot : K) (rest : List (Piece K (Site K β))) :
    parts (s.piece x y slot :: rest) = slotPorts s.metrics x y slot :: parts rest := rfl

/-! ## Gaps -/

/-- **The gaps are filled**: lines lead from the ends of a slot to the node in it. -/
theorem draws_sides (o : Options K) (m : Metrics K) (x y slot : K) :
    ∃ front back : Path K,
      tracks (sides o m x y slot : List (Piece K (Site K β))) = [front, back] ∧
      front.Draws (slotPorts m x y slot).entry (ownPorts o m x y slot).entry ∧
      back.Draws (ownPorts o m x y slot).exit (slotPorts m x y slot).exit := by
  have hsum := o.internalAlignment.left_add_right slot m.width
  refine ⟨_, _, rfl, (Path.draws_start x y).h _, ((Path.draws_start _ _).h _).to ?_ rfl⟩
  change x + (gaps o m slot).left + m.width + (gaps o m slot).right = x + slot
  rw [gaps]
  linarith

/-- A node is wired if what stands between its gaps is. -/
theorem wired_sides {kind : Node.Kind} {m : Metrics K} (hlevel : m.height = 0) {x y slot : K}
    {middle : List (Piece K (Site K β))}
    (hattached : ∀ path ∈ tracks middle, path.Attached (parts middle))
    (hjoins : kind.Joins (tracks middle) (ownPorts o m x y slot) (parts middle)) :
    kind.Wired (tracks (sides o m x y slot ++ middle)) (slotPorts m x y slot)
      (ownPorts o m x y slot) (parts (sides o m x y slot ++ middle)) := by
  obtain ⟨front, back, hsides, hfront, hback⟩ := draws_sides (β := β) o m x y slot
  have hparts : parts (sides o m x y slot ++ middle) = parts middle := parts_append _ _
  rw [hparts, tracks_append, hsides]
  refine ⟨(congrArg (y + ·) hlevel).trans (add_zero y), fun path hpath => ?_, ?_⟩
  · rcases List.mem_append.1 hpath with hpath | hpath
    · rcases List.mem_pair.1 hpath with rfl | rfl
      · exact .inl hfront
      · exact .inr (.inl hback)
    · exact .inr (.inr (hattached path hpath))
  · refine (hjoins.mono (List.subset_append_right _ _)).widen ?_ ?_
    · exact Line.leads ⟨front, by simp, hfront⟩
    · exact Line.leads ⟨back, by simp, hback⟩

/-! ## Rows -/

theorem draws_connector {present : Bool} {x y : K} {path : Path K}
    (h : path ∈ tracks (connector present x y : List (Piece K (Site K β)))) :
    path.Draws (x, y) (pastConnector present x, y) := by
  cases present with
  | false => cases h
  | true =>
    rw [List.mem_singleton.1 h]
    exact (Path.draws_start x y).h 10

@[simp] theorem parts_connector (present : Bool) (x y : K) :
    parts (connector present x y : List (Piece K (Site K β))) = [] := by
  rw [parts, contents_connector, List.map_nil]

theorem leads_connector (present : Bool) (x y : K) :
    Leads (tracks (connector present x y : List (Piece K (Site K β)))) (x, y)
      (pastConnector present x, y) := by
  cases present with
  | false => exact .refl _ _
  | true => exact Line.leads ⟨_, List.mem_singleton_self _, (Path.draws_start x y).h 10⟩

/-- **The items of a row follow one another**, up to the point where the row ends. -/
theorem rowPieces_chained (edges inside : Bool) (items : List (Sized K β)) (x y : K) :
    Chained (tracks (rowPieces edges inside items x y)) (x, y)
        (parts (rowPieces edges inside items x y))
        (rowEnd edges inside (items.map (·.metrics)) x y) ∧
      ∀ path ∈ tracks (rowPieces edges inside items x y),
        path.Attached (parts (rowPieces edges inside items x y)) := by
  induction items generalizing inside x y with
  | nil => exact ⟨.refl _ _, nofun⟩
  | cons s rest ih =>
    rw [rowPieces, List.map_cons, rowEnd, List.isEmpty_map]
    -- whether there are connectors on both sides of the first item
    generalize (s.metrics.needsSpace && (edges || inside)) = before
    generalize (s.metrics.needsSpace && (edges || !rest.isEmpty)) = after
    obtain ⟨hchain, hattached⟩ := ih true
      (pastConnector after (pastConnector before x + s.metrics.width)) (y + s.metrics.height)
    simp only [tracks_append, tracks_piece, parts_append, parts_piece, parts_connector,
      List.nil_append, List.cons_append]
    have hbefore : Leads _ (x, y) (pastConnector before x, y) :=
      leads_connector (β := β) before x y
    have hafter : Leads _ (pastConnector before x + s.metrics.width, y + s.metrics.height) _ :=
      leads_connector (β := β) after _ _
    refine ⟨⟨hbefore.mono fun path hpath => by simp [hpath],
      Chained.head (hafter.mono fun path hpath => by simp [hpath])
        (hchain.mono fun path hpath => by simp [hpath])⟩, fun path hpath => ?_⟩
    rcases List.mem_append.1 hpath with hpath | hpath
    · rcases List.mem_append.1 hpath with hpath | hpath
      · exact ⟨_, _, draws_connector hpath, _, List.mem_cons_self, .inl rfl⟩
      · exact ⟨_, _, draws_connector hpath, _, List.mem_cons_self, .inr rfl⟩
    · exact (hattached path hpath).mono (List.subset_cons_self _ _)

/-- **A sequence joins its items** with one another and with the ends of its slot. -/
theorem wired_sequencePieces {items : List (Sized K β)} (h : ∀ i ∈ items, i.metrics.Flat)
    (x y slot : K) :
    let m := sequenceSize (items.map (·.metrics))
    let pieces := sequencePieces o items x y slot
    Node.Kind.sequence.Wired (tracks pieces) (slotPorts m x y slot) (ownPorts o m x y slot)
      (parts pieces) := by
  intro m pieces
  obtain ⟨hchain, hattached⟩ := rowPieces_chained false false items (x + (gaps o m slot).left) y
  rw [rowEnd_sequence] at hchain
  exact wired_sides (flat_sequenceSize h).level hattached hchain

/-! ## Choices -/

/-- A track that turns up, rises and turns back to the right. -/
theorem draws_climb (r : K) {length : K} (h : 0 ≤ length) (x y : K) :
    ((((start x y).arc r .south .east).up length).arc r .west .north).Draws (x, y)
      (x + 2 * r, y - length - 2 * r) := by
  refine ((((Path.draws_start x y).arc r .south .east).up h).arc r .west .north).to ?_ ?_
  · simp [Command.arcX]
    ring
  · simp [Command.arcY]
    ring

/-- A track that turns down, falls and turns back to the right. -/
theorem draws_fall (r : K) {length : K} (h : 0 ≤ length) (x y : K) :
    ((((start x y).arc r .north .east).down length).arc r .west .south).Draws (x, y)
      (x + 2 * r, y + length + 2 * r) := by
  refine ((((Path.draws_start x y).arc r .north .east).down h).arc r .west .south).to ?_ ?_
  · simp [Command.arcX]
    ring
  · simp [Command.arcY]
    ring

/-- A track that rises by a distance that has room for both of its turns. -/
theorem draws_climb_by (r : K) {distance : K} (h : 2 * r ≤ distance) (x y : K) :
    ((((start x y).arc r .south .east).up (distance - 2 * r)).arc r .west .north).Draws (x, y)
      (x + 2 * r, y - distance) := by
  refine (draws_climb r (sub_nonneg.2 h) x y).to rfl ?_
  change y - (distance - 2 * r) - 2 * r = y - distance
  ring

/-- A track that falls by a distance that has room for both of its turns. -/
theorem draws_fall_by (r : K) {distance : K} (h : 2 * r ≤ distance) (x y : K) :
    ((((start x y).arc r .north .east).down (distance - 2 * r)).arc r .west .south).Draws (x, y)
      (x + 2 * r, y + distance) := by
  refine (draws_fall r (sub_nonneg.2 h) x y).to rfl ?_
  change y + (distance - 2 * r) + 2 * r = y + distance
  ring

/-- Pieces that join each of their items with two points. -/
structure JoinsEach (outer : Ports K) (pieces : List (Piece K (Site K β))) : Prop where
  joins : Fanned (tracks pieces) outer (parts pieces)
  attached : ∀ path ∈ tracks pieces, path.Attached (parts pieces)

namespace JoinsEach

variable {outer : Ports K} {a b : List (Piece K (Site K β))}

theorem nil : JoinsEach outer ([] : List (Piece K (Site K β))) := ⟨nofun, nofun⟩

/-- A branch with a track into it and a track out of it. -/
theorem branch {s : Sized K β} {x y slot : K} {into out : Path K}
    (hinto : into.Draws outer.entry (x, y))
    (hout : out.Draws (x + slot, y + s.metrics.height) outer.exit) :
    JoinsEach outer [.track into, s.piece x y slot, .track out] := by
  refine ⟨fun part hpart => ?_, fun path hpath => ?_⟩
  · obtain rfl := List.mem_singleton.1 hpart
    exact ⟨Line.leads ⟨into, by simp, hinto⟩, Line.leads ⟨out, by simp, hout⟩⟩
  · rcases List.mem_pair.1 hpath with rfl | rfl
    · exact ⟨_, _, hinto, _, List.mem_cons_self, .inl rfl⟩
    · exact ⟨_, _, hout, _, List.mem_cons_self, .inr rfl⟩

theorem append (ha : JoinsEach outer a) (hb : JoinsEach outer b) : JoinsEach outer (a ++ b) := by
  have hleft : tracks a ⊆ tracks (a ++ b) := by
    rw [tracks_append]
    exact List.subset_append_left _ _
  have hright : tracks b ⊆ tracks (a ++ b) := by
    rw [tracks_append]
    exact List.subset_append_right _ _
  refine ⟨fun part hpart => ?_, fun path hpath => ?_⟩
  · rw [parts_append] at hpart
    rcases List.mem_append.1 hpart with hpart | hpart
    · exact ha.joins.mono hleft part hpart
    · exact hb.joins.mono hright part hpart
  · rw [tracks_append] at hpath
    rw [parts_append]
    rcases List.mem_append.1 hpath with hpath | hpath
    · exact (ha.attached path hpath).mono (List.subset_append_left _ _)
    · exact (hb.attached path hpath).mono (List.subset_append_right _ _)

end JoinsEach

/-- The ends of a choice without the gaps on both sides. -/
def ChoiceFrame.ports (f : ChoiceFrame K) : Ports K :=
  ⟨(f.x, f.y), (f.x + f.inner + 4 * f.options.arcRadius, f.y)⟩

/-- Behind its slot a branch has two arcs to the end of the choice, as it has in front of it. -/
theorem ChoiceFrame.exit_eq (f : ChoiceFrame K) :
    f.x + 2 * f.options.arcRadius + f.inner + 2 * f.options.arcRadius = f.ports.exit.1 := by
  change _ = f.x + f.inner + 4 * f.options.arcRadius
  ring

section

variable {f : ChoiceFrame K} (hlevel : f.height = 0) {items : List (Sized K β)}
  (h : ∀ i ∈ items, i.metrics.Flat) {distance : K}
include hlevel h

/-- **Every branch above is joined** with both ends of its choice. -/
theorem joinsEach_choiceAbove (ho : f.options.Nonneg)
    (hdistance : items ≠ [] → 2 * f.options.arcRadius ≤ distance) :
    JoinsEach f.ports (choiceAbove f items distance) := by
  induction items generalizing distance with
  | nil => exact .nil
  | cons s rest ih =>
    rw [List.forall_mem_cons] at h
    have hs := h.1.level
    have hfar := hdistance (List.cons_ne_nil _ _)
    refine JoinsEach.append (.branch ?_ ?_) (ih h.2 fun _ => ?_)
    · exact draws_climb_by f.options.arcRadius hfar f.x f.y
    · have hlength : 0 ≤ distance - s.metrics.height + f.height - 2 * f.options.arcRadius := by
        rw [hs, hlevel]
        linarith
      refine (draws_fall f.options.arcRadius hlength _ _).to f.exit_eq ?_
      change f.y - distance + s.metrics.height +
        (distance - s.metrics.height + f.height - 2 * f.options.arcRadius) +
          2 * f.options.arcRadius = f.y
      rw [hlevel]
      ring
    · exact hfar.trans (le_add_of_nonneg_right (ho.arcRadius.trans (le_max_left _ _)))

/-- **Every branch below is joined** with both ends of its choice. -/
theorem joinsEach_choiceBelow (ho : f.options.Nonneg)
    (hdistance : items ≠ [] → 2 * f.options.arcRadius ≤ distance) :
    JoinsEach f.ports (choiceBelow f items distance) := by
  induction items generalizing distance with
  | nil => exact .nil
  | cons s rest ih =>
    rw [List.forall_mem_cons] at h
    have hs := h.1.level
    have hfar := hdistance (List.cons_ne_nil _ _)
    refine JoinsEach.append (.branch ?_ ?_) (ih h.2 fun _ => ?_)
    · exact draws_fall_by f.options.arcRadius hfar f.x f.y
    · have hlength : 0 ≤ distance - 2 * f.options.arcRadius + s.metrics.height - f.height := by
        rw [hs, hlevel]
        linarith
      refine (draws_climb f.options.arcRadius hlength _ _).to f.exit_eq ?_
      change f.y + distance + s.metrics.height -
        (distance - 2 * f.options.arcRadius + s.metrics.height - f.height) -
          2 * f.options.arcRadius = f.y
      rw [hlevel]
      ring
    · exact hfar.trans (le_add_of_nonneg_right (ho.arcRadius.trans (le_max_left _ _)))

end

/-- The nearest branch above is far enough for two arcs. -/
theorem arcs_le_choiceRise (o : Options K) (straight : Metrics K) {items : List (Sized K β)}
    (h : items ≠ []) : 2 * o.arcRadius ≤ choiceRise o straight items := by
  cases items with
  | nil => exact absurd rfl h
  | cons s rest => exact le_max_left _ _

/-- The nearest branch below is far enough for two arcs. -/
theorem arcs_le_choiceDrop (o : Options K) (height : K) (straight : Metrics K)
    {items : List (Sized K β)} (h : items ≠ []) :
    2 * o.arcRadius ≤ choiceDrop o height straight items := by
  cases items with
  | nil => exact absurd rfl h
  | cons s rest => exact le_max_left _ _

/-- **A choice joins each of its branches** with its ends, which its gaps lead to. -/
theorem choicePieces_joinsEach (ho : o.Nonneg) {b : Branches (Sized K β)}
    (h : ∀ i ∈ b.toList, i.metrics.Flat) (x y slot : K) :
    let m := choiceSize o (b.map (·.metrics))
    ∃ middle, choicePieces o m b x y slot = sides o m x y slot ++ middle ∧
      JoinsEach (ownPorts o m x y slot) middle := by
  intro m
  have hm : m.height = 0 := (flat_choiceSize h ho).level
  have harc : 0 ≤ 2 * o.arcRadius := by linarith [ho.arcRadius]
  let f : ChoiceFrame K :=
    ⟨o, m.height, m.width - 4 * o.arcRadius, x + (gaps o m slot).left, y⟩
  have hports : f.ports = ownPorts o m x y slot := by
    refine congrArg (Ports.mk _) (Prod.ext ?_ ?_)
    · change f.x + (m.width - 4 * o.arcRadius) + 4 * o.arcRadius = f.x + m.width
      ring
    · change y = y + m.height
      rw [hm, add_zero]
  -- the straight branch has lines where the others turn twice
  have hstraight : JoinsEach f.ports
      [.track ((start f.x y).right (2 * o.arcRadius)),
        b.straight.piece (f.x + 2 * o.arcRadius) y f.inner,
        .track
          ((start (f.x + 2 * o.arcRadius + f.inner) (y + m.height)).right (2 * o.arcRadius))] := by
    refine .branch ((Path.draws_start f.x y).right harc) ?_
    refine ((Path.draws_start _ (y + m.height)).right harc).to f.exit_eq ?_
    change y + m.height = y
    rw [hm, add_zero]
  refine ⟨_, List.append_assoc _ _ _, ?_⟩
  rw [← hports]
  refine JoinsEach.append ?_ (hstraight.append ?_)
  · exact joinsEach_choiceAbove hm (flat_nearest h) ho (arcs_le_choiceRise o _)
  · exact joinsEach_choiceBelow hm (flat_below h) ho (arcs_le_choiceDrop o _ _)

/-- A choice and what is laid out like one are wired as choices are. -/
theorem wired_choicePieces {kind : Node.Kind} (hkind : kind.isChoice) (ho : o.Nonneg)
    {b : Branches (Sized K β)} (h : ∀ i ∈ b.toList, i.metrics.Flat) (x y slot : K) :
    let m := choiceSize o (b.map (·.metrics))
    let pieces := choicePieces o m b x y slot
    kind.Wired (tracks pieces) (slotPorts m x y slot) (ownPorts o m x y slot) (parts pieces) := by
  intro m pieces
  obtain ⟨middle, hpieces, hmiddle⟩ := choicePieces_joinsEach ho h x y slot
  have hjoins : kind.Joins (tracks middle) (ownPorts o m x y slot) (parts middle) := by
    cases kind <;> first | exact hmiddle.joins | cases hkind
  change kind.Wired (tracks (choicePieces o m b x y slot)) _ _
    (parts (choicePieces o m b x y slot))
  rw [hpieces]
  exact wired_sides (flat_choiceSize h ho).level hmiddle.attached hjoins

/-! ## Loops -/

/-- A track that turns back to the left, falls and turns to the right again. -/
theorem draws_descent (r : K) {length : K} (h : 0 ≤ length) (x y : K) :
    ((((start x y).arc r .north .west).down length).arc r .west .south).Draws (x, y)
      (x, y + length + 2 * r) := by
  refine ((((Path.draws_start x y).arc r .north .west).down h).arc r .west .south).to ?_ ?_
  · simp [Command.arcX]
  · simp [Command.arcY]
    ring

/-- A track that turns up, rises and turns back to the left. -/
theorem draws_ascent (r : K) {length : K} (h : 0 ≤ length) (x y : K) :
    ((((start x y).arc r .south .east).up length).arc r .east .north).Draws (x, y)
      (x, y - length - 2 * r) := by
  refine ((((Path.draws_start x y).arc r .south .east).up h).arc r .east .north).to ?_ ?_
  · simp [Command.arcX]
  · simp [Command.arcY]
    ring

section

variable {item separator : Sized K β} {x y x' y' slot slot' : K}
  {into out descent ascent : Path K}

/-- The pieces of a loop join the item with two points and the ends of the item with those of the
separator. -/
theorem loop_joins (outer : Ports K)
    (hinto : into.Draws outer.entry (slotPorts item.metrics x y slot).entry)
    (hout : out.Draws (slotPorts item.metrics x y slot).exit outer.exit)
    (hdescent : descent.Draws (slotPorts item.metrics x y slot).entry
      (slotPorts separator.metrics x' y' slot').entry)
    (hascent : ascent.Draws (slotPorts separator.metrics x' y' slot').exit
      (slotPorts item.metrics x y slot).exit) :
    let pieces := [.track into, item.piece x y slot, .track out, .track descent,
      separator.piece x' y' slot', .track ascent]
    (∀ path ∈ tracks pieces, path.Attached (parts pieces)) ∧
      Node.Kind.oneOrMore.Joins (tracks pieces) outer (parts pieces) := by
  intro pieces
  have htracks : tracks pieces = [into, out, descent, ascent] := rfl
  have hparts : parts pieces =
      [slotPorts item.metrics x y slot, slotPorts separator.metrics x' y' slot'] := rfl
  rw [htracks, hparts]
  refine ⟨?_, _, _, rfl, ?_, ⟨descent, by simp, hdescent⟩, ⟨ascent, by simp, hascent⟩⟩
  · simp only [List.forall_mem_cons]
    exact ⟨⟨_, _, hinto, _, List.mem_cons_self, .inl rfl⟩,
      ⟨_, _, hout, _, List.mem_cons_self, .inr rfl⟩,
      ⟨_, _, hdescent, _, List.mem_cons_of_mem _ List.mem_cons_self, .inl rfl⟩,
      ⟨_, _, hascent, _, List.mem_cons_of_mem _ List.mem_cons_self, .inr rfl⟩, nofun⟩
  · intro part hpart
    obtain rfl := List.mem_singleton.1 hpart
    exact ⟨Line.leads ⟨into, by simp, hinto⟩, Line.leads ⟨out, by simp, hout⟩⟩

end

/-- **A loop joins its item** with the ends of its slot, and the ends of the item with those of the
separator. -/
theorem wired_loopPieces (ho : o.Nonneg) {item separator : Sized K β} (hitem : item.metrics.Flat)
    (hseparator : separator.metrics.height = 0) (x y slot : K) :
    let m := loopSize o item.metrics separator.metrics
    let pieces := loopPieces o item separator x y slot
    Node.Kind.oneOrMore.Wired (tracks pieces) (slotPorts m x y slot) (ownPorts o m x y slot)
      (parts pieces) := by
  intro m pieces
  let r := o.arcRadius
  let left := x + (gaps o m slot).left
  let inner := m.width - 2 * r
  let distance := loopDistance o item.metrics separator.metrics
  have hm : m.height = 0 := hitem.level
  have hfar : 0 ≤ distance - 2 * r := sub_nonneg.2 (le_max_left _ _)
  have hback : 0 ≤ distance - 2 * r + separator.metrics.height - item.metrics.height := by
    rw [hseparator, hitem.level, add_zero, sub_zero]
    exact hfar
  -- where the slots of both items end
  have hright : left + m.width - r = left + r + inner := by
    change _ = left + r + (m.width - 2 * r)
    ring
  have hinto : ((start left y).right r).Draws (left, y) (left + r, y) :=
    (Path.draws_start left y).right ho.arcRadius
  have hout : ((start (left + m.width - r) (y + m.height)).right r).Draws
      (left + r + inner, y + m.height) (left + m.width, y + m.height) := by
    rw [← hright]
    refine ((Path.draws_start _ _).right ho.arcRadius).to ?_ rfl
    exact sub_add_cancel (left + m.width) r
  have hdescent : ((((start (left + r) y).arc r .north .west).down (distance - 2 * r)).arc r
      .west .south).Draws (left + r, y) (left + r, y + distance) := by
    refine (draws_descent r hfar _ _).to rfl ?_
    change y + (distance - 2 * r) + 2 * r = y + distance
    ring
  have hascent : ((((start (left + m.width - r) (y + distance + separator.metrics.height)).arc r
      .south .east).up (distance - 2 * r + separator.metrics.height - item.metrics.height)).arc r
        .east .north).Draws (left + r + inner, y + distance + separator.metrics.height)
          (left + r + inner, y + item.metrics.height) := by
    rw [← hright]
    refine (draws_ascent r hback _ _).to rfl ?_
    change y + distance + separator.metrics.height -
      (distance - 2 * r + separator.metrics.height - item.metrics.height) - 2 * r =
        y + item.metrics.height
    ring
  obtain ⟨hattached, hjoins⟩ := loop_joins (ownPorts o m x y slot) hinto hout hdescent hascent
  exact wired_sides hm hattached hjoins

end Layout
end SyntaxDiagram
