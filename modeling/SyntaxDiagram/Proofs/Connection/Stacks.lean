import Mathlib.Data.List.Chain
import SyntaxDiagram.Proofs.Connection.Settled
import SyntaxDiagram.Proofs.Connection.Strokes
import SyntaxDiagram.Proofs.Slots

/-!
# The rows of a stack

The rows of a stack stand one under the other, and a track leads from the end of each back to the
left and into the next. The height of a stack, the places of its rows and the ends of these tracks
are added up apart, from the same two distances: what the row above asks for below its exit, and
what the row below asks for above its entry.

* `Layout.draws_stackTurn`: the track between two rows.
* `Layout.stackLines_linked`: these tracks lead from each row into the next.
* `Layout.stackExit_eq`: the rows end where the height of the stack says.
* `Layout.stackLines_apart`, `Layout.stackLines_between`: the rows are clear of each other, and lie
  between the top of the first and the bottom of the last.
* `Node.rows_joined`: all of this for the nodes in a stack.
-/

namespace SyntaxDiagram

variable {K β : Type} [ExactScalar K] {o : Options K}

namespace Layout

/-! ## The way down -/

/-- How far the entry of the next row lies under the exit of a row. -/
def stackDrop (o : Options K) (m next : Metrics K) : K :=
  max (m.down + o.verticalSeparation) (2 * o.arcRadius) +
    max (next.up + o.verticalSeparation) (2 * o.arcRadius)

/-- Where the row under a row at `y` stands. -/
def stackNext (o : Options K) (m next : Metrics K) (y : K) : K := y + m.height + stackDrop o m next

/-- **The track between two rows** leads back by the width of a row, and down by the room that both
rows ask for. -/
theorem draws_stackTurn {inner : K} (hinner : 0 ≤ inner) (m next : Metrics K) (x y : K) :
    (stackTurn o inner m.down next.up x y).Draws (x, y) (x - inner, y + stackDrop o m next) := by
  have hdown := Path.max_sub_add (m.down + o.verticalSeparation) (2 * o.arcRadius)
  have hup := Path.max_sub_add (next.up + o.verticalSeparation) (2 * o.arcRadius)
  refine (((((((Path.draws_start x y).arc _ .north .east).downTo _).arc _ .east .south).left
    hinner).arc _ .north .west).downTo _).arc _ .west .south |>.to ?_ ?_
  · simp [Command.arcX]
  · rw [stackDrop, ← hdown, ← hup]
    simp [Command.arcY]
    ring

section

variable (o) (inner x : K) (first : Sized K β) (rest : List (Sized K β)) (y : K)

/-- Behind a row there is the track to the row under it. -/
theorem stackLines_cons (next : Sized K β) :
    stackLines o inner x first (next :: rest) y =
      first.piece x y inner ::
        .track (stackTurn o inner first.metrics.down next.metrics.up (x + inner)
          (y + first.metrics.height)) ::
        stackLines o inner x next rest (stackNext o first.metrics next.metrics y) := rfl

/-- The first row stands where the rows start. -/
theorem exists_contents_stackLines :
    ∃ others, contents (stackLines o inner x first rest y) = first.at x y inner :: others := by
  cases rest with
  | nil => exact ⟨_, rfl⟩
  | cons next rest => exact ⟨_, rfl⟩

/-- The last row is left at the end of its slot, on the exit line of the rows. -/
theorem exists_last_stackLines :
    ∃ s, (contents (stackLines o inner x first rest y)).getLast? = some s ∧
      s.toSized = rest.getLast?.getD first ∧
      s.ports.exit = (x + inner, stackExit o first.metrics (rest.map (·.metrics)) y) := by
  induction rest generalizing first y with
  | nil => exact ⟨_, rfl, rfl, rfl⟩
  | cons next rest ih =>
    obtain ⟨s, hlast, hitem, hexit⟩ := ih next (stackNext o first.metrics next.metrics y)
    refine ⟨s, ?_, ?_, hexit⟩
    · obtain ⟨others, hothers⟩ := exists_contents_stackLines o inner x next rest
        (stackNext o first.metrics next.metrics y)
      rw [hothers] at hlast
      rw [stackLines_cons, contents_piece, contents_track, hothers, List.getLast?_cons_cons, hlast]
    · rw [hitem, List.getLast?_cons]
      rfl

variable {inner}

/-- **The tracks between rows** lead from each row into the next. -/
theorem stackLines_linked (hinner : 0 ≤ inner) :
    Linked (tracks (stackLines o inner x first rest y))
      (parts (stackLines o inner x first rest y)) := by
  induction rest generalizing first y with
  | nil => exact linked_singleton _
  | cons next rest ih =>
    have hrest := ih next (stackNext o first.metrics next.metrics y)
    have hturn := draws_stackTurn (o := o) hinner first.metrics next.metrics (x + inner)
      (y + first.metrics.height)
    rw [add_sub_cancel_right] at hturn
    obtain ⟨others, hothers⟩ := exists_contents_stackLines o inner x next rest
      (stackNext o first.metrics next.metrics y)
    rw [parts, hothers, List.map_cons] at hrest
    rw [parts, stackLines_cons, contents_piece, contents_track, tracks_piece, tracks_track, hothers,
      List.map_cons, List.map_cons]
    exact linked_cons hturn hrest

end

/-! ## The height of a stack -/

/-- Going down the rows adds up to the height of a stack, whichever row one starts at. -/
theorem stackExit_eq_add (inside : Bool) (m : Metrics K) (rest : List (Metrics K)) (height y : K) :
    stackExit o m rest (y + (height + if inside then turnRoom o m.up else 0)) =
      y + stackHeight o height inside (m :: rest) := by
  induction rest generalizing inside m height with
  | nil =>
    rw [stackExit, stackHeight, stackHeight, List.isEmpty_nil, if_pos rfl]
    cases inside with
    | false => simp [add_assoc]
    | true => simp [add_assoc, add_comm m.height]
  | cons next rest ih =>
    rw [stackHeight, List.isEmpty_cons, if_neg Bool.false_ne_true, ← ih true next, if_pos rfl,
      stackExit, turnRoom, turnRoom, turnRoom, max_comm (2 * o.arcRadius) (m.down + _),
      max_comm (2 * o.arcRadius) (next.up + _)]
    refine congrArg (stackExit o next rest) ?_
    cases inside with
    | false => simp [add_assoc]
    | true =>
      simp only [if_true]
      ring

/-- **The rows of a stack end where its height says.** -/
theorem stackExit_eq (first : Metrics K) (rest : List (Metrics K)) (y : K) :
    stackExit o first rest y = y + (stackSize o first rest).height := by
  have h := stackExit_eq_add (o := o) false first rest 0 y
  rw [if_neg Bool.false_ne_true, add_zero, add_zero] at h
  rw [h, stackSize, ExactScalar.zero_eq]

/-- A stack reaches as far below its exit as its last row does below its own. -/
theorem down_getLast (first : Sized K β) (rest : List (Sized K β)) :
    (rest.getLast?.getD first).metrics.down =
      (stackSize o first.metrics (rest.map (·.metrics))).down := by
  rw [stackSize, List.getLast?_map, Option.getD_map]

/-! ## Clear of each other -/

/-- The way down between two rows has room for both of them and for the separation of each. -/
theorem room_le_stackDrop (m next : Metrics K) :
    m.down + next.up + 2 * o.verticalSeparation ≤ stackDrop o m next := by
  have hdown := le_max_left (m.down + o.verticalSeparation) (2 * o.arcRadius)
  have hup := le_max_left (next.up + o.verticalSeparation) (2 * o.arcRadius)
  rw [stackDrop]
  linarith

section

variable {first : Sized K β} {rest : List (Sized K β)} (inner x y : K)

/-- **Between two rows there is the vertical separation twice.** -/
theorem stackLines_apart :
    (contents (stackLines o inner x first rest y)).IsChain fun a b =>
      a.box.bottom + 2 * o.verticalSeparation ≤ b.box.top := by
  induction rest generalizing first y with
  | nil => exact List.isChain_singleton _
  | cons next rest ih =>
    have hrest := @ih next (stackNext o first.metrics next.metrics y)
    obtain ⟨others, hothers⟩ := exists_contents_stackLines o inner x next rest
      (stackNext o first.metrics next.metrics y)
    rw [hothers] at hrest
    rw [stackLines_cons, contents_piece, contents_track, hothers, List.isChain_cons_cons]
    refine ⟨?_, hrest⟩
    have hroom := room_le_stackDrop (o := o) first.metrics next.metrics
    change y + first.metrics.height + first.metrics.down + 2 * o.verticalSeparation ≤
      stackNext o first.metrics next.metrics y - next.metrics.up
    rw [stackNext]
    linarith

variable (ho : o.Nonneg) (h : ∀ i ∈ first :: rest, i.metrics.Nonneg)
include ho h

/-- All rows lie between the top of the first and the bottom of the last, in slots one under the
other. -/
theorem stackLines_between :
    ∀ s ∈ contents (stackLines o inner x first rest y),
      s.x = x ∧ s.slot = inner ∧ y - first.metrics.up ≤ s.y - s.metrics.up ∧
        s.y + s.metrics.height + s.metrics.down ≤
          stackExit o first.metrics (rest.map (·.metrics)) y +
            (rest.getLast?.getD first).metrics.down := by
  induction rest generalizing first y with
  | nil =>
    intro s hs
    obtain rfl := List.mem_singleton.1 hs
    exact ⟨rfl, rfl, le_refl _, le_refl _⟩
  | cons next rest ih =>
    obtain ⟨hfirst, hothers⟩ := List.forall_mem_cons.1 h
    have hnext := hothers next List.mem_cons_self
    have hroom := room_le_stackDrop (o := o) first.metrics next.metrics
    have hplace : stackNext o first.metrics next.metrics y =
        y + first.metrics.height + stackDrop o first.metrics next.metrics := rfl
    have hrest := ih (stackNext o first.metrics next.metrics y) hothers
    rw [List.getLast?_cons]
    intro s hs
    rcases List.mem_cons.1 hs with rfl | hs
    · -- the bottom of the last row is under the entry of the second, and that under the first row
      obtain ⟨others, hcontents⟩ := exists_contents_stackLines o inner x next rest
        (stackNext o first.metrics next.metrics y)
      obtain ⟨-, -, -, hlow⟩ := hrest _ (hcontents ▸ List.mem_cons_self)
      refine ⟨rfl, rfl, le_refl _, le_trans ?_ hlow⟩
      change y + first.metrics.height + first.metrics.down ≤
        stackNext o first.metrics next.metrics y + next.metrics.height + next.metrics.down
      linarith [ho.verticalSeparation, hnext.up, hnext.height, hnext.down]
    · obtain ⟨hx, hslot, htop, hlow⟩ := hrest s hs
      refine ⟨hx, hslot, ?_, hlow⟩
      linarith [ho.verticalSeparation, hfirst.up, hfirst.height, hfirst.down]

end

/-! ## In a slot -/

/-- The rows of a stack of size `m` in a slot: they start at `left` and are `inner` wide. The lines
of `lead` come to the first of them, and those of `tail` go on from the last. -/
structure RowsIn (o : Options K) (m : Metrics K) (first : Sized K β) (rest : List (Sized K β))
    (x y slot left inner : K) (lead tail : List (Path K)) : Prop where
  contents : contents (stackPieces o first rest x y slot) =
    contents (stackLines o inner left first rest y)
  tracks : tracks (stackPieces o first rest x y slot) =
    lead ++ tracks (stackLines o inner left first rest y) ++ tail
  lead : Path.InTurn lead (x, y) (left, y)
  tail : Path.InTurn tail (left + inner, y + m.height) (x + slot, y + m.height)
  wide : ∀ i ∈ first :: rest, i.metrics.width ≤ inner
  start : x + (gaps o m slot).left ≤ left
  stop : left + inner ≤ x + (gaps o m slot).left + m.width

section

variable (first : Sized K β) (x y slot : K)

/-- A single row is as wide as its stack. -/
theorem rowsIn_singleton :
    let m := stackSize o first.metrics []
    ∃ lead tail,
      RowsIn o m first [] x y slot (x + (gaps o m slot).left) m.width lead tail := by
  intro m
  let left := x + (gaps o m slot).left
  let front := (start x y).h (gaps o m slot).left
  let back := (start (left + m.width) (y + m.height)).h (gaps o m slot).right
  have hpieces : stackPieces o first [] x y slot =
      .track front :: stackLines o m.width left first [] y ++ [.track back] := by
    rw [stackPieces, List.isEmpty_nil, if_pos rfl, ExactScalar.zero_eq, sub_zero, stackExit_eq]
    rfl
  have hsum := o.internalAlignment.left_add_right slot m.width
  refine ⟨[front], [back], ?_, ?_, ?_, ?_, ?_, le_refl _, le_refl _⟩
  · rw [hpieces]
    rfl
  · rw [hpieces]
    rfl
  · exact ⟨_, (Path.draws_start x y).h _, rfl⟩
  · refine ⟨_, (Path.draws_start _ _).h _, Prod.ext ?_ rfl⟩
    change x + (gaps o m slot).left + m.width + (gaps o m slot).right = x + slot
    rw [gaps]
    linarith
  · exact width_le_widest [first] _

/-- Two rows and more have an arc on both sides. -/
theorem rowsIn_cons (ho : o.Nonneg) (next : Sized K β) (rest : List (Sized K β)) :
    let m := stackSize o first.metrics ((next :: rest).map (·.metrics))
    ∃ lead tail,
      RowsIn o m first (next :: rest) x y slot (x + (gaps o m slot).left + o.arcRadius)
        (m.width - 2 * o.arcRadius) lead tail := by
  intro m
  let left := x + (gaps o m slot).left
  let right := left + o.arcRadius + (m.width - 2 * o.arcRadius)
  let front := (start x y).h (gaps o m slot).left
  let into := (start left y).h o.arcRadius
  let out := (start right (y + m.height)).h o.arcRadius
  let back := (start (right + o.arcRadius) (y + m.height)).h (gaps o m slot).right
  have hpieces : stackPieces o first (next :: rest) x y slot =
      .track front :: .track into :: stackLines o (m.width - 2 * o.arcRadius) (left + o.arcRadius)
        first (next :: rest) y ++ [.track out, .track back] := by
    rw [stackPieces, List.isEmpty_cons, if_neg Bool.false_ne_true, stackExit_eq]
  have hsum := o.internalAlignment.left_add_right slot m.width
  refine ⟨[front, into], [out, back], ?_, ?_, ?_, ?_, ?_, ?_, ?_⟩
  · rw [hpieces]
    exact (contents_append _ _).trans (List.append_nil _)
  · rw [hpieces]
    exact tracks_append _ _
  · exact ⟨_, (Path.draws_start x y).h _, _, (Path.draws_start _ _).h _, rfl⟩
  · refine ⟨_, (Path.draws_start _ _).h _, _, (Path.draws_start _ _).h _, Prod.ext ?_ rfl⟩
    change x + (gaps o m slot).left + o.arcRadius + (m.width - 2 * o.arcRadius) + o.arcRadius +
      (gaps o m slot).right = x + slot
    rw [gaps]
    linarith
  · -- the width of the stack has added the arcs on both sides
    exact fun i hi => (width_le_widest (first :: next :: rest) _ i hi).trans
      (add_sub_cancel_right _ _).ge
  · exact le_add_of_nonneg_right ho.arcRadius
  · linarith [ho.arcRadius]

/-- **A stack leads to its rows and on from them**, however many there are. -/
theorem exists_rowsIn (ho : o.Nonneg) (rest : List (Sized K β)) :
    ∃ left inner lead tail, RowsIn o (stackSize o first.metrics (rest.map (·.metrics))) first rest
      x y slot left inner lead tail := by
  cases rest with
  | nil => exact ⟨_, _, rowsIn_singleton first x y slot⟩
  | cons next rest => exact ⟨_, _, rowsIn_cons first x y slot ho next rest⟩

end

end Layout

open Layout

/-! ## Nodes -/

/-- The rows of a node are joined: lines lead to the first of them, from each of them into the next
one, and on from the last. -/
structure Placed.RowsJoined {α : Type} [Scalar α] (p : Placed α) (outer : Ports α)
    (lead turns tail : List (Path α)) : Prop where
  tracks : p.tracks = lead ++ turns ++ tail
  lead : ∀ row ∈ p.nodes.head?, Path.InTurn lead outer.entry row.ports.entry
  turns : Linked turns (p.nodes.map Placed.ports)
  tail : ∀ row ∈ p.nodes.getLast?, Path.InTurn tail row.ports.exit outer.exit

namespace Node

theorem stack_laidOut (first : Node K) (rest : List (Node K)) :
    (stack first rest).LaidOut o
      (stackSize o (first.metrics o) ((rest.map (figure o)).map (·.metrics))) (first :: rest)
      (stackPieces o (first.figure o) (rest.map (figure o))) := by
  refine ⟨rfl, ?_, fun x y slot => contents_stackPieces o x y slot _ _⟩
  rw [figure, figures_eq_map]
  exact ⟨_, _, rfl⟩

/-- The rows of a stack are joined from the entry of its slot to the exit. -/
theorem exists_rowsJoined (ho : o.Nonneg) (first : Node K) (rest : List (Node K))
    (hfirst : 0 ≤ (first.metrics o).width) (x y slot : K) :
    ∃ lead turns tail, ((stack first rest).place o x y slot).RowsJoined
      ⟨(x, y), (x + slot, y + ((stack first rest).metrics o).height)⟩ lead turns tail := by
  have hstack := stack_laidOut (o := o) first rest
  obtain ⟨left, inner, lead, tail, hrows⟩ := exists_rowsIn (first.figure o) x y slot ho
    (rest.map (figure o))
  have hinner : 0 ≤ inner := hfirst.trans (hrows.wide _ List.mem_cons_self)
  have hheads := hstack.map_ports_place x y slot
  rw [hrows.contents] at hheads
  refine ⟨lead, _, tail, (hstack.tracks_place x y slot).trans hrows.tracks, fun row hrow => ?_, ?_,
    fun row hrow => ?_⟩
  · obtain ⟨others, hothers⟩ := exists_contents_stackLines o inner left (first.figure o)
      (rest.map (figure o)) y
    have hhead := congrArg List.head? hheads
    rw [List.head?_map, hrow, hothers] at hhead
    rw [Option.some.inj hhead]
    exact hrows.lead
  · rw [hheads]
    exact stackLines_linked o left _ _ y hinner
  · obtain ⟨s, hlast, -, hexit⟩ := exists_last_stackLines o inner left (first.figure o)
      (rest.map (figure o)) y
    have hend := congrArg List.getLast? hheads
    rw [List.getLast?_map, hrow, List.getLast?_map, hlast] at hend
    rw [Option.some.inj hend, hexit, stackExit_eq, hstack.metrics_eq]
    exact hrows.tail

/-- **The rows of a stack** are joined from the entry of its slot to the exit, lie in its box, and
have at least twice the vertical separation between them, however wide the slot is. -/
theorem rows_joined {o : Options K} (ho : o.Nonneg) (first : Node K) (rest : List (Node K))
    (h : ∀ n ∈ first :: rest, (n.metrics o).Nonneg) (x y slot : K) :
    let n := stack first rest
    let p := n.place o x y slot
    p.nodes.map Placed.sized = (first :: rest).map (sized o) ∧
      (∃ lead turns tail,
        p.RowsJoined ⟨(x, y), (x + slot, y + (n.metrics o).height)⟩ lead turns tail) ∧
      (∀ row ∈ p.nodes, (row.box o).Within (p.box o)) ∧
      p.nodes.IsChain fun a b =>
        (a.box o).bottom + 2 * o.verticalSeparation ≤ (b.box o).top := by
  have hstack := stack_laidOut (o := o) first rest
  have hitems : ∀ i ∈ first.figure o :: rest.map (figure o), i.metrics.Nonneg := by
    rw [← List.map_cons (f := figure o), List.forall_mem_map]
    exact h
  obtain ⟨left, inner, _, _, hrows⟩ := exists_rowsIn (first.figure o) x y slot ho
    (rest.map (figure o))
  have hjoined := exists_rowsJoined ho first rest (h first List.mem_cons_self).width x y slot
  refine ⟨hstack.map_sized_place x y slot, hjoined,
    hstack.within_box x y slot fun s hs => ?_, ?_⟩
  · obtain ⟨i, hmem, hi⟩ := exists_node_of_mem (hstack.contents x y slot) hs
    obtain ⟨hx, hslot, htop, hbottom⟩ := stackLines_between inner left y ho hitems s
      (hrows.contents ▸ hs)
    rw [stackExit_eq, down_getLast] at hbottom
    refine .of ?_ ?_ ?_ htop hbottom
    · rw [hslot]
      exact hrows.wide _ (hi ▸ List.mem_map_of_mem hmem)
    · rw [hx]
      exact hrows.start
    · rw [hx, hslot]
      exact hrows.stop
  · rw [hstack.nodes_place, List.isChain_map]
    refine List.IsChain.imp_of_mem_imp (fun a b ha hb hab => ?_)
      (hrows.contents ▸ stackLines_apart inner left y)
    obtain ⟨i, -, hi⟩ := exists_node_of_mem (hstack.contents x y slot) ha
    obtain ⟨j, -, hj⟩ := exists_node_of_mem (hstack.contents x y slot) hb
    rw [(box_settle hi).2, (box_settle hj).1]
    exact hab

/-- A terminal over a stack of two more, in a slot that is wider than both. -/
theorem rows_joined_nested :
    let first : Node Rat := .ofText "a"
    let inner : Node Rat := .stack (.ofText "b") [.ofText "c"]
    let p := (stack first [inner]).place Options.exact 0 0 120
    Options.exact.Nonneg ∧ (∀ n ∈ [first, inner], (n.metrics Options.exact).Nonneg) ∧
      p.nodes.map (fun row => (row.box Options.exact).bottom) = [11, 91] ∧
      (∃ lead turns tail, p.RowsJoined ⟨(0, 0), (120, 80)⟩ lead turns tail) ∧
      p.nodes.IsChain fun a b =>
        (a.box Options.exact).bottom + 2 * 8 ≤ (b.box Options.exact).top := by
  intro first inner p
  have hrows : ∀ n ∈ [first, inner], (n.metrics Options.exact).Nonneg := by decide +kernel
  have hheight : ((stack first [inner]).metrics Options.exact).height = 80 := by decide +kernel
  obtain ⟨-, hjoined, -, hapart⟩ := rows_joined Options.exact_nonneg first [inner] hrows 0 0
    120
  rw [hheight, zero_add, zero_add] at hjoined
  exact ⟨Options.exact_nonneg, hrows, by decide +kernel, hjoined, hapart⟩

end Node
end SyntaxDiagram
