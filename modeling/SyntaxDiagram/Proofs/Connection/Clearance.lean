import SyntaxDiagram.Proofs.Connection.Settled
import SyntaxDiagram.Proofs.Layout.BranchExtents

/-!
# Room between branches

Branches are put one after the other, from the straight one outwards on both sides. Each of them is
as far from the one before it as both extents and vertical separation ask. So read from top to bottom
they come in their order, with that much room between every two, wherever the straight one stands.

* `Spread`: strands from top to bottom, with room between them, all of which begin at one point.
* `Layout.choiceAbove_ends`, `Layout.choiceBelow_begins`: the nearest branch is the one that reaches
  farthest in. `Layout.choiceAbove_clear`, `Layout.choiceBelow_clear`: going outwards on one side.
* `Branches.Clear`, `Layout.branchesDown_clear`: both sides, with the straight branch between them.
* `Layout.choicePieces_spread`, `Layout.multiplePieces_spread`: the strands of choices are spread.
* `Node.branches?`: the branches of a node of each kind that has branches. `Node.branches_spread`: the
  branches of all these nodes are spread.
-/

namespace SyntaxDiagram

variable {K β γ δ : Type} [ExactScalar K] {o : Options K}

/-- Strands from top to bottom, with room between what stands in every two of them, that begin at one
point and end where what stands in them is entered. They are all of some strands. -/
structure Spread (room : K) (fork : K × K) (box : γ → Box K) (ports : γ → Ports K)
    (strands drawn : List (Strand K γ)) : Prop where
  drawn : strands.Perm drawn
  clear : strands.Pairwise fun s t => (box s.content).bottom + room ≤ (box t.content).top
  entered : ∀ t ∈ strands, t.into.Draws fork (ports t.content).entry

/-- Other content on the same lines and with the same ports is spread just as well. -/
theorem Spread.map {room : K} {fork : K × K} {box : γ → Box K} {ports : γ → Ports K}
    {strands drawn : List (Strand K γ)} (h : Spread room fork box ports strands drawn) {f : γ → δ}
    {box' : δ → Box K} {ports' : δ → Ports K}
    (hbox : ∀ t ∈ strands, (box' (f t.content)).top = (box t.content).top ∧
      (box' (f t.content)).bottom = (box t.content).bottom)
    (hports : ∀ t ∈ strands, ports' (f t.content) = ports t.content) :
    Spread room fork box' ports' (strands.map (Strand.map f)) (drawn.map (Strand.map f)) where
  drawn := h.drawn.map _
  clear := by
    refine List.pairwise_map.2 (h.clear.imp_of_mem fun {s t} hs ht hclear => ?_)
    change (box' (f s.content)).bottom + room ≤ (box' (f t.content)).top
    rw [(hbox s hs).2, (hbox t ht).1]
    exact hclear
  entered := by
    refine List.forall_mem_map.2 fun t ht => ?_
    change t.into.Draws fork (ports' (f t.content)).entry
    rw [hports t ht]
    exact h.entered t ht

namespace Layout

/-! ## Places -/

section

variable {f : ChoiceFrame K} (ho : f.options.Nonneg) {items : List (Sized K β)}
  (h : ∀ i ∈ items, i.metrics.Nonneg) (distance : K)
include ho h

/-- The branches above end over a line if the nearest of them does. -/
theorem choiceAbove_ends (reach : K) (hnearest : ∀ i ∈ items.head?,
    reach + (i.metrics.down + i.metrics.height) ≤ distance) :
    ∀ s ∈ contents (choiceAbove f items distance), s.box.bottom ≤ f.y - reach := by
  cases items with
  | nil => exact List.forall_mem_nil _
  | cons nearest rest =>
    intro s hs
    have hroom := hnearest nearest rfl
    obtain ⟨-, -, -, hbottom⟩ := choiceAbove_between ho h distance s hs
    change s.y + s.metrics.height + s.metrics.down ≤ f.y - reach
    linarith

/-- The branches below begin under a line if the nearest of them does. -/
theorem choiceBelow_begins (reach : K) (hnearest : ∀ i ∈ items.head?,
    reach + i.metrics.up ≤ distance) :
    ∀ s ∈ contents (choiceBelow f items distance), f.y + reach ≤ s.box.top := by
  cases items with
  | nil => exact List.forall_mem_nil _
  | cons nearest rest =>
    intro s hs
    have hroom := hnearest nearest rfl
    obtain ⟨-, -, htop, -⟩ := choiceBelow_between ho h distance s hs
    change f.y + reach ≤ s.y - s.metrics.up
    linarith

/-- There is room between every two branches above, the nearest of which is the lowest. -/
theorem choiceAbove_clear :
    (contents (choiceAbove f items distance)).Pairwise fun s t =>
      t.box.bottom + f.options.verticalSeparation ≤ s.box.top := by
  induction items generalizing distance with
  | nil => exact .nil
  | cons s rest ih =>
    obtain ⟨-, hrest⟩ := List.forall_mem_cons.1 h
    refine List.pairwise_cons.2 ⟨?_, ih hrest _⟩
    cases rest with
    | nil => exact List.forall_mem_nil _
    | cons next rest =>
      intro t ht
      -- the next branch is the lowest of those over this one
      have hroom := le_max_right f.options.arcRadius (s.metrics.up +
        f.options.verticalSeparation + (next.metrics.down + next.metrics.height))
      have hends := choiceAbove_ends ho hrest _
        (distance + s.metrics.up + f.options.verticalSeparation) ?_ t ht
      · change t.box.bottom + _ ≤ f.y - distance - s.metrics.up
        linarith
      · rintro i ⟨⟩
        linarith

/-- There is room between every two branches below, the nearest of which is the highest. -/
theorem choiceBelow_clear :
    (contents (choiceBelow f items distance)).Pairwise fun s t =>
      s.box.bottom + f.options.verticalSeparation ≤ t.box.top := by
  induction items generalizing distance with
  | nil => exact .nil
  | cons s rest ih =>
    obtain ⟨-, hrest⟩ := List.forall_mem_cons.1 h
    refine List.pairwise_cons.2 ⟨?_, ih hrest _⟩
    cases rest with
    | nil => exact List.forall_mem_nil _
    | cons next rest =>
      intro t ht
      -- the next branch is the highest of those under this one
      have hroom := le_max_right f.options.arcRadius (s.metrics.height + s.metrics.down +
        f.options.verticalSeparation + next.metrics.up)
      have hbegins := choiceBelow_begins ho hrest _ (distance + s.metrics.height +
        s.metrics.down + f.options.verticalSeparation) ?_ t ht
      · change f.y + distance + s.metrics.height + s.metrics.down + _ ≤ t.box.top
        linarith
      · rintro i ⟨⟩
        linarith

end

/-- The nearest branches leave vertical separation to the straight one. -/
structure Branches.Clear (o : Options K) (rise drop : K) (b : Branches (Sized K β)) : Prop where
  above : ∀ i ∈ b.above.reverse.head?,
    b.straight.metrics.up + o.verticalSeparation + i.metrics.down + i.metrics.height ≤ rise
  below : ∀ i ∈ b.below.head?,
    b.straight.metrics.height + b.straight.metrics.down + o.verticalSeparation + i.metrics.up ≤ drop

/-- The branches of a choice at their places, from top to bottom. -/
def branchesDown (f : ChoiceFrame K) (rise drop : K) (b : Branches (Sized K β)) :
    List (Site K β) :=
  (contents (choiceAbove f b.above.reverse rise)).reverse ++
    b.straight.at (f.x + 2 * f.options.arcRadius) f.y f.inner ::
      contents (choiceBelow f b.below drop)

/-- The branches of a choice come from top to bottom in their order. -/
theorem toSized_branchesDown (f : ChoiceFrame K) (rise drop : K) (b : Branches (Sized K β)) :
    (branchesDown f rise drop b).map Site.toSized = b.toList := by
  rw [branchesDown, List.map_append, List.map_reverse, List.map_cons, contents_choiceAbove,
    contents_choiceBelow, List.reverse_reverse]
  rfl

/-- **There is vertical separation between every two branches**, whichever of them is straight. -/
theorem branchesDown_clear {f : ChoiceFrame K} (ho : f.options.Nonneg) {rise drop : K}
    {b : Branches (Sized K β)} (h : ∀ i ∈ b.toList, i.metrics.Nonneg)
    (hclear : b.Clear f.options rise drop) :
    (branchesDown f rise drop b).Pairwise fun s t =>
      s.box.bottom + f.options.verticalSeparation ≤ t.box.top := by
  have hstraight : b.straight.metrics.Nonneg := h _ (Branches.mem_toList.2 (by simp))
  have habove : ∀ i ∈ b.above.reverse, i.metrics.Nonneg := fun i hi =>
    h i (Branches.mem_toList.2 (List.mem_append_left _ hi))
  have hbelow : ∀ i ∈ b.below, i.metrics.Nonneg := fun i hi =>
    h i (Branches.mem_toList.2 (List.mem_append_right _ (List.mem_cons_of_mem _ hi)))
  have hover := choiceAbove_ends ho habove rise
    (b.straight.metrics.up + f.options.verticalSeparation)
    fun i hi => by linarith [hclear.above i hi]
  have hunder := choiceBelow_begins ho hbelow drop (b.straight.metrics.height +
    b.straight.metrics.down + f.options.verticalSeparation) hclear.below
  refine List.pairwise_append.2 ⟨List.pairwise_reverse.2 (choiceAbove_clear ho habove rise),
    List.pairwise_cons.2 ⟨fun t ht => ?_, choiceBelow_clear ho hbelow drop⟩, fun s hs t ht => ?_⟩
  · change f.y + b.straight.metrics.height + b.straight.metrics.down + _ ≤ t.box.top
    linarith [hunder t ht]
  · have hs' := hover s (List.mem_reverse.1 hs)
    rcases List.mem_cons.1 ht with rfl | ht
    · change s.box.bottom + _ ≤ f.y - b.straight.metrics.up
      linarith
    · linarith [hunder t ht, hstraight.up, hstraight.height, hstraight.down,
        ho.verticalSeparation]

/-! ## Strands of a choice -/

/-- Strands through branches at their places are spread, if each of them begins at one point and ends
where its branch is entered. -/
theorem exists_spread {f : ChoiceFrame K} (ho : f.options.Nonneg) {rise drop : K}
    {b : Branches (Sized K β)} (h : ∀ i ∈ b.toList, i.metrics.Nonneg)
    (hclear : b.Clear f.options rise drop) {above below : List (Strand K (Site K β))}
    {straight : Strand K (Site K β)}
    (hdown : branchesDown f rise drop b = (above.map Strand.content).reverse ++
      straight.content :: below.map Strand.content) {fork : K × K}
    (hentered : ∀ t ∈ above ++ straight :: below, t.into.Draws fork t.content.ports.entry) :
    ∃ ts, ts.map (·.content.toSized) = b.toList ∧
      Spread f.options.verticalSeparation fork Site.box Site.ports ts
        (above ++ straight :: below) := by
  have hperm : (above.reverse ++ straight :: below).Perm (above ++ straight :: below) :=
    (List.reverse_perm _).append_right _
  have hpairwise := branchesDown_clear ho h hclear
  have horder := toSized_branchesDown f rise drop b
  rw [hdown, ← List.map_reverse, ← List.map_cons, ← List.map_append] at hpairwise horder
  rw [List.map_map] at horder
  exact ⟨_, horder, hperm, List.pairwise_map.1 hpairwise,
    fun t ht => hentered t (hperm.subset ht)⟩

/-- The nearest branch above leaves room to the straight one. -/
theorem room_le_choiceRise (o : Options K) (straight : Metrics K) (items : List (Sized K β)) :
    ∀ i ∈ items.head?, straight.up + o.verticalSeparation + i.metrics.down + i.metrics.height ≤
      choiceRise o straight items := by
  intro i hi
  obtain ⟨rest, rfl⟩ := List.head?_eq_some_iff.1 hi
  exact le_max_right _ _

/-- The nearest branch below leaves room to the straight one, if the exit line of the choice is not
over that of the straight branch. -/
theorem room_le_choiceDrop (o : Options K) {height : K} {straight : Metrics K}
    (h : straight.height ≤ height) (items : List (Sized K β)) :
    ∀ i ∈ items.head?, straight.height + straight.down + o.verticalSeparation + i.metrics.up ≤
      choiceDrop o height straight items := by
  intro i hi
  obtain ⟨rest, rfl⟩ := List.head?_eq_some_iff.1 hi
  have hroom := le_max_right (2 * o.arcRadius)
    (height + straight.down + o.verticalSeparation + i.metrics.up)
  rw [choiceDrop]
  linarith

/-- **The branches of a choice are spread**, if its exit line is not over that of the straight
branch. -/
theorem choicePieces_spread (ho : o.Nonneg) {m : Metrics K} {b : Branches (Sized K β)}
    (h : ∀ i ∈ b.toList, i.metrics.Nonneg) (hm : b.straight.metrics.height ≤ m.height)
    (x y slot : K) :
    ∃ ts, ts.map (·.content.toSized) = b.toList ∧
      Spread o.verticalSeparation (ownPorts o m x y slot).entry Site.box Site.ports ts
        (strands (choicePieces o m b x y slot)) := by
  let f : ChoiceFrame K :=
    ⟨o, m.height, m.width - 4 * o.arcRadius, x + (gaps o m slot).left, y⟩
  have hentered := choicePieces_entered (m := m) (b := b) x y slot ho
  rw [strands_choicePieces] at hentered ⊢
  refine exists_spread (f := f) ho h
    ⟨room_le_choiceRise o _ b.above.reverse, room_le_choiceDrop o hm b.below⟩ ?_ hentered
  rw [content_strands_choiceAbove, content_strands_choiceBelow]
  rfl

/-! ## Strands of a multiple choice -/

section

variable {f : ChoiceFrame K} {distance : K} {items : List (Sized K β)}

theorem content_strands_multipleAbove (f : ChoiceFrame K) (items : List (Sized K β))
    (distance : K) :
    (strands (multipleAbove f items distance)).map Strand.content =
      contents (multipleAbove f items distance) := by
  induction items generalizing distance with
  | nil => rfl
  | cons s rest ih => exact congrArg (_ :: ·) (ih _)

theorem content_strands_multipleBelow (f : ChoiceFrame K) (items : List (Sized K β))
    (distance : K) :
    (strands (multipleBelow f items distance)).map Strand.content =
      contents (multipleBelow f items distance) := by
  induction items generalizing distance with
  | nil => rfl
  | cons s rest ih => exact congrArg (_ :: ·) (ih _)

theorem strands_multipleAbove_append (f : ChoiceFrame K) (items : List (Sized K β)) (distance : K)
    (more : List (Piece K (Site K β))) :
    strands (multipleAbove f items distance ++ more) =
      strands (multipleAbove f items distance) ++ strands more := by
  induction items generalizing distance with
  | nil => rfl
  | cons s rest ih => exact congrArg (_ :: ·) (ih _)

theorem strands_multipleBelow_append (f : ChoiceFrame K) (items : List (Sized K β)) (distance : K)
    (more : List (Piece K (Site K β))) :
    strands (multipleBelow f items distance ++ more) =
      strands (multipleBelow f items distance) ++ strands more := by
  induction items generalizing distance with
  | nil => rfl
  | cons s rest ih => exact congrArg (_ :: ·) (ih _)

/-- The strand of the straight branch of a multiple choice. -/
def ChoiceFrame.throughBadge (f : ChoiceFrame K) (s : Sized K β) : Strand K (Site K β) :=
  let r := f.options.arcRadius
  ⟨(start (f.x + 30) f.y).right r, s.at (f.x + 30 + r) f.y f.inner,
    (start (f.x + 30 + r + f.inner) (f.y + f.height)).right r⟩

/-- The strands of a multiple choice, one for each branch. -/
theorem strands_multiplePieces (o : Options K) (kind : ChoiceKind) (b : Branches (Sized K β))
    (x y slot : K) :
    let m := multipleSize o (b.map (·.metrics))
    let f : ChoiceFrame K :=
      ⟨o, m.height, (b.map (·.metrics)).widest, x + (gaps o m slot).left, y⟩
    strands (multiplePieces o kind b x y slot) =
      strands (multipleAbove f b.above.reverse
          (multipleRise o b.straight.metrics b.above.reverse)) ++
        f.throughBadge b.straight ::
          strands (multipleBelow f b.below (multipleDrop o b.straight.metrics b.below)) := by
  intro m f
  -- neither the lines in the gaps nor the badge belong to a branch
  have hbelow := strands_multipleBelow_append f b.below
    (multipleDrop o b.straight.metrics b.below) [.shape (badgeDrawing kind m f.x y)]
  rw [show strands [Piece.shape (badgeDrawing kind m f.x y)] = ([] : List (Strand K (Site K β)))
    from rfl, List.append_nil] at hbelow
  rw [← hbelow, multiplePieces, List.append_assoc, List.append_assoc]
  cases b.above.reverse with
  | nil => rfl
  | cons s rest => exact congrArg (_ :: ·) (strands_multipleAbove_append f rest _ _)

/-- A track that rises from a badge and turns to the right at the end. -/
theorem draws_rise_by (r : K) {distance : K} (h : r ≤ distance) (x y : K) :
    (((start x y).up (distance - r)).arc r .west .north).Draws (x, y) (x + r, y - distance) := by
  refine (((Path.draws_start x y).up (sub_nonneg.2 h)).arc r .west .north).to ?_ ?_
  · simp [Command.arcX]
  · simp [Command.arcY]
    ring

/-- A track that drops from a badge and turns to the right at the end. -/
theorem draws_drop_by (r : K) {distance : K} (h : r ≤ distance) (x y : K) :
    (((start x y).down (distance - r)).arc r .west .south).Draws (x, y) (x + r, y + distance) := by
  refine (((Path.draws_start x y).down (sub_nonneg.2 h)).arc r .west .south).to ?_ ?_
  · simp [Command.arcX]
  · simp [Command.arcY]
    ring

/-- A branch further out is as far from the badge as the one before it. -/
theorem le_further {r distance : K} (hr : 0 ≤ r) (h : r ≤ distance) (room : K) :
    r ≤ distance + max r room :=
  h.trans (le_add_of_nonneg_right (hr.trans (le_max_left _ _)))

/-- Every branch above is entered if the nearest one is an arc away. -/
theorem multipleAbove_entered (harc : 0 ≤ f.options.arcRadius)
    (hfar : items ≠ [] → f.options.arcRadius ≤ distance) :
    ∀ t ∈ strands (multipleAbove f items distance),
      t.into.Draws (f.x + 30, f.y) t.content.ports.entry := by
  induction items generalizing distance with
  | nil => exact List.forall_mem_nil _
  | cons s rest ih =>
    have hs := hfar (List.cons_ne_nil _ _)
    refine List.forall_mem_cons.2 ⟨draws_rise_by _ hs _ _, ih fun hrest => ?_⟩
    cases rest with
    | nil => exact absurd rfl hrest
    | cons next rest => exact le_further harc hs _

/-- Every branch below is entered if the nearest one is an arc away. -/
theorem multipleBelow_entered (harc : 0 ≤ f.options.arcRadius)
    (hfar : items ≠ [] → f.options.arcRadius ≤ distance) :
    ∀ t ∈ strands (multipleBelow f items distance),
      t.into.Draws (f.x + 30, f.y) t.content.ports.entry := by
  induction items generalizing distance with
  | nil => exact List.forall_mem_nil _
  | cons s rest ih =>
    have hs := hfar (List.cons_ne_nil _ _)
    refine List.forall_mem_cons.2 ⟨draws_drop_by _ hs _ _, ih fun hrest => ?_⟩
    cases rest with
    | nil => exact absurd rfl hrest
    | cons next rest => exact le_further harc hs _

end

/-- The nearest branches of a multiple choice are far enough for an arc. -/
theorem arc_le_multipleRise (o : Options K) (straight : Metrics K) {items : List (Sized K β)}
    (h : items ≠ []) : o.arcRadius ≤ multipleRise o straight items := by
  cases items with
  | nil => exact absurd rfl h
  | cons s rest =>
    have hfar := le_max_left (10 + o.arcRadius)
      (straight.up + o.verticalSeparation + s.metrics.down + s.metrics.height)
    rw [multipleRise]
    linarith

theorem arc_le_multipleDrop (o : Options K) (straight : Metrics K) {items : List (Sized K β)}
    (h : items ≠ []) : o.arcRadius ≤ multipleDrop o straight items := by
  cases items with
  | nil => exact absurd rfl h
  | cons s rest =>
    have hfar := le_max_left (10 + o.arcRadius)
      (straight.height + straight.down + o.verticalSeparation + s.metrics.up)
    rw [multipleDrop]
    linarith

/-- The nearest branch above leaves room to the straight one. -/
theorem room_le_multipleRise (o : Options K) (straight : Metrics K) (items : List (Sized K β)) :
    ∀ i ∈ items.head?, straight.up + o.verticalSeparation + i.metrics.down + i.metrics.height ≤
      multipleRise o straight items := by
  intro i hi
  obtain ⟨rest, rfl⟩ := List.head?_eq_some_iff.1 hi
  exact le_max_right _ _

/-- The nearest branch below leaves room to the straight one. -/
theorem room_le_multipleDrop (o : Options K) (straight : Metrics K) (items : List (Sized K β)) :
    ∀ i ∈ items.head?, straight.height + straight.down + o.verticalSeparation + i.metrics.up ≤
      multipleDrop o straight items := by
  intro i hi
  obtain ⟨rest, rfl⟩ := List.head?_eq_some_iff.1 hi
  exact le_max_right _ _

/-- **The branches of a multiple choice are spread.** -/
theorem multiplePieces_spread (ho : o.Nonneg) (kind : ChoiceKind) {b : Branches (Sized K β)}
    (h : ∀ i ∈ b.toList, i.metrics.Nonneg) (x y slot : K) :
    let m := multipleSize o (b.map (·.metrics))
    ∃ ts, ts.map (·.content.toSized) = b.toList ∧
      Spread o.verticalSeparation ((ownPorts o m x y slot).entry.1 + 30, y) Site.box Site.ports ts
        (strands (multiplePieces o kind b x y slot)) := by
  intro m
  let f : ChoiceFrame K :=
    ⟨o, m.height, (b.map (·.metrics)).widest, x + (gaps o m slot).left, y⟩
  -- the frame of a choice whose branches stand where these do
  let g : ChoiceFrame K := { f with x := f.x + 30 - o.arcRadius }
  have hleft : g.x + 2 * o.arcRadius = f.x + 30 + o.arcRadius := by
    change f.x + 30 - o.arcRadius + 2 * o.arcRadius = f.x + 30 + o.arcRadius
    ring
  rw [strands_multiplePieces]
  refine exists_spread (f := g) ho h
    ⟨room_le_multipleRise o _ b.above.reverse, room_le_multipleDrop o _ b.below⟩ ?_ fun t ht => ?_
  · rw [content_strands_multipleAbove, content_strands_multipleBelow, contents_multipleAbove_eq,
      contents_multipleBelow_eq, branchesDown, hleft]
    rfl
  · rw [List.mem_append, List.mem_cons] at ht
    rcases ht with ht | rfl | ht
    · exact multipleAbove_entered ho.arcRadius (arc_le_multipleRise o _) t ht
    · exact (Path.draws_start _ _).right ho.arcRadius
    · exact multipleBelow_entered ho.arcRadius (arc_le_multipleDrop o _) t ht

/-- Every branch of a multiple choice has a strand. -/
theorem content_strands_multiplePieces (o : Options K) (kind : ChoiceKind)
    (b : Branches (Sized K β)) (x y slot : K) :
    (strands (multiplePieces o kind b x y slot)).map Strand.content =
      contents (multiplePieces o kind b x y slot) := by
  rw [strands_multiplePieces, List.map_append, List.map_cons, content_strands_multipleAbove,
    content_strands_multipleBelow]
  simp [multiplePieces, ChoiceFrame.throughBadge]

end Layout

open Layout

/-! ## Nodes -/

namespace Node

/-- An item and the bare line beside it. -/
def besideLine {α : Type} (item : Node α) (bypass : Bool) : Branches (Node α) :=
  if bypass then ⟨[], skip, [item]⟩ else ⟨[skip], item, []⟩

/-- The branches of a node, if it is one of those that have branches. -/
def branches? {α : Type} : Node α → Option (Branches (Node α))
  | choice above straight below | multipleChoice _ above straight below =>
    some ⟨above, straight, below⟩
  | optional item bypass => some (besideLine item bypass)
  | zeroOrMore item separator => some (besideLine (oneOrMore item separator) true)
  | _ => none

/-- The nodes that a node with branches is made from. -/
def operands {α : Type} : Node α → List (Node α)
  | optional item _ => [item]
  | zeroOrMore item separator => [item, separator]
  | n => n.children

theorem mem_besideLine {α : Type} {item i : Node α} {bypass : Bool} :
    i ∈ (besideLine item bypass).toList ↔ i = skip ∨ i = item := by
  cases bypass <;> simp [besideLine, Branches.toList]

/-- What can be passed by is laid out from the figures of both. -/
theorem passing_figure (o : Options K) (item : Node K) (bypass : Bool) :
    passing o (item.figure o) bypass = (besideLine item bypass).map (figure o) := by
  have hskip : skipFigure o = (skip : Node K).figure o := by rw [figure]
  cases bypass with
  | false => exact congrArg (fun f => Branches.mk [f] _ []) hskip
  | true => exact congrArg (fun f => Branches.mk [] f _) hskip

theorem metrics_skip (o : Options K) : (skip : Node K).metrics o = Metrics.zero := by
  rw [metrics, figure]
  rfl

/-- If nothing that a node is made from has negative extents, none of its branches does. -/
theorem nonneg_of_branches? (ho : o.Nonneg) {n : Node K} {b : Branches (Node K)}
    (hb : n.branches? = some b) (h : ∀ i ∈ n.operands, (i.metrics o).Nonneg) :
    ∀ i ∈ b.toList, (i.metrics o).Nonneg := by
  have hbeside : ∀ item bypass, (metrics o item).Nonneg →
      ∀ i ∈ (besideLine item bypass).toList, (i.metrics o).Nonneg := by
    intro item bypass hitem i hi
    rcases mem_besideLine.1 hi with rfl | rfl
    · exact metrics_skip o ▸ Metrics.flat_zero.toNonneg
    · exact hitem
  cases n with
  | choice above straight below =>
    cases hb
    exact h
  | multipleChoice kind above straight below =>
    cases hb
    exact h
  | optional item bypass =>
    cases hb
    exact hbeside item bypass (h item List.mem_cons_self)
  | zeroOrMore item separator =>
    cases hb
    refine hbeside _ true ?_
    rw [metrics, figure]
    exact nonneg_loopSize ho (h item List.mem_cons_self)
  | _ => cases hb

end Node

/-- Where the strands of a node with branches begin: at its entry, or behind the left part of its
badge. -/
def Placed.fork (o : Options K) (p : Placed K) : K × K :=
  match p.site.item with
  | .multipleChoice => ((p.inner o).entry.1 + 30, (p.inner o).entry.2)
  | _ => (p.inner o).entry

/-- Some nodes are what stands in a placed node, and each has a strand there. From top to bottom the
strands come in the order of the nodes, with vertical separation between every two. -/
def Placed.Spreads (o : Options K) (p : Placed K) (items : List (Node K)) : Prop :=
  p.strands.map Strand.content = p.nodes ∧
    ∃ ts, List.Forall₂ (fun t i => ∃ x y slot, Strand.content t = i.place o x y slot) ts items ∧
      Spread o.verticalSeparation (p.fork o) (Placed.box o) Placed.ports ts p.strands

namespace Node

/-- **What is spread in a layout is spread in the node** that is laid out so. -/
theorem LaidOut.spreads {n : Node K} {m : Metrics K} {nodes : List (Node K)}
    {pieces : (x y slot : K) → List (Piece K (Site K (Drawable K)))}
    (h : n.LaidOut o m nodes pieces) {x y slot : K}
    (hcontents : (strands (pieces x y slot)).map Strand.content =
      Layout.contents (pieces x y slot))
    {items : List (Node K)}
    (hspread : ∃ ts, ts.map (·.content.toSized) = items.map (Node.figure o) ∧
      Spread o.verticalSeparation ((n.place o x y slot).fork o) Site.box Site.ports ts
        (strands (pieces x y slot))) :
    (n.place o x y slot).Spreads o items := by
  obtain ⟨ts, hitems, hspread⟩ := hspread
  have hfigure : ∀ t ∈ ts, ∃ i : Node K, t.content.toSized = i.figure o := by
    intro t ht
    obtain ⟨i, -, hi⟩ := List.mem_map.1 (hitems ▸ List.mem_map.2 ⟨t, ht, rfl⟩)
    exact ⟨i, hi.symm⟩
  refine ⟨?_, ts.map (Strand.map settle), ?_, ?_⟩
  · rw [h.strands_place, h.nodes_place, ← hcontents, List.map_map, List.map_map]
    rfl
  · rw [← List.forall₂_eq_eq_eq, List.forall₂_map_left_iff, List.forall₂_map_right_iff] at hitems
    rw [List.forall₂_map_left_iff]
    exact hitems.imp fun t i hi => ⟨_, _, _, settle_eq_place hi⟩
  · rw [h.strands_place]
    refine hspread.map (fun t ht => ?_) fun t ht => ?_
    · obtain ⟨i, hi⟩ := hfigure t ht
      exact box_settle hi
    · obtain ⟨i, hi⟩ := hfigure t ht
      exact ports_settle hi

/-- The branches of a node that is laid out as a choice are spread. -/
theorem spreads_of_choicePieces (ho : o.Nonneg) {n : Node K} (hn : n.kind.isChoice)
    {b : Branches (Node K)} (hfigure : ∃ m attributes inside, n.figure o =
      Layout.figure n.kind m attributes inside (choicePieces o m (b.map (figure o))) ∧
        (b.straight.metrics o).height ≤ m.height)
    (h : ∀ i ∈ b.toList, (i.metrics o).Nonneg) (x y slot : K) :
    (n.place o x y slot).Spreads o b.toList := by
  obtain ⟨m, attributes, inside, hfigure, hm⟩ := hfigure
  have haligned : n.kind.isAligned := by
    cases hkind : n.kind <;> first | rfl | simp [hkind, Kind.isChoice] at hn
  have hlaid : n.LaidOut o m (b.above.reverse ++ b.straight :: b.below)
      (choicePieces o m (b.map (figure o))) := by
    refine ⟨haligned, ⟨_, _, hfigure⟩, fun x y slot => ?_⟩
    rw [contents_choicePieces]
    simp [Branches.map]
  have hfork : (n.place o x y slot).fork o = (ownPorts o m x y slot).entry := by
    have hsite : (n.place o x y slot).site.item = n.kind :=
      congrArg Sized.item (Placed.sized_place o n x y slot)
    rw [Placed.fork, hlaid.inner_place, hsite]
    cases hkind : n.kind <;> first | rfl | simp [hkind, Kind.isChoice] at hn
  refine hlaid.spreads (content_strands_choicePieces _ _ _ _ _ _) ?_
  rw [hfork, ← Branches.toList_map]
  refine choicePieces_spread ho ?_ hm x y slot
  rw [Branches.toList_map]
  exact List.forall_mem_map.2 h

/-- The branches of a multiple choice are spread. -/
theorem spreads_multipleChoice (ho : o.Nonneg) (kind : ChoiceKind) {b : Branches (Node K)}
    (h : ∀ i ∈ b.toList, (i.metrics o).Nonneg) (x y slot : K) :
    ((multipleChoice kind b.above b.straight b.below).place o x y slot).Spreads o b.toList := by
  have hlaid : (multipleChoice kind b.above b.straight b.below).LaidOut o
      (multipleSize o ((b.map (figure o)).map (·.metrics)))
      (b.above.reverse ++ b.straight :: b.below) (multiplePieces o kind (b.map (figure o))) := by
    refine ⟨rfl, ⟨_, _, figure_multipleChoice o kind b⟩, fun x y slot => ?_⟩
    rw [contents_multiplePieces]
    simp [Branches.map]
  refine hlaid.spreads (content_strands_multiplePieces _ _ _ _ _ _) ?_
  have hfork : ((multipleChoice kind b.above b.straight b.below).place o x y slot).fork o =
      ((ownPorts o (multipleSize o ((b.map (figure o)).map (·.metrics))) x y slot).entry.1 + 30,
        y) := by
    have hsite : ((multipleChoice kind b.above b.straight b.below).place o x y slot).site.item =
        .multipleChoice := congrArg Sized.item (Placed.sized_place o _ x y slot)
    rw [Placed.fork, hlaid.inner_place, hsite]
    rfl
  rw [hfork, ← Branches.toList_map]
  refine multiplePieces_spread ho kind ?_ x y slot
  rw [Branches.toList_map]
  exact List.forall_mem_map.2 h

/-- **Branches never overlap.** Whatever a node with branches is made from, whichever of its branches
is straight and however wide its slot: its branches come from top to bottom in their order, with
vertical separation between every two, and the line that leads into each of them ends where it is
entered. -/
theorem branches_spread (ho : o.Nonneg) {n : Node K} {b : Branches (Node K)}
    (hb : n.branches? = some b) (h : ∀ i ∈ n.operands, (i.metrics o).Nonneg) (x y slot : K) :
    (n.place o x y slot).Spreads o b.toList := by
  have hbranches := nonneg_of_branches? ho hb h
  cases n with
  | choice above straight below =>
    cases hb
    exact spreads_of_choicePieces ho rfl
      ⟨_, _, _, figure_choice o ⟨above, straight, below⟩, le_refl _⟩ hbranches x y slot
  | multipleChoice kind above straight below =>
    cases hb
    exact spreads_multipleChoice ho kind hbranches x y slot
  | optional item bypass =>
    cases hb
    have hfigure : (optional item bypass).figure o = optionalFigure o (item.figure o) bypass := by
      rw [figure]
    rw [optionalFigure, passing_figure] at hfigure
    exact spreads_of_choicePieces ho rfl ⟨_, _, _, hfigure, le_refl _⟩ hbranches x y slot
  | zeroOrMore item separator =>
    cases hb
    have hloop : loopFigure o (item.figure o) (separator.figure o) =
        (oneOrMore item separator).figure o := by rw [figure]
    have hfigure : (zeroOrMore item separator).figure o =
        freeLoopFigure o (item.figure o) (separator.figure o) := by rw [figure]
    rw [freeLoopFigure, hloop, passing_figure] at hfigure
    refine spreads_of_choicePieces ho rfl ⟨_, _, _, hfigure, ?_⟩ hbranches x y slot
    -- the bare line is level, and the loop leaves on the line of its item
    change ((skip : Node K).metrics o).height ≤ ((oneOrMore item separator).figure o).metrics.height
    rw [metrics_skip, figure]
    exact ExactScalar.zero_eq.trans_le (h item List.mem_cons_self).height
  | _ => cases hb

/-- Two terminals over and under a stack, of which several are taken. -/
theorem branches_spread_three :
    let o := Options.exact
    let stack : Node Rat := .stack (.ofText "a") [.ofText "b"]
    let n : Node Rat := .multipleChoice .any [.ofText "c"] stack [.ofText "d"]
    let b : Branches (Node Rat) := ⟨[.ofText "c"], stack, [.ofText "d"]⟩
    o.Nonneg ∧ n.branches? = some b ∧ (∀ i ∈ n.operands, (i.metrics o).Nonneg) ∧
      (n.place o 0 0 300).nodes.map (fun q => ((q.box o).top, (q.box o).bottom)) =
        [(-41, -19), (-11, 51), (59, 81)] ∧
      (n.place o 0 0 300).Spreads o b.toList := by
  intro o stack n b
  have hitems : ∀ i ∈ n.operands, (i.metrics o).Nonneg := by decide +kernel
  exact ⟨Options.exact_nonneg, rfl, hitems, by decide +kernel,
    branches_spread Options.exact_nonneg rfl hitems 0 0 300⟩

end Node
end SyntaxDiagram
