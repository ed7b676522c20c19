import SyntaxDiagram.Proofs.Connection.Settled
import SyntaxDiagram.Proofs.Connection.Strokes
import SyntaxDiagram.Proofs.Layout.Rails

/-!
# The rails over and under items side by side

A rail leads over all items but the last, with a drop from it to each item but the first, and a rail
leads under all items but the first, with a way down to it out of each item but the last.

* `Layout.tracks_sidePieces`: the lines are those in the gaps, the two rails, and two for each item.
* `Layout.middleStrands_between`: the strands between the first and the last lead from rail to rail.
* `Layout.sideStrands_joins_iff`, `Node.sides_joined_iff`: the items are joined by the rails if
  there is room for all arcs and the first one does not end as high as the rail below.
* `Layout.above_clear`, `Layout.below_clear`, `Node.sides_clear`: the rails stay clear of the items.
-/

namespace SyntaxDiagram

variable {K β : Type} [ExactScalar K] {o : Options K}

namespace Layout

/-! ## Rails -/

/-- The rail above: up from the entry, and then to the right. -/
def railAbove (o : Options K) (height span x y : K) : Path K :=
  let r := o.arcRadius
  ((((start x y).arc r .south .east).v (2 * r - height)).arc r .west .north).h span

/-- The rail below: to the right, and then up to the exit. -/
def railBelow (o : Options K) (depth span x y : K) : Path K :=
  let r := o.arcRadius
  ((((start x (y + depth)).h span).arc r .south .east).v (2 * r - depth)).arc r .west .north

section

variable (height depth span x y : K) (q : K × K)

theorem draws_railAbove : (railAbove o height span x y).Draws (x, y)
    (x + 2 * o.arcRadius + span, y - height) := by
  refine ((((Path.draws_start x y).arc _ .south .east).v _).arc _ .west .north).h _ |>.to ?_ ?_
  · simp [Command.arcX]
    ring
  · simp [Command.arcY]
    ring

/-- The level part of the rail above. -/
theorem onHorizontal_railAbove : (railAbove o height span x y).OnHorizontal q ↔
    q.2 = y - height ∧ q.1 ∈ Set.uIcc (x + 2 * o.arcRadius) (x + 2 * o.arcRadius + span) := by
  have hturn : ((((start x y).arc o.arcRadius .south .east).v (2 * o.arcRadius - height)).arc
      o.arcRadius .west .north).finish = (x + 2 * o.arcRadius, y - height) := by
    refine Path.Draws.finish ((((Path.draws_start x y).arc _ .south .east).v _).arc _ .west .north
      |>.to ?_ ?_)
    · simp [Command.arcX]
      ring
    · simp [Command.arcY]
      ring
  simp [railAbove, hturn]

theorem draws_railBelow : (railBelow o depth span x y).Draws (x, y + depth)
    (x + span + 2 * o.arcRadius, y) := by
  refine ((((Path.draws_start x (y + depth)).h _).arc _ .south .east).v _).arc _ .west .north
    |>.to ?_ ?_
  · simp [Command.arcX]
    ring
  · simp [Command.arcY]
    ring

/-- The level part of the rail below. -/
theorem onHorizontal_railBelow : (railBelow o depth span x y).OnHorizontal q ↔
    q.2 = y + depth ∧ q.1 ∈ Set.uIcc x (x + span) := by
  simp [railBelow]

/-- The upright part of the rail below. -/
theorem onVertical_railBelow : (railBelow o depth span x y).OnVertical q ↔
    q.1 = x + span + o.arcRadius ∧ q.2 ∈ Set.uIcc (y + depth - o.arcRadius) (y + o.arcRadius) := by
  have hturn : (((start x (y + depth)).h span).arc o.arcRadius .south .east).finish =
      (x + span + o.arcRadius, y + depth - o.arcRadius) := by
    refine Path.Draws.finish (((Path.draws_start x (y + depth)).h span).arc _ .south .east
      |>.to ?_ ?_)
    · simp [Command.arcX]
    · simp [Command.arcY, sub_eq_add_neg]
  have hend : y + depth - o.arcRadius + (2 * o.arcRadius - depth) = y + o.arcRadius := by ring
  simp [railBelow, hturn, hend]

end

/-! ## The way out of an item -/

/-- The height of an item is compared with zero as numbers are. -/
theorem height_beq_zero (m : Metrics K) :
    (m.height == @OfNat.ofNat K 0 (Scalar.instOfNat 0)) = decide (m.height = 0) := by
  change decide (m.height = @OfNat.ofNat K 0 (Scalar.instOfNat 0)) = _
  rw [ExactScalar.zero_eq]

section

variable (o) (lower : K) (m : Metrics K) (x y : K)

/-- A fall to the rail, with an arc at both ends. -/
def fallOut : Path K :=
  let r := o.arcRadius
  (((start x (y + m.height)).arc r .north .east).v (lower - m.height - 2 * r)).arc r .west .south

/-- A rise to the rail, with an arc at both ends. -/
def riseOut : Path K :=
  let r := o.arcRadius
  (((start x (y + m.height)).arc r .south .east).v (lower - m.height + 2 * r)).arc r .west .north

/-- A slanted line to the rail. -/
def slantOut : Path K := (start x (y + m.height)).l (2 * o.arcRadius) (lower - m.height)

/-- **The way out of the first item** is a fall unless the item ends under the rail. There it is a
rise if there is room for both arcs, and else a slanted line. -/
theorem first_sideExit :
    (m.height ≤ lower ∧ sideExit o lower true false m x y = fallOut o lower m x y) ∨
      (lower < m.height ∧ 2 * o.arcRadius ≤ m.height - lower ∧
        sideExit o lower true false m x y = riseOut o lower m x y) ∨
      (lower < m.height ∧ sideExit o lower true false m x y = slantOut o lower m x y) := by
  rw [sideExit, if_neg Bool.false_ne_true]
  rcases le_or_gt m.height lower with hlow | hhigh
  · exact .inl ⟨hlow, if_neg (by simpa using hlow)⟩
  · rw [if_pos (by simpa using hhigh)]
    split
    · rename_i hfar
      exact .inr (.inl ⟨hhigh, hfar, rfl⟩)
    · exact .inr (.inr ⟨hhigh, rfl⟩)

theorem draws_fallOut :
    (fallOut o lower m x y).Draws (x, y + m.height) (x + 2 * o.arcRadius, y + lower) := by
  refine (((Path.draws_start x _).arc _ .north .east).v _).arc _ .west .south |>.to ?_ ?_
  · simp [Command.arcX]
    ring
  · simp [Command.arcY]
    ring

theorem draws_riseOut :
    (riseOut o lower m x y).Draws (x, y + m.height) (x + 2 * o.arcRadius, y + lower) := by
  refine (((Path.draws_start x _).arc _ .south .east).v _).arc _ .west .north |>.to ?_ ?_
  · simp [Command.arcX]
    ring
  · simp [Command.arcY]
    ring

theorem draws_slantOut :
    (slantOut o lower m x y).Draws (x, y + m.height) (x + 2 * o.arcRadius, y + lower) := by
  refine ((Path.draws_start x _).l _ _).to rfl ?_
  change y + m.height + (lower - m.height) = y + lower
  ring

/-- The way out of the first item ends on the rail. -/
theorem draws_first_sideExit : (sideExit o lower true false m x y).Draws (x, y + m.height)
    (x + 2 * o.arcRadius, y + lower) := by
  rcases first_sideExit o lower m x y with ⟨-, hfall⟩ | ⟨-, -, hrise⟩ | ⟨-, hslant⟩
  · exact hfall ▸ draws_fallOut o lower m x y
  · exact hrise ▸ draws_riseOut o lower m x y
  · exact hslant ▸ draws_slantOut o lower m x y

variable {o lower m}

/-- A fall is steady if there is room for both arcs. Else it turns back up between them. -/
theorem fallOut_steady_iff (harc : 0 ≤ o.arcRadius) :
    (fallOut o lower m x y).Steady ↔ m.height + 2 * o.arcRadius ≤ lower ∨ o.arcRadius = 0 := by
  have hdrops : (fallOut o lower m x y).drops =
      [o.arcRadius, lower - m.height - 2 * o.arcRadius, o.arcRadius] := by
    simp [fallOut, Command.arcY]
  rw [Path.Steady, hdrops]
  simp only [List.forall_mem_cons]
  constructor
  · rintro (⟨-, hroom, -⟩ | ⟨hturn, -⟩)
    · exact .inl (by linarith)
    · exact .inr (le_antisymm hturn harc)
  · rintro (hroom | hzero)
    · exact .inl ⟨harc, by linarith, harc, List.forall_mem_nil _⟩
    · rcases le_total m.height lower with hlow | hhigh
      · exact .inl ⟨harc, by linarith, harc, List.forall_mem_nil _⟩
      · exact .inr ⟨hzero.le, by linarith, hzero.le, List.forall_mem_nil _⟩

theorem riseOut_steady (harc : 0 ≤ o.arcRadius) (hroom : 2 * o.arcRadius ≤ m.height - lower) :
    (riseOut o lower m x y).Steady := by
  have hdrops : (riseOut o lower m x y).drops =
      [-o.arcRadius, lower - m.height + 2 * o.arcRadius, -o.arcRadius] := by
    simp [riseOut, Command.arcY]
  rw [Path.Steady, hdrops]
  simp only [List.forall_mem_cons]
  exact .inr ⟨neg_nonpos.2 harc, by linarith, neg_nonpos.2 harc, List.forall_mem_nil _⟩

theorem slantOut_steady (hhigh : lower < m.height) : (slantOut o lower m x y).Steady := by
  rw [Path.Steady, slantOut, Path.drops_l]
  exact .inr (List.forall_mem_singleton.2 (sub_nonpos.2 hhigh.le))

/-- **The way out of the first item goes down or up, but not both**, unless it ends as high as it
starts. There it turns down and back up again. -/
theorem first_steady_iff (harc : 0 ≤ o.arcRadius)
    (hroom : m.height < lower → m.height + 2 * o.arcRadius ≤ lower) :
    (sideExit o lower true false m x y).Steady ↔ (m.height = lower → o.arcRadius = 0) := by
  rcases first_sideExit o lower m x y with
    ⟨hlow, hfall⟩ | ⟨hhigh, hfar, hrise⟩ | ⟨hhigh, hslant⟩
  · rw [hfall, fallOut_steady_iff x y harc]
    rcases hlow.lt_or_eq with hlow | hlevel
    · exact iff_of_true (.inl (hroom hlow)) fun heq => absurd heq hlow.ne
    · constructor
      · rintro (hsteady | hzero) -
        · linarith
        · exact hzero
      · exact fun hzero => .inr (hzero hlevel)
  · rw [hrise]
    exact iff_of_true (riseOut_steady x y harc hfar) fun heq => absurd heq hhigh.ne'
  · rw [hslant]
    exact iff_of_true (slantOut_steady x y hhigh) fun heq => absurd heq hhigh.ne'

variable (lower m)

/-- An item at the end that does not drop leads straight to the exit. -/
theorem draws_last_level (hlevel : m.height = 0) :
    (sideExit o lower false true m x y).Draws (x, y) (x + o.arcRadius, y) := by
  rw [sideExit, if_pos rfl, height_beq_zero, if_pos (decide_eq_true hlevel)]
  exact (Path.draws_start x y).h _

/-- An item at the end that drops turns up. -/
theorem draws_last_drop (hdrop : m.height ≠ 0) :
    (sideExit o lower false true m x y).Draws (x, y + m.height)
      (x + o.arcRadius, y + m.height - o.arcRadius) := by
  rw [sideExit, if_pos rfl, height_beq_zero, if_neg (by simpa using hdrop)]
  refine ((Path.draws_start x (y + m.height)).arc _ .south .east).to ?_ ?_
  · simp [Command.arcX]
  · simp [Command.arcY, sub_eq_add_neg]

end

/-! ## Strands -/

section

variable (o) (upper lower : K)

/-- What is drawn for the first item. -/
def frontStrand (s : Sized K β) (x y : K) : Strand K (Site K β) :=
  ⟨(start x y).h o.arcRadius, s.at (x + o.arcRadius) y s.metrics.spacedWidth,
    sideExit o lower true false s.metrics (x + o.arcRadius + s.metrics.spacedWidth) y⟩

/-- What is drawn for any other item. -/
def backStrand (isLast : Bool) (s : Sized K β) (x y : K) : Strand K (Site K β) :=
  let r := o.arcRadius
  ⟨(((start x (y - upper)).arc r .north .east).v (upper - 2 * r)).arc r .west .south,
    s.at (x + 2 * r) y s.metrics.spacedWidth,
    sideExit o lower false isLast s.metrics (x + 2 * r + s.metrics.spacedWidth) y⟩

/-- What is drawn for the items between the first and the last. -/
def middleStrands : List (Sized K β) → (x y : K) → List (Strand K (Site K β))
  | [], _, _ => []
  | s :: rest, x, y =>
    backStrand o upper lower false s x y ::
      middleStrands rest (x + stride o s.metrics) y

/-- **Each item has a strand**, which starts where the strides of those before it end. -/
theorem strands_sideItems_back (middles : List (Sized K β)) (last : Sized K β) (x y : K) :
    strands (sideItems o upper lower false (middles ++ [last]) x y) =
      middleStrands o upper lower middles x y ++
        [backStrand o upper lower true last (x + strides o (middles.map (·.metrics))) y] := by
  induction middles generalizing x with
  | nil =>
    rw [List.map_nil, strides, List.map_nil, List.sum_nil, add_zero]
    rfl
  | cons s rest ih =>
    have hmore : (rest ++ [last]).isEmpty = false := by simp
    have hstep : strands (sideItems o upper lower false (s :: (rest ++ [last])) x y) =
        backStrand o upper lower false s x y ::
          strands (sideItems o upper lower false (rest ++ [last]) (x + stride o s.metrics) y) := by
      rw [sideItems, hmore, stride, ← add_assoc]
      rfl
    rw [List.map_cons, strides_cons, ← add_assoc]
    exact hstep.trans (congrArg (_ :: ·) (ih _))

variable (b : Beside (Sized K β)) (x y slot : K)

/-- What is drawn for items side by side. -/
def sideStrands : Beside (Strand K (Site K β)) :=
  let sizes := b.map (·.metrics)
  let left := x + (gaps o (sideSize o sizes) slot).left
  let behind := left + o.arcRadius + b.first.metrics.spacedWidth
  { first := frontStrand o (lowerRail o sizes) b.first left y
    middles := middleStrands o (upperRail o sizes) (lowerRail o sizes) b.middles behind y
    last := backStrand o (upperRail o sizes) (lowerRail o sizes) true b.last
      (behind + strides o (b.middles.map (·.metrics))) y }

/-- The rail over items side by side. -/
def sideAbove : Path K :=
  let sizes := b.map (·.metrics)
  railAbove o (upperRail o sizes)
    (b.first.metrics.spacedWidth + strides o (b.middles.map (·.metrics)) - o.arcRadius)
    (x + (gaps o (sideSize o sizes) slot).left) y

/-- The rail under items side by side. -/
def sideBelow : Path K :=
  let sizes := b.map (·.metrics)
  railBelow o (lowerRail o sizes)
    (strides o (b.middles.map (·.metrics)) + b.last.metrics.spacedWidth +
      lastArc o b.last.metrics - o.arcRadius)
    (x + (gaps o (sideSize o sizes) slot).left + o.arcRadius + b.first.metrics.spacedWidth +
      2 * o.arcRadius) y

/-- **Every item has a strand.** -/
theorem strands_sidePieces :
    strands (sidePieces o b x y slot) = (sideStrands o b x y slot).toList := by
  let sizes := b.map (·.metrics)
  let left := x + (gaps o (sideSize o sizes) slot).left
  let behind := left + o.arcRadius + b.first.metrics.spacedWidth
  have hmore : (b.middles ++ [b.last]).isEmpty = false := by simp
  have hstep : strands (sidePieces o b x y slot) =
      frontStrand o (lowerRail o sizes) b.first left y ::
        strands (sideItems o (upperRail o sizes) (lowerRail o sizes) false (b.middles ++ [b.last])
          behind y) := by
    rw [sidePieces, Beside.toList, sideItems, hmore]
    rfl
  exact hstep.trans (congrArg (_ :: ·) (strands_sideItems_back o _ _ b.middles b.last behind y))

/-- All lines of items are lines of strands. -/
theorem tracks_sideItems (isFirst : Bool) (items : List (Sized K β)) (x y : K) :
    tracks (sideItems o upper lower isFirst items x y) =
      (strands (sideItems o upper lower isFirst items x y)).flatMap fun t => [t.into, t.out] := by
  induction items generalizing isFirst x with
  | nil => rfl
  | cons s rest ih => exact congrArg (_ :: _ :: ·) (ih _ _)

/-- **The lines around items side by side** are those in the gaps, the rails, and two for each
item. -/
theorem tracks_sidePieces :
    tracks (sidePieces o b x y slot) =
      tracks (sides o (sideSize o (b.map (·.metrics))) x y slot : List (Piece K (Site K β))) ++
        sideAbove o b x y slot :: sideBelow o b x y slot ::
          (strands (sidePieces o b x y slot)).flatMap fun t => [t.into, t.out] := by
  let sizes := b.map (·.metrics)
  let left := x + (gaps o (sideSize o sizes) slot).left
  have habove := congrArg (railAbove o (upperRail o sizes) · left y) (upperSpan_eq (o := o) sizes)
  have hbelow := congrArg (railBelow o (lowerRail o sizes) ·
    (left + o.arcRadius + b.first.metrics.spacedWidth + 2 * o.arcRadius) y)
      (lowerSpan_eq (o := o) sizes)
  have hitems := tracks_sideItems o (upperRail o sizes) (lowerRail o sizes) true b.toList left y
  rw [sidePieces, tracks_append, tracks_track, tracks_track, hitems]
  exact congrArg₂ (fun above below => _ ++ above :: below :: _) habove hbelow

/-- The contents of strands are the items. -/
theorem content_strands_sideItems (isFirst : Bool) (items : List (Sized K β)) (x y : K) :
    (strands (sideItems o upper lower isFirst items x y)).map Strand.content =
      contents (sideItems o upper lower isFirst items x y) := by
  induction items generalizing isFirst x with
  | nil => rfl
  | cons s rest ih => exact congrArg (_ :: ·) (ih _ _)

theorem content_strands_sidePieces :
    (strands (sidePieces o b x y slot)).map Strand.content = contents (sidePieces o b x y slot) :=
  content_strands_sideItems o _ _ true b.toList _ y

theorem content_mem_contents {t : Strand K (Site K β)}
    (ht : t ∈ (sideStrands o b x y slot).toList) :
    t.content ∈ contents (sidePieces o b x y slot) := by
  rw [← content_strands_sidePieces, strands_sidePieces]
  exact List.mem_map_of_mem ht

theorem toSized_middleStrands (items : List (Sized K β)) :
    (middleStrands o upper lower items x y).map (·.content.toSized) = items := by
  induction items generalizing x with
  | nil => rfl
  | cons s rest ih => exact congrArg (s :: ·) (ih _)

/-- All strands but the last are those of all items but the last. -/
theorem toSized_front : (sideStrands o b x y slot).front.map (·.content.toSized) = b.front :=
  congrArg (b.first :: ·) (toSized_middleStrands o _ _ _ y b.middles)

/-- All strands but the first are those of all items but the first. -/
theorem toSized_back : (sideStrands o b x y slot).back.map (·.content.toSized) = b.back := by
  rw [Beside.back, List.map_append]
  exact congrArg (· ++ [b.last]) (toSized_middleStrands o _ _ _ y b.middles)

end

section

variable {upper lower : K}

/-- A drop ends where its item is entered. -/
theorem backStrand_entered (isLast : Bool) (s : Sized K β) (x y : K) :
    let t := backStrand o upper lower isLast s x y
    t.into.Draws (x, y - upper) t.content.ports.entry := by
  refine (((Path.draws_start x (y - upper)).arc _ .north .east).v _).arc _ .west .south |>.to ?_ ?_
  · simp [backStrand, Command.arcX, Site.ports, Sized.at]
    ring
  · simp [backStrand, Command.arcY, Site.ports, Sized.at]
    ring

/-- How a strand between the first item and the last leads from one rail to the other: from a point
behind `start` to a point in front of `stop`, with the item and its drop between them. -/
structure Strand.Between (o : Options K) (t : Strand K (Site K β)) (start stop top bottom : K) :
    Prop where
  drops : t.into.Draws (t.into.x, t.into.y) t.content.ports.entry
  leaves : t.out.Draws t.content.ports.exit t.out.finish
  steady : t.out.Steady
  top : t.into.y = top
  bottom : t.out.finish.2 = bottom
  start : start ≤ t.into.x
  wide : t.into.x + 4 * o.arcRadius ≤ t.out.finish.1
  stop : t.out.finish.1 ≤ stop

theorem Strand.Between.mono {t : Strand K (Site K β)} {start stop start' stop' top bottom : K}
    (h : Between o t start stop top bottom) (hstart : start' ≤ start) (hstop : stop ≤ stop') :
    Between o t start' stop' top bottom :=
  ⟨h.drops, h.leaves, h.steady, h.top, h.bottom, hstart.trans h.start, h.wide, h.stop.trans hstop⟩

/-- **The strands between the first item and the last** lead from the rail above to the rail below,
one behind the other. -/
theorem middleStrands_between (harc : 0 ≤ o.arcRadius) {items : List (Sized K β)}
    (h : ∀ i ∈ items, 0 ≤ i.metrics.width)
    (hdepth : ∀ i ∈ items, i.metrics.height + 2 * o.arcRadius ≤ lower) (x y : K) :
    ∀ t ∈ middleStrands o upper lower items x y, Strand.Between o t x
      (x + strides o (items.map (·.metrics)) + 2 * o.arcRadius) (y - upper) (y + lower) := by
  induction items generalizing x with
  | nil => exact List.forall_mem_nil _
  | cons i rest ih =>
    obtain ⟨hi, hrest⟩ := List.forall_mem_cons.1 h
    obtain ⟨hroom, hothers⟩ := List.forall_mem_cons.1 hdepth
    have hspaced := hi.trans i.metrics.width_le_spacedWidth
    have hbehind := strides_nonneg harc (List.forall_mem_map.2 hrest)
    have hleaves := draws_fallOut o lower i.metrics
      (x + 2 * o.arcRadius + i.metrics.spacedWidth) y
    have hsteady := (fallOut_steady_iff (x + 2 * o.arcRadius + i.metrics.spacedWidth) y harc).2
      (.inl hroom)
    have hend : (backStrand o upper lower false i x y).out.finish =
      (x + 2 * o.arcRadius + i.metrics.spacedWidth + 2 * o.arcRadius, y + lower) := hleaves.finish
    rw [List.map_cons, strides_cons]
    refine List.forall_mem_cons.2 ⟨⟨backStrand_entered false i x y, ?_, hsteady, rfl, ?_, le_refl x,
      ?_, ?_⟩, fun t ht => ?_⟩
    · rw [hend]
      exact hleaves
    · rw [hend]
    · rw [hend]
      change x + 4 * o.arcRadius ≤ x + 2 * o.arcRadius + i.metrics.spacedWidth + 2 * o.arcRadius
      linarith
    · rw [hend, stride]
      change x + 2 * o.arcRadius + i.metrics.spacedWidth + 2 * o.arcRadius ≤ _
      linarith
    · refine (ih hrest hothers (x + stride o i.metrics) t ht).mono ?_ ?_
      · rw [stride]
        linarith
      · linarith

/-- The first of some strands starts where they start. -/
theorem exists_middle_start {items : List (Sized K β)} (hitems : items ≠ []) (x y : K) :
    ∃ t ∈ middleStrands o upper lower items x y, t.into.x = x := by
  cases items with
  | nil => exact absurd rfl hitems
  | cons i rest => exact ⟨_, List.mem_cons_self, rfl⟩

/-- The last of some strands ends where they end. -/
theorem exists_middle_stop {items : List (Sized K β)} (hitems : items ≠ []) (x y : K) :
    ∃ t ∈ middleStrands o upper lower items x y,
      t.out.finish.1 = x + strides o (items.map (·.metrics)) + 2 * o.arcRadius := by
  induction items generalizing x with
  | nil => exact absurd rfl hitems
  | cons i rest ih =>
    rw [List.map_cons, strides_cons, ← add_assoc]
    cases rest with
    | nil =>
      refine ⟨_, List.mem_cons_self, ?_⟩
      have hend := (draws_fallOut o lower i.metrics
        (x + 2 * o.arcRadius + i.metrics.spacedWidth) y).finish
      refine (congrArg Prod.fst hend).trans ?_
      rw [List.map_nil, strides, List.map_nil, List.sum_nil, add_zero, stride, ← add_assoc]
    | cons j rest =>
      obtain ⟨t, ht, hend⟩ := ih (List.cons_ne_nil _ _) (x + stride o i.metrics)
      exact ⟨t, List.mem_cons_of_mem _ ht, hend⟩

end

/-! ## Joined by the rails -/

/-- Rails join some things side by side with the ends of what they are in. The rail above ends where
the drop to the last of them starts and passes the start of every other drop. The way out of each
but the last ends on the rail below, without a turn back. What is left behind the last ends at the
exit, or, if that one drops, where the rail below goes up. -/
structure Beside.Joins (b : Beside (Strand K (Ports K))) (inner : Ports K) (above below : Path K) :
    Prop where
  enters : above.Draws inner.entry (b.last.into.x, b.last.into.y)
  passed : ∀ t ∈ b.middles, above.OnHorizontal (t.into.x, t.into.y)
  first : b.first.into.Draws inner.entry b.first.content.entry
  drops : ∀ t ∈ b.back, t.into.Draws (t.into.x, t.into.y) t.content.entry
  leaves : ∀ t ∈ b.front, t.out.Draws t.content.exit t.out.finish
  reached : ∀ t ∈ b.front, below.OnHorizontal t.out.finish
  steady : ∀ t ∈ b.front, t.out.Steady
  last : b.last.out.Draws b.last.content.exit b.last.out.finish
  level : b.last.content.exit.2 = b.last.content.entry.2 → b.last.out.finish = inner.exit
  rise : b.last.content.exit.2 ≠ b.last.content.entry.2 → below.OnVertical b.last.out.finish
  exits : below.Draws (below.x, below.y) inner.exit

/-- Items side by side can be joined by their rails: beside middle items there is room for the arcs
of both rails, the first item does not end as high as the rail below, and the last one, if it drops,
drops at least as far as the rail below has its arcs. -/
structure Beside.Joinable (o : Options K) (b : Beside (Metrics K)) : Prop where
  passed : b.middles ≠ [] → o.arcRadius ≤ b.first.spacedWidth
  reached : b.middles ≠ [] → o.arcRadius ≤ b.last.spacedWidth + lastArc o b.last
  steady : b.first.height = lowerRail o b → o.arcRadius = 0
  rise : b.last.height ≠ 0 → min (2 * o.arcRadius) (lowerRail o b) ≤ b.last.height

section

variable (ho : o.Nonneg) {b : Beside (Sized K β)} (h : ∀ i ∈ b.toList, i.metrics.Nonneg)
  (x y slot : K)
include ho h

omit ho h in
theorem middles_ne_nil {t : Strand K (Site K β)} (ht : t ∈ (sideStrands o b x y slot).middles) :
    b.middles ≠ [] := by
  rintro hnil
  rw [sideStrands, hnil] at ht
  exact absurd ht List.not_mem_nil

omit ho in
theorem middle_width_nonneg : ∀ m ∈ b.middles.map (·.metrics), 0 ≤ m.width :=
  List.forall_mem_map.2 fun i hi =>
    (h i (b.mem_toList_of_mem_front (List.mem_cons_of_mem _ hi))).width

theorem middles_between :
    let sizes := b.map (·.metrics)
    let behind := x + (gaps o (sideSize o sizes) slot).left + o.arcRadius +
      b.first.metrics.spacedWidth
    ∀ t ∈ (sideStrands o b x y slot).middles, Strand.Between o t behind
      (behind + strides o (b.middles.map (·.metrics)) + 2 * o.arcRadius) (y - upperRail o sizes)
        (y + lowerRail o sizes) := by
  have hmiddles : ∀ i ∈ b.middles, i.metrics.Nonneg := fun i hi =>
    h i (b.mem_toList_of_mem_front (List.mem_cons_of_mem _ hi))
  refine middleStrands_between ho.arcRadius (fun i hi => (hmiddles i hi).width) (fun i hi => ?_) _ y
  have hdepth := middleDepth_le_lowerRail (o := o) (b.map (·.metrics)) i.metrics
    (List.mem_map_of_mem hi)
  have hroom := le_max_right (i.metrics.down + o.verticalSeparation) (2 * o.arcRadius)
  rw [middleDepth] at hdepth
  linarith

/-- The rail above passes the drops to all middle items if the first one has room for its arc. -/
theorem passed_iff :
    (∀ t ∈ (sideStrands o b x y slot).middles,
        (sideAbove o b x y slot).OnHorizontal (t.into.x, t.into.y)) ↔
      (b.middles ≠ [] → o.arcRadius ≤ b.first.metrics.spacedWidth) := by
  have hfirst := (h b.first List.mem_cons_self).width.trans b.first.metrics.width_le_spacedWidth
  have hbetween := middles_between ho h x y slot
  have harc := ho.arcRadius
  rw [sideAbove]
  constructor
  · intro hall hmiddles
    have hroom := arcs_le_strides harc (middle_width_nonneg h) (mt List.map_eq_nil_iff.1 hmiddles)
    obtain ⟨t, ht, hx⟩ := exists_middle_start hmiddles _ y
    have hon := ((onHorizontal_railAbove _ _ _ _ _).1 (hall t ht)).2
    rw [hx, Set.uIcc_of_le (by linarith), Set.mem_Icc] at hon
    linarith [hon.1]
  · intro hroom t ht
    have hmiddles := middles_ne_nil x y slot ht
    have hfar := arcs_le_strides harc (middle_width_nonneg h) (mt List.map_eq_nil_iff.1 hmiddles)
    have hspace := hroom hmiddles
    obtain ⟨-, -, -, htop, -, hstart, hwide, hstop⟩ := hbetween t ht
    refine (onHorizontal_railAbove _ _ _ _ _).2 ⟨htop, ?_⟩
    rw [Set.uIcc_of_le (by linarith), Set.mem_Icc]
    constructor <;> linarith

/-- The ways out of all middle items end on the rail below if the last one has room for its arc. -/
theorem reached_iff :
    (∀ t ∈ (sideStrands o b x y slot).middles,
        (sideBelow o b x y slot).OnHorizontal t.out.finish) ↔
      (b.middles ≠ [] →
        o.arcRadius ≤ b.last.metrics.spacedWidth + lastArc o b.last.metrics) := by
  have hlast := (h b.last (b.mem_toList_of_mem_back (List.mem_append_right _ List.mem_cons_self)))
  have hspaced := hlast.width.trans b.last.metrics.width_le_spacedWidth
  have hbetween := middles_between ho h x y slot
  have harc := ho.arcRadius
  have hspare := (lastArc_bounds harc b.last.metrics).1
  rw [sideBelow]
  constructor
  · intro hall hmiddles
    have hroom := arcs_le_strides harc (middle_width_nonneg h) (mt List.map_eq_nil_iff.1 hmiddles)
    obtain ⟨t, ht, hx⟩ := exists_middle_stop hmiddles _ y
    have hon := ((onHorizontal_railBelow _ _ _ _ _).1 (hall t ht)).2
    rw [hx, Set.uIcc_of_le (by linarith), Set.mem_Icc] at hon
    linarith [hon.2]
  · intro hroom t ht
    have hmiddles := middles_ne_nil x y slot ht
    have hfar := arcs_le_strides harc (middle_width_nonneg h) (mt List.map_eq_nil_iff.1 hmiddles)
    have hspace := hroom hmiddles
    obtain ⟨-, -, -, -, hbottom, hstart, hwide, hstop⟩ := hbetween t ht
    refine (onHorizontal_railBelow _ _ _ _ _).2 ⟨hbottom, ?_⟩
    rw [Set.uIcc_of_le (by linarith), Set.mem_Icc]
    constructor <;> linarith

omit ho h in
/-- The rail above ends where the drop to the last item starts. -/
theorem draws_sideAbove :
    let last := (sideStrands o b x y slot).last
    (sideAbove o b x y slot).Draws (ownPorts o (sideSize o (b.map (·.metrics))) x y slot).entry
      (last.into.x, last.into.y) := by
  refine (draws_railAbove _ _ _ _).to ?_ rfl
  change x + _ + 2 * o.arcRadius + (_ + _ - o.arcRadius) = x + _ + o.arcRadius + _ + _
  ring

omit ho h in
/-- The end of items side by side lies two arcs behind the last one, or one if that does not drop.
-/
theorem exit_sideSize :
    (ownPorts o (sideSize o (b.map (·.metrics))) x y slot).exit =
      (x + (gaps o (sideSize o (b.map (·.metrics))) slot).left + o.arcRadius +
        b.first.metrics.spacedWidth + strides o (b.middles.map (·.metrics)) + 2 * o.arcRadius +
          b.last.metrics.spacedWidth + lastArc o b.last.metrics + o.arcRadius, y) := by
  have hback : strides o (b.map (·.metrics)).back =
      strides o (b.middles.map (·.metrics)) + stride o b.last.metrics := strides_concat _ _
  have hwidth := sideSize_width (o := o) (b.map (·.metrics))
  rw [hback, stride] at hwidth
  refine Prod.ext ?_ ((congrArg (y + ·) ExactScalar.zero_eq).trans (add_zero y))
  change x + _ + (sideSize o (b.map (·.metrics))).width = _
  rw [hwidth]
  change x + _ + (o.arcRadius + b.first.metrics.spacedWidth + (_ + (2 * o.arcRadius + _)) +
    lastArc o b.last.metrics + o.arcRadius) = _
  ring

omit ho h in
/-- The rail below ends where the items are left. -/
theorem draws_sideBelow :
    (sideBelow o b x y slot).Draws ((sideBelow o b x y slot).x, (sideBelow o b x y slot).y)
      (ownPorts o (sideSize o (b.map (·.metrics))) x y slot).exit := by
  rw [exit_sideSize]
  refine (draws_railBelow _ _ _ _).to ?_ rfl
  change _ + (_ + _ + _ - o.arcRadius) + 2 * o.arcRadius = _
  ring

omit ho h in
/-- The way out of the first item starts the rail below. -/
theorem draws_first_out :
    let first := (sideStrands o b x y slot).first
    first.out.Draws first.content.ports.exit
      ((sideBelow o b x y slot).x, (sideBelow o b x y slot).y) :=
  draws_first_sideExit _ _ _ _ y

omit h in
/-- The way out of the first item is steady if it does not end as high as the rail below. -/
theorem front_steady_iff :
    (sideStrands o b x y slot).first.out.Steady ↔
      (b.first.metrics.height = lowerRail o (b.map (·.metrics)) → o.arcRadius = 0) :=
  first_steady_iff _ y ho.arcRadius (first_le_lowerRail (b.map (·.metrics)))

omit ho h in
/-- An item at the end that does not drop is left on the exit line. -/
theorem draws_last_out (hlevel : b.last.metrics.height = 0) :
    (sideStrands o b x y slot).last.out.Draws (sideStrands o b x y slot).last.content.ports.exit
      (ownPorts o (sideSize o (b.map (·.metrics))) x y slot).exit := by
  have hspare : lastArc o b.last.metrics = 0 := by
    rw [lastArc, ExactScalar.zero_eq, if_neg hlevel.not_gt]
  rw [exit_sideSize, hspare, add_zero]
  have hexit : (sideStrands o b x y slot).last.content.ports.exit =
      ((sideStrands o b x y slot).last.content.ports.exit.1, y) :=
    Prod.ext rfl ((congrArg (y + ·) hlevel).trans (add_zero y))
  rw [hexit]
  exact draws_last_level (lowerRail o (b.map (·.metrics))) _ _ y hlevel

/-- An item at the end that drops is left where the rail below goes up, if it drops at least as far
as the arcs of the rail. -/
theorem rise_iff (hdrop : b.last.metrics.height ≠ 0) :
    (sideBelow o b x y slot).OnVertical (sideStrands o b x y slot).last.out.finish ↔
      min (2 * o.arcRadius) (lowerRail o (b.map (·.metrics))) ≤ b.last.metrics.height := by
  let lower := lowerRail o (b.map (·.metrics))
  let height := b.last.metrics.height
  have hlast := h b.last (b.mem_toList_of_mem_back (List.mem_append_right _ List.mem_cons_self))
  have hspare : lastArc o b.last.metrics = o.arcRadius := by
    rw [lastArc, ExactScalar.zero_eq, if_pos (lt_of_le_of_ne hlast.height hdrop.symm)]
  have hlow : height ≤ lower := by
    have hdeep : height + b.last.metrics.down + o.verticalSeparation ≤ lower :=
      last_le_lowerRail (b.map (·.metrics))
    linarith [hlast.down, ho.verticalSeparation]
  have hend : (sideStrands o b x y slot).last.out.finish = _ :=
    (draws_last_drop lower b.last.metrics _ y hdrop).finish
  rw [hend, sideBelow, onVertical_railBelow, hspare, Set.mem_uIcc]
  constructor
  · rintro ⟨-, ⟨hfar, -⟩ | ⟨hnear, -⟩⟩
    · exact (min_le_right _ _).trans (by linarith)
    · exact (min_le_left _ _).trans (by linarith)
  · intro hroom
    refine ⟨?_, ?_⟩
    · change _ + o.arcRadius = _
      ring
    · -- the rail goes up between its two arcs, and past them if there is no room for both
      rcases le_total (2 * o.arcRadius) height with hfar | hnear
      · exact .inr ⟨by linarith, by linarith⟩
      · rcases min_le_iff.1 hroom with hfar | hdeep
        · exact .inr ⟨by linarith, by linarith⟩
        · exact .inl ⟨by linarith, by linarith⟩

/-- **When items side by side are joined by their rails.** -/
theorem sideStrands_joins_iff :
    ((sideStrands o b x y slot).map (Strand.map Site.ports)).Joins
        (ownPorts o (sideSize o (b.map (·.metrics))) x y slot) (sideAbove o b x y slot)
        (sideBelow o b x y slot) ↔
      (b.map (·.metrics)).Joinable o := by
  let t := sideStrands o b x y slot
  have hdrop : t.last.content.ports.exit.2 = t.last.content.ports.entry.2 ↔
      b.last.metrics.height = 0 := add_eq_left
  have hpassed := passed_iff ho h x y slot
  have hreached := reached_iff ho h x y slot
  have hsteady := front_steady_iff ho (b := b) x y slot
  have hbetween := middles_between ho h x y slot
  constructor
  · intro hjoins
    refine ⟨fun hmiddles => ?_, fun hmiddles => ?_, ?_, fun hheight => ?_⟩
    · refine hpassed.1 (fun t ht => ?_) (mt List.map_eq_nil_iff.2 hmiddles)
      exact hjoins.passed (t.map Site.ports) (List.mem_map_of_mem ht)
    · refine hreached.1 (fun t ht => ?_) (mt List.map_eq_nil_iff.2 hmiddles)
      exact hjoins.reached (t.map Site.ports) (List.mem_cons_of_mem _ (List.mem_map_of_mem ht))
    · exact hsteady.1 (hjoins.steady _ List.mem_cons_self)
    · exact (rise_iff ho h x y slot hheight).1 (hjoins.rise (mt hdrop.1 hheight))
  · intro hjoin
    have hfirst := draws_first_out (o := o) (b := b) x y slot
    have hstart : (sideBelow o b x y slot).OnHorizontal t.first.out.finish := by
      rw [hfirst.finish]
      exact (onHorizontal_railBelow _ _ _ _ _).2 ⟨rfl, Set.left_mem_uIcc⟩
    have hlast : t.last.out.Draws t.last.content.ports.exit t.last.out.finish := by
      by_cases hheight : b.last.metrics.height = 0
      · exact (draws_last_out x y slot hheight).toFinish
      · exact (draws_last_drop (lowerRail o (b.map (·.metrics))) _ _ y hheight).toFinish
    refine ⟨draws_sideAbove x y slot, ?_, (Path.draws_start _ _).h _, ?_, ?_, ?_, ?_, hlast,
      fun hlevel => (draws_last_out x y slot (hdrop.1 hlevel)).finish, fun hheight => ?_,
      draws_sideBelow x y slot⟩
    · refine List.forall_mem_map.2 (hpassed.2 fun hmiddles => ?_)
      exact hjoin.passed (mt List.map_eq_nil_iff.1 hmiddles)
    · refine List.forall_mem_append.2 ⟨List.forall_mem_map.2 fun t ht => (hbetween t ht).drops, ?_⟩
      exact List.forall_mem_singleton.2 (backStrand_entered true b.last _ y)
    · refine List.forall_mem_cons.2 ⟨hfirst.toFinish, List.forall_mem_map.2 fun t ht => ?_⟩
      exact (hbetween t ht).leaves
    · refine List.forall_mem_cons.2 ⟨hstart, List.forall_mem_map.2 (hreached.2 fun hmiddles => ?_)⟩
      exact hjoin.reached (mt List.map_eq_nil_iff.1 hmiddles)
    · refine List.forall_mem_cons.2 ⟨hsteady.2 hjoin.steady, List.forall_mem_map.2 fun t ht => ?_⟩
      exact (hbetween t ht).steady
    · have hheight' := mt hdrop.2 hheight
      exact (rise_iff ho h x y slot hheight').2 (hjoin.rise hheight')

/-- **The rail above keeps the vertical separation from all items but the last.** -/
theorem above_clear {q : K × K} (hq : (sideAbove o b x y slot).OnHorizontal q) :
    ∀ t ∈ (sideStrands o b x y slot).front,
      q.2 + o.verticalSeparation ≤ t.content.y - t.content.metrics.up := by
  intro t ht
  have hlevel := sidePieces_level ho h x y slot t.content
    (content_mem_contents o b x y slot (Beside.mem_toList_of_mem_front _ ht))
  have hitem : t.content.toSized ∈ b.front :=
    toSized_front o b x y slot ▸ List.mem_map_of_mem (f := fun t => t.content.toSized) ht
  have hmetrics : t.content.metrics ∈ (b.map (·.metrics)).front :=
    List.mem_map_of_mem (f := Sized.metrics) hitem
  have hup := up_le_upperRail (o := o) (b.map (·.metrics)) t.content.metrics hmetrics
  have hheight := ((onHorizontal_railAbove _ _ _ _ _).1 hq).1
  linarith

/-- **The rail below keeps the vertical separation from all items but the first.** -/
theorem below_clear {q : K × K} (hq : (sideBelow o b x y slot).OnHorizontal q) :
    ∀ t ∈ (sideStrands o b x y slot).back,
      t.content.y + t.content.metrics.height + t.content.metrics.down + o.verticalSeparation ≤
        q.2 := by
  intro t ht
  have hlevel := sidePieces_level ho h x y slot t.content
    (content_mem_contents o b x y slot (Beside.mem_toList_of_mem_back _ ht))
  have hitem : t.content.toSized ∈ b.back :=
    toSized_back o b x y slot ▸ List.mem_map_of_mem (f := fun t => t.content.toSized) ht
  have hmetrics : t.content.metrics ∈ (b.map (·.metrics)).back :=
    Beside.back_map _ b ▸ List.mem_map_of_mem (f := Sized.metrics) hitem
  have hdown := down_le_lowerRail (o := o) (b.map (·.metrics)) t.content.metrics hmetrics
  have hheight := ((onHorizontal_railBelow _ _ _ _ _).1 hq).1
  linarith

end

end Layout

open Layout

/-! ## Nodes -/

/-- A node with rails: one above that leads from the entry to the right, one below that leads to the
exit, and a strand for each node in it. The other two lines fill the gaps. -/
structure Placed.Railed (o : Options K) (p : Placed K) (sides : Beside (Strand K (Placed K)))
    (above below : Path K) : Prop where
  strands : p.strands = sides.toList
  nodes : p.nodes = sides.toList.map Strand.content
  tracks : ∃ front back, p.tracks =
    front :: back :: above :: below :: sides.toList.flatMap (fun t => [t.into, t.out]) ∧
      front.Draws p.ports.entry (p.inner o).entry ∧ back.Draws (p.inner o).exit p.ports.exit
  enters : above.Draws (p.inner o).entry above.finish
  levelEnd : above.OnHorizontal above.finish
  exits : below.Draws (below.x, below.y) (p.inner o).exit
  levelStart : below.OnHorizontal (below.x, below.y)

namespace Node

/-- Nodes side by side are laid out from their figures. -/
theorem horizontalChoice_laidOut (b : Beside (Node K)) :
    (horizontalChoice b.first b.middles b.last).LaidOut o
      (sideSize o ((b.map (figure o)).map (·.metrics))) b.toList
      (sidePieces o (b.map (figure o))) := by
  refine ⟨rfl, ?_, fun x y slot => ?_⟩
  · rw [figure, figures_eq_map]
    exact ⟨_, _, rfl⟩
  · rw [contents_sidePieces, Beside.toList_map]

/-- The strands of nodes side by side. -/
def placedSides (o : Options K) (b : Beside (Node K)) (x y slot : K) :
    Beside (Strand K (Placed K)) :=
  (sideStrands o (b.map (figure o)) x y slot).map (Strand.map settle)

theorem horizontalChoice_railed (b : Beside (Node K)) (x y slot : K) :
    ((horizontalChoice b.first b.middles b.last).place o x y slot).Railed o
      (placedSides o b x y slot) (sideAbove o (b.map (figure o)) x y slot)
      (sideBelow o (b.map (figure o)) x y slot) := by
  have hlaid := horizontalChoice_laidOut (o := o) b
  have hinner := hlaid.inner_place x y slot
  obtain ⟨front, back, hsides, hfront, hback⟩ := draws_sides (β := Drawable K) o
    (sideSize o ((b.map (figure o)).map (·.metrics))) x y slot
  have habove := draws_sideAbove (o := o) (b := b.map (figure o)) x y slot
  refine ⟨?_, ?_, ⟨front, back, ?_, ?_, ?_⟩, ?_, ?_, ?_, ?_⟩
  · rw [hlaid.strands_place, strands_sidePieces, placedSides, Beside.toList_map]
  · rw [hlaid.nodes_place, ← content_strands_sidePieces, strands_sidePieces, placedSides,
      Beside.toList_map, List.map_map, List.map_map]
    rfl
  · rw [hlaid.tracks_place, tracks_sidePieces, hsides, strands_sidePieces, placedSides,
      Beside.toList_map, List.flatMap_map]
    rfl
  · rw [hlaid.ports_place, hinner]
    exact hfront
  · rw [hlaid.ports_place, hinner]
    exact hback
  · rw [hinner]
    exact habove.toFinish
  · refine (onHorizontal_railAbove _ _ _ _ _).2 ?_
    rw [sideAbove, (draws_railAbove _ _ _ _).finish]
    exact ⟨rfl, Set.right_mem_uIcc⟩
  · rw [hinner]
    exact draws_sideBelow x y slot
  · exact (onHorizontal_railBelow _ _ _ _ _).2 ⟨rfl, Set.left_mem_uIcc⟩

/-- The figures of nodes without negative extents have none. -/
theorem nonneg_figures {b : Beside (Node K)} (h : ∀ n ∈ b.toList, (n.metrics o).Nonneg) :
    ∀ f ∈ (b.map (figure o)).toList, f.metrics.Nonneg := by
  rw [Beside.toList_map]
  exact List.forall_mem_map.2 h

/-- The track meets nodes side by side where it meets their sites. -/
theorem map_ports_placedSides (b : Beside (Node K)) (x y slot : K) :
    (placedSides o b x y slot).map (Strand.map Placed.ports) =
      (sideStrands o (b.map (figure o)) x y slot).map (Strand.map Site.ports) := by
  rw [placedSides, Beside.map_map]
  refine Beside.map_congr fun t ht => ?_
  obtain ⟨n, -, hn⟩ := exists_node_of_mem ((horizontalChoice_laidOut b).contents x y slot)
    (content_mem_contents o _ x y slot ht)
  exact congrArg (Strand.mk t.into · t.out) (ports_settle hn)

/-- **When nodes side by side are joined by their rails.** -/
theorem sides_joined_iff (ho : o.Nonneg) (b : Beside (Node K))
    (h : ∀ n ∈ b.toList, (n.metrics o).Nonneg) (x y slot : K) :
    let p := (horizontalChoice b.first b.middles b.last).place o x y slot
    ∃ sides above below, p.Railed o sides above below ∧
      ((sides.map (Strand.map Placed.ports)).Joins (p.inner o) above below ↔
        (b.map (metrics o)).Joinable o) := by
  intro p
  refine ⟨_, _, _, horizontalChoice_railed b x y slot, ?_⟩
  rw [map_ports_placedSides, (horizontalChoice_laidOut b).inner_place,
    sideStrands_joins_iff ho (nonneg_figures h), Beside.map_map]
  rfl

/-- A stack beside a comment in three groups ends as high as the rail below. The way out of it turns
down and back up. -/
theorem side_turns_back :
    let first : Node Rat := .stack (.ofText "a") [.ofText "b"]
    let last : Node Rat := .group (.group (.group (.comment "c" none none) none) none) none
    let b : Layout.Beside (Node Rat) := ⟨first, [], last⟩
    (∀ n ∈ b.toList, (n.metrics Options.exact).Nonneg) ∧
      (placedSides Options.exact b 0 0 227).first.out.drops = [10, -20, 10] ∧
      ¬(b.map (metrics Options.exact)).Joinable Options.exact := by
  intro first last b
  refine ⟨by decide +kernel, by decide +kernel, fun hjoin => ?_⟩
  have harc : Options.exact.arcRadius = 0 := hjoin.steady (by decide +kernel)
  exact absurd harc (by decide)

/-- **Nodes side by side** lie in the box of their node and do not overlap, and the rails keep the
vertical separation from them: the one above from all but the last, and the one below from all but
the first. -/
theorem sides_clear {o : Options K} (ho : o.Nonneg) (first : Node K) (middles : List (Node K))
    (last : Node K) (h : ∀ n ∈ first :: (middles ++ [last]), (n.metrics o).Nonneg) (x y slot : K) :
    let p := (horizontalChoice first middles last).place o x y slot
    p.nodes.map Placed.sized = (first :: (middles ++ [last])).map (sized o) ∧
      (∀ n ∈ p.nodes, (n.box o).Within (p.box o)) ∧
      p.nodes.Pairwise (fun a b => (a.box o).right ≤ (b.box o).left) ∧
      ∃ sides above below, p.Railed o sides above below ∧
        (∀ t ∈ sides.front, ∀ q, above.OnHorizontal q →
          q.2 + o.verticalSeparation ≤ (t.content.box o).top) ∧
        ∀ t ∈ sides.back, ∀ q, below.OnHorizontal q →
          (t.content.box o).bottom + o.verticalSeparation ≤ q.2 := by
  intro p
  let b : Beside (Node K) := ⟨first, middles, last⟩
  have hlaid := horizontalChoice_laidOut (o := o) b
  have hitems := nonneg_figures (b := b) h
  have hfits := sidePieces_fits ho hitems x y slot
  have hcontent {t : Strand K (Site K (Drawable K))}
      (ht : t ∈ (sideStrands o (b.map (figure o)) x y slot).toList) :
      ∃ n ∈ b.toList, t.content.toSized = n.figure o :=
    exists_node_of_mem (hlaid.contents x y slot) (content_mem_contents o _ x y slot ht)
  refine ⟨hlaid.map_sized_place x y slot, hlaid.within_box x y slot hfits, ?_,
    _, _, _, horizontalChoice_railed b x y slot, ?_, ?_⟩
  · rw [hlaid.nodes_place, List.pairwise_map]
    refine (sidePieces_apart ho hitems x y slot).imp_of_mem fun {s t} hs ht hst => ?_
    have hleft := hlaid.box_within_area x y slot hs (hfits s hs).wide
    have hright := hlaid.box_within_area x y slot ht (hfits t ht).wide
    exact (hleft.right.trans hst).trans hright.left
  · intro t ht q hq
    rw [placedSides, Beside.front_map] at ht
    obtain ⟨s, hs, rfl⟩ := List.mem_map.1 ht
    obtain ⟨n, -, hn⟩ := hcontent (Beside.mem_toList_of_mem_front _ hs)
    exact (above_clear ho hitems x y slot hq s hs).trans_eq (box_settle hn).1.symm
  · intro t ht q hq
    rw [placedSides, Beside.back_map] at ht
    obtain ⟨s, hs, rfl⟩ := List.mem_map.1 ht
    obtain ⟨n, -, hn⟩ := hcontent (Beside.mem_toList_of_mem_back _ hs)
    exact (add_le_add_left (box_settle hn).2.le _).trans (below_clear ho hitems x y slot hq s hs)

/-- A stack, with two terminals beside it. -/
theorem sides_clear_three :
    let o := Options.exact
    let first : Node Rat := .stack (.ofText "a") [.ofText "b"]
    let p := (horizontalChoice first [.ofText "c"] (.ofText "d")).place o 0 0 300
    o.Nonneg ∧ (∀ n ∈ [first, .ofText "c", .ofText "d"], (n.metrics o).Nonneg) ∧
      p.nodes.map (fun n => (n.box o).bottom) = [51, 11, 11] ∧
      (∀ n ∈ p.nodes, (n.box o).Within (p.box o)) ∧
      p.nodes.Pairwise (fun a b => (a.box o).right ≤ (b.box o).left) ∧
      ∃ sides above below, p.Railed o sides above below ∧
        (∀ t ∈ sides.front, ∀ q, above.OnHorizontal q → q.2 + 8 ≤ (t.content.box o).top) ∧
        ∀ t ∈ sides.back, ∀ q, below.OnHorizontal q → (t.content.box o).bottom + 8 ≤ q.2 := by
  intro o first p
  have hitems : ∀ n ∈ [first, .ofText "c", .ofText "d"], (n.metrics o).Nonneg := by decide +kernel
  obtain ⟨-, hwithin, hapart, hrails⟩ := sides_clear Options.exact_nonneg first [.ofText "c"]
    (.ofText "d") hitems 0 0 300
  exact ⟨Options.exact_nonneg, hitems, by decide +kernel, hwithin, hapart, hrails⟩

end Node
end SyntaxDiagram
