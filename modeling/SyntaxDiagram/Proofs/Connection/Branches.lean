import SyntaxDiagram.Proofs.Connection.Nodes

/-!
# The track through each branch

A branch that is not straight is left through two arcs with a line between them, which is not drawn
backwards. So it meets the exit of its choice only if there is room for two arcs between the exit
lines of both. Going outwards from the straight branch, the room can be missing at the nearest
branches only.

* `Strand`: what is drawn for one branch. `Layout.strands`: the strands among pieces.
* `Layout.choicePieces_entered`: every branch is entered, whatever its size.
* `Layout.choicePieces_joined_iff`: when every branch is joined with both ends of its choice.
* `Node.choice_joined_iff`, `Node.optional_joined`, `Node.zeroOrMore_joined_iff`: the same for the
  nodes that are laid out as choices.
-/

namespace SyntaxDiagram

variable {α γ δ : Type}

/-- What is drawn for one branch: a line into it, what stands there, and a line out of it. -/
structure Strand (α γ : Type) where
  into : Path α
  content : γ
  out : Path α

/-- The same lines with other content. -/
def Strand.map (f : γ → δ) (t : Strand α γ) : Strand α δ := ⟨t.into, f t.content, t.out⟩

/-- The lines of a strand join what stands there with two points. -/
structure Strand.Joins [Scalar α] (t : Strand α γ) (ports : γ → Ports α) (outer : Ports α) :
    Prop where
  into : t.into.Draws outer.entry (ports t.content).entry
  out : t.out.Draws (ports t.content).exit outer.exit

/-- Other content with the same ports is joined just as well. -/
theorem Strand.joins_map_iff [Scalar α] {t : Strand α γ} {f : γ → δ} {ports : γ → Ports α}
    {ports' : δ → Ports α} {outer : Ports α} (h : ports' (f t.content) = ports t.content) :
    (t.map f).Joins ports' outer ↔ t.Joins ports outer := by
  constructor
  · rintro ⟨hinto, hout⟩
    exact ⟨h ▸ hinto, h ▸ hout⟩
  · rintro ⟨hinto, hout⟩
    exact ⟨h.symm ▸ hinto, h.symm ▸ hout⟩

namespace Layout

/-! ## Strands among pieces -/

/-- The strands among pieces. -/
def strands : List (Piece α γ) → List (Strand α γ)
  | .track into :: .child content :: .track out :: rest => ⟨into, content, out⟩ :: strands rest
  | _ :: rest => strands rest
  | [] => []

theorem strands_map (f : γ → δ) (pieces : List (Piece α γ)) :
    strands (pieces.map (Piece.map f)) = (strands pieces).map (Strand.map f) := by
  induction pieces using strands.induct with
  | case1 into content out rest ih => exact congrArg (_ :: ·) ih
  | case2 p rest h ih =>
    rw [strands.eq_2 p rest h, ← ih, List.map_cons, strands.eq_2]
    intro into content out rest' hp hrest
    -- pieces that stand for a strand do so with other content as well
    obtain ⟨second, others, rfl, hsecond, hothers⟩ := List.map_eq_cons_iff.1 hrest
    obtain ⟨third, last, rfl, hthird, -⟩ := List.map_eq_cons_iff.1 hothers
    cases p with
    | child c => cases hp
    | shape drawing => cases hp
    | track path =>
      cases second with
      | track path' => cases hsecond
      | shape drawing => cases hsecond
      | child c =>
        cases third with
        | child c' => cases hthird
        | shape drawing => cases hthird
        | track path' => exact h path c path' last rfl rfl
  | case3 => rfl

variable {β : Type}

section

variable [Scalar α] (f : ChoiceFrame α) (s : Sized α β) (rest : List (Sized α β)) (distance : α)

/-- The strand of a branch above. -/
def ChoiceFrame.over : Strand α (Site α β) :=
  let r := f.options.arcRadius
  let left := f.x + 2 * r
  let leave := (start (left + f.inner) (f.y - distance + s.metrics.height)).arc r .north .east
  ⟨riseTo f.options distance f.x f.y, s.at left (f.y - distance) f.inner,
    (leave.down (distance - s.metrics.height + f.height - 2 * r)).arc r .west .south⟩

/-- The strand of the straight branch. -/
def ChoiceFrame.through : Strand α (Site α β) :=
  let r := f.options.arcRadius
  let left := f.x + 2 * r
  ⟨(start f.x f.y).right (2 * r), s.at left f.y f.inner,
    (start (left + f.inner) (f.y + f.height)).right (2 * r)⟩

/-- The strand of a branch below. -/
def ChoiceFrame.under : Strand α (Site α β) :=
  let r := f.options.arcRadius
  let left := f.x + 2 * r
  let leave := (start (left + f.inner) (f.y + distance + s.metrics.height)).arc r .south .east
  ⟨dropTo f.options distance f.x f.y, s.at left (f.y + distance) f.inner,
    (leave.up (distance - 2 * r + s.metrics.height - f.height)).arc r .west .north⟩

theorem strands_choiceAbove_append (items : List (Sized α β)) (more : List (Piece α (Site α β))) :
    strands (choiceAbove f items distance ++ more) =
      strands (choiceAbove f items distance) ++ strands more := by
  induction items generalizing distance with
  | nil => rfl
  | cons s rest ih => exact congrArg (f.over s distance :: ·) (ih _)

/-- The strands of a choice, one for each branch. -/
theorem strands_choicePieces (o : Options α) (m : Metrics α) (b : Branches (Sized α β))
    (x y slot : α) :
    let f : ChoiceFrame α :=
      ⟨o, m.height, m.width - 4 * o.arcRadius, x + (gaps o m slot).left, y⟩
    strands (choicePieces o m b x y slot) =
      strands (choiceAbove f b.above.reverse (choiceRise o b.straight.metrics b.above.reverse)) ++
        f.through b.straight ::
          strands (choiceBelow f b.below (choiceDrop o m.height b.straight.metrics b.below)) := by
  intro f
  rw [choicePieces, List.append_assoc]
  -- the lines in the gaps do not belong to a branch
  cases b.above.reverse with
  | nil => rfl
  | cons s rest =>
    exact congrArg (f.over s (choiceRise o b.straight.metrics (s :: rest)) :: ·)
      (strands_choiceAbove_append f _ rest _)

theorem content_strands_choiceAbove (items : List (Sized α β)) :
    (strands (choiceAbove f items distance)).map Strand.content =
      contents (choiceAbove f items distance) := by
  induction items generalizing distance with
  | nil => rfl
  | cons s rest ih => exact congrArg (_ :: ·) (ih _)

theorem content_strands_choiceBelow (items : List (Sized α β)) :
    (strands (choiceBelow f items distance)).map Strand.content =
      contents (choiceBelow f items distance) := by
  induction items generalizing distance with
  | nil => rfl
  | cons s rest ih => exact congrArg (_ :: ·) (ih _)

/-- **Every branch of a choice has a strand.** -/
theorem content_strands_choicePieces (o : Options α) (m : Metrics α) (b : Branches (Sized α β))
    (x y slot : α) :
    (strands (choicePieces o m b x y slot)).map Strand.content =
      contents (choicePieces o m b x y slot) := by
  rw [strands_choicePieces, List.map_append, List.map_cons, content_strands_choiceAbove,
    content_strands_choiceBelow]
  simp [choicePieces, ChoiceFrame.through]

end

/-! ## Joined with both ends -/

variable {K : Type} [ExactScalar K] {o : Options K}

theorem down_clamp (p : Path K) (length : K) : p.down (max length 0) = p.down length := by
  rw [Path.down, Path.down, Path.clamp_of_nonneg (le_max_right _ _), Scalar.clamp,
    ExactScalar.zero_eq]

theorem up_clamp (p : Path K) (length : K) : p.up (max length 0) = p.up length := by
  rw [Path.up, Path.up, Path.clamp_of_nonneg (le_max_right _ _), Scalar.clamp,
    ExactScalar.zero_eq]

/-- A track between two arcs falls as far as it should if it is not to fall backwards. -/
theorem draws_fall_iff (r length x y : K) :
    ((((start x y).arc r .north .east).down length).arc r .west .south).Draws (x, y)
      (x + 2 * r, y + length + 2 * r) ↔ 0 ≤ length := by
  refine ⟨fun h => ?_, fun h => draws_fall r h x y⟩
  have hfall := draws_fall r (le_max_right length 0) x y
  rw [down_clamp] at hfall
  have hend := congrArg Prod.snd (h.finish.symm.trans hfall.finish)
  exact left_eq_sup.1 (add_left_cancel (add_right_cancel hend))

/-- A track between two arcs rises as far as it should if it is not to rise backwards. -/
theorem draws_climb_iff (r length x y : K) :
    ((((start x y).arc r .south .east).up length).arc r .west .north).Draws (x, y)
      (x + 2 * r, y - length - 2 * r) ↔ 0 ≤ length := by
  refine ⟨fun h => ?_, fun h => draws_climb r h x y⟩
  have hclimb := draws_climb r (le_max_right length 0) x y
  rw [up_clamp] at hclimb
  have hend := congrArg Prod.snd (h.finish.symm.trans hclimb.finish)
  exact left_eq_sup.1 (sub_right_injective (sub_left_injective hend))

/-- The ends of a choice between its gaps. -/
def ChoiceFrame.ends (f : ChoiceFrame K) : Ports K :=
  ⟨(f.x, f.y), (f.x + f.inner + 4 * f.options.arcRadius, f.y + f.height)⟩

section

variable {f : ChoiceFrame K} {s : Sized K β} {distance : K}

/-- A branch above is entered if it is two arcs away. -/
theorem over_entered (hfar : 2 * f.options.arcRadius ≤ distance) :
    (f.over s distance).into.Draws f.ends.entry (f.over s distance).content.ports.entry :=
  draws_climb_by f.options.arcRadius hfar f.x f.y

/-- A branch below is entered if it is two arcs away. -/
theorem under_entered (hfar : 2 * f.options.arcRadius ≤ distance) :
    (f.under s distance).into.Draws f.ends.entry (f.under s distance).content.ports.entry :=
  draws_fall_by f.options.arcRadius hfar f.x f.y

/-- **A branch above is joined** if there is room for two arcs between the exit lines. -/
theorem over_joins_iff (hfar : 2 * f.options.arcRadius ≤ distance) :
    (f.over s distance).Joins Site.ports f.ends ↔
      s.metrics.height + 2 * f.options.arcRadius ≤ f.height + distance := by
  have hend : ((f.x + 2 * f.options.arcRadius + f.inner) + 2 * f.options.arcRadius,
      f.y - distance + s.metrics.height +
        (distance - s.metrics.height + f.height - 2 * f.options.arcRadius) +
          2 * f.options.arcRadius) = f.ends.exit := by
    refine Prod.ext f.exit_eq ?_
    change _ = f.y + f.height
    ring
  have hout : (f.over s distance).out.Draws (f.over s distance).content.ports.exit f.ends.exit ↔
      0 ≤ distance - s.metrics.height + f.height - 2 * f.options.arcRadius := by
    rw [← hend]
    exact draws_fall_iff _ _ _ _
  have hlength : 0 ≤ distance - s.metrics.height + f.height - 2 * f.options.arcRadius ↔
      s.metrics.height + 2 * f.options.arcRadius ≤ f.height + distance := by
    constructor <;> intro h <;> linarith
  exact ⟨fun h => hlength.1 (hout.1 h.out), fun h => ⟨over_entered hfar, hout.2 (hlength.2 h)⟩⟩

/-- **A branch below is joined** if there is room for two arcs between the exit lines. -/
theorem under_joins_iff (hfar : 2 * f.options.arcRadius ≤ distance) :
    (f.under s distance).Joins Site.ports f.ends ↔
      f.height + 2 * f.options.arcRadius ≤ distance + s.metrics.height := by
  have hend : ((f.x + 2 * f.options.arcRadius + f.inner) + 2 * f.options.arcRadius,
      f.y + distance + s.metrics.height -
        (distance - 2 * f.options.arcRadius + s.metrics.height - f.height) -
          2 * f.options.arcRadius) = f.ends.exit := by
    refine Prod.ext f.exit_eq ?_
    change _ = f.y + f.height
    ring
  have hout : (f.under s distance).out.Draws (f.under s distance).content.ports.exit f.ends.exit ↔
      0 ≤ distance - 2 * f.options.arcRadius + s.metrics.height - f.height := by
    rw [← hend]
    exact draws_climb_iff _ _ _ _
  have hlength : 0 ≤ distance - 2 * f.options.arcRadius + s.metrics.height - f.height ↔
      f.height + 2 * f.options.arcRadius ≤ distance + s.metrics.height := by
    constructor <;> intro h <;> linarith
  exact ⟨fun h => hlength.1 (hout.1 h.out), fun h => ⟨under_entered hfar, hout.2 (hlength.2 h)⟩⟩

/-- The straight branch is entered on its line, and joined if it is left on that of the choice. -/
theorem through_joins_iff (harc : 0 ≤ f.options.arcRadius) :
    (f.through s).Joins Site.ports f.ends ↔ s.metrics.height = f.height := by
  have hr : 0 ≤ 2 * f.options.arcRadius := by linarith
  refine ⟨fun h => ?_, fun h => ⟨(Path.draws_start f.x f.y).right hr, ?_⟩⟩
  · exact (add_left_cancel (congrArg Prod.snd h.out.origin)).symm
  · have hexit : (f.through s).content.ports.exit =
        (f.x + 2 * f.options.arcRadius + f.inner, f.y + f.height) := by
      rw [← h]
      rfl
    rw [hexit]
    exact ((Path.draws_start _ _).right hr).to f.exit_eq rfl

/-! ## Going outwards -/

/-- Every branch above is entered if the nearest one is two arcs away. -/
theorem choiceAbove_entered (harc : 0 ≤ f.options.arcRadius) {items : List (Sized K β)}
    (hfar : items ≠ [] → 2 * f.options.arcRadius ≤ distance) :
    ∀ t ∈ strands (choiceAbove f items distance),
      t.into.Draws f.ends.entry t.content.ports.entry := by
  induction items generalizing distance with
  | nil => exact List.forall_mem_nil _
  | cons s rest ih =>
    have hs := hfar (List.cons_ne_nil _ _)
    refine List.forall_mem_cons.2 ⟨over_entered hs, ih fun _ => ?_⟩
    exact hs.trans (le_add_of_nonneg_right (harc.trans (le_max_left _ _)))

/-- Every branch below is entered if the nearest one is two arcs away. -/
theorem choiceBelow_entered (harc : 0 ≤ f.options.arcRadius) {items : List (Sized K β)}
    (hfar : items ≠ [] → 2 * f.options.arcRadius ≤ distance) :
    ∀ t ∈ strands (choiceBelow f items distance),
      t.into.Draws f.ends.entry t.content.ports.entry := by
  induction items generalizing distance with
  | nil => exact List.forall_mem_nil _
  | cons s rest ih =>
    have hs := hfar (List.cons_ne_nil _ _)
    refine List.forall_mem_cons.2 ⟨under_entered hs, ih fun _ => ?_⟩
    exact hs.trans (le_add_of_nonneg_right (harc.trans (le_max_left _ _)))

variable (ho : f.options.Nonneg) {rest : List (Sized K β)}
  (h : ∀ i ∈ s :: rest, i.metrics.Nonneg) (hfar : 2 * f.options.arcRadius ≤ distance)
include ho h hfar

/-- Behind a branch above there is room for the drop of the next one. -/
theorem choiceAbove_joined (hheight : 0 ≤ f.height)
    (hs : (f.over s distance).Joins Site.ports f.ends) :
    ∀ t ∈ strands (choiceAbove f (s :: rest) distance), t.Joins Site.ports f.ends := by
  induction rest generalizing s distance with
  | nil =>
    intro t ht
    obtain rfl := List.mem_singleton.1 ht
    exact hs
  | cons next rest ih =>
    obtain ⟨hfirst, hrest⟩ := List.forall_mem_cons.1 h
    have hnext := hrest next List.mem_cons_self
    have hroom := le_max_right f.options.arcRadius (s.metrics.up +
      f.options.verticalSeparation + (next.metrics.down + next.metrics.height))
    have hfar' : 2 * f.options.arcRadius ≤ distance + max f.options.arcRadius (s.metrics.up +
        f.options.verticalSeparation + (next.metrics.down + next.metrics.height)) :=
      hfar.trans (le_add_of_nonneg_right (ho.arcRadius.trans (le_max_left _ _)))
    refine List.forall_mem_cons.2 ⟨hs, ih hrest hfar' ((over_joins_iff hfar').2 ?_)⟩
    linarith [hfirst.up, hnext.down, ho.verticalSeparation]

/-- The exit lines of the branches below lie one under the other. -/
theorem choiceBelow_joined (hs : (f.under s distance).Joins Site.ports f.ends) :
    ∀ t ∈ strands (choiceBelow f (s :: rest) distance), t.Joins Site.ports f.ends := by
  induction rest generalizing s distance with
  | nil =>
    intro t ht
    obtain rfl := List.mem_singleton.1 ht
    exact hs
  | cons next rest ih =>
    obtain ⟨hfirst, hrest⟩ := List.forall_mem_cons.1 h
    have hnext := hrest next List.mem_cons_self
    have hroom := le_max_right f.options.arcRadius (s.metrics.height + s.metrics.down +
      f.options.verticalSeparation + next.metrics.up)
    have hfar' : 2 * f.options.arcRadius ≤ distance + max f.options.arcRadius
        (s.metrics.height + s.metrics.down + f.options.verticalSeparation + next.metrics.up) :=
      hfar.trans (le_add_of_nonneg_right (ho.arcRadius.trans (le_max_left _ _)))
    refine List.forall_mem_cons.2 ⟨hs, ih hrest hfar' ((under_joins_iff hfar').2 ?_)⟩
    linarith [(under_joins_iff hfar).1 hs, hfirst.down, hnext.up, hnext.height,
      ho.verticalSeparation]

end

/-! ## Choices -/

/-- The branches of a choice that drops by `height` can be joined with its exit: the straight one
leaves on its line, and between it and the exit lines of the nearest ones there is room for two
arcs. -/
structure Branches.Joinable (o : Options K) (height : K) (b : Branches (Metrics K)) : Prop where
  straight : b.straight.height = height
  above : ∀ m ∈ b.above.getLast?, m.height ≤ height ∨
    2 * o.arcRadius ≤ height + (b.straight.up + o.verticalSeparation + m.down)
  below : ∀ m ∈ b.below.head?, height ≤ m.height ∨
    2 * o.arcRadius ≤ m.height + (b.straight.down + o.verticalSeparation + m.up)

/-- Two arcs fit next to something that drops by `a` if they do so without it, or if it does not
drop below the end of them. -/
theorem add_le_add_max_iff {a b arcs room : K} :
    a + arcs ≤ b + max arcs (room + a) ↔ a ≤ b ∨ arcs ≤ b + room := by
  rw [← max_add_add_left, le_max_iff]
  refine or_congr (add_le_add_iff_right arcs) ?_
  rw [← add_assoc, add_comm a, add_le_add_iff_right]

section

variable {f : ChoiceFrame K} (ho : f.options.Nonneg) (straight : Metrics K)
  (items : List (Sized K β)) (h : ∀ i ∈ items, i.metrics.Nonneg)
include ho h

theorem choiceAbove_joined_iff (hheight : 0 ≤ f.height) :
    (∀ t ∈ strands (choiceAbove f items (choiceRise f.options straight items)),
        t.Joins Site.ports f.ends) ↔
      ∀ i ∈ items.head?, i.metrics.height ≤ f.height ∨ 2 * f.options.arcRadius ≤
        f.height + (straight.up + f.options.verticalSeparation + i.metrics.down) := by
  cases items with
  | nil => exact iff_of_true (List.forall_mem_nil _) fun i hi => absurd hi (Option.not_mem_none i)
  | cons s rest =>
    have hfar := le_max_left (2 * f.options.arcRadius) (straight.up + f.options.verticalSeparation +
      s.metrics.down + s.metrics.height)
    have hnearest := (over_joins_iff (s := s) hfar).trans add_le_add_max_iff
    refine ⟨fun hall i hi => ?_, fun hroom => ?_⟩
    · obtain rfl := Option.some.inj hi
      exact hnearest.1 (hall _ List.mem_cons_self)
    · exact choiceAbove_joined ho h hfar hheight (hnearest.2 (hroom s rfl))

theorem choiceBelow_joined_iff :
    (∀ t ∈ strands (choiceBelow f items (choiceDrop f.options f.height straight items)),
        t.Joins Site.ports f.ends) ↔
      ∀ i ∈ items.head?, f.height ≤ i.metrics.height ∨ 2 * f.options.arcRadius ≤
        i.metrics.height + (straight.down + f.options.verticalSeparation + i.metrics.up) := by
  cases items with
  | nil => exact iff_of_true (List.forall_mem_nil _) fun i hi => absurd hi (Option.not_mem_none i)
  | cons s rest =>
    have hfar := le_max_left (2 * f.options.arcRadius) (f.height + straight.down +
      f.options.verticalSeparation + s.metrics.up)
    have hsum : f.height + straight.down + f.options.verticalSeparation + s.metrics.up =
        straight.down + f.options.verticalSeparation + s.metrics.up + f.height := by ring
    have hnearest := under_joins_iff (s := s) hfar
    rw [add_comm (max _ _), hsum, add_le_add_max_iff, ← hsum] at hnearest
    refine ⟨fun hall i hi => ?_, fun hroom => ?_⟩
    · obtain rfl := Option.some.inj hi
      exact hnearest.1 (hall _ List.mem_cons_self)
    · exact choiceBelow_joined ho h hfar (hnearest.2 (hroom s rfl))

end

section

variable (o) (m : Metrics K) (b : Branches (Sized K β)) (x y slot : K)

theorem ends_eq_ownPorts :
    (⟨o, m.height, m.width - 4 * o.arcRadius, x + (gaps o m slot).left, y⟩ :
      ChoiceFrame K).ends = ownPorts o m x y slot := by
  refine congrArg (Ports.mk _) (Prod.ext ?_ rfl)
  change x + (gaps o m slot).left + (m.width - 4 * o.arcRadius) + 4 * o.arcRadius =
    x + (gaps o m slot).left + m.width
  ring

variable {o m b} (ho : o.Nonneg)
include ho

/-- **Every branch of a choice is entered**: a line leads from the entry of the choice to its own. -/
theorem choicePieces_entered :
    ∀ t ∈ strands (choicePieces o m b x y slot),
      t.into.Draws (ownPorts o m x y slot).entry t.content.ports.entry := by
  intro t ht
  rw [strands_choicePieces, List.mem_append, List.mem_cons] at ht
  rw [← ends_eq_ownPorts]
  rcases ht with ht | rfl | ht
  · exact choiceAbove_entered ho.arcRadius (arcs_le_choiceRise o _) t ht
  · refine (Path.draws_start _ _).right ?_
    linarith [ho.arcRadius]
  · exact choiceBelow_entered ho.arcRadius (arcs_le_choiceDrop o _ _) t ht

/-- **When every branch of a choice is joined with both of its ends.** -/
theorem choicePieces_joined_iff (h : ∀ i ∈ b.toList, i.metrics.Nonneg) (hm : 0 ≤ m.height) :
    (∀ t ∈ strands (choicePieces o m b x y slot),
        t.Joins Site.ports (ownPorts o m x y slot)) ↔
      (b.map (·.metrics)).Joinable o m.height := by
  let f : ChoiceFrame K :=
    ⟨o, m.height, m.width - 4 * o.arcRadius, x + (gaps o m slot).left, y⟩
  have habove := choiceAbove_joined_iff (f := f) ho b.straight.metrics b.above.reverse
    (fun i hi => h i (Branches.mem_toList.2 (List.mem_append_left _ hi))) hm
  have hbelow := choiceBelow_joined_iff (f := f) ho b.straight.metrics b.below
    (fun i hi => h i (Branches.mem_toList.2 (by simp [hi])))
  have hstraight := through_joins_iff (f := f) (s := b.straight) ho.arcRadius
  rw [strands_choicePieces, ← ends_eq_ownPorts]
  simp only [List.forall_mem_append, List.forall_mem_cons]
  rw [habove, hbelow, hstraight, List.head?_reverse]
  constructor
  · rintro ⟨hrise, hlevel, hdrop⟩
    refine ⟨hlevel, fun s hs => ?_, fun s hs => ?_⟩
    · obtain ⟨i, hi, rfl⟩ := Option.mem_map.1 (List.getLast?_map ▸ hs)
      exact hrise i hi
    · obtain ⟨i, hi, rfl⟩ := Option.mem_map.1 (List.head?_map ▸ hs)
      exact hdrop i hi
  · intro hjoin
    refine ⟨fun i hi => hjoin.above i.metrics ?_, hjoin.straight,
      fun i hi => hjoin.below i.metrics ?_⟩
    · exact List.getLast?_map ▸ Option.mem_map_of_mem _ hi
    · exact List.head?_map ▸ Option.mem_map_of_mem _ hi

end

end Layout

open Layout

/-! ## Nodes -/

/-- The strands that are drawn right in a node. -/
def Placed.strands : Placed α → List (Strand α (Placed α))
  | group _ _ pieces => Layout.strands pieces
  | bare .. => []

/-- Every branch of a node is entered from where the node itself is. -/
def Placed.Entered [Scalar α] (o : Options α) (p : Placed α) : Prop :=
  ∀ t ∈ p.strands, t.into.Draws (p.inner o).entry t.content.ports.entry

/-- Every branch of a node is joined with both ends of the node. -/
def Placed.Joined [Scalar α] (o : Options α) (p : Placed α) : Prop :=
  ∀ t ∈ p.strands, t.Joins Placed.ports (p.inner o)

namespace Layout

variable {K : Type} [ExactScalar K] {o : Options K} {kind : Node.Kind} {m : Metrics K}
  {attributes : Attributes (Value K)} {inside : List (Figure K)} {b : Branches (Figure K)}

theorem ports_settle {n : Node K} {s : Site K (Drawable K)} (hs : s.toSized = n.figure o) :
    (settle s).ports = s.ports := by
  rw [Placed.ports, site_settle hs]
  rfl

section

variable (hb : ∀ f ∈ b.toList, ∃ n : Node K, f = n.figure o) (x y slot : K)
include hb

/-- What stands in the strands of a choice are figures of nodes. -/
theorem ports_strands_choicePieces :
    ∀ t ∈ strands (choicePieces o m b x y slot),
      (settle t.content).ports = t.content.ports := by
  intro t ht
  have hsite := content_strands_choicePieces o m b x y slot ▸ List.mem_map_of_mem ht
  have hbranch := List.mem_map_of_mem (f := Site.toSized) hsite
  rw [contents_choicePieces, ← Branches.mem_toList] at hbranch
  obtain ⟨n, hn⟩ := hb _ hbranch
  exact ports_settle hn

variable (hkind : kind.isAligned) (ho : o.Nonneg)
include hkind ho

/-- **Everything in a node that is laid out as a choice has a strand and is entered.** -/
theorem choiceFigure_entered :
    let p := (figure kind m attributes inside (choicePieces o m b)).item.place x y slot
    p.strands.map Strand.content = p.nodes ∧ p.Entered o := by
  intro p
  have hstrands : p.strands = (strands (choicePieces o m b x y slot)).map (Strand.map settle) :=
    strands_map _ _
  refine ⟨?_, ?_⟩
  · rw [hstrands, nodes_figure, ← content_strands_choicePieces, List.map_map, List.map_map]
    rfl
  · rw [Placed.Entered, hstrands, inner_figure hkind, List.forall_mem_map]
    intro t ht
    rw [Strand.map, ports_strands_choicePieces hb x y slot t ht]
    exact choicePieces_entered x y slot ho t ht

/-- When a node that is laid out as a choice is joined with everything in it. -/
theorem choiceFigure_joined_iff (h : ∀ f ∈ b.toList, f.metrics.Nonneg) (hm : 0 ≤ m.height) :
    ((figure kind m attributes inside (choicePieces o m b)).item.place x y slot).Joined o ↔
      (b.map (·.metrics)).Joinable o m.height := by
  let p := (figure kind m attributes inside (choicePieces o m b)).item.place x y slot
  have hstrands : p.strands = (strands (choicePieces o m b x y slot)).map (Strand.map settle) :=
    strands_map _ _
  rw [← choicePieces_joined_iff x y slot ho h hm, Placed.Joined, hstrands, inner_figure hkind,
    List.forall_mem_map]
  exact forall₂_congr fun t ht => Strand.joins_map_iff (ports_strands_choicePieces hb x y slot t ht)

end

/-- What can be passed by is an item and a bare line. -/
theorem mem_passing {item f : Figure K} {bypass : Bool} :
    f ∈ (passing o item bypass).toList ↔ f = skipFigure o ∨ f = item := by
  cases bypass <;> simp [passing, Branches.toList]

theorem exists_of_mem_passing {item : Node K} {f : Figure K} {bypass : Bool}
    (hf : f ∈ (passing o (item.figure o) bypass).toList) : ∃ n : Node K, f = n.figure o := by
  rcases mem_passing.1 hf with rfl | rfl
  · exact ⟨.skip, by rw [Node.figure]⟩
  · exact ⟨item, rfl⟩

theorem nonneg_of_mem_passing {item f : Figure K} {bypass : Bool} (h : item.metrics.Nonneg)
    (hf : f ∈ (passing o item bypass).toList) : f.metrics.Nonneg := by
  rcases mem_passing.1 hf with rfl | rfl
  · exact Metrics.flat_zero.toNonneg
  · exact h

end Layout

namespace Node

variable {K : Type} [ExactScalar K] {o : Options K}

/-- Nodes that offer a choice are laid out as choices. -/
theorem exists_choicePieces (o : Options K) {n : Node K} (hn : n.kind.isChoice) :
    ∃ m attributes inside b,
      n.figure o = Layout.figure n.kind m attributes inside (choicePieces o m b) ∧
        ∀ f ∈ b.toList, ∃ i : Node K, f = i.figure o := by
  cases n with
  | choice above straight below =>
    refine ⟨_, _, _, _, figure_choice o ⟨above, straight, below⟩, ?_⟩
    rw [Branches.toList_map]
    exact List.forall_mem_map.2 fun i _ => ⟨i, rfl⟩
  | optional item bypass =>
    rw [figure]
    exact ⟨_, _, _, _, rfl, fun f hf => exists_of_mem_passing hf⟩
  | zeroOrMore item separator =>
    have hloop : loopFigure o (item.figure o) (separator.figure o) =
        (oneOrMore item separator).figure o := by rw [figure]
    rw [figure, freeLoopFigure, hloop]
    exact ⟨_, _, _, _, rfl, fun f hf => exists_of_mem_passing hf⟩
  | _ => cases hn

variable (ho : o.Nonneg)
include ho

/-- **Everything in a node that offers a choice has a strand and is entered**, whatever its size and
however wide the slot of the node. -/
theorem branches_entered {n : Node K} (hn : n.kind.isChoice) (x y slot : K) :
    let p := n.place o x y slot
    p.strands.map Strand.content = p.nodes ∧ p.Entered o := by
  obtain ⟨m, attributes, inside, b, hfigure, hb⟩ := exists_choicePieces o hn
  rw [place, hfigure]
  refine choiceFigure_entered hb x y slot ?_ ho
  cases hkind : n.kind <;> first | rfl | simp [hkind, Kind.isChoice] at hn

/-- **When the branches of a choice are joined with it.** -/
theorem choice_joined_iff (b : Branches (Node K)) (h : ∀ i ∈ b.toList, (i.metrics o).Nonneg)
    (x y slot : K) :
    ((choice b.above b.straight b.below).place o x y slot).Joined o ↔
      (b.map (metrics o)).Joinable o (b.straight.metrics o).height := by
  have hsizes : (b.map (figure o)).map (·.metrics) = b.map (metrics o) := by
    simp only [Branches.map, List.map_map]
    rfl
  rw [place, figure_choice, ← hsizes]
  refine choiceFigure_joined_iff ?_ x y slot ?_ ho ?_ ?_
  · rw [Branches.toList_map]
    exact List.forall_mem_map.2 fun i _ => ⟨i, rfl⟩
  · rfl
  · rw [Branches.toList_map]
    exact List.forall_mem_map.2 h
  · exact (h b.straight (Branches.mem_toList.2 (by simp))).height

/-- **An item that can be passed by is joined with both ends**, and so is the bare line beside it. -/
theorem optional_joined {item : Node K} (h : (item.metrics o).Nonneg) (bypass : Bool)
    (x y slot : K) : ((optional item bypass).place o x y slot).Joined o := by
  have hzero : (skipFigure o).metrics.height = 0 := ExactScalar.zero_eq
  rw [place, figure]
  refine (choiceFigure_joined_iff (fun f hf => exists_of_mem_passing hf) x y slot ?_ ho
    (fun f hf => nonneg_of_mem_passing h hf) ?_).2 ?_
  · rfl
  · cases bypass with
    | false => exact h.height
    | true => exact hzero.ge
  · -- on either side, what is below drops at least as far as what is above
    cases bypass with
    | false =>
      refine ⟨rfl, fun m hm => .inl ?_, fun m hm => absurd hm (Option.not_mem_none m)⟩
      obtain rfl := Option.some.inj hm
      exact hzero.trans_le h.height
    | true =>
      refine ⟨rfl, fun m hm => absurd hm (Option.not_mem_none m), fun m hm => .inl ?_⟩
      obtain rfl := Option.some.inj hm
      exact hzero.trans_le h.height

/-- **A loop that can be passed by is joined with both ends, and so is the bare line over it, if and
only if its item is left on the line on which it is entered.** -/
theorem zeroOrMore_joined_iff {item : Node K} (h : (item.metrics o).Nonneg) (separator : Node K)
    (x y slot : K) :
    ((zeroOrMore item separator).place o x y slot).Joined o ↔ (item.metrics o).height = 0 := by
  have hzero : (skipFigure o).metrics.height = 0 := ExactScalar.zero_eq
  have hloop : loopFigure o (item.figure o) (separator.figure o) =
      (oneOrMore item separator).figure o := by rw [figure]
  have hsize : ((oneOrMore item separator).figure o).metrics.Nonneg :=
    hloop ▸ nonneg_loopSize ho h
  have hheight : ((oneOrMore item separator).figure o).metrics.height = (item.metrics o).height :=
    hloop ▸ rfl
  rw [place, figure, freeLoopFigure, hloop]
  refine (choiceFigure_joined_iff (fun f hf => exists_of_mem_passing hf) x y slot ?_ ho
    (fun f hf => nonneg_of_mem_passing hsize hf) ?_).trans ?_
  · rfl
  · exact hsize.height
  · rw [← hheight]
    -- the bare line is straight, and the exit line is that of the loop
    constructor
    · intro hjoin
      exact hjoin.straight.symm.trans hzero
    · intro hlevel
      refine ⟨hzero.trans hlevel.symm, fun m hm => absurd hm (Option.not_mem_none m),
        fun m hm => .inl ?_⟩
      obtain rfl := Option.some.inj hm
      exact le_refl _

end Node

/-- A bare line next to a stack of two lines: its track does not rise far enough and ends one unit
over the exit of the choice. -/
theorem Node.stack_not_joined :
    let stack : Node Rat := .stack (.ofText "a") [.ofText "b"]
    let choice : Placed Rat := (Node.choice [] stack [.skip]).place Options.exact 0 0 (217 / 2)
    (choice.inner Options.exact).exit = (217 / 2, 40) ∧
      choice.strands.map (·.out.finish) = [(217 / 2, 40), (217 / 2, 39)] := by
  decide +kernel

/-- A bare line over a loop over a stack: its track starts 40 units under the end of the line. -/
theorem Node.stack_not_passed_by :
    let stack : Node Rat := .stack (.ofText "a") [.ofText "b"]
    let loop : Placed Rat := (Node.zeroOrMore stack .skip).place Options.exact 0 0 (257 / 2)
    loop.strands.map (fun t => (t.content.ports.exit.2, t.out.y)) = [(0, 40), (99, 99)] := by
  decide +kernel

end SyntaxDiagram
