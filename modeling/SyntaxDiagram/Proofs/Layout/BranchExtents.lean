import SyntaxDiagram.Proofs.Containment

/-!
# How far a choice reaches

The branches of a multiple choice stand at the same distances from each other as those of a choice.
So for both kinds of choices the box covers all branches above, and below all but the drop of the
last branch: its extent below is measured from its own exit line.

* `Layout.contents_multipleAbove_eq`, `Layout.contents_multipleBelow_eq`: the branches of a multiple
  choice stand where those of a choice stand that begins elsewhere.
* `Layout.multiplePieces_stands`: how they stand in its box.
* `Node.branches_within`, `Node.branches_covered_iff`: the same for nodes of both kinds. The box of a
  choice covers its branches if and only if the last one does not drop.
-/

namespace SyntaxDiagram

variable {K β : Type} [ExactScalar K]

namespace Layout

variable {o : Options K}

/-! ## Multiple choices -/

/-- The branches above in a multiple choice are at the places that those of a choice have. -/
theorem contents_multipleAbove_eq (f : ChoiceFrame K) (items : List (Sized K β)) (distance : K) :
    contents (multipleAbove f items distance) =
      contents (choiceAbove { f with x := f.x + 30 - f.options.arcRadius } items distance) := by
  induction items generalizing distance with
  | nil => rfl
  | cons s rest ih =>
    have hleft : f.x + 30 + f.options.arcRadius =
        f.x + 30 - f.options.arcRadius + 2 * f.options.arcRadius := by ring
    simp only [multipleAbove, choiceAbove, contents_track, contents_piece, ih, hleft]
    cases rest with
    | nil => rfl
    | cons next rest => simp only [add_assoc]

/-- The branches below in a multiple choice are at the places that those of a choice have. -/
theorem contents_multipleBelow_eq (f : ChoiceFrame K) (items : List (Sized K β)) (distance : K) :
    contents (multipleBelow f items distance) =
      contents (choiceBelow { f with x := f.x + 30 - f.options.arcRadius } items distance) := by
  induction items generalizing distance with
  | nil => rfl
  | cons s rest ih =>
    have hleft : f.x + 30 + f.options.arcRadius =
        f.x + 30 - f.options.arcRadius + 2 * f.options.arcRadius := by ring
    simp only [multipleBelow, choiceBelow, contents_track, contents_piece, ih, hleft]
    cases rest with
    | nil => rfl
    | cons next rest => rfl

/-- The places of a multiple choice's extents next to its straight branch differ from those of a
choice in the room for arcs only. -/
theorem multipleUp_add {straight nearest : Metrics K} {above : List (Metrics K)} (up : K)
    (h : above.getLast? = some nearest) :
    let room := straight.up + o.verticalSeparation + nearest.down + nearest.height
    multipleUp o straight up above + max (2 * o.arcRadius) room =
      choiceUp o straight up above + max (10 + o.arcRadius) room := by
  intro room
  induction above generalizing up with
  | nil => cases h
  | cons m below ih =>
    cases below with
    | nil =>
      obtain rfl : m = nearest := Option.some.inj h
      have hroom : m.height + m.down + o.verticalSeparation + straight.up = room := by ring
      have hbadge : badgeRoom o true = 10 + o.arcRadius := add_comm _ _
      change up + max (badgeRoom o true) (m.height + m.down + o.verticalSeparation + straight.up) + _
        = up + max (2 * o.arcRadius) (m.height + m.down + o.verticalSeparation + straight.up) + _
      rw [hroom, hbadge, add_right_comm]
    | cons next below =>
      have hbadge : badgeRoom o false = arcRoom o false := ExactScalar.add_zero_eq _
      change multipleUp o straight (up + max (badgeRoom o false) _) (next :: below) + _ = _
      rw [hbadge]
      exact ih _ h

variable {b : Branches (Sized K β)}

theorem up_multipleSize_add {nearest : Sized K β} {rest : List (Sized K β)}
    (h : b.above.reverse = nearest :: rest) :
    (multipleSize o (b.map (·.metrics))).up + choiceRise o b.straight.metrics (nearest :: rest) =
      (choiceSize o (b.map (·.metrics))).up +
        multipleRise o b.straight.metrics (nearest :: rest) := by
  have hlast : (b.map (·.metrics)).above.getLast? = some nearest.metrics := by
    rw [Branches.map, List.getLast?_map, List.getLast?_eq_head?_reverse, h]
    rfl
  exact multipleUp_add _ hlast

theorem top_multipleSize :
    (multipleSize o (b.map (·.metrics))).up =
      b.top o (multipleRise o b.straight.metrics b.above.reverse) := by
  have hup := top_choiceSize (o := o) (b := b)
  rw [Branches.top] at hup ⊢
  cases hnearest : b.above.reverse with
  | nil =>
    rw [List.reverse_eq_nil_iff] at hnearest
    simp [multipleSize, Branches.map, hnearest, multipleUp]
  | cons nearest rest =>
    have hsum := up_multipleSize_add (o := o) hnearest
    simp only [hnearest] at hup ⊢
    linarith

/-- Away from the straight branch both kinds of choices need the same room. -/
theorem multipleDown_eq (previous : Metrics K) (down : K) (below : List (Metrics K)) :
    multipleDown o false previous down below = choiceDown o false previous down below := by
  induction below generalizing previous down with
  | nil => rfl
  | cons m rest ih =>
    have hbadge : badgeRoom o false = arcRoom o false := ExactScalar.add_zero_eq _
    have hroom : m.up + o.verticalSeparation + previous.down + previous.height =
        previous.height + previous.down + o.verticalSeparation + m.up := by ring
    rw [multipleDown, choiceDown, ih, hbadge, hroom]

theorem multipleDown_cons (straight nearest : Metrics K) (down : K) (rest : List (Metrics K)) :
    multipleDown o true straight down (nearest :: rest) =
      choiceDown o false nearest down rest + max (10 + o.arcRadius)
        (straight.height + straight.down + o.verticalSeparation + nearest.up) := by
  have hbadge : badgeRoom o true = 10 + o.arcRadius := add_comm _ _
  have hroom : nearest.up + o.verticalSeparation + straight.down + straight.height =
      straight.height + straight.down + o.verticalSeparation + nearest.up := by ring
  rw [multipleDown, multipleDown_eq, choiceDown_add, hbadge, hroom]

/-- **The box of a multiple choice ends over the lowest line by the drop of its last branch.** -/
theorem bottom_multipleSize :
    let m := multipleSize o (b.map (·.metrics))
    m.height + m.down + b.last.metrics.height =
      b.bottom o (multipleDrop o b.straight.metrics b.below) := by
  intro m
  change b.straight.metrics.height + (multipleDown o true b.straight.metrics
    ((b.below.map (·.metrics)).getLast?.getD b.straight.metrics).down (b.below.map (·.metrics)) -
      b.straight.metrics.height) + b.last.metrics.height = _
  rw [add_sub_cancel, Branches.bottom]
  cases hbelow : b.below with
  | nil =>
    rw [Branches.last, hbelow]
    exact add_comm _ _
  | cons nearest rest =>
    have hreach := choiceDown_reach (o := o) nearest.metrics (rest.map (·.metrics))
    rw [List.map_cons, multipleDown_cons, List.getLast?_cons]
    change choiceDown o false nearest.metrics
      ((rest.map (·.metrics)).getLast?.getD nearest.metrics).down (rest.map (·.metrics)) + _ + _ =
        max (10 + o.arcRadius) _ + reachBelow o nearest.metrics (rest.map (·.metrics))
    rw [last_of_below hbelow] at hreach ⊢
    rw [← hreach]
    ring

theorem apart_multiple (ho : o.Nonneg) (b : Branches (Sized K β)) :
    b.Apart (multipleRise o b.straight.metrics b.above.reverse)
      (multipleDrop o b.straight.metrics b.below) := by
  refine .of_max ho (10 + o.arcRadius) (fun i hi => ?_) fun i hi => ?_
  · obtain ⟨rest, hrest⟩ := List.head?_eq_some_iff.1 hi
    rw [hrest, multipleRise]
  · obtain ⟨rest, hrest⟩ := List.head?_eq_some_iff.1 hi
    rw [hrest, multipleDrop]

/-- **The branches of a multiple choice in its box.** -/
theorem multiplePieces_stands (ho : o.Nonneg) (kind : ChoiceKind)
    (h : ∀ i ∈ b.toList, i.metrics.Nonneg) (x y slot : K) :
    let m := multipleSize o (b.map (·.metrics))
    b.Stands m (x + (gaps o m slot).left) y (contents (multiplePieces o kind b x y slot)) := by
  intro m
  have hwidth : m.width = 50 + 2 * o.arcRadius + (b.map (·.metrics)).widest := rfl
  let f : ChoiceFrame K :=
    ⟨o, m.height, (b.map (·.metrics)).widest, x + (gaps o m slot).left + 30 - o.arcRadius, y⟩
  have hsites : contents (multiplePieces o kind b x y slot) =
      branchSites f (multipleRise o b.straight.metrics b.above.reverse)
        (multipleDrop o b.straight.metrics b.below) b := by
    have hleft : x + (gaps o m slot).left + 30 + o.arcRadius =
        x + (gaps o m slot).left + 30 - o.arcRadius + 2 * o.arcRadius := by ring
    simp only [multiplePieces, branchSites, contents_append, contents_sides, contents_track,
      contents_piece, contents_shape, contents_nil, List.nil_append, List.append_nil,
      contents_multipleAbove_eq, contents_multipleBelow_eq]
    rw [← hleft]
  rw [hsites]
  refine stands_of_extents (m := m) (f := f) ho h (apart_multiple ho b) rfl rfl ?_ ?_ rfl
    top_multipleSize bottom_multipleSize
  · change x + _ ≤ x + _ + 30 - o.arcRadius + 2 * o.arcRadius
    linarith [ho.arcRadius]
  · change x + _ + 30 - o.arcRadius + 2 * o.arcRadius + _ ≤ x + _ + m.width
    rw [hwidth]
    linarith [ho.arcRadius]

/-- A placed node takes up the room of its site. -/
theorem box_site_settle {n : Node K} {s : Site K (Drawable K)} (hs : s.toSized = n.figure o) :
    (settle s).site.box = s.box := by
  rw [site_settle hs]
  rfl

end Layout

open Layout

/-- A choice of either kind between some branches. -/
inductive Node.ChoosesFrom : Node K → Branches (Node K) → Prop
  | one (b : Branches (Node K)) : ChoosesFrom (.choice b.above b.straight b.below) b
  | several (kind : ChoiceKind) (b : Branches (Node K)) :
    ChoosesFrom (.multipleChoice kind b.above b.straight b.below) b

section

variable {o : Options K} {n : Node K} {b : Branches (Node K)} (hn : n.ChoosesFrom b)
include hn

theorem Node.ChoosesFrom.exists_stands (ho : o.Nonneg) (h : ∀ i ∈ b.toList, (i.metrics o).Nonneg)
    (x y slot : K) :
    ∃ left sites, (n.place o x y slot).box o = (n.metrics o).box left y ∧
      (n.place o x y slot).nodes = sites.map settle ∧
      (∀ s ∈ sites, ∃ i : Node K, s.toSized = i.figure o) ∧
      (b.map (Node.figure o)).Stands (n.metrics o) left y sites := by
  have hitems : ∀ f ∈ (b.map (figure o)).toList, f.metrics.Nonneg := by
    rw [Branches.toList_map]
    exact List.forall_mem_map.2 h
  have hmem : ∀ f ∈ (b.map (figure o)).toList, ∃ i : Node K, f = i.figure o := by
    rw [Branches.toList_map]
    exact List.forall_mem_map.2 fun i _ => ⟨i, rfl⟩
  cases hn with
  | one =>
    rw [place, metrics, figure_choice]
    refine ⟨_, _, rfl, contents_map _ _, fun s hs => hmem _ ?_,
      choicePieces_stands ho hitems x y slot⟩
    rw [Branches.mem_toList, ← contents_choicePieces o x y slot]
    exact List.mem_map_of_mem hs
  | several kind =>
    rw [place, metrics, figure_multipleChoice]
    refine ⟨_, _, rfl, contents_map _ _, fun s hs => hmem _ ?_,
      multiplePieces_stands ho kind hitems x y slot⟩
    rw [Branches.mem_toList, ← contents_multiplePieces o x y slot kind]
    exact List.mem_map_of_mem hs

/-- **How far branches stick out of a choice of either kind**: not to the sides and not above, and
below by no more than the drop of the last one. -/
theorem Node.branches_within (ho : o.Nonneg) (h : ∀ i ∈ b.toList, (i.metrics o).Nonneg)
    (x y slot : K) :
    0 ≤ (n.metrics o).up ∧ 0 ≤ (n.metrics o).down + (b.last.metrics o).height ∧
      ∀ p ∈ (n.place o x y slot).nodes, p.site.box.Within
        (((n.place o x y slot).box o).grow 0 (b.last.metrics o).height) := by
  obtain ⟨left, sites, hbox, hnodes, hsites, hstands⟩ := hn.exists_stands ho h x y slot
  have hlast : (b.map (figure o)).last.metrics = b.last.metrics o :=
    congrArg Sized.metrics (Branches.last_map _ b)
  refine ⟨hstands.up, hlast ▸ hstands.down, ?_⟩
  rw [hnodes, hbox, ← hlast, List.forall_mem_map]
  intro s hs
  obtain ⟨i, hi⟩ := hsites s hs
  rw [box_site_settle hi]
  exact hstands.box_within hs

/-- **The box of a choice of either kind covers its branches if and only if the last branch does not
drop.** -/
theorem Node.branches_covered_iff (ho : o.Nonneg) (h : ∀ i ∈ b.toList, (i.metrics o).Nonneg)
    (x y slot : K) :
    (∀ p ∈ (n.place o x y slot).nodes, p.site.box.Within ((n.place o x y slot).box o)) ↔
      (b.last.metrics o).height = 0 := by
  obtain ⟨left, sites, hbox, hnodes, hsites, hstands⟩ := hn.exists_stands ho h x y slot
  have hlast : (b.map (figure o)).last.metrics = b.last.metrics o :=
    congrArg Sized.metrics (Branches.last_map _ b)
  have hnonneg : 0 ≤ (b.last.metrics o).height := (h _ b.last_mem).height
  rw [hnodes, hbox, List.forall_mem_map, ← hlast, ← hstands.covered_iff (hlast ▸ hnonneg)]
  refine forall₂_congr fun s hs => ?_
  obtain ⟨i, hi⟩ := hsites s hs
  rw [box_site_settle hi]

end

/-- A stack of two lines as the only branch: its box, and with it the box of the choice, should reach
51 units under the entry line. The choice takes the drop of 40 off the extent below. -/
theorem Node.stack_not_covered :
    let stack : Node Rat := .stack (.ofText "a") [.ofText "b"]
    let choice : Placed Rat := (Node.choice [] stack []).place Options.exact 0 0 (217 / 2)
    choice.site.metrics.down = -29 ∧ (choice.box Options.exact).bottom = 11 ∧
      choice.nodes.map (·.site.box.bottom) = [51] := by
  decide +kernel

end SyntaxDiagram
