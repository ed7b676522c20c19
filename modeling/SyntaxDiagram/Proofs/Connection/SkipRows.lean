import SyntaxDiagram.Proofs.Connection.Bypasses

/-!
# Rows of passable items

A row of passable items is a track with a rail over all items but the last and a way under all but the
first. The size of the row is worked out for itself, and the row is drawn item by item.

* `SkipRow`: what is drawn for a row. `SkipRow.Joins`: its lines join its items. `SkipRow.Covered`: its
  items and the ways past them are in a box.
* `Layout.skipRow`: the row that a layout draws. `Layout.passedThrough_iff`, `Layout.passedOver` and
  `Layout.passedItems_covered_iff` are by induction on the items behind the first.
* `Layout.skipRow_joins_iff`: a row is joined and covered if the sizes of its items are passable.
* `Node.skipRow_joined_iff`, `Node.skipRow_joined_of_flat`: the same for nodes.
-/

namespace SyntaxDiagram

variable {K β : Type} [ExactScalar K] {o : Options K}

/-! ## What is drawn for a row -/

/-- What is drawn for an item behind the first: a rail over it unless it is the last one, a line into
it, a line out of it and a way under it. -/
structure PassedItem (α γ : Type) where
  above : Option (Path α)
  into : Path α
  content : γ
  out : Path α
  under : Path α

/-- What is drawn for a row of passable items: a rail over the first one, a line into it, and what is
drawn for the others. -/
structure SkipRow (α γ : Type) where
  rail : Path α
  into : Path α
  first : γ
  rest : List (PassedItem α γ)

section

variable {α γ δ : Type}

/-- The same lines around other content. -/
def PassedItem.map (f : γ → δ) (t : PassedItem α γ) : PassedItem α δ :=
  ⟨t.above, t.into, f t.content, t.out, t.under⟩

/-- The lines around an item, in the order in which they are drawn. -/
def PassedItem.tracks (t : PassedItem α γ) : List (Path α) :=
  t.above.toList ++ [t.into, t.out, t.under]

/-- The ways past an item. -/
def PassedItem.rails (t : PassedItem α γ) : List (Path α) := t.above.toList ++ [t.under]

namespace SkipRow

/-- The same lines around other content. -/
def map (f : γ → δ) (row : SkipRow α γ) : SkipRow α δ :=
  ⟨row.rail, row.into, f row.first, row.rest.map (PassedItem.map f)⟩

/-- What stands in a row. -/
def contents (row : SkipRow α γ) : List γ := row.first :: row.rest.map (·.content)

/-- The ways past the items of a row. -/
def rails (row : SkipRow α γ) : List (Path α) := row.rail :: row.rest.flatMap (·.rails)

theorem contents_map (f : γ → δ) (row : SkipRow α γ) :
    (row.map f).contents = row.contents.map f := by
  simp [contents, map, PassedItem.map]

theorem rails_map (f : γ → δ) (row : SkipRow α γ) : (row.map f).rails = row.rails := by
  rw [rails, map, List.flatMap_map]
  rfl

end SkipRow

end

section

variable {γ δ : Type} (ports : γ → Ports K)

/-- The track leads through some items from one point to another, each on its own line, and the way
under each of them leads from the end of the one before to its own end. -/
def PassedThrough : List (PassedItem K γ) → K × K → K × K → Prop
  | [], a, b => a = b
  | t :: rest, a, b => ∃ c, t.into.Draws a (ports t.content).entry ∧
      t.out.Draws (ports t.content).exit c ∧ t.under.Draws a c ∧ PassedThrough rest c b

/-- A rail leads to the entry of the first of some items, and on its level part begins the one over
that item, which leads to the entry of the next, up to the last item. -/
def PassedOver : Path K → List (PassedItem K γ) → Prop
  | _, [] => False
  | rail, t :: rest => rail.Draws (rail.x, rail.y) (ports t.content).entry ∧
      match t.above with
      | none => rest = []
      | some above => rail.OnHorizontal (above.x, above.y) ∧ PassedOver above rest

/-- The lines of a row join what stands in it, and every item with a way past it. -/
structure SkipRow.Joins (row : SkipRow K γ) (outer : Ports K) : Prop where
  into : row.into.Draws outer.entry (ports row.first).entry
  through : PassedThrough ports row.rest (ports row.first).exit outer.exit
  start : (row.rail.x, row.rail.y) = outer.entry
  above : PassedOver ports row.rail row.rest

/-- What stands in a row and the ways past it are in a box. -/
structure SkipRow.Covered (row : SkipRow K γ) (box : γ → Box K) (outer : Box K) : Prop where
  contents : ∀ c ∈ row.contents, (box c).Within outer
  rails : ∀ path ∈ row.rails, path.Within outer

end

/-! ### Other content -/

section

variable {γ δ : Type} {f : γ → δ} {ports : γ → Ports K} {ports' : δ → Ports K}

theorem passedThrough_map {items : List (PassedItem K γ)}
    (h : ∀ t ∈ items, ports' (f t.content) = ports t.content) (a b : K × K) :
    PassedThrough ports' (items.map (PassedItem.map f)) a b ↔ PassedThrough ports items a b := by
  induction items generalizing a with
  | nil => rfl
  | cons t rest ih =>
    obtain ⟨ht, hrest⟩ := List.forall_mem_cons.1 h
    refine exists_congr fun c => and_congr ?_ (and_congr ?_ (and_congr_right fun _ => ih hrest c))
    · rw [← ht]
      rfl
    · rw [← ht]
      rfl

theorem passedOver_map {items : List (PassedItem K γ)}
    (h : ∀ t ∈ items, ports' (f t.content) = ports t.content) (rail : Path K) :
    PassedOver ports' rail (items.map (PassedItem.map f)) ↔ PassedOver ports rail items := by
  induction items generalizing rail with
  | nil => rfl
  | cons t rest ih =>
    obtain ⟨ht, hrest⟩ := List.forall_mem_cons.1 h
    refine and_congr ?_ ?_
    · rw [← ht]
      rfl
    · obtain ⟨above, into, content, out, under⟩ := t
      cases above with
      | none => exact List.map_eq_nil_iff
      | some above => exact and_congr_right fun _ => ih hrest above

/-- **Lines that join what stands in a row** join other content that is met at the same points. -/
theorem SkipRow.joins_map {row : SkipRow K γ} (h : ∀ c ∈ row.contents, ports' (f c) = ports c)
    (outer : Ports K) : (row.map f).Joins ports' outer ↔ row.Joins ports outer := by
  obtain ⟨hfirst, hrest⟩ := List.forall_mem_cons.1 h
  have hrest := List.forall_mem_map.1 hrest
  constructor
  · rintro ⟨hinto, hthrough, hstart, hover⟩
    exact ⟨hfirst ▸ hinto, (passedThrough_map hrest _ _).1 (hfirst ▸ hthrough), hstart,
      (passedOver_map hrest _).1 hover⟩
  · rintro ⟨hinto, hthrough, hstart, hover⟩
    exact ⟨hfirst.symm ▸ hinto, hfirst.symm ▸ (passedThrough_map hrest _ _).2 hthrough, hstart,
      (passedOver_map hrest _).2 hover⟩

/-- Other content with the same boxes is in a box as well. -/
theorem SkipRow.covered_map {row : SkipRow K γ} {box : γ → Box K} {box' : δ → Box K}
    (h : ∀ c ∈ row.contents, box' (f c) = box c) (outer : Box K) :
    (row.map f).Covered box' outer ↔ row.Covered box outer := by
  have hcontents : (∀ c ∈ (row.map f).contents, (box' c).Within outer) ↔
      ∀ c ∈ row.contents, (box c).Within outer := by
    rw [contents_map, List.forall_mem_map]
    exact forall₂_congr fun c hc => by rw [h c hc]
  exact ⟨fun hc => ⟨hcontents.1 hc.contents, row.rails_map f ▸ hc.rails⟩,
    fun hc => ⟨hcontents.2 hc.contents, (row.rails_map f).symm ▸ hc.rails⟩⟩

end

namespace Layout

/-! ## Items in a row -/

/-- What is drawn for the items behind the first from a point on, the rails above them at `top`. -/
def passedItems (o : Options K) (top : K) :
    List (Sized K β) → (x y : K) → List (PassedItem K (Site K β))
  | [], _, _ => []
  | s :: rest, x, y =>
    let m := s.metrics
    { above := if rest.isEmpty then none else some (railOver o m top x y)
      into := (start x y).right (2 * o.arcRadius)
      content := s.at (x + 2 * o.arcRadius) y m.width
      out := (start (x + 2 * o.arcRadius + m.width) (y + m.height)).right (passSpace m + o.arcRadius)
      under := wayUnder o m x y } ::
      passedItems o top rest (x + passStride o m) (y + m.height)

theorem contents_skipRowItems_eq (top x y : K) (items : List (Sized K β)) :
    contents (skipRowItems o top items x y) = (passedItems o top items x y).map (·.content) := by
  induction items generalizing x y with
  | nil => rfl
  | cons s rest ih =>
    rw [passedItems, List.map_cons, ← ih]
    cases rest <;> rfl

theorem tracks_skipRowItems (top x y : K) (items : List (Sized K β)) :
    tracks (skipRowItems o top items x y) =
      (passedItems o top items x y).flatMap PassedItem.tracks := by
  induction items generalizing x y with
  | nil => rfl
  | cons s rest ih =>
    rw [passedItems, List.flatMap_cons, ← ih]
    cases rest <;> rfl

theorem passedItems_sites (top : K) (items : List (Sized K β)) (x y : K) :
    ∀ t ∈ passedItems o top items x y, t.content.slot = t.content.metrics.width := by
  induction items generalizing x y with
  | nil => exact List.forall_mem_nil _
  | cons s rest ih => exact List.forall_mem_cons.2 ⟨rfl, ih _ _⟩

section

variable (o) (first : Sized K β) (rest : List (Sized K β)) (x y slot : K)

/-- The size of a row of some items. -/
def skipRowMetrics : Metrics K := skipRowSize o first.metrics (rest.map (·.metrics))

/-- What is drawn for a row in a slot. -/
def skipRow : SkipRow K (Site K β) :=
  let r := o.arcRadius
  let m := skipRowMetrics o first rest
  let left := x + (gaps o m slot).left
  let top := y - m.up
  { rail := railOverFirst o first.metrics top left y
    into := (start left y).right (passSpace first.metrics + r)
    first := first.at (left + passSpace first.metrics + r) y first.metrics.width
    rest := passedItems o top rest (left + (passWidth first.metrics + r)) (y + first.metrics.height) }

theorem contents_skipRowPieces_eq :
    contents (skipRowPieces o first rest x y slot) = (skipRow o first rest x y slot).contents := by
  rw [SkipRow.contents, skipRow, ← contents_skipRowItems_eq]
  rfl

/-- Every item of a row stands in a slot of its own width. -/
theorem skipRow_sites : ∀ s ∈ (skipRow o first rest x y slot).contents, s.slot = s.metrics.width :=
  List.forall_mem_cons.2 ⟨rfl, List.forall_mem_map.2 (passedItems_sites _ rest _ _)⟩

/-- The lines of a row: those in the gaps, the first rail and the line into the first item, and what
is drawn for the others. -/
theorem tracks_skipRowPieces :
    let row := skipRow o first rest x y slot
    ∃ front back, tracks (skipRowPieces o first rest x y slot) =
      front :: back :: row.rail :: row.into :: row.rest.flatMap PassedItem.tracks := by
  intro row
  have hrest : row.rest.flatMap PassedItem.tracks = tracks (skipRowItems o
      (y - (skipRowMetrics o first rest).up) rest _ _) := (tracks_skipRowItems _ _ _ rest).symm
  rw [hrest]
  exact ⟨_, _, rfl⟩

end

/-! ## The track through a row -/

section

variable (ho : o.Nonneg) {rest : List (Sized K β)} (h : ∀ i ∈ rest, i.metrics.Nonneg)
include ho h

/-- **The track leads through the items behind the first** if none of them is narrower than an arc. -/
theorem passedThrough_iff (top x y : K) (b : K × K) :
    PassedThrough Site.ports (passedItems o top rest x y) (x, y) b ↔
      (∀ i ∈ rest, o.arcRadius ≤ passWidth i.metrics) ∧
        b = (x + (rest.map fun i => passStride o i.metrics).sum,
          y + (rest.map fun i => i.metrics.height).sum) := by
  induction rest generalizing x y with
  | nil => simp [passedItems, PassedThrough, eq_comm]
  | cons s rest ih =>
    obtain ⟨hs, hrest⟩ := List.forall_mem_cons.1 h
    let m := s.metrics
    have harcs : 0 ≤ 2 * o.arcRadius := by linarith [ho.arcRadius]
    have hspace : 0 ≤ passSpace m + o.arcRadius := add_nonneg (passSpace_nonneg m) ho.arcRadius
    have hout : ((start (x + 2 * o.arcRadius + m.width) (y + m.height)).right
        (passSpace m + o.arcRadius)).Draws (x + 2 * o.arcRadius + m.width, y + m.height)
          (x + 3 * o.arcRadius + passWidth m, y + m.height) := by
      refine ((Path.draws_start _ _).right hspace).to ?_ rfl
      change x + 2 * o.arcRadius + m.width + (passSpace m + o.arcRadius) =
        x + 3 * o.arcRadius + (m.width + passSpace m)
      ring
    have hunder : (wayUnder o m x y).Draws (x, y) (x + passStride o m, y + m.height) :=
      draws_wayUnder hs.height
    -- both lead to the same point if the item is not the narrower one
    have hmeet : (x + passStride o m, y + m.height) =
        (x + 3 * o.arcRadius + passWidth m, y + m.height) ↔ o.arcRadius ≤ passWidth m := by
      rw [Prod.mk.injEq, and_iff_left rfl, passStride, ← add_assoc, add_right_inj,
        max_eq_left_iff]
    have hnext := ih hrest (x + passStride o m) (y + m.height)
    rw [List.map_cons, List.sum_cons, List.map_cons, List.sum_cons, ← add_assoc, ← add_assoc,
      List.forall_mem_cons, and_assoc, ← hnext, ← hmeet]
    constructor
    · rintro ⟨c, -, hout', hunder', hthrough⟩
      obtain rfl : c = _ := hunder'.finish.symm.trans hunder.finish
      exact ⟨hout'.finish.symm.trans hout.finish, hthrough⟩
    · rintro ⟨heq, hthrough⟩
      exact ⟨_, (Path.draws_start x y).right harcs, heq ▸ hout, hunder, hthrough⟩

/-- **The rails lead over the items behind the first**, each from the one before to the entry of the
next item. -/
theorem passedOver {top x y : K} (hsome : rest ≠ []) (hrise : 2 * o.arcRadius ≤ y - top)
    {rail : Path K} (hrail : rail.Draws (rail.x, rail.y) (x + 2 * o.arcRadius, y))
    (hlevel : rail.OnHorizontal (x, top)) :
    PassedOver Site.ports rail (passedItems o top rest x y) := by
  induction rest generalizing x y rail with
  | nil => exact absurd rfl hsome
  | cons s rest ih =>
    obtain ⟨hs, hrest⟩ := List.forall_mem_cons.1 h
    refine ⟨hrail, ?_⟩
    cases rest with
    | nil => rfl
    | cons next rest =>
      have hdrop : 2 * o.arcRadius ≤ y - top + s.metrics.height := by linarith [hs.height]
      refine ⟨hlevel, ih hrest (List.cons_ne_nil _ _) ?_ (draws_railOver ho hdrop)
        (onHorizontal_railOver ho)⟩
      linarith [hs.height]

end

/-! ## A row in its box -/

/-- The track past some items is as long as two arcs at least. -/
theorem arcs_le_passStrides (ho : o.Nonneg) {rest : List (Sized K β)} (hsome : rest ≠ []) :
    2 * o.arcRadius ≤ (rest.map fun i => passStride o i.metrics).sum := by
  cases rest with
  | nil => exact absurd rfl hsome
  | cons next rest =>
    have hmore : 0 ≤ (rest.map fun i => passStride o i.metrics).sum :=
      List.sum_nonneg (List.forall_mem_map.2 fun i _ => passStride_nonneg ho i.metrics)
    have hmax := le_max_right (passWidth next.metrics) o.arcRadius
    rw [List.map_cons, List.sum_cons, passStride]
    linarith [ho.arcRadius]

/-- **The first item and the rail over it** are in a box that is wide and deep enough if there is room
for both above. -/
theorem firstPassed_covered_iff (ho : o.Nonneg) {s : Sized K β} (hs : s.metrics.Nonneg)
    (hwide : o.arcRadius ≤ passWidth s.metrics) {b : Box K} {y : K}
    (hright : b.left + (passWidth s.metrics + o.arcRadius) + 2 * o.arcRadius ≤ b.right)
    (hbottom : y + s.metrics.height + s.metrics.down ≤ b.bottom) :
    (s.at (b.left + passSpace s.metrics + o.arcRadius) y s.metrics.width).box.Within b ∧
        (railOverFirst o s.metrics b.top b.left y).Within b ↔
      2 * o.arcRadius ≤ y - b.top ∧ s.metrics.up ≤ y - b.top := by
  let m := s.metrics
  have harc := ho.arcRadius
  have hspace : passWidth m = m.width + passSpace m := rfl
  constructor
  · rintro ⟨hbox, hrail⟩
    exact ⟨rise_of_within hrail rfl, le_sub_comm.1 hbox.top⟩
  · rintro ⟨hrise, hover⟩
    refine ⟨⟨?_, le_sub_comm.1 hover, ?_, hbottom⟩, within_railOverFirst ho hs.height hwide hrise
      (le_refl _) hright (le_refl _) ?_⟩
    · change b.left ≤ b.left + passSpace m + o.arcRadius
      linarith [passSpace_nonneg m]
    · change b.left + passSpace m + o.arcRadius + m.width ≤ b.right
      linarith
    · linarith [hs.down]

section

variable (ho : o.Nonneg) {b : Box K} {x y₀ before up depth : K} (hrise : 2 * o.arcRadius ≤ up)
  (hbefore : 0 ≤ before) (hleft : b.left ≤ x) (htop : b.top = y₀ - up)
  (hbottom : b.bottom = y₀ + depth)
include ho hrise hbefore hleft htop hbottom

/-- **An item behind the first and the ways past it** are in a box if there is room above the item and
below the way under it. -/
theorem passedItem_covered_iff {s : Sized K β} (hs : s.metrics.Nonneg)
    (hright : x + passStride o s.metrics ≤ b.right) {above : Option (Path K)}
    (hover : ∀ path ∈ above, path = railOver o s.metrics (y₀ - up) x (y₀ + before) ∧
      x + passStride o s.metrics + 2 * o.arcRadius ≤ b.right) :
    ((s.at (x + 2 * o.arcRadius) (y₀ + before) s.metrics.width).box.Within b ∧
        ∀ path ∈ above.toList ++ [wayUnder o s.metrics x (y₀ + before)], path.Within b) ↔
      s.metrics.up ≤ up + before ∧ before + s.metrics.height +
        max (s.metrics.down + o.verticalSeparation) (2 * o.arcRadius) ≤ depth := by
  let m := s.metrics
  have harc := ho.arcRadius
  have hdown := le_max_left (m.down + o.verticalSeparation) (2 * o.arcRadius)
  have hdeep := le_max_right (m.down + o.verticalSeparation) (2 * o.arcRadius)
  constructor
  · rintro ⟨hbox, hpaths⟩
    have hhigh : b.top ≤ y₀ + before - m.up := hbox.top
    have hlow := under_of_within (hpaths _ (List.mem_append_right _ (List.mem_singleton_self _)))
      hs.height
    exact ⟨by linarith, by linarith⟩
  · rintro ⟨hhigh, hlow⟩
    have hroom : y₀ + before + m.height + max (m.down + o.verticalSeparation) (2 * o.arcRadius) ≤
        b.bottom := by linarith
    have hentry : b.top ≤ y₀ + before := by linarith
    refine ⟨⟨?_, ?_, ?_, ?_⟩, List.forall_mem_append.2 ⟨fun path hpath => ?_, ?_⟩⟩
    · exact hleft.trans (le_add_of_nonneg_right (by linarith))
    · change b.top ≤ y₀ + before - m.up
      linarith
    · have hwidth := (width_le_passWidth m).trans (le_max_left _ o.arcRadius)
      change x + 2 * o.arcRadius + m.width ≤ b.right
      rw [passStride] at hright
      linarith
    · change y₀ + before + m.height + m.down ≤ b.bottom
      linarith [ho.verticalSeparation]
    · obtain ⟨rfl, hwide⟩ := hover path (Option.mem_toList.1 hpath)
      exact within_railOver ho (by linarith [hs.height]) hleft hwide htop.le (by linarith)
    · exact List.forall_mem_singleton.2
        (within_wayUnder ho hs.height hleft hright hentry hroom)

/-- **Items behind the first and the ways past them** are in a box that is as wide as the track and has
room above each of them and below the way under it. -/
theorem passedItems_covered_iff {rest : List (Sized K β)} (h : ∀ i ∈ rest, i.metrics.Nonneg)
    (hright : x + (rest.map fun i => passStride o i.metrics).sum ≤ b.right) :
    (∀ t ∈ passedItems o (y₀ - up) rest x (y₀ + before),
        t.content.box.Within b ∧ ∀ path ∈ t.rails, path.Within b) ↔
      ∀ p ∈ lowered before (rest.map (·.metrics)), p.2.up ≤ up + p.1 ∧
        p.1 + p.2.height + max (p.2.down + o.verticalSeparation) (2 * o.arcRadius) ≤ depth := by
  induction rest generalizing x before with
  | nil => exact iff_of_true (List.forall_mem_nil _) (List.forall_mem_nil _)
  | cons s rest ih =>
    obtain ⟨hs, hrest⟩ := List.forall_mem_cons.1 h
    have hstride := passStride_nonneg ho s.metrics
    rw [List.map_cons, List.sum_cons, ← add_assoc] at hright
    have hothers : 0 ≤ (rest.map fun i => passStride o i.metrics).sum :=
      List.sum_nonneg (List.forall_mem_map.2 fun i _ => passStride_nonneg ho i.metrics)
    have hnext := ih (add_nonneg hbefore hs.height)
      (hleft.trans (le_add_of_nonneg_right hstride)) hrest hright
    rw [← add_assoc] at hnext
    rw [passedItems, List.forall_mem_cons, List.map_cons, lowered, List.forall_mem_cons, hnext]
    refine and_congr_left fun _ => passedItem_covered_iff ho hrise hbefore hleft htop hbottom hs
      ((le_add_of_nonneg_right hothers).trans hright) fun path hpath => ?_
    -- a rail leads to the next item, which is as wide as three arcs at least
    cases rest with
    | nil => cases hpath
    | cons next rest =>
      have hnarrow := arcs_le_passStrides ho (List.cons_ne_nil next rest)
      exact ⟨(Option.some.inj hpath).symm, by linarith⟩

end

/-! ## When a row is joined and covered -/

theorem skipRowMetrics_width (first : Sized K β) (rest : List (Sized K β)) :
    (skipRowMetrics o first rest).width = max (passWidth first.metrics) o.arcRadius + o.arcRadius +
      (rest.map fun i => passStride o i.metrics).sum := by
  rw [skipRowMetrics, skipRowSize_width, List.map_map]
  rfl

theorem skipRowMetrics_height (first : Sized K β) (rest : List (Sized K β)) :
    (skipRowMetrics o first rest).height =
      first.metrics.height + (rest.map fun i => i.metrics.height).sum := by
  rw [skipRowMetrics, skipRowSize_height, List.map_map]
  rfl

/-- What stands in a row and the ways past it, item by item. -/
theorem SkipRow.covered_iff {γ : Type} {row : SkipRow K γ} {box : γ → Box K} {outer : Box K} :
    row.Covered box outer ↔ ((box row.first).Within outer ∧ row.rail.Within outer) ∧
      ∀ t ∈ row.rest, (box t.content).Within outer ∧ ∀ path ∈ t.rails, path.Within outer := by
  constructor
  · rintro ⟨hcontents, hrails⟩
    rw [SkipRow.contents, List.forall_mem_cons, List.forall_mem_map] at hcontents
    rw [SkipRow.rails, List.forall_mem_cons] at hrails
    exact ⟨⟨hcontents.1, hrails.1⟩, fun t ht => ⟨hcontents.2 t ht, fun path hpath =>
      hrails.2 path (List.mem_flatMap.2 ⟨t, ht, hpath⟩)⟩⟩
  · rintro ⟨⟨hfirst, hrail⟩, hrest⟩
    refine ⟨List.forall_mem_cons.2 ⟨hfirst, List.forall_mem_map.2 fun t ht => (hrest t ht).1⟩,
      List.forall_mem_cons.2 ⟨hrail, fun path hpath => ?_⟩⟩
    obtain ⟨t, ht, hpath⟩ := List.mem_flatMap.1 hpath
    exact (hrest t ht).2 path hpath

section

variable (ho : o.Nonneg) {first : Sized K β} {rest : List (Sized K β)}
  (h : ∀ i ∈ first :: rest, i.metrics.Nonneg) (x y slot : K)
include ho h

/-- **The track of a row** leads through its items from end to end if none is narrower than an arc. -/
theorem skipRow_through_iff :
    let m := skipRowMetrics o first rest
    let row := skipRow o first rest x y slot
    PassedThrough Site.ports row.rest row.first.ports.exit (ownPorts o m x y slot).exit ↔
      ∀ i ∈ first :: rest, o.arcRadius ≤ passWidth i.metrics := by
  intro m row
  let left := x + (gaps o m slot).left
  have hrest := (List.forall_mem_cons.1 h).2
  have hstart : row.first.ports.exit =
      (left + (passWidth first.metrics + o.arcRadius), y + first.metrics.height) := by
    refine Prod.ext ?_ rfl
    change left + passSpace first.metrics + o.arcRadius + first.metrics.width =
      left + (first.metrics.width + passSpace first.metrics + o.arcRadius)
    ring
  have hend : (ownPorts o m x y slot).exit =
      (left + (passWidth first.metrics + o.arcRadius) +
          (rest.map fun i => passStride o i.metrics).sum,
        y + first.metrics.height + (rest.map fun i => i.metrics.height).sum) ↔
      o.arcRadius ≤ passWidth first.metrics := by
    change (left + m.width, y + m.height) = _ ↔ _
    rw [skipRowMetrics_width, skipRowMetrics_height, Prod.mk.injEq, and_iff_left (add_assoc _ _ _).symm,
      add_assoc left, add_right_inj, add_left_inj, add_left_inj, max_eq_left_iff]
  rw [hstart]
  change PassedThrough Site.ports (passedItems o (y - m.up) rest _ _) _ _ ↔ _
  rw [passedThrough_iff ho hrest, hend, List.forall_mem_cons, and_comm]

/-- The box of a row covers its items and the ways past them if there is room for the rail above, above
each item, and below the way under each item behind the first. -/
theorem skipRow_covered_iff (hwide : o.arcRadius ≤ passWidth first.metrics) (hsome : rest ≠ []) :
    let m := skipRowMetrics o first rest
    (skipRow o first rest x y slot).Covered Site.box (m.box (x + (gaps o m slot).left) y) ↔
      2 * o.arcRadius ≤ m.up ∧
      (∀ p ∈ lowered 0 ((first :: rest).map (·.metrics)), p.2.up ≤ m.up + p.1) ∧
      ∀ p ∈ lowered first.metrics.height (rest.map (·.metrics)), p.1 + p.2.height +
        max (p.2.down + o.verticalSeparation) (2 * o.arcRadius) ≤ m.height + m.down := by
  intro m
  let left := x + (gaps o m slot).left
  let b : Box K := m.box left y
  obtain ⟨hfirst, hrest⟩ := List.forall_mem_cons.1 h
  have harc := ho.arcRadius
  have hwidth : m.width = max (passWidth first.metrics) o.arcRadius + o.arcRadius +
      (rest.map fun i => passStride o i.metrics).sum := skipRowMetrics_width first rest
  have hheight : m.height = first.metrics.height + (rest.map fun i => i.metrics.height).sum :=
    skipRowMetrics_height first rest
  rw [max_eq_left hwide] at hwidth
  have hdrops : 0 ≤ (rest.map fun i => i.metrics.height).sum :=
    List.sum_nonneg (List.forall_mem_map.2 fun i hi => (hrest i hi).height)
  have htotal : 0 ≤ m.height := by linarith [hfirst.height]
  have hdown : first.metrics.down ≤ m.down := (skipRowSize_room htotal).2.1
  have hbottom : b.bottom = y + (m.height + m.down) := add_assoc _ _ _
  have htop : y - (y - m.up) = m.up := sub_sub_cancel y m.up
  have hright : left + (passWidth first.metrics + o.arcRadius) +
      (rest.map fun i => passStride o i.metrics).sum ≤ b.right := by
    change _ ≤ left + m.width
    linarith
  have hlong : left + (passWidth first.metrics + o.arcRadius) + 2 * o.arcRadius ≤ b.right :=
    (add_le_add_right (arcs_le_passStrides ho hsome) _).trans hright
  have hcover := firstPassed_covered_iff (b := b) (y := y) ho hfirst hwide hlong (by linarith)
  rw [show y - b.top = m.up from htop] at hcover
  -- what is behind the first item, once there is room for the rail
  have hothers : 2 * o.arcRadius ≤ m.up → _ := fun hrise =>
    passedItems_covered_iff (x := left + (passWidth first.metrics + o.arcRadius)) ho hrise
      hfirst.height (le_add_of_nonneg_right (by linarith)) rfl hbottom hrest hright
  rw [SkipRow.covered_iff, List.map_cons, lowered, zero_add, List.forall_mem_cons, add_zero]
  constructor
  · rintro ⟨hboth, hitems⟩
    obtain ⟨hrise, hover⟩ := hcover.1 hboth
    have hroom := (hothers hrise).1 hitems
    exact ⟨hrise, ⟨hover, fun p hp => (hroom p hp).1⟩, fun p hp => (hroom p hp).2⟩
  · rintro ⟨hrise, ⟨hover, hovers⟩, hunders⟩
    exact ⟨hcover.2 ⟨hrise, hover⟩, (hothers hrise).2 fun p hp => ⟨hovers p hp, hunders p hp⟩⟩

/-- **A row of passable items** is joined with its ends and covered by its box for sizes that are
passable, and for no others. -/
theorem skipRow_joins_iff (hsome : rest ≠ []) :
    let m := skipRowMetrics o first rest
    let row := skipRow o first rest x y slot
    row.Joins Site.ports (ownPorts o m x y slot) ∧
        row.Covered Site.box (m.box (x + (gaps o m slot).left) y) ↔
      Passable o first.metrics (rest.map (·.metrics)) := by
  intro m row
  have hthrough := skipRow_through_iff ho h x y slot
  have hsizes : (∀ i ∈ first :: rest, o.arcRadius ≤ passWidth i.metrics) ↔
      ∀ s ∈ first.metrics :: rest.map (·.metrics), o.arcRadius ≤ passWidth s := by
    rw [List.forall_mem_cons, List.forall_mem_cons, List.forall_mem_map]
  constructor
  · rintro ⟨hjoins, hcovered⟩
    have hwide := hthrough.1 hjoins.through
    obtain ⟨hrise, hover, hunder⟩ := (skipRow_covered_iff ho h x y slot
      (hwide first List.mem_cons_self) hsome).1 hcovered
    exact ⟨hsizes.1 hwide, hrise, hover, hunder⟩
  · intro hpass
    have hwide := hsizes.2 hpass.wide
    have hfirst := hwide first List.mem_cons_self
    refine ⟨⟨?_, hthrough.2 hwide, rfl, ?_⟩, (skipRow_covered_iff ho h x y slot hfirst hsome).2
      ⟨hpass.rise, hpass.above, hpass.under⟩⟩
    · refine ((Path.draws_start _ y).right ?_).to (add_assoc _ _ _).symm rfl
      exact add_nonneg (passSpace_nonneg _) ho.arcRadius
    · have hrise : 2 * o.arcRadius ≤ y - (y - m.up) := (sub_sub_cancel y m.up).symm ▸ hpass.rise
      obtain ⟨hnonneg, hrest⟩ := List.forall_mem_cons.1 h
      refine passedOver ho hrest hsome ?_ (draws_railOverFirst hnonneg.height hfirst hrise)
        (onHorizontal_railOverFirst hfirst hrise)
      linarith [hnonneg.height]

end

end Layout

open Layout

/-! ## Nodes -/

/-- A placed node that is made of what is drawn for a row. -/
structure Placed.IsSkipRow (p : Placed K) (row : SkipRow K (Placed K)) : Prop where
  nodes : p.nodes = row.contents
  tracks : ∃ front back, p.tracks =
    front :: back :: row.rail :: row.into :: row.rest.flatMap PassedItem.tracks

namespace Node

theorem optionalSequence_laidOut (first second : Node K) (rest : List (Node K)) :
    (optionalSequence first second rest).LaidOut o
      (skipRowMetrics o (first.figure o) ((second :: rest).map (figure o)))
      (first :: second :: rest)
      (skipRowPieces o (first.figure o) ((second :: rest).map (figure o))) where
  aligned := rfl
  figure := by
    rw [figure, figures_eq_map]
    exact ⟨_, _, rfl⟩
  contents x y slot := contents_skipRowPieces o x y slot _ _

/-- **When a row of passable items is joined and covered.** What is drawn for the row is a track through
its items, a rail over all of them but the last, and a way under all of them but the first. They join
the items and stay in the box of the row, together with the items, for sizes that are passable, and for
no others. -/
theorem skipRow_joined_iff (ho : o.Nonneg) {first second : Node K} {rest : List (Node K)}
    (h : ∀ n ∈ first :: second :: rest, (n.metrics o).Nonneg) (x y slot : K) :
    let p := (optionalSequence first second rest).place o x y slot
    ∃ row, p.IsSkipRow row ∧
      p.nodes.map Placed.sized = (first :: second :: rest).map (sized o) ∧
      (row.Joins Placed.ports (p.inner o) ∧ row.Covered (Placed.box o) (p.box o) ↔
        Passable o (first.metrics o) ((second :: rest).map (metrics o))) := by
  intro p
  have hlaid := optionalSequence_laidOut (o := o) first second rest
  let row := Layout.skipRow o (first.figure o) ((second :: rest).map (figure o)) x y slot
  have hnonneg : ∀ i ∈ first.figure o :: (second :: rest).map (figure o), i.metrics.Nonneg := by
    rw [← List.map_cons]
    exact List.forall_mem_map.2 h
  have hcontents := contents_skipRowPieces_eq o (first.figure o) ((second :: rest).map (figure o))
    x y slot
  have hnode : ∀ s ∈ row.contents, ∃ n : Node K, s.toSized = n.figure o := by
    intro s hs
    obtain ⟨n, -, hn⟩ := exists_node_of_mem (hlaid.contents x y slot) (hcontents ▸ hs)
    exact ⟨n, hn⟩
  have hports : ∀ s ∈ row.contents, (settle s).ports = s.ports := fun s hs =>
    ports_settle (hnode s hs).choose_spec
  have hboxes : ∀ s ∈ row.contents, (settle s).box o = s.box := fun s hs =>
    box_settle_of_slot (hnode s hs).choose_spec
      (skipRow_sites o (first.figure o) ((second :: rest).map (figure o)) x y slot s hs)
  refine ⟨row.map settle, ⟨?_, ?_⟩, hlaid.map_sized_place x y slot, ?_⟩
  · rw [hlaid.nodes_place, hcontents, SkipRow.contents_map]
  · obtain ⟨front, back, htracks⟩ := tracks_skipRowPieces o (first.figure o)
      ((second :: rest).map (figure o)) x y slot
    refine ⟨front, back, ?_⟩
    rw [hlaid.tracks_place, htracks, SkipRow.map, List.flatMap_map]
    rfl
  · rw [SkipRow.joins_map hports, SkipRow.covered_map hboxes, hlaid.inner_place, hlaid.box_place]
    refine (skipRow_joins_iff ho hnonneg x y slot (List.cons_ne_nil _ _)).trans ?_
    rw [List.map_map]
    rfl

/-- **A row of passable items that do not drop** is joined and covered if no item is too narrow. -/
theorem skipRow_joined_of_flat (ho : o.Nonneg) {first second : Node K} {rest : List (Node K)}
    (h : ∀ n ∈ first :: second :: rest, (n.metrics o).Flat) (x y slot : K) :
    let p := (optionalSequence first second rest).place o x y slot
    ∃ row, p.IsSkipRow row ∧
      (row.Joins Placed.ports (p.inner o) ∧ row.Covered (Placed.box o) (p.box o) ↔
        ∀ n ∈ first :: second :: rest, o.arcRadius ≤ passWidth (n.metrics o)) := by
  intro p
  obtain ⟨row, hrow, -, hjoined⟩ :=
    skipRow_joined_iff ho (fun n hn => (h n hn).toNonneg) x y slot
  refine ⟨row, hrow, hjoined.trans ?_⟩
  rw [passable_iff_of_flat ho (by rwa [← List.map_cons, List.forall_mem_map]), ← List.map_cons,
    List.forall_mem_map]

/-- A stack in front of a terminal. The drop of the stack is taken off the extent above, so that the box
begins on the entry line, below the stack's and below the rail's turn at -20. The rail ends at 20, and
the terminal is entered at 40. -/
theorem skipRow_not_covered :
    let o := Options.exact
    let stack : Node Rat := .stack (.ofText "a") [.ofText "b"]
    let p : Placed Rat := (optionalSequence stack (.ofText "c") []).place o 0 0 157
    (p.box o).top = 0 ∧ p.nodes.map (fun q => (q.box o).top) = [-11, 29] ∧
      p.nodes.map (fun q => q.ports.entry) = [(20, 0), (217 / 2, 40)] ∧
      ∃ rail ∈ p.tracks, rail.strokes.map (·.start) = [(0, 0), (10, -10), (10, -10), (20, -20),
        (177 / 2, -20), (197 / 2, -10), (197 / 2, 10)] ∧ rail.finish = (217 / 2, 20) := by
  decide +kernel

/-- A row that may begin with nothing: the lines through and under the terminal behind it end 10 units
before the row. -/
theorem skipRow_not_reached :
    let o := Options.exact
    let p : Placed Rat := (optionalSequence .skip (.ofText "a") []).place o 0 0 (177 / 2)
    p.nodes.map (fun q => q.ports.exit) = [(10, 0), (117 / 2, 0)] ∧
      (p.tracks.drop 5).map (fun path => ((path.x, path.y), path.finish)) =
        [((117 / 2, 0), (157 / 2, 0)), ((10, 0), (157 / 2, 0))] ∧
      (p.inner o).exit = (177 / 2, 0) := by
  decide +kernel

end Node
end SyntaxDiagram
