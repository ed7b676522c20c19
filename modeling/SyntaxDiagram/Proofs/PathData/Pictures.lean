import SyntaxDiagram.Proofs.PathData.Commands
import SyntaxDiagram.Proofs.Pictures

/-!
# The paths of pictures

Every path that is drawn has path data, and no other element has any but what was handed in for it.

* `Drawing.HasSoundData`: what the data of an element comes from.
* `Node.hasSoundData_own`: the elements that a node makes.
* `Drawing.FinitePaths`, `Drawing.PathsValid`: finite coordinates, and what follows from them.
* `drawn_paths_valid`: the paths in pictures of trees and diagrams, and those of calls.
-/

namespace SyntaxDiagram

open Layout
open PathData (isBlank AreCommands)
open Binary64 (IsLength)

variable {α : Type}

/-! ## Elements -/

namespace Drawing

/-- The data of an element is that of a path, or it was handed in for a group. -/
def HasSoundData (radius : α) (handed : String → Prop) (e : Drawing α) : Prop :=
  ∀ v, ("d", v) ∈ e.attributes.entries →
    (e.tag = "path" ∧ ∃ lead p, v = .path lead p ∧ (∀ c ∈ lead.toList, isBlank c) ∧
      p.IsSound radius) ∨
    (e.tag = "g" ∧ ∃ data, v = .text data ∧ handed data)

variable {radius : α} {handed : String → Prop}

theorem HasSoundData.imp {handed' : String → Prop} (himp : ∀ data, handed data → handed' data)
    {e : Drawing α} (h : e.HasSoundData radius handed) : e.HasSoundData radius handed' :=
  fun v hv => (h v hv).imp_right fun ⟨htag, data, hdata, hhanded⟩ =>
    ⟨htag, data, hdata, himp data hhanded⟩

/-- An element without data. -/
theorem hasSoundData_of_ne {e : Drawing α} (h : ∀ entry ∈ e.attributes.entries, entry.1 ≠ "d") :
    e.HasSoundData radius handed :=
  fun _ hv => absurd rfl (h _ hv)

/-- A path with other attributes. -/
theorem hasSoundData_path {a : Attributes (Value α)} (ha : ∀ entry ∈ a.entries, entry.1 ≠ "d")
    {lead : String} (hlead : ∀ c ∈ lead.toList, isBlank c) {p : Path α} (hp : p.IsSound radius)
    (content : String) :
    (text "path" (a.set "d" (.path lead p)) content).HasSoundData radius handed := by
  intro v hv
  rcases Attributes.mem_upsertEntries hv with hv | ⟨-, -, hv⟩
  · exact absurd rfl (ha _ hv)
  · exact .inl ⟨rfl, lead, p, hv, hlead, hp⟩

theorem hasSoundData_track {p : Path α} (hp : p.IsSound radius) :
    (track p).HasSoundData radius handed :=
  hasSoundData_path (a := ∅) nofun (by simp) hp ""

theorem hasSoundData_trackWith {a : Attributes (Value α)}
    (ha : ∀ entry ∈ a.entries, entry.1 ≠ "d") {p : Path α} (hp : p.IsSound radius) :
    (trackWith a p).HasSoundData radius handed :=
  hasSoundData_path ha (by simp) hp ""

variable (radius handed) in
/-- Raw data is sound if it is spelled out by commands and their arguments. -/
theorem hasSoundData_raw {a : Attributes (Value α)} (ha : ∀ entry ∈ a.entries, entry.1 ≠ "d")
    (x y : α) (data : String) (commands : List (Char × List String))
    (hdata : data.toList = PathData.spelled commands)
    (hspelled : commands.all PathData.isSpelled) :
    (trackWith a ((start x y).raw data)).HasSoundData radius handed := by
  refine hasSoundData_trackWith ha fun c hc => .inr ⟨data, ?_, ?_⟩
  · simpa [start, Path.raw, Path.push] using hc
  · exact hdata ▸ PathData.areCommands_spelled hspelled

end Drawing

open Drawing

/-- Marks are no data. -/
theorem ne_of_mem_markNames {name : String} (h : name ∈ markNames) : name ≠ "d" := by
  rintro rfl
  exact absurd h (by decide)

/-- The attributes that were handed in for a node. -/
def Node.given : Node α → Attributes String
  | terminal _ attributes | nonTerminal _ attributes => attributes
  | _ => ∅

/-! ## Shapes -/

namespace Layout

variable {γ : Type} {radius : α} {handed : String → Prop}

/-- All elements of pieces have sound data. -/
def AllSound (radius : α) (handed : String → Prop) (pieces : List (Piece α γ)) : Prop :=
  ∀ e ∈ pieces.flatMap Piece.own, e.HasSoundData radius handed

@[simp] theorem allSound_nil : AllSound radius handed ([] : List (Piece α γ)) := nofun

@[simp] theorem allSound_append (a b : List (Piece α γ)) :
    AllSound radius handed (a ++ b) ↔ AllSound radius handed a ∧ AllSound radius handed b := by
  simp only [AllSound, List.flatMap_append, List.forall_mem_append]

@[simp] theorem allSound_shape (d : Drawing α) (rest : List (Piece α γ)) :
    AllSound radius handed (.shape d :: rest) ↔
      (∀ e ∈ d.walk, e.HasSoundData radius handed) ∧ AllSound radius handed rest := by
  simp only [AllSound, List.flatMap_cons, List.forall_mem_append, Piece.own]

@[simp] theorem allSound_piece {β : Type} (s : Sized α β) (x y slot : α)
    (rest : List (Piece α (Site α β))) :
    AllSound radius handed (s.piece x y slot :: rest) ↔ AllSound radius handed rest := .rfl

theorem AllLines.allSound {pieces : List (Piece α γ)} (h : AllLines radius pieces) :
    AllSound radius handed pieces := by
  intro e he
  obtain ⟨path, rfl, hpath⟩ := h.exists_track he
  exact hasSoundData_track hpath.isSound

theorem sound_words (x y : α) {more : List (String × Value α)}
    (hmore : ∀ entry ∈ more, entry.1 ≠ "d") (content : String) :
    ∀ e ∈ (words x y more content).walk, e.HasSoundData radius handed := by
  refine List.forall_mem_singleton.2 (hasSoundData_of_ne ?_)
  simpa [attributes] using hmore

theorem sound_linkTo (target : Option String) {d : Drawing α}
    (h : ∀ e ∈ d.walk, e.HasSoundData radius handed) :
    ∀ e ∈ (linkTo target d).walk, e.HasSoundData radius handed := by
  unfold linkTo
  split
  · exact h
  · exact h
  · simp only [link, walk, walks, List.append_nil, List.forall_mem_cons]
    exact ⟨hasSoundData_of_ne (by simp [attributes]), h⟩

theorem allSound_titles (content : Option String) :
    AllSound radius handed ((titles content).map Piece.shape : List (Piece α γ)) := by
  unfold titles
  split
  · exact allSound_nil
  · exact allSound_nil
  · simp only [List.map_cons, List.map_nil, allSound_shape, allSound_nil, and_true]
    exact List.forall_mem_singleton.2 (hasSoundData_of_ne nofun)

theorem sound_blockDrawing (x y slot : α) :
    ∀ e ∈ (blockDrawing x y slot).walk, e.HasSoundData radius handed :=
  List.forall_mem_singleton.2 (hasSoundData_of_ne (by simp [attributes]))

/-- Settling the items does not change what a container makes itself. -/
theorem sound_figure {kind : Node.Kind} {m : Metrics α} {a : Attributes (Value α)}
    {inside : List (Figure α)} {pieces : (x y slot : α) → List (Piece α (Site α (Drawable α)))}
    (ha : ∀ ds, (group "g" a ds).HasSoundData radius handed)
    (hpieces : ∀ x y slot, AllSound radius handed (pieces x y slot)) (x y slot : α) :
    ∀ e ∈ ((figure kind m a inside pieces).item.place x y slot).own,
      e.HasSoundData radius handed := by
  have hown (ps : List (Piece α (Site α (Drawable α)))) :
      (ps.map (Piece.map settle)).flatMap Piece.own = ps.flatMap Piece.own := by
    induction ps with
    | nil => rfl
    | cons p rest ih =>
      rw [List.map_cons, List.flatMap_cons, List.flatMap_cons, ih]
      cases p <;> rfl
  refine List.forall_mem_cons.2 ⟨ha _, fun e he => ?_⟩
  rw [hown] at he
  exact hpieces x y slot e he

variable [Scalar α] (o : Options α) (x y slot : α)

theorem allSound_sides (m : Metrics α) :
    AllSound radius handed (sides o m x y slot : List (Piece α γ)) :=
  (allLines_sides o x y slot m).allSound

theorem allSound_boxPieces (rounded : Bool) (text : String) (given : Attributes String) :
    AllSound radius handed (boxPieces o rounded text given x y slot : List (Piece α γ)) := by
  simp only [boxPieces, allSound_append, allSound_shape, allSound_sides, allSound_titles, true_and,
    and_true]
  refine ⟨List.forall_mem_singleton.2 (hasSoundData_of_ne ?_), sound_linkTo _ ?_⟩
  · cases rounded <;> simp [attributes]
  · exact sound_words _ _ (by simp) text

theorem allSound_remarkPieces (text : String) (href title : Option String) :
    AllSound radius handed (remarkPieces o text href title x y slot : List (Piece α γ)) := by
  simp only [remarkPieces, allSound_append, allSound_shape, allSound_sides, allSound_titles,
    true_and, and_true]
  exact sound_linkTo _ (sound_words _ _ (by simp) text)

theorem allSound_startPieces (style : MarkerStyle) (label : String) :
    AllSound radius handed (startPieces o style label x y : List (Piece α γ)) := by
  have hline : AllLines radius [(.track ((startTicks style (start x (y - 10))).right
      (startSize o label).width) : Piece α γ)] := by
    simp [isCalled_startTicks]
  have hlabel : AllSound radius handed (if label.isEmpty then []
      else [.shape (words x (y - 15) [("style", .text "text-anchor:start")] label)] :
        List (Piece α γ)) := by
    split
    · exact allSound_nil
    · exact (allSound_shape ..).2 ⟨sound_words _ _ (by simp) label, allSound_nil⟩
  exact (allSound_append ..).2 ⟨hline.allSound, hlabel⟩

theorem sound_endDrawing (style : MarkerStyle) :
    ∀ e ∈ (endDrawing o style x y).walk, e.HasSoundData radius handed := by
  have hmarks : ∀ entry ∈ (debugMarks o [10, 10] "end" ∅ : Attributes (Value α)).entries,
      entry.1 ≠ "d" := fun entry hentry =>
    (mem_debugMarks hentry).elim nofun ne_of_mem_markNames
  exact List.forall_mem_singleton.2
    (hasSoundData_path hmarks (by simp [isBlank]) (isCalled_endPath x y style).isSound "")

theorem allSound_framePieces {β : Type} (item : Sized α β) (label : Option (Sized α β)) :
    AllSound radius handed (framePieces o item label x y slot) := by
  simp only [framePieces, allSound_append, allSound_piece, allSound_shape, allSound_sides, true_and]
  refine ⟨List.forall_mem_singleton.2 (hasSoundData_of_ne (by simp [attributes])), ?_⟩
  cases label with
  | none => exact allSound_nil
  | some l => exact (allSound_piece ..).2 allSound_nil

/-- The raw data of the badge is made of commands. -/
theorem sound_badgeDrawing (kind : ChoiceKind) (m : Metrics α) :
    ∀ e ∈ (badgeDrawing kind m x y).walk, e.HasSoundData radius handed := by
  have hcls : ∀ entry ∈ (⟨[("class", .text "diagram-text")]⟩ : Attributes (Value α)).entries,
      entry.1 ≠ "d" := by simp
  have hstyle : ∀ entry ∈ (⟨[("style", .text "stroke-width: 1.75")]⟩ :
      Attributes (Value α)).entries, entry.1 ≠ "d" := by simp
  have hleft := hasSoundData_raw radius handed hcls (x + 30) (y - 10)
    " h -26 a 4 4 0 0 0 -4 4 v 12 a 4 4 0 0 0 4 4 h 26 z"
    [('h', ["-26"]), ('a', ["4", "4", "0", "0", "0", "-4", "4"]), ('v', ["12"]),
      ('a', ["4", "4", "0", "0", "0", "4", "4"]), ('h', ["26"]), ('z', [])]
    (by decide) (by decide)
  have hright := hasSoundData_raw radius handed hcls (x + m.width - 20) (y - 10)
    " h 16 a 4 4 0 0 1 4 4 v 12 a 4 4 0 0 1 -4 4 h -16 z"
    [('h', ["16"]), ('a', ["4", "4", "0", "0", "1", "4", "4"]), ('v', ["12"]),
      ('a', ["4", "4", "0", "0", "1", "-4", "4"]), ('h', ["-16"]), ('z', [])]
    (by decide) (by decide)
  have harrow := hasSoundData_raw radius handed hstyle (x + m.width - 13) (y - 2)
    " a 4 4 0 1 0 6 -1 m 2.75 -1 h -4 v 4 m 0 -3 h 2"
    [('a', ["4", "4", "0", "1", "0", "6", "-1"]), ('m', ["2.75", "-1"]), ('h', ["-4"]),
      ('v', ["4"]), ('m', ["0", "-3"]), ('h', ["2"])]
    (by decide) (by decide)
  have hwords : ∀ e ∈ (words (x + 15) (y + 4) [("class", .text "diagram-text")]
      (ChoiceKind.badge kind)).walk, e.HasSoundData radius handed :=
    sound_words _ _ (by simp) _
  simp only [badgeDrawing, walk, walks, title, trackWith, words, List.append_nil, List.cons_append,
    List.nil_append, List.forall_mem_cons] at hwords ⊢
  exact ⟨hasSoundData_of_ne hcls, hasSoundData_of_ne nofun, hleft, hwords.1, hright, harrow, nofun⟩

theorem allSound_multiplePieces {β : Type} (kind : ChoiceKind) (b : Branches (Sized α β)) :
    AllSound o.arcRadius handed (multiplePieces o kind b x y slot) := by
  obtain ⟨lines, left, hpieces, hlines⟩ := exists_multiplePieces_eq o x y slot kind b
  rw [hpieces, allSound_append, allSound_shape]
  exact ⟨hlines.allSound, sound_badgeDrawing left y kind _, allSound_nil⟩

end Layout

/-! ## Trees -/

variable [Scalar α]

/-- **Every element that a node makes has sound data**. What is handed in for boxed text stands on
its group. -/
theorem Node.hasSoundData_own (o : Options α) (n : Node α) (x y slot : α) :
    ∀ e ∈ (n.place o x y slot).own,
      e.HasSoundData o.arcRadius fun data => ("d", data) ∈ n.given.entries := by
  by_cases hlines : n.kind.isLines
  · obtain ⟨site, a, pieces, hplace, hpieces, ha⟩ := n.exists_place_eq (o := o) hlines x y slot
    rw [hplace]
    refine List.forall_mem_cons.2 ⟨hasSoundData_of_ne fun entry hentry => ?_, hpieces.allSound⟩
    exact ne_of_mem_markNames (ha entry hentry)
  · have hmarks {handed : String → Prop} (sizes : List α) (kind : String) (ds : List (Drawing α)) :
        (Drawing.group "g" (debugMarks o sizes kind ∅) ds).HasSoundData o.arcRadius handed :=
      hasSoundData_of_ne fun entry hentry => (mem_debugMarks hentry).elim nofun ne_of_mem_markNames
    have hbox (kind : String) (given : Attributes String) (ds : List (Drawing α)) :
        (Drawing.group "g" (boxAttributes o kind given) ds).HasSoundData o.arcRadius
          fun data => ("d", data) ∈ given.entries := by
      intro v hv
      rcases mem_debugMarks hv with hv | hv
      · rcases Attributes.mem_upsertEntries hv with hv | ⟨hname, -⟩
        · obtain ⟨entry, hentry, heq⟩ := List.mem_map.1 hv
          obtain ⟨hname, rfl⟩ := Prod.mk.inj heq
          exact .inr ⟨rfl, entry.2, rfl, hname ▸ hentry⟩
        · have hne : "d" ≠ "class" := by decide
          exact absurd hname hne
      · exact absurd rfl (ne_of_mem_markNames hv)
    rw [place]
    cases n with
    | terminal text attributes =>
      rw [figure]
      exact sound_figure (hbox _ _) (allSound_boxPieces o · · · true _ _) x y slot
    | nonTerminal text attributes =>
      rw [figure]
      exact sound_figure (hbox _ _) (allSound_boxPieces o · · · false _ _) x y slot
    | comment text href title =>
      rw [figure]
      exact sound_figure (hmarks _ _) (allSound_remarkPieces o · · · _ _ _) x y slot
    | start style label =>
      rw [figure]
      exact sound_figure (hmarks _ _) (fun x y _ => allSound_startPieces o x y _ _) x y slot
    | finish style =>
      rw [figure]
      exact sound_endDrawing o x y style
    | group item label =>
      rw [figure]
      exact sound_figure (hmarks _ _) (allSound_framePieces o · · · _ _) x y slot
    | multipleChoice kind above straight below =>
      have hclassed (sizes : List α) (ds : List (Drawing α)) :
          (Drawing.group "g" (debugMarks o sizes Kind.multipleChoice.name
            (classed "multiple-choice")) ds).HasSoundData o.arcRadius
              fun data => ("d", data) ∈ (∅ : Attributes String).entries := by
        refine hasSoundData_of_ne fun entry hentry => ?_
        rcases mem_debugMarks hentry with hentry | hmark
        · obtain rfl := List.mem_singleton.1 hentry
          exact (by decide : "class" ≠ "d")
        · exact ne_of_mem_markNames hmark
      rw [figure]
      exact sound_figure (hclassed _) (allSound_multiplePieces o · · · _ _) x y slot
    | block metrics =>
      rw [figure]
      exact sound_blockDrawing x y slot
    | _ => exact absurd rfl hlines

/-- All elements in the picture of a tree have sound data. -/
theorem Node.hasSoundData_draw {o : Options α} {n : Node α} {x y slot : α} :
    ∀ e ∈ (n.draw o x y slot).walk,
      e.HasSoundData o.arcRadius fun data => ∃ m ∈ n.walk, ("d", data) ∈ m.given.entries := by
  intro e he
  obtain ⟨m, hm, x', y', slot', hmade⟩ := Node.mem_walk_draw he
  exact (m.hasSoundData_own o x' y' slot' e hmade).imp fun _ hdata => ⟨m, hm, hdata⟩

/-- All elements in the picture of a diagram have sound data. -/
theorem Diagram.hasSoundData_draw {d : Diagram α} {x y : α} {padding : Padding α} :
    ∀ e ∈ (d.draw x y padding).walk, e.HasSoundData d.options.arcRadius
      fun data => ∃ m ∈ d.walk, ("d", data) ∈ m.given.entries := by
  intro e he
  rcases mem_walk_draw he with hframe | ⟨path, rfl, hpath⟩ | ⟨n, hn, x', y', slot', he⟩
  · refine hasSoundData_of_ne ?_
    simp only [frames, List.mem_cons, List.not_mem_nil, or_false] at hframe
    rcases hframe with rfl | rfl
    · simp [draw, attributes]
    · split <;> simp [attributes]
      intro _ _ h
      cases h
  · exact hasSoundData_track hpath.isSound
  · refine (Node.hasSoundData_draw e he).imp ?_
    rintro data ⟨m, hm, hdata⟩
    rw [walk_eq]
    exact ⟨m, List.mem_flatMap.2 ⟨n, hn, hm⟩, hdata⟩

/-! ## Path data -/

/-- The numbers of a path are finite. -/
def Value.FinitePath : Value Float → Prop
  | path _ p => p.Finite
  | _ => True

/-- The numbers of all paths in a picture are finite. -/
def Drawing.FinitePaths (d : Drawing Float) : Prop :=
  ∀ e ∈ d.walk, ∀ entry ∈ e.attributes.entries, entry.2.FinitePath

instance : (v : Value Float) → Decidable v.FinitePath
  | .path _ p => inferInstanceAs (Decidable p.Finite)
  | .text _ | .number _ | .numbers _ => inferInstanceAs (Decidable True)

instance (d : Drawing Float) : Decidable d.FinitePaths :=
  inferInstanceAs (Decidable (∀ e ∈ d.walk, ∀ entry ∈ e.attributes.entries, entry.2.FinitePath))

/-- The paths in the element tree of a picture have path data, and other elements have none but what
was handed in. -/
def Drawing.PathsValid (handed : String → Prop) (d : Drawing Float) : Prop :=
  ∀ e ∈ (d.toElement Decimal.svg.write).walk, ∀ data, ("d", data) ∈ e.attributes.entries →
    if e.tag = "path" then IsPathData data else e.tag = "g" ∧ handed data

theorem Drawing.pathsValid_of_sound {radius : Float} (hradius : IsLength radius)
    {handed : String → Prop} {d : Drawing Float} (hfinite : d.FinitePaths)
    (h : ∀ e ∈ d.walk, e.HasSoundData radius handed) : d.PathsValid handed := by
  intro e he data hdata
  rw [walk_toElement] at he
  obtain ⟨e, hmem, rfl⟩ := List.mem_map.1 he
  rw [attributes_toElement] at hdata
  obtain ⟨⟨name, v⟩, hentry, heq⟩ := List.mem_map.1 hdata
  obtain ⟨hname, rfl⟩ := Prod.mk.inj heq
  obtain rfl : name = "d" := hname
  rw [tag_toElement]
  rcases h e hmem v hentry with ⟨htag, lead, p, rfl, hlead, hp⟩ | ⟨htag, text, rfl, hhanded⟩
  · rw [if_pos htag]
    exact Path.isPathData_text hradius hp (hfinite e hmem _ hentry) hlead
  · rw [if_neg (htag ▸ by decide)]
    exact ⟨htag, hhanded⟩

/-- **Every path that is drawn has path data**, in the pictures of all trees and of all diagrams,
as long as the radius of arcs is a length and all coordinates are finite. A `d` on any other element
was handed in for boxed text. What calls make of a path is path data too, whichever attributes the
path carries. -/
theorem drawn_paths_valid {o : Options Float} (hradius : IsLength o.arcRadius) :
    (∀ (n : Node Float) (x y slot : Float), (n.draw o x y slot).FinitePaths →
      (n.draw o x y slot).PathsValid fun data => ∃ m ∈ n.walk, ("d", data) ∈ m.given.entries) ∧
    (∀ (d : Diagram Float) (x y : Float) (padding : Padding Float), d.options = o →
      (d.draw x y padding).FinitePaths →
      (d.draw x y padding).PathsValid fun data =>
        ∃ m ∈ d.walk, ("d", data) ∈ m.given.entries) ∧
    ∀ (a : Attributes (Value Float)) (x y : Float) (calls : List (Path.Call Float)),
      x.isFinite → y.isFinite → (∀ c ∈ calls, c.Finite) →
      ∃ data, ((Drawing.trackWith a (calls.foldl (fun p c => c.run o.arcRadius p)
        (start x y))).toElement Decimal.svg.write).attributes.get? "d" = some data ∧
        IsPathData data := by
  refine ⟨fun n x y slot hfinite => ?_, ?_, fun a x y calls hx hy hcalls => ?_⟩
  · exact Drawing.pathsValid_of_sound hradius hfinite Node.hasSoundData_draw
  · rintro d x y padding rfl hfinite
    exact Drawing.pathsValid_of_sound hradius hfinite Diagram.hasSoundData_draw
  · refine ⟨_, ?_, Path.isPathData_calls hradius hx hy hcalls⟩
    rw [Drawing.attributes_toElement, Attributes.get?_map]
    exact congrArg (Option.map _) (Attributes.get?_set_self a "d" _)

/-- A badge, two branches and a dash between the ends of a diagram, and a path of two calls. -/
theorem drawn_paths_valid_badge :
    let o := Options.default
    let n : Node Float := .multipleChoice .any [] (.ofText "a") [.oneOrMore (.ofText "b") .skip]
    let d := Diagram.simple o [n]
    let calls : List (Path.Call Float) := [.right 5, .arc .north .west]
    IsLength o.arcRadius ∧ (n.draw o 0 0 200).FinitePaths ∧ (d.draw 0 0 {}).FinitePaths ∧
      (n.draw o 0 0 200).PathsValid (fun data => ∃ m ∈ n.walk, ("d", data) ∈ m.given.entries) ∧
      (d.draw 0 0 {}).PathsValid (fun data => ∃ m ∈ d.walk, ("d", data) ∈ m.given.entries) ∧
      ∃ data, ((Drawing.trackWith ∅ (calls.foldl (fun p c => c.run o.arcRadius p)
        (start 0 0))).toElement Decimal.svg.write).attributes.get? "d" = some data ∧
        IsPathData data := by
  intro o n d calls
  have hradius : IsLength o.arcRadius := by decide +kernel
  have hnode : (n.draw o 0 0 200).FinitePaths := by decide +kernel
  have hdiagram : (d.draw 0 0 {}).FinitePaths := by decide +kernel
  have hlength : (5 : Float).isFinite := by decide +kernel
  have hcalls : ∀ c ∈ calls, c.Finite := by simp [calls, Path.Call.Finite, hlength]
  obtain ⟨hnodes, hdiagrams, hpaths⟩ := drawn_paths_valid hradius
  exact ⟨hradius, hnode, hdiagram, hnodes n 0 0 200 hnode, hdiagrams d 0 0 {} rfl hdiagram,
    hpaths ∅ 0 0 calls (by decide +kernel) (by decide +kernel) hcalls⟩

/-- Path data starts with a move. -/
theorem not_isPathData_x : ¬ IsPathData "x" := by
  rintro ⟨gap, letter, move, rest, htext, hgap, hletter, ⟨-, -, -⟩, -⟩
  cases gap with
  | nil =>
    obtain rfl : 'x' = letter := (List.cons.inj htext).1
    exact absurd hletter (by decide)
  | cons c gap =>
    obtain rfl : 'x' = c := (List.cons.inj htext).1
    exact absurd (hgap _ List.mem_cons_self) (by decide)

/-- Boxed text takes any attributes, so that a `d` on its group may be anything. -/
theorem handed_data_not_path_data :
    let o := Options.default
    let n : Node Float := .terminal "a" ⟨[("d", "x")]⟩
    IsLength o.arcRadius ∧ (n.draw o 0 0 28.5).FinitePaths ∧
      ∃ e ∈ ((n.draw o 0 0 28.5).toElement Decimal.svg.write).walk, ∃ data,
        ("d", data) ∈ e.attributes.entries ∧ ¬ IsPathData data := by
  refine ⟨by decide +kernel, by decide +kernel, _, Element.walk_eq _ ▸ List.mem_cons_self, "x", ?_,
    not_isPathData_x⟩
  rw [Drawing.attributes_toElement]
  exact List.mem_cons_self

end SyntaxDiagram
