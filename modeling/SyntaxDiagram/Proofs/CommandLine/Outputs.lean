import SyntaxDiagram.Proofs.Characters
import SyntaxDiagram.Proofs.CommandLine.Places
import SyntaxDiagram.Proofs.CommandLine.Renderings
import SyntaxDiagram.Proofs.Lexemes

/-!
# What is kept of several diagrams

Several diagrams go to files that are named after them. The names of rules survive as parts of file
names, so that diagrams with different names have files of their own; of several diagrams with one
name only the last is kept.

* `PathName.unslug_slug`: the name of a rule is read back from the file name.
* `diagrams_named`: all names of diagrams are names of rules.
* `place?_outputPath_inj`: different names have files in different places.
* `run_keeps_last`: what a run leaves of several diagrams. `run_keeps_all` is the case of different
  names, and `run_loses_first` that of two rules with the same name.
-/

namespace SyntaxDiagram.CommandLine

/-! ## Names in file names -/

namespace PathName

/-- A part of a file name with blanks in the place of its dashes. -/
def unslug (slug : String) : String := slug.map fun c => if c = '-' then ' ' else c

/-- **Names survive in file names**: what a dash stands for in the name of a rule is a blank. -/
theorem unslug_slug {name : String} (h : Text.Only (isNameChar ·) name) :
    unslug (slug name) = name := by
  rw [← String.toList_inj, unslug, slug, String.toList_map, String.toList_map, List.map_map]
  refine (List.map_congr_left fun c hc => ?_).trans name.toList.map_id
  rw [Function.comp_apply]
  rcases Bool.or_eq_true_iff.1 (h c hc) with halphanum | hblank
  · have hdash : c ≠ '-' := by
      rintro rfl
      revert halphanum
      decide
    rw [halphanum, Bool.true_or, if_pos rfl, if_neg hdash, id]
  · rw [of_decide_eq_true hblank]
    decide

/-- There is no slash in a file name. -/
theorem slash_not_mem_slug (name : String) : '/' ∉ (slug name).toList := by
  rw [slug, String.toList_map, List.mem_map]
  rintro ⟨c, -, hc⟩
  split at hc
  · next h =>
    subst hc
    revert h
    decide
  · cases hc

theorem join_append (directory a b : String) : join directory (a ++ b) = join directory a ++ b := by
  unfold join
  split
  · rfl
  split
  · rw [String.append_assoc]
  · rw [String.append_assoc, String.append_assoc, String.append_assoc]

end PathName

/-- What stands in front of the names of several diagrams in their paths. -/
def outputFront (output : String) (isDirectory : Bool) : String :=
  if isDirectory then PathName.join output ""
  else PathName.sibling output ((PathName.fileStem? output).getD "diagram" ++ "-")

/-- The path of one of several diagrams. -/
def outputPath (output : String) (isDirectory : Bool) (name : String) : String :=
  outputFront output isDirectory ++ (PathName.slug name ++ ".svg")

/-- The paths of several diagrams have the same beginning and end. -/
theorem outputs_eq (output : String) (isDirectory : Bool) (names : List String) :
    outputs output isDirectory .svg names = names.map (outputPath output isDirectory) := by
  have hfile (name : String) :
      PathName.slug name ++ "." ++ Format.extension .svg = PathName.slug name ++ ".svg" := by
    rw [String.append_assoc]
    rfl
  cases isDirectory with
  | true =>
    refine List.map_congr_left fun name _ => ?_
    dsimp only
    rw [hfile, outputPath, outputFront, if_pos rfl, ← PathName.join_append, String.empty_append]
  | false =>
    refine List.map_congr_left fun name _ => ?_
    dsimp only
    rw [hfile, outputPath, outputFront, if_neg Bool.false_ne_true, PathName.sibling,
      PathName.sibling, ← PathName.join_append]

/-- **Different names have files in different places.** -/
theorem place?_outputPath_inj {s : Store} {output : String} {isDirectory : Bool}
    {name other : String} {place : List String} (hname : Text.Only (isNameChar ·) name)
    (hother : Text.Only (isNameChar ·) other)
    (h : s.place? (outputPath output isDirectory name) = some place)
    (h' : s.place? (outputPath output isDirectory other) = some place) : name = other := by
  obtain ⟨parts, last, hparts⟩ := splitOn_append (outputFront output isDirectory)
  have hlast {name : String} (h : s.place? (outputPath output isDirectory name) = some place) :
      place.getLast? = some (last ++ (PathName.slug name ++ ".svg")) := by
    have hslash : '/' ∉ (PathName.slug name ++ ".svg").toList := by
      rw [String.toList_append, List.mem_append, not_or]
      exact ⟨PathName.slash_not_mem_slug name, by decide⟩
    rw [Store.place?, outputPath, hparts _ hslash] at h
    refine Store.getLast?_placeFrom? (fun hmem => ?_) h
    have hlength : (".svg" : String).length ≤ (last ++ (PathName.slug name ++ ".svg")).length := by
      simp only [String.length_append]
      omega
    simp only [List.mem_cons, List.not_mem_nil, or_false] at hmem
    rcases hmem with heq | heq | heq <;> rw [heq] at hlength <;> revert hlength <;> decide
  have heq := Option.some.inj ((hlast h).symm.trans (hlast h'))
  rw [String.append_right_inj, String.append_left_inj] at heq
  rw [← PathName.unslug_slug hname, heq, PathName.unslug_slug hother]

/-! ## Names of diagrams -/

/-- A token of a name has the characters of names. -/
theorem only_value {t : Token} (ht : t.Spelled) (hkind : t.kind = .identifier) :
    Text.Only (isNameChar ·) t.value := by
  rw [Token.Spelled, hkind] at ht
  obtain ⟨letters, tail, hvalue, hname⟩ := ht
  intro c hc
  rw [hvalue, List.mem_append] at hc
  rcases hc with hc | hc
  · have halpha := hname.isAlpha c hc
    simp [isNameChar, Char.isAlphanum, halpha]
  · exact hname.isNameChar c hc

/-- The rules of a grammar have names. -/
theorem only_name_of_parse {source : String} {g : Grammar} (h : Grammar.parse source = .ok g) :
    ∀ r ∈ g.rules, Text.Only (isNameChar ·) r.name := by
  obtain ⟨ts, hyields, hderives⟩ := Grammar.parse_eq_ok.1 h
  have hspelled := hyields.spelled
  clear hyields h
  induction hderives with
  | nil => exact fun r hr => absurd hr List.not_mem_nil
  | cons hr hrest ih =>
    rw [List.forall_mem_append] at hspelled
    refine List.forall_mem_cons.2 ⟨?_, ih hspelled.2⟩
    cases hr with
    | intro hn he hb hs => exact only_value (hspelled.1 _ List.mem_cons_self) hn

variable {c : Config} {a : Arguments} {all : List (String × Diagram Float)}

/-- The diagrams of grammars have the names of rules. -/
theorem diagrams_named {kind : InputKind} {input : String} (hk : kind ≠ .description)
    (h : diagrams c a kind input = .ok all) : ∀ d ∈ all, Text.Only (isNameChar ·) d.1 := by
  obtain ⟨gs, hgs, rfl, -⟩ := (diagrams_eq_ok_iff hk).1 h
  intro d hd
  obtain ⟨ds, hds, hd⟩ := List.mem_flatten.1 hd
  obtain ⟨g, hg, rfl⟩ := List.mem_map.1 hds
  obtain ⟨r, hr, rfl⟩ := List.mem_map.1 hd
  obtain ⟨source, -, hsource⟩ := (mem_of_mapM hgs).2 g hg
  exact only_name_of_parse hsource r (List.mem_of_mem_filter hr)

/-! ## Runs -/

/-- Several diagrams as files. -/
theorem files_several (output : String) (isDirectory : Bool) :
    (Emission.several output isDirectory (all.map (rendered c))).files =
      all.map fun d => (outputPath output isDirectory d.1, d.2.render c.render) := by
  rw [Emission.several]
  dsimp only
  rw [map_name_rendered, map_svg_rendered, outputs_eq, List.map_map, List.map_map, List.zip_map']
  rfl

/-- Several diagrams need an output. -/
theorem of?_several {isDirectory : String → Bool} {e : Emission} (hall : 2 ≤ all.length)
    (h : Emission.of? a isDirectory (all.map (rendered c)) = some e) :
    ∃ output, a.output = some output ∧
      e = .several output (isDirectory output) (all.map (rendered c)) := by
  match all, hall with
  | d :: d' :: rest, _ =>
    obtain ⟨output, houtput, rfl⟩ := Option.map_eq_some_iff.1 h
    exact ⟨output, houtput, rfl⟩

/-- **What is kept of several diagrams.** A run that ends well has written each of them to a file
that is named after it, those of different names in different places. The last of the diagrams of
a name is found there. -/
theorem run_keeps_last {line : List String} (hline : Arguments.parse line = .ok a)
    (hf : a.format.getD .svg = .svg) (hk : inputKind a ≠ .description)
    {standardInput : String} {store : Store} (hexit : (run line standardInput store).exit = .ok) :
    ∃ c input all, configOf store a = .ok c ∧ inputOf standardInput store a = .ok input ∧
      diagrams c a (inputKind a) input = .ok all ∧
      (2 ≤ all.length → ∃ output, a.output = some output ∧
        let path := outputPath output (store.isDirectory output)
        outputs output (store.isDirectory output) .svg (all.map (·.1)) =
            all.map (fun d => path d.1) ∧
          (∀ d ∈ all, ∃ place, store.place? (path d.1) = some place ∧
            ∀ e ∈ all, store.place? (path e.1) = some place → e.1 = d.1) ∧
          ∀ front d back, all = front ++ d :: back → (∀ e ∈ back, e.1 ≠ d.1) →
            (run line standardInput store).store.read (path d.1) =
              .ok (d.2.render c.render)) := by
  rw [run_of_parse hline] at hexit ⊢
  generalize hdone : Session.after { store, standardInput } (work Session.host a) = done at *
  obtain ⟨result, w'⟩ := done
  cases result with
  | error e => cases hexit
  | ok u =>
    obtain ⟨c, input, all, e, w₁, hc, hinput, hall, hdump, he, hemit⟩ := after_work_eq_ok _ hf hdone
    refine ⟨c, input, all, hc, hinput, hall, fun hmany => ?_⟩
    obtain ⟨output, houtput, rfl⟩ := of?_several hmany he
    obtain ⟨hmetrics, -⟩ := Session.emit_eq_ok hdump
    obtain ⟨hfiles, -⟩ := Session.emit_eq_ok hemit
    rw [files_several] at hfiles
    -- the dump of the measures has come before, which no path depends on
    have hplace : w₁.store.place? = store.place? :=
      Store.place?_congr (Store.directories_writeAll hmetrics)
    have hnamed := diagrams_named hk hall
    have hwritten : ∀ front d back, all = front ++ d :: back → ∃ place,
        store.place? (outputPath output (store.isDirectory output) d.1) = some place ∧
          ((∀ e ∈ back, e.1 ≠ d.1) →
            w'.store.read (outputPath output (store.isDirectory output) d.1) =
              .ok (d.2.render c.render)) := by
      rintro front d back rfl
      rw [List.map_append, List.map_cons] at hfiles
      obtain ⟨place, hfound, hkept⟩ := Store.read_of_writeAll hfiles
      rw [hplace] at hfound hkept
      refine ⟨place, hfound, fun hback => hkept (List.forall_mem_map.2 fun e he hsame => ?_)⟩
      have hmem : d ∈ front ++ d :: back := List.mem_append_right _ List.mem_cons_self
      have hmem' : e ∈ front ++ d :: back :=
        List.mem_append_right _ (List.mem_cons_of_mem _ he)
      exact hback e he (place?_outputPath_inj (hnamed e hmem') (hnamed d hmem) hsame hfound)
    refine ⟨output, houtput, ?_, fun d hd => ?_, fun front d back hsplit hback => ?_⟩
    · rw [outputs_eq, List.map_map]
      rfl
    · obtain ⟨front, back, hsplit⟩ := List.append_of_mem hd
      obtain ⟨place, hfound, -⟩ := hwritten front d back hsplit
      exact ⟨place, hfound, fun e he hsame =>
        place?_outputPath_inj (hnamed e he) (hnamed d hd) hsame hfound⟩
    · obtain ⟨place, -, hkept⟩ := hwritten front d back hsplit
      exact hkept hback

/-- **Nothing is lost if all names are different**: then each diagram is found in a file of its
own. -/
theorem run_keeps_all {line : List String} (hline : Arguments.parse line = .ok a)
    (hf : a.format.getD .svg = .svg) (hk : inputKind a ≠ .description)
    {standardInput : String} {store : Store} (hexit : (run line standardInput store).exit = .ok) :
    ∃ c input all, configOf store a = .ok c ∧ inputOf standardInput store a = .ok input ∧
      diagrams c a (inputKind a) input = .ok all ∧
      (2 ≤ all.length → (all.map (·.1)).Nodup → ∃ output, a.output = some output ∧
        let paths := outputs output (store.isDirectory output) .svg (all.map (·.1))
        paths.length = all.length ∧ (paths.map store.place?).Nodup ∧
          ∀ f ∈ paths.zip all,
            (run line standardInput store).store.read f.1 = .ok (f.2.2.render c.render)) := by
  obtain ⟨c, input, all, hc, hinput, hall, hmany⟩ := run_keeps_last hline hf hk hexit
  refine ⟨c, input, all, hc, hinput, hall, fun htwo hnames => ?_⟩
  obtain ⟨output, houtput, hpaths, hplaces, hkept⟩ := hmany htwo
  refine ⟨output, houtput, ?_⟩
  rw [hpaths]
  refine ⟨List.length_map _, ?_, fun f hf => ?_⟩
  · rw [List.map_map]
    refine List.pairwise_map.2 ((List.pairwise_map.1 hnames).imp_of_mem ?_)
    intro d e hd he hne hsame
    obtain ⟨place, hplace, hown⟩ := hplaces d hd
    exact hne (hown e he (hsame.symm.trans hplace)).symm
  · rw [← List.map_prod_right_eq_zip] at hf
    obtain ⟨d, hd, rfl⟩ := List.mem_map.1 hf
    obtain ⟨front, back, rfl⟩ := List.append_of_mem hd
    refine hkept front d back rfl fun e he => ?_
    rw [List.map_append, List.map_cons] at hnames
    have hback := (List.pairwise_cons.1 (List.pairwise_append.1 hnames).2.1).1
    exact (hback e.1 (List.mem_map_of_mem he)).symm

/-- Two rules of one name: the run ends well, and of the two diagrams there is one file. -/
theorem run_loses_first :
    let source := "a=\"x\";a=\"y\";"
    let out := run ["-o", "out.svg"] source {}
    out.exit = .ok ∧ ∃ c d d', configOf {} { output := some "out.svg" } = .ok c ∧
      diagrams c { output := some "out.svg" } .grammar source = .ok [d, d'] ∧
      ∀ place, out.store.content? place =
        if ["out-a.svg"] = place then some (d'.2.render c.render) else none := by
  intro source out
  let a : Arguments := { output := some "out.svg" }
  let c := override a {}
  let diagram (text : String) : String × Diagram Float :=
    ("a", (Rule.mk "a" (.terminal text)).diagram c.options c.render.toRuleStyle)
  let svg (text : String) : String := (diagram text).2.render c.render
  have hline : Arguments.parse ["-o", "out.svg"] = .ok a := by decide +kernel
  let g : Grammar := ⟨[⟨"a", .terminal "x"⟩, ⟨"a", .terminal "y"⟩]⟩
  have hparse : Grammar.parse source = .ok g := eq_ok_of_toOption (by decide +kernel)
  have hall : diagrams c a .grammar source = .ok [diagram "x", diagram "y"] := by
    refine (diagrams_eq_ok_iff (by decide)).2 ⟨[g], ?_, rfl, List.cons_ne_nil _ _⟩
    rw [show sources .grammar source = [source] from rfl, List.mapM_cons, hparse]
    rfl
  -- both diagrams go to the same path
  have houtput : IsPlain "out.svg" := ⟨by decide, by decide, by decide⟩
  have hnew : IsPlain "out-a.svg" := ⟨by decide, by decide, by decide⟩
  have hfile : FileOf ("out" ++ "." ++ "svg") "a" false ("out" ++ "-" ++ "a" ++ ".svg") :=
    .beside_plain houtput (by decide) (by decide) (isSlug_iff.2 (by decide +kernel))
  let stored := (({} : Store).put ["out-a.svg"] (svg "x")).put ["out-a.svg"] (svg "y")
  have hrun : out = ⟨.ok, "", stored⟩ :=
    run_two_rules hline rfl rfl rfl rfl rfl rfl houtput hparse hfile hfile hnew hnew
  rw [hrun]
  refine ⟨rfl, c, diagram "x", diagram "y", rfl, hall, fun place => ?_⟩
  change stored.content? place = _
  rw [Store.content?_put, Store.content?_put]
  split
  · rfl
  · exact Std.TreeMap.getElem?_emptyc

end SyntaxDiagram.CommandLine
