import SyntaxDiagram.Proofs.CommandLine.Inputs
import SyntaxDiagram.Proofs.Parser.Acceptance

/-!
# The command line is the library

With markup as its output, a run shows what `render` makes of the grammars in its input.

* `Undrawable`: there is nothing to draw, as some source cannot be read or no rule is asked for.
  `diagrams_eq_error_iff` says that this is when the diagrams of a run fail.
* `render_of_diagrams`: the markup of the diagrams of a run is what `render` makes of its sources.
* `Delivered`: where pieces of markup go. `Emission.delivered` says that those of a run go there.
* `after_work`: what a run reads, writes and prints, stage by stage.
* `run_shows_renderings`: the whole run.
-/

namespace SyntaxDiagram.CommandLine

/-! ## What is drawn -/

/-- Nothing is to be drawn: some source cannot be read, or no rule of them is asked for. -/
def Undrawable (rule : Option String) (sources : List String) : Prop :=
  (∃ source ∈ sources, ∃ e, Grammar.parse source = .error e) ∨
    ∀ source ∈ sources, ∀ g, Grammar.parse source = .ok g →
      ∀ r ∈ g.rules, ¬rule.all (· = r.name)

/-- The rules of some grammars that are asked for. -/
def asked (rule : Option String) (gs : List Grammar) : List Rule :=
  (gs.flatMap Grammar.rules).filter fun r => rule.all (· = r.name)

/-- A named diagram as markup. -/
def rendered (c : Config) (d : String × Diagram Float) : Rendered := ⟨d.1, d.2.render c.render⟩

theorem map_name_rendered (c : Config) (all : List (String × Diagram Float)) :
    (all.map (rendered c)).map (·.name) = all.map (·.1) := by
  rw [List.map_map]
  rfl

theorem map_svg_rendered (c : Config) (all : List (String × Diagram Float)) :
    (all.map (rendered c)).map (·.svg) = (all.map (·.2)).map (Diagram.render c.render) := by
  rw [List.map_map, List.map_map]
  rfl

theorem mapM_render (c : Config) (sources : List String) :
    sources.mapM (render c) =
      ((sources.mapM Grammar.parse).map (·.map fun g => g.rules.map (Rule.render c))).mapError
        id := by
  apply mapM_eq_map Grammar.parse
  intro source
  unfold render
  cases Grammar.parse source <;> rfl

theorem grammarDiagrams_eq (c : Config) (rule : Option String) (sources : List String) :
    grammarDiagrams c rule sources = match sources.mapM Grammar.parse with
      | .error e => .error (.library (.grammar e))
      | .ok gs => match (gs.map (ruleDiagrams c rule)).flatten, rule with
        | [], some name => .error (.noSuchRule name)
        | [], none => .error .noRules
        | all, _ => .ok all := by
  unfold grammarDiagrams
  rw [mapM_eq_map Grammar.parse (ruleDiagrams c rule) fun e => .library (.grammar e)]
  · cases sources.mapM Grammar.parse <;> rfl
  · intro source
    cases Grammar.parse source <;> rfl

variable {c : Config} {a : Arguments} {kind : InputKind} {input : String}

theorem grammarDiagrams_eq_ok_iff {rule : Option String} {sources : List String}
    {all : List (String × Diagram Float)} :
    grammarDiagrams c rule sources = .ok all ↔
      ∃ gs, sources.mapM Grammar.parse = .ok gs ∧
        (gs.map (ruleDiagrams c rule)).flatten = all ∧ all ≠ [] := by
  rw [grammarDiagrams_eq]
  cases sources.mapM Grammar.parse with
  | error e => simp
  | ok gs =>
    simp only [Except.ok.injEq, exists_eq_left']
    cases (gs.map (ruleDiagrams c rule)).flatten with
    | nil => cases rule <;> simp
    | cons d ds =>
      simp only [Except.ok.injEq]
      constructor
      · rintro rfl
        exact ⟨rfl, List.cons_ne_nil d ds⟩
      · exact And.left

theorem flatten_ruleDiagrams (rule : Option String) (gs : List Grammar) :
    (gs.map (ruleDiagrams c rule)).flatten =
      (asked rule gs).map fun r => (r.name, r.diagram c.options c.render.toRuleStyle) := by
  rw [asked, List.filter_flatMap, List.map_flatMap, List.flatMap_def]
  rfl

theorem diagrams_eq_ok_iff (hk : kind ≠ .description) {all : List (String × Diagram Float)} :
    diagrams c a kind input = .ok all ↔
      ∃ gs, (sources kind input).mapM Grammar.parse = .ok gs ∧
        (gs.map (ruleDiagrams c a.rule)).flatten = all ∧ all ≠ [] := by
  unfold diagrams
  split
  · exact absurd rfl hk
  · split
    · next h =>
      simp only [h]
      constructor
      · intro h'
        cases h'
      · rintro ⟨gs, hgs, hall, hne⟩
        cases hgs
        exact absurd hall.symm hne
    · exact grammarDiagrams_eq_ok_iff

/-- The diagrams of a run fail when there is nothing to draw, and only then. -/
theorem diagrams_eq_error_iff (hk : kind ≠ .description) :
    (∃ e, diagrams c a kind input = .error e) ↔ Undrawable a.rule (sources kind input) := by
  constructor
  · rintro ⟨e, he⟩
    cases hgs : (sources kind input).mapM Grammar.parse with
    | error e' =>
      obtain ⟨source, hsource, h⟩ := exists_of_mapM_error hgs
      exact .inl ⟨source, hsource, e', h⟩
    | ok gs =>
      have hnone : (gs.map (ruleDiagrams c a.rule)).flatten = [] := by
        cases hall : (gs.map (ruleDiagrams c a.rule)).flatten with
        | nil => rfl
        | cons d ds =>
          rw [(diagrams_eq_ok_iff hk).mpr ⟨gs, hgs, hall, List.cons_ne_nil d ds⟩] at he
          cases he
      right
      intro source hsource g hg r hr hwanted
      obtain ⟨g', hg', h⟩ := (mem_of_mapM hgs).1 source hsource
      rw [hg] at h
      cases h
      have hempty : ruleDiagrams c a.rule g = [] :=
        List.flatten_eq_nil_iff.mp hnone _ (List.mem_map_of_mem hg')
      unfold ruleDiagrams at hempty
      exact List.filter_eq_nil_iff.mp (List.map_eq_nil_iff.mp hempty) r hr hwanted
  · intro h
    cases hall : diagrams c a kind input with
    | error e => exact ⟨e, rfl⟩
    | ok all =>
      obtain ⟨gs, hgs, rfl, hne⟩ := (diagrams_eq_ok_iff hk).mp hall
      rcases h with ⟨source, hsource, e, he⟩ | hnone
      · obtain ⟨g, -, hg⟩ := (mem_of_mapM hgs).1 source hsource
        rw [he] at hg
        cases hg
      · refine absurd (List.flatten_eq_nil_iff.mpr ?_) hne
        intro ds hds
        obtain ⟨g, hg, rfl⟩ := List.mem_map.mp hds
        obtain ⟨source, hsource, h⟩ := (mem_of_mapM hgs).2 g hg
        unfold ruleDiagrams
        rw [List.map_eq_nil_iff, List.filter_eq_nil_iff]
        exact hnone source hsource g h

/-- The markup of the diagrams of a run is what the library makes of its sources, as far as it is
asked for. -/
theorem render_of_diagrams (hk : kind ≠ .description) {all : List (String × Diagram Float)}
    (h : diagrams c a kind input = .ok all) :
    ∃ entries, (sources kind input).mapM (render c) = .ok entries ∧
      (entries.flatten.filter fun m => a.rule.all (· = m.name)) = all.map (rendered c) := by
  obtain ⟨gs, hgs, rfl, -⟩ := (diagrams_eq_ok_iff hk).mp h
  refine ⟨gs.map fun g => g.rules.map (Rule.render c), by rw [mapM_render, hgs]; rfl, ?_⟩
  rw [List.filter_flatten, List.map_flatten, List.map_map, List.map_map]
  congr 1
  apply List.map_congr_left
  intro g _
  simp only [Function.comp_apply, ruleDiagrams, List.filter_map, List.map_map]
  rfl

/-! ## What is emitted -/

namespace Emission

/-- A single piece of markup goes to the output or, without one, to the screen. -/
def single (output : Option String) (m : Rendered) : Emission :=
  match output with
  | some output => { files := [(output, m.svg)] }
  | none => { printed := m.svg }

/-- Several pieces go one by one to files of their own. -/
def several (output : String) (isDirectory : Bool) (all : List Rendered) : Emission where
  files := (outputs output isDirectory .svg (all.map (·.name))).zip (all.map (·.svg))

/-- Where markup goes. Several pieces need an output. -/
def of? (a : Arguments) (isDirectory : String → Bool) : List Rendered → Option Emission
  | [m] => some (single a.output m)
  | all => a.output.map fun output => several output (isDirectory output) all

end Emission

/-- Where pieces of markup are to go. A single one goes to the output, or to the screen without one.
Several go one by one to files of their own. -/
inductive Delivered (isDirectory : String → Bool) :
    (output : Option String) → List Rendered → Emission → Prop
  | printed (m : Rendered) : Delivered isDirectory none [m] { printed := m.svg }
  | written (output : String) (m : Rendered) :
      Delivered isDirectory (some output) [m] { files := [(output, m.svg)] }
  | several {output : String} {all : List Rendered} {files : List (String × String)}
      (hseveral : 2 ≤ all.length)
      (hfiles : List.Forall₂
        (fun m f => FileOf output m.name (isDirectory output) f.1 ∧ f.2 = m.svg) all files) :
      Delivered isDirectory (some output) all { files }

theorem forall₂_zip {β γ δ : Type} {R : β → γ → Prop} (g : β → δ) {xs : List β} {ys : List γ}
    (h : List.Forall₂ R xs ys) :
    List.Forall₂ (fun x z => R x z.1 ∧ z.2 = g x) xs (ys.zip (xs.map g)) := by
  induction h with
  | nil => exact .nil
  | cons hhead hrest ih => exact .cons ⟨hhead, rfl⟩ ih

/-- **The markup of a run goes where it is to go.** -/
theorem Emission.delivered {a : Arguments} {isDirectory : String → Bool} {all : List Rendered}
    {e : Emission} (hne : all ≠ []) (h : of? a isDirectory all = some e) :
    Delivered isDirectory a.output all e := by
  match all with
  | [] => exact absurd rfl hne
  | [m] =>
    obtain rfl := Option.some.inj h
    unfold single
    split
    · next output houtput => exact houtput ▸ .written output m
    · next hnone => exact hnone ▸ .printed m
  | m :: m' :: rest =>
    obtain ⟨output, houtput, rfl⟩ := Option.map_eq_some_iff.1 h
    rw [houtput]
    refine .several (by simp) (forall₂_zip _ ?_)
    exact List.forall₂_map_left_iff.1 (outputs_eq_iff.1 rfl)

/-- The dump of the measures, if it is asked for. -/
def metrics (a : Arguments) (all : List (String × Diagram Float)) : List (String × String) :=
  (a.dumpMetrics.map (·, Report.text all)).toList

section

variable (w : Session) (c : Config) {a : Arguments} (hf : a.format.getD .svg = .svg)

include hf

theorem after_emitOne (m : Rendered) :
    w.after (emitOne Session.host a m.svg) = w.emit (.single a.output m) := by
  unfold emitOne Emission.single
  rw [hf]
  cases a.output with
  | none => rfl
  | some output =>
    dsimp only
    rw [Session.after_write, Session.emit_cons]
    cases w.store.write output m.svg with
    | ok store => exact (Session.emit_empty _).symm
    | error e => rfl

theorem after_emitAll (all : List (String × Diagram Float)) :
    w.after (emitAll Session.host c a all) = match a.output with
      | some output =>
        w.emit (.several output (w.store.isDirectory output) (all.map (rendered c)))
      | none => (.error .outputForSeveral, w) := by
  unfold emitAll Emission.several
  cases a.output with
  | none => rfl
  | some output =>
    simp only [hf]
    rw [Session.after_bind, Session.after_isDirectory]
    dsimp only
    rw [Session.after_writeEach w (Diagram.render c.render), map_svg_rendered, map_name_rendered,
      List.zip_map_right (f := Diagram.render c.render)]
    rfl

/-- The last stage of a run. -/
theorem after_emit (all : List (String × Diagram Float)) :
    w.after (match all with
      | [(_, d)] => emitOne Session.host a (d.render c.render)
      | all => emitAll Session.host c a all) =
    match Emission.of? a w.store.isDirectory (all.map (rendered c)) with
    | some e => w.emit e
    | none => (.error .outputForSeveral, w) := by
  have hall (ds : List (String × Diagram Float)) : w.after (emitAll Session.host c a ds) =
      match a.output.map fun output =>
        Emission.several output (w.store.isDirectory output) (ds.map (rendered c)) with
      | some e => w.emit e
      | none => (.error .outputForSeveral, w) := by
    rw [after_emitAll w c hf]
    cases a.output <;> rfl
  match all with
  | [(name, d)] => exact after_emitOne w hf (rendered c (name, d))
  | [] => exact hall []
  | d :: d' :: ds => exact hall (d :: d' :: ds)

/-! ## Runs -/

/-- The work of a run, whose configuration, input and diagrams are found in this order. -/
theorem after_work : w.after (work Session.host a) =
    match configOf w.store a with
    | .error e => (.error e, w)
    | .ok c => match inputOf w.standardInput w.store a with
      | .error e => (.error e, w)
      | .ok input => match diagrams c a (inputKind a) input with
        | .error e => (.error e, w)
        | .ok all => match w.emit { files := metrics a all } with
          | (.error e, w') => (.error e, w')
          | (.ok (), w') =>
            match Emission.of? a w.store.isDirectory (all.map (rendered c)) with
            | some e => w'.emit e
            | none => (.error .outputForSeveral, w') := by
  unfold work
  rw [Session.after_bind, after_readConfig]
  cases configOf w.store a with
  | error e => rfl
  | ok c =>
    dsimp only
    rw [Session.after_bind, after_readInput]
    cases inputOf w.standardInput w.store a with
    | error e => rfl
    | ok input =>
      dsimp only [Except.map]
      rw [Session.after_bind, Session.after_except]
      cases diagrams c a (inputKind a) input with
      | error e => rfl
      | ok all =>
        unfold metrics
        dsimp only
        cases a.dumpMetrics with
        | none =>
          rw [Option.map_none, Option.toList_none, Session.emit_empty]
          exact after_emit w c hf all
        | some path =>
          rw [Option.map_some, Option.toList_some, Session.emit_cons]
          dsimp only
          rw [Session.after_bind, Session.after_write]
          cases h : w.store.write path (Report.text all) with
          | error e => rfl
          | ok store =>
            dsimp only
            -- the directories are the same as before the dump
            rw [Session.emit_empty, ← Store.isDirectory_congr (Store.directories_write h)]
            exact after_emit _ c hf all

/-- The stages of a run that does its work. -/
theorem after_work_eq_ok {w' : Session} (h : w.after (work Session.host a) = (.ok (), w')) :
    ∃ c input all e w₁,
      configOf w.store a = .ok c ∧
      inputOf w.standardInput w.store a = .ok input ∧
      diagrams c a (inputKind a) input = .ok all ∧
      w.emit { files := metrics a all } = (.ok (), w₁) ∧
      Emission.of? a w.store.isDirectory (all.map (rendered c)) = some e ∧
      w₁.emit e = (.ok (), w') := by
  rw [after_work w hf] at h
  split at h
  · cases h
  next c hc =>
  split at h
  · cases h
  next input hinput =>
  split at h
  · cases h
  next all hall =>
  split at h
  · cases h
  next w₁ hdump =>
  split at h
  · next e he => exact ⟨c, input, all, e, w₁, hc, hinput, hall, hdump, he, h⟩
  · cases h

end

/-- How a run ends whose work comes to this. -/
def exitOf : Except Failure Unit → Exit
  | .ok () => .ok
  | .error e => .failed (e.message?.map ("error: " ++ ·))

theorem run_of_parse {line : List String} {a : Arguments} (h : Arguments.parse line = .ok a)
    (standardInput : String) (store : Store) :
    let done := Session.after { store, standardInput } (work Session.host a)
    run line standardInput store = ⟨exitOf done.1, done.2.printed, done.2.store⟩ := by
  unfold run runOn Session.after ExceptT.run StateT.run
  rw [h]
  simp only [bind, StateT.bind]
  cases work Session.host a { store, standardInput } with
  | mk result w =>
    dsimp only
    cases result <;> rfl

/-- The outcome of a run whose stages go through. -/
theorem run_eq_of_stages {line : List String} {a : Arguments}
    (hline : Arguments.parse line = .ok a) (hf : a.format.getD .svg = .svg)
    {standardInput input : String} {store store₁ store₂ : Store} {c : Config}
    {all : List (String × Diagram Float)} {e : Emission} (hc : configOf store a = .ok c)
    (hinput : inputOf standardInput store a = .ok input)
    (hall : diagrams c a (inputKind a) input = .ok all)
    (hdump : store.writeAll (metrics a all) = (.ok (), store₁))
    (he : Emission.of? a store.isDirectory (all.map (rendered c)) = some e)
    (hfiles : store₁.writeAll e.files = (.ok (), store₂)) :
    run line standardInput store = ⟨.ok, e.printed, store₂⟩ := by
  rw [run_of_parse hline, after_work _ hf]
  dsimp only
  rw [hc]
  dsimp only
  rw [hinput]
  dsimp only
  rw [hall]
  dsimp only
  rw [Session.emit, hdump]
  dsimp only [Except.mapError]
  rw [he]
  dsimp only
  rw [Session.emit, hfiles]
  simp [exitOf, Except.mapError]

/-- Two rules that go to files of their own, which are all that is there in the end. -/
theorem run_two_rules {line : List String} {a : Arguments} (hline : Arguments.parse line = .ok a)
    (hf : a.format.getD .svg = .svg) (hconfig : a.config = none) (hinput : a.input = none)
    (hrule : a.rule = none) (hdump : a.dumpMetrics = none) {output : String}
    (houtput : a.output = some output) (hplain : IsPlain output) {source : String} {r r' : Rule}
    (hparse : Grammar.parse source = .ok ⟨[r, r']⟩) {file file' : String}
    (hfile : FileOf output r.name false file) (hfile' : FileOf output r'.name false file')
    (hnew : IsPlain file) (hnew' : IsPlain file') :
    let c := override a {}
    run line source {} = ⟨.ok, "",
      (({} : Store).put [file] (r.render c).svg).put [file'] (r'.render c).svg⟩ := by
  intro c
  have hc : configOf {} a = .ok c := by rw [configOf, hconfig]
  have hsource : inputOf source {} a = .ok source := by rw [inputOf, hinput]
  have hall : diagrams c a (inputKind a) source = .ok (ruleDiagrams c none ⟨[r, r']⟩) := by
    rw [inputKind, hinput]
    refine (diagrams_eq_ok_iff (by decide)).2 ⟨[⟨[r, r']⟩], ?_, ?_, List.cons_ne_nil _ _⟩
    · rw [show sources .grammar source = [source] from rfl, List.mapM_cons, hparse]
      rfl
    · rw [hrule]
      rfl
  have hsilent : ({} : Store).writeAll (metrics a (ruleDiagrams c none ⟨[r, r']⟩)) =
      (.ok (), {}) := by
    rw [metrics, hdump]
    rfl
  have hemission : Emission.of? a ({} : Store).isDirectory
      ((ruleDiagrams c none ⟨[r, r']⟩).map (rendered c)) =
        some { files := [(file, (r.render c).svg), (file', (r'.render c).svg)] } := by
    have hpaths : outputs output false .svg [r.name, r'.name] = [file, file'] :=
      outputs_eq_iff.2 (.cons hfile (.cons hfile' .nil))
    change a.output.map (fun output => Emission.several output (({} : Store).isDirectory output)
      [r.render c, r'.render c]) = _
    rw [houtput, Option.map_some, Store.isDirectory_plain hplain (hplain.hasDirectory_empty),
      Emission.several]
    change some (Emission.mk _ ((outputs output false .svg [r.name, r'.name]).zip _)) = _
    rw [hpaths]
    rfl
  have hfiles : ({} : Store).writeAll [(file, (r.render c).svg), (file', (r'.render c).svg)] =
      (.ok (), (({} : Store).put [file] (r.render c).svg).put [file'] (r'.render c).svg) := by
    rw [Store.writeAll, Store.write_plain hnew hnew.hasDirectory_empty]
    dsimp only
    rw [Store.writeAll, Store.write_plain (s := Store.put {} _ _) hnew' hnew'.hasDirectory_empty]
    rfl
  exact run_eq_of_stages hline hf hc hsource hall hsilent hemission hfiles

/-- An outcome shows the renderings of a run. The entries that the library renders of each source,
under the configuration that is given and flagged, go where they are to go, in order and as far as
they are asked for; and nothing else is printed or written, except for the dump of the measures. -/
def Outcome.Shows (out : Outcome) (line : List String) (a : Arguments) (standardInput : String)
    (store : Store) : Prop :=
  ∃ given c texts entries grammars e,
    Given store a.config given ∧ Flagged line given c ∧
    SourcesOf standardInput store a.input texts ∧
    texts.mapM (render c) = .ok entries ∧
    texts.mapM Grammar.parse = .ok grammars ∧
    let found := entries.flatten.filter fun m => a.rule.all (· = m.name)
    let measured := (asked a.rule grammars).map fun r =>
      (r.name, r.diagram c.options c.render.toRuleStyle)
    found ≠ [] ∧ Delivered store.isDirectory a.output found e ∧
    out.printed = e.printed ∧
    store.writeAll (metrics a measured ++ e.files) = (.ok (), out.store)

/-- An outcome is a refusal: the run has failed, and nothing is printed or written. -/
def Outcome.Refuses (out : Outcome) (store : Store) : Prop :=
  (∃ message, out.exit = .failed message) ∧ out.printed = "" ∧ out.store = store

/-- **The command line is the library.** If there is nothing to draw, a run is refused; and whenever
it ends well, it shows the renderings of its sources. -/
theorem run_shows_renderings {line : List String} {a : Arguments}
    (hline : Arguments.parse line = .ok a) (hf : a.format.getD .svg = .svg)
    (hk : ∀ path ∈ a.input, ¬HasEnding path "json") (standardInput : String) (store : Store) :
    (∀ texts, SourcesOf standardInput store a.input texts → Undrawable a.rule texts →
      (run line standardInput store).Refuses store) ∧
    ((run line standardInput store).exit = .ok →
      (run line standardInput store).Shows line a standardInput store) := by
  have hkind := inputKind_ne_description hk
  rw [run_of_parse hline]
  constructor
  · intro texts htexts hnone
    obtain ⟨input, hinput, rfl⟩ := sourcesOf_iff.1 htexts
    rw [after_work _ hf]
    dsimp only
    have refuses (e : Failure) :
        Outcome.Refuses ⟨exitOf (.error e), "", store⟩ store := ⟨⟨_, rfl⟩, rfl, rfl⟩
    rw [hinput]
    cases configOf store a with
    | error e => exact refuses e
    | ok c =>
      obtain ⟨e, he⟩ := (diagrams_eq_error_iff (c := c) hkind).mpr hnone
      dsimp only
      rw [he]
      exact refuses e
  · intro hexit
    generalize hdone : Session.after { store, standardInput } (work Session.host a) = done at *
    obtain ⟨result, w'⟩ := done
    cases result with
    | error e => cases hexit
    | ok u =>
      obtain ⟨c, input, all, e, w₁, hc, hinput, hall, hdump, he, hemit⟩ :=
        after_work_eq_ok _ hf hdone
      obtain ⟨given, hgiven, hflagged⟩ := exists_given_of_configOf hline hf hc
      obtain ⟨entries, hentries, hfound⟩ := render_of_diagrams hkind hall
      obtain ⟨grammars, hgrammars, rfl, hne⟩ := (diagrams_eq_ok_iff hkind).mp hall
      obtain ⟨hmetrics, hsilent⟩ := Session.emit_eq_ok hdump
      obtain ⟨hfiles, hprinted⟩ := Session.emit_eq_ok hemit
      have hsome : (entries.flatten.filter fun m => a.rule.all (· = m.name)) ≠ [] := by
        rw [hfound]
        simpa using hne
      refine ⟨given, c, _, entries, grammars, e, hgiven, hflagged,
        sourcesOf_iff.2 ⟨input, hinput, rfl⟩, hentries, hgrammars, hsome, ?_, ?_, ?_⟩
      · exact Emission.delivered hsome (hfound ▸ he)
      · change w'.printed = e.printed
        rw [hprinted, hsilent]
        simp
      · change store.writeAll (metrics a _ ++ e.files) = (.ok (), w'.store)
        rw [← flatten_ruleDiagrams, Store.writeAll_append, hmetrics]
        exact hfiles

/-- Two rules are drawn with the markers of fragments and without a stylesheet, each to a file of
its own. The same rules without their end are refused. -/
theorem run_shows_renderings_two :
    let line := ["--complex", "--inline", "-o", "out.svg"]
    let a : Arguments := { output := some "out.svg", complex := true, inline := true }
    let c : Config := { render := { complex := true, standalone := false } }
    let out := run line "a=b;b=c;" {}
    (out.exit = .ok ∧ out.Shows line a "a=b;b=c;" {} ∧
      ∃ first second, render c "a=b;b=c;" = .ok [⟨"a", first⟩, ⟨"b", second⟩] ∧
        out.printed = "" ∧
        ∀ place, out.store.content? place =
          if place = ["out-a.svg"] then some first
          else if place = ["out-b.svg"] then some second else none) ∧
      (run line "a=b;b=c" {}).Refuses {} := by
  intro line a c out
  have hline : Arguments.parse line = .ok a := by decide +kernel
  have hnowhere : ∀ path ∈ a.input, ¬HasEnding path "json" := by simp [a]
  let g : Grammar := ⟨[⟨"a", .identifier "b"⟩, ⟨"b", .identifier "c"⟩]⟩
  have hparse : Grammar.parse "a=b;b=c;" = .ok g := eq_ok_of_toOption (by decide +kernel)
  let svg (r : Rule) : String := (r.render c).svg
  let stored := (({} : Store).put ["out-a.svg"] (svg ⟨"a", .identifier "b"⟩)).put ["out-b.svg"]
    (svg ⟨"b", .identifier "c"⟩)
  have houtput : IsPlain "out.svg" := ⟨by decide, by decide, by decide⟩
  have hfile : FileOf ("out" ++ "." ++ "svg") "a" false ("out" ++ "-" ++ "a" ++ ".svg") :=
    .beside_plain houtput (by decide) (by decide) (isSlug_iff.2 (by decide +kernel))
  have hfile' : FileOf ("out" ++ "." ++ "svg") "b" false ("out" ++ "-" ++ "b" ++ ".svg") :=
    .beside_plain houtput (by decide) (by decide) (isSlug_iff.2 (by decide +kernel))
  have hout : out = ⟨.ok, "", stored⟩ := by
    refine run_two_rules hline rfl rfl rfl rfl rfl rfl houtput hparse hfile hfile' ?_ ?_
    · exact ⟨by decide, by decide, by decide⟩
    · exact ⟨by decide, by decide, by decide⟩
  refine ⟨⟨?_, ?_, svg ⟨"a", .identifier "b"⟩, svg ⟨"b", .identifier "c"⟩, ?_, ?_, ?_⟩, ?_⟩
  · rw [hout]
  · refine (run_shows_renderings hline rfl hnowhere _ _).2 ?_
    change out.exit = .ok
    rw [hout]
  · rw [render, hparse]
    rfl
  · rw [hout]
  · intro place
    rw [hout]
    change stored.content? place = _
    rw [Store.content?_put, Store.content?_put]
    have hempty : ({} : Store).content? place = none := Std.TreeMap.getElem?_emptyc
    by_cases ha : place = ["out-a.svg"]
    · simp [ha]
    · simp [ha, hempty, eq_comm]
  · refine (run_shows_renderings hline rfl hnowhere _ _).1 _ .nowhere
      (.inl ⟨_, List.mem_singleton_self _, ?_⟩)
    exact exists_error_of_toOption (by decide +kernel)

end SyntaxDiagram.CommandLine
