import SyntaxDiagram.Proofs.CommandLine.FileNames
import SyntaxDiagram.Proofs.CommandLine.Flags

/-!
# What a run is given

The configuration and the grammars of a run, in terms of the words on its command line, the names of
files and what is in them.

* `Given`: the configuration in a file, or the usual one without a file.
* `Flagged`: what the words on a command line change in it. `exists_given_of_configOf` says that a
  run has a configuration of this kind.
* `SourcesOf`: the grammars that are drawn. `sourcesOf_iff` says that a run has these sources.
-/

namespace SyntaxDiagram.CommandLine

/-! ## Configurations -/

/-- The configuration that a run is given: that of a file, or the usual one without a file. -/
inductive Given (store : Store) : (file : Option String) → Config → Prop
  | usual : Given store none {}
  | file {path text : String} {c : Config} (hread : store.read path = .ok text)
      (hc : Config.parse? text = some c) : Given store (some path) c

/-- What the words on a command line make of a configuration. -/
structure Flagged (line : List String) (given c : Config) : Prop where
  /-- the markers of fragments can be asked for -/
  complex : c.render.complex = true ↔ given.render.complex = true ∨ "--complex" ∈ line
  /-- markup that stands in other markup can be asked for -/
  standalone : c.render.standalone = true ↔ given.render.standalone = true ∧ "--inline" ∉ line
  /-- nothing else is changed -/
  rest : c = { given with
    render := { given.render with
      complex := c.render.complex, standalone := c.render.standalone } }

variable {line : List String} {a : Arguments} {store : Store}

theorem flagged_override (hline : Arguments.parse line = .ok a) (hf : a.format.getD .svg = .svg)
    (given : Config) : Flagged line given (override a given) := by
  have hcomplex := Arguments.raised_parse (Flag.isCalled (.inl ⟨rfl, rfl⟩)) hline
  have hinline := Arguments.raised_parse (Flag.isCalled (.inr ⟨rfl, rfl⟩)) hline
  change a.complex = true ↔ "--complex" ∈ line at hcomplex
  change a.inline = true ↔ "--inline" ∈ line at hinline
  have hpng : a.format ≠ some .png := by
    intro hpng
    rw [hpng] at hf
    cases hf
  constructor
  · rw [← hcomplex]
    simp [override]
  · rw [← hinline]
    simp [override, hpng]
  · rfl

/-- **The configuration of a run** is the one that it is given, with what its words change. -/
theorem exists_given_of_configOf (hline : Arguments.parse line = .ok a)
    (hf : a.format.getD .svg = .svg) {c : Config} (h : configOf store a = .ok c) :
    ∃ given, Given store a.config given ∧ Flagged line given c := by
  unfold configOf at h
  split at h
  · next hnone =>
    cases h
    rw [hnone]
    exact ⟨{}, .usual, flagged_override hline hf {}⟩
  · next path hpath =>
    rw [hpath]
    split at h
    · cases h
    · next text hread =>
      split at h
      · next given hgiven =>
        cases h
        exact ⟨given, .file hread hgiven, flagged_override hline hf given⟩
      · cases h

/-! ## Sources -/

/-- The grammars that are drawn: the whole standard input or file, or what stands in the fenced
blocks of a file, as its ending says. -/
inductive SourcesOf (standardInput : String) (store : Store) :
    (input : Option String) → List String → Prop
  | nowhere : SourcesOf standardInput store none [standardInput]
  | dash {path : String} (hdash : EndsIn path [] "-") :
      SourcesOf standardInput store (some path) [standardInput]
  | whole {path text : String} (hdash : ¬EndsIn path [] "-") (hread : store.read path = .ok text)
      (hplain : ¬HasEnding path "md" ∧ ¬HasEnding path "markdown") :
      SourcesOf standardInput store (some path) [text]
  | fenced {path text : String} (hdash : ¬EndsIn path [] "-") (hread : store.read path = .ok text)
      (hfenced : HasEnding path "md" ∨ HasEnding path "markdown") :
      SourcesOf standardInput store (some path) (Fences.blocks text)

theorem isStandardInput_iff {path : String} : isStandardInput path ↔ EndsIn path [] "-" := by
  have hdash : PathName.parts "-" = ["-"] := by
    have hplain : IsPlain "-" := ⟨by decide, by decide, by decide⟩
    rw [PathName.parts, hplain.splitOn]
    rfl
  rw [← PathName.parts_eq_iff, isStandardInput, PathName.same, hdash]
  simp

theorem InputKind.ofPath_fenced_iff {path : String} :
    ofPath path = .fenced ↔ HasEnding path "md" ∨ HasEnding path "markdown" := by
  rw [← PathName.extension?_eq_some_iff (by decide) (by decide),
    ← PathName.extension?_eq_some_iff (by decide) (by decide), ofPath]
  split <;> simp_all

theorem InputKind.ofPath_description_iff {path : String} :
    ofPath path = .description ↔ HasEnding path "json" := by
  rw [← PathName.extension?_eq_some_iff (by decide) (by decide), ofPath]
  split <;> simp_all

theorem inputKind_ne_description (h : ∀ path ∈ a.input, ¬HasEnding path "json") :
    inputKind a ≠ .description := by
  unfold inputKind
  split
  · next path hpath =>
    split
    · simp
    · rw [Ne, InputKind.ofPath_description_iff]
      exact h path hpath
  · simp

theorem sources_of_ne {kind : InputKind} (h : kind ≠ .fenced) (input : String) :
    sources kind input = [input] := by
  cases kind with
  | fenced => exact absurd rfl h
  | _ => rfl

variable {standardInput : String} {texts : List String}

theorem sourcesOf_file_iff {path : String} (hdash : ¬EndsIn path [] "-") :
    SourcesOf standardInput store (some path) texts ↔
      ∃ text, store.read path = .ok text ∧ sources (.ofPath path) text = texts := by
  constructor
  · intro h
    cases h with
    | dash h => exact absurd h hdash
    | whole _ hread hplain =>
      have hkind : InputKind.ofPath path ≠ .fenced := by
        rw [Ne, InputKind.ofPath_fenced_iff, not_or]
        exact hplain
      exact ⟨_, hread, sources_of_ne hkind _⟩
    | fenced _ hread hfenced =>
      rw [InputKind.ofPath_fenced_iff.2 hfenced]
      exact ⟨_, hread, rfl⟩
  · rintro ⟨text, hread, rfl⟩
    by_cases hkind : InputKind.ofPath path = .fenced
    · rw [hkind]
      exact .fenced hdash hread (InputKind.ofPath_fenced_iff.1 hkind)
    · rw [sources_of_ne hkind]
      rw [InputKind.ofPath_fenced_iff, not_or] at hkind
      exact .whole hdash hread hkind

/-- **The sources of a run** are the grammars that are to be drawn. -/
theorem sourcesOf_iff : SourcesOf standardInput store a.input texts ↔
    ∃ input, inputOf standardInput store a = .ok input ∧ sources (inputKind a) input = texts := by
  unfold inputOf inputKind
  cases a.input with
  | none =>
    constructor
    · rintro ⟨⟩
      exact ⟨standardInput, rfl, rfl⟩
    · rintro ⟨input, ⟨⟩, rfl⟩
      exact .nowhere
  | some path =>
    dsimp only
    by_cases hdash : EndsIn path [] "-"
    · rw [if_pos (isStandardInput_iff.2 hdash), if_pos (isStandardInput_iff.2 hdash)]
      constructor
      · intro h
        cases h with
        | dash => exact ⟨standardInput, rfl, rfl⟩
        | whole h | fenced h => exact absurd hdash h
      · rintro ⟨input, ⟨⟩, rfl⟩
        exact .dash hdash
    · rw [if_neg (mt isStandardInput_iff.1 hdash), if_neg (mt isStandardInput_iff.1 hdash),
        sourcesOf_file_iff hdash]
      cases store.read path with
      | error e => simp [Except.mapError]
      | ok text => simp [Except.mapError]

end SyntaxDiagram.CommandLine
