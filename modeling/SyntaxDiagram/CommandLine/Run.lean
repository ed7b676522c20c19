import SyntaxDiagram.CommandLine.Arguments
import SyntaxDiagram.CommandLine.Fences
import SyntaxDiagram.CommandLine.Store
import SyntaxDiagram.Config.Reader
import SyntaxDiagram.Render
import SyntaxDiagram.Report

/-!
# The command line

* `Failure`: why a run ends early, with the message that it ends with.
* `diagrams`: the named diagrams of an input.
* `outputs`: the paths that several diagrams are written to.
* `Host`: the files and streams that a run works on; `runOn` is a run on any host.
* `run`: a run on a `Store`.
-/

namespace SyntaxDiagram.CommandLine

/-- Why a run ends early. -/
inductive Failure where
  | os (error : OsError)
  | malformedConfig
  | library (error : Error)
  | noBlocks
  | noRules
  | noSuchRule (name : String)
  | outputForSeveral
  | outputForPng
  | withoutPng
  deriving Repr, BEq

/-- The message of a failure, where it is determined by its cause. -/
def Failure.message? : Failure → Option String
  | os error => some error.message
  | malformedConfig => none
  | library error => error.message?
  | noBlocks => some "No EBNF blocks found in input"
  | noRules => some "No rules found in input"
  | noSuchRule name => some ("Rule '" ++ name ++ "' not found")
  | outputForSeveral => some "Output path required when rendering several rules"
  | outputForPng => some "Output path required for png output"
  | withoutPng => some "PNG output requires the 'png' feature"

/-- Kinds of input. -/
inductive InputKind where
  | grammar
  /-- text with grammars in fenced blocks -/
  | fenced
  | description
  deriving Repr, DecidableEq

/-- The kind of input that a path leads to. -/
def InputKind.ofPath (path : String) : InputKind :=
  match PathName.extension? path with
  | some "md" | some "markdown" => .fenced
  | some "json" => .description
  | _ => .grammar

/-- Whether a path stands for the standard input. -/
def isStandardInput (path : Option String) : Bool :=
  match path with
  | none => true
  | some path => PathName.same path "-"

/-- A configuration with what the command line asks for in the place of its own. -/
def override (a : Arguments) (c : Config) : Config :=
  let standalone := a.format = some .png || (c.render.standalone && !a.inline)
  { c with render := { c.render with complex := c.render.complex || a.complex, standalone } }

/-- The diagrams of the rules of a grammar that are asked for. -/
def ruleDiagrams (c : Config) (rule : Option String) (g : Grammar) :
    List (String × Diagram Float) :=
  let wanted := g.rules.filter fun r => rule.all (· = r.name)
  wanted.map fun r => (r.name, r.diagram c.options c.render.toRuleStyle)

/-- The diagrams of several grammars, up to the first that cannot be read. -/
def grammarDiagrams (c : Config) (rule : Option String) (sources : List String) :
    Except Failure (List (String × Diagram Float)) := do
  let found ← sources.mapM fun source =>
    match Grammar.parse source with
    | .ok g => .ok (ruleDiagrams c rule g)
    | .error e => .error (.library (.grammar e))
  match found.flatten, rule with
  | [], some name => .error (.noSuchRule name)
  | [], none => .error .noRules
  | all, _ => .ok all

/-- The grammars of an input. -/
def sources (kind : InputKind) (input : String) : List String :=
  match kind with
  | .fenced => Fences.blocks input
  | _ => [input]

/-- The named diagrams of an input. -/
def diagrams (c : Config) (a : Arguments) (kind : InputKind) (input : String) :
    Except Failure (List (String × Diagram Float)) :=
  match kind with
  | .description =>
    match Description.readDiagram c.options input with
    | .ok d => .ok [((a.input.bind PathName.fileStem?).getD "diagram", d)]
    | .error e => .error (.library e)
  | kind =>
    match sources kind input with
    | [] => .error .noBlocks
    | all => grammarDiagrams c a.rule all

/-- The paths of several diagrams: in a directory they have the names of the diagrams, otherwise
these are added to the name of the output. -/
def outputs (output : String) (isDirectory : Bool) (format : Format) (names : List String) :
    List String :=
  let file (name : String) : String := PathName.slug name ++ "." ++ format.extension
  if isDirectory then names.map fun name => PathName.join output (file name)
  else
    let stem := (PathName.fileStem? output).getD "diagram"
    names.map fun name => PathName.sibling output (stem ++ "-" ++ file name)

/-- The files and streams that a run works on. -/
structure Host (m : Type → Type) where
  read : String → m (Except OsError String)
  standardInput : m (Except OsError String)
  isDirectory : String → m Bool
  write : (path content : String) → m (Except OsError Unit)
  print : String → m Unit

/-- How a run ends. -/
inductive Exit where
  | ok
  | failed (message : Option String)
  /-- the command line makes no sense -/
  | usage
  deriving Repr, DecidableEq

section

variable {m : Type → Type} [Monad m] (host : Host m)

/-- Fails with an error of the system. -/
def orFail {β : Type} (x : m (Except OsError β)) : ExceptT Failure m β := do
  match ← x with
  | .ok b => return b
  | .error e => throw (.os e)

/-- The configuration of a run. -/
def readConfig (a : Arguments) : ExceptT Failure m Config := do
  match a.config with
  | none => return override a {}
  | some path =>
    match Config.parse? (← orFail (host.read path)) with
    | some c => return override a c
    | none => throw .malformedConfig

/-- The input of a run and its kind. -/
def readInput (a : Arguments) : ExceptT Failure m (InputKind × String) := do
  match a.input with
  | some path =>
    if isStandardInput path then return (.grammar, ← orFail host.standardInput)
    else return (.ofPath path, ← orFail (host.read path))
  | none => return (.grammar, ← orFail host.standardInput)

/-- Writes the only diagram of a run. -/
def emitOne (a : Arguments) (svg : String) : ExceptT Failure m Unit := do
  match a.format.getD .svg, a.output with
  | .svg, some path => orFail (host.write path svg)
  | .svg, none => host.print svg
  | .png, none => throw .outputForPng
  | .png, some _ => throw .withoutPng

/-- Writes several diagrams, one after another. -/
def emitAll (c : Config) (a : Arguments) (all : List (String × Diagram Float)) :
    ExceptT Failure m Unit := do
  match a.output with
  | none => throw .outputForSeveral
  | some output =>
    let format := a.format.getD .svg
    let paths := outputs output (← host.isDirectory output) format (all.map (·.1))
    for (path, d) in paths.zip (all.map (·.2)) do
      match format with
      | .svg => orFail (host.write path (d.render c.render))
      | .png => throw .withoutPng

/-- The work of a run. -/
def work (a : Arguments) : ExceptT Failure m Unit := do
  let c ← readConfig host a
  let (kind, input) ← readInput host a
  let all ← (diagrams c a kind input : Except Failure _)
  if let some path := a.dumpMetrics then orFail (host.write path (Report.text all))
  match all with
  | [(_, d)] => emitOne host a (d.render c.render)
  | all => emitAll host c a all

/-- A run of the command line. -/
def runOn (line : List String) : m Exit := do
  match Arguments.parse line with
  | .error .usage => return .usage
  | .error .version =>
    host.print "railroad 0.1.0\n"
    return .ok
  | .error .help =>
    host.print Arguments.summary
    return .ok
  | .ok a =>
    match ← work host a with
    | .ok () => return .ok
    | .error e => return .failed (e.message?.map ("error: " ++ ·))

end

/-- A store with a standard input and output. -/
structure Session where
  store : Store
  standardInput : String
  printed : String := ""

/-- A run on a store. -/
def Session.host : Host (StateM Session) where
  read path := do return (← get).store.read path
  standardInput := do return .ok (← get).standardInput
  isDirectory path := do return (← get).store.isDirectory path
  write path content := do
    match (← get).store.write path content with
    | .error e => return .error e
    | .ok store =>
      modify ({ · with store })
      return .ok ()
  print text := modify fun w => { w with printed := w.printed ++ text }

/-- What a run leaves behind. -/
structure Outcome where
  exit : Exit
  printed : String
  store : Store

/-- A run on a store. -/
def run (line : List String) (standardInput : String) (store : Store) : Outcome :=
  let (exit, w) := (runOn Session.host line).run { store, standardInput }
  ⟨exit, w.printed, w.store⟩

end SyntaxDiagram.CommandLine
