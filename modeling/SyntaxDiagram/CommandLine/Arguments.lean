/-!
# Arguments

* `Arguments`: what a command line asks for.
* `Arguments.parse`: reads a command line. Every option and every flag may be given once; a value
  stands behind its option, or in the same word, and does not look like an option itself.
-/

namespace SyntaxDiagram.CommandLine

/-- Formats of output. -/
inductive Format where
  | svg
  | png
  deriving Repr, DecidableEq

/-- The ending of file names. -/
def Format.extension : Format → String
  | .svg => "svg"
  | .png => "png"

/-- What a command line asks for. -/
structure Arguments where
  input : Option String := none
  output : Option String := none
  format : Option Format := none
  config : Option String := none
  rule : Option String := none
  dumpMetrics : Option String := none
  /-- the width of a canvas, as it was written -/
  width : Option String := none
  /-- the height of a canvas, as it was written -/
  height : Option String := none
  complex : Bool := false
  inline : Bool := false
  verbose : Bool := false
  deriving Repr, DecidableEq

/-- Options, which take a value. -/
inductive Opt where
  | input
  | output
  | format
  | config
  | rule
  | dumpMetrics
  | width
  | height
  deriving Repr, DecidableEq

/-- Flags, which take none. -/
inductive Flag where
  | complex
  | inline
  | verbose
  | version
  | help
  deriving Repr, DecidableEq

/-- Something that an argument can name. -/
inductive Switch where
  | option (o : Opt)
  | flag (f : Flag)
  deriving Repr, DecidableEq

/-- The switch of a long name. -/
def Switch.ofLong? : String → Option Switch
  | "input" => some (.option .input)
  | "output" => some (.option .output)
  | "outputFormat" => some (.option .format)
  | "configFile" => some (.option .config)
  | "rule" => some (.option .rule)
  | "dumpMetrics" => some (.option .dumpMetrics)
  | "width" => some (.option .width)
  | "height" => some (.option .height)
  | "complex" => some (.flag .complex)
  | "inline" => some (.flag .inline)
  | "verbose" => some (.flag .verbose)
  | "version" => some (.flag .version)
  | "help" => some (.flag .help)
  | _ => none

/-- The switch of a letter. -/
def Switch.ofShort? : Char → Option Switch
  | 'i' => some (.option .input)
  | 'o' => some (.option .output)
  | 'e' => some (.option .format)
  | 'c' => some (.option .config)
  | 'w' => some (.option .width)
  | 'H' => some (.option .height)
  | 'v' => some (.flag .verbose)
  | 'V' => some (.flag .version)
  | 'h' => some (.flag .help)
  | _ => none

/-- Why a command line asks for nothing to be done. -/
inductive Stop where
  | usage
  | version
  | help
  deriving Repr, DecidableEq

/-- A text without a sign at its front. -/
def dropSign : List Char → List Char
  | '+' :: rest | '-' :: rest => rest
  | cs => cs

/-- Whether a text is one or more digits. -/
def isDigits (cs : List Char) : Bool := !cs.isEmpty && cs.all Char.isDigit

/-- Whether a text is a number: digits with at most one point and perhaps an exponent, or one of the
names of infinity and of what is not a number. -/
def isNumber (s : String) : Bool :=
  let cs := dropSign s.toList
  let lower := cs.map Char.toLower
  if lower = "inf".toList || lower = "infinity".toList || lower = "nan".toList then true
  else
    let isExponentMark (c : Char) := c = 'e' || c = 'E'
    let mantissa := cs.takeWhile fun c => !isExponentMark c
    let digits := mantissa.filter (· ≠ '.')
    let points := mantissa.length - digits.length
    let exponentOk := match cs.dropWhile fun c => !isExponentMark c with
      | [] => true
      | _ :: rest => isDigits (dropSign rest)
    isDigits digits && points ≤ 1 && exponentOk

namespace Arguments

/-- Stores a value that was not given before. -/
def once {β : Type} (old : Option β) (new : β) : Except Stop (Option β) :=
  match old with
  | none => .ok (some new)
  | some _ => .error .usage

/-- Stores a path, which is not empty. -/
def path (old : Option String) (new : String) : Except Stop (Option String) :=
  if new.isEmpty then .error .usage else once old new

/-- Stores a number. -/
def number (old : Option String) (new : String) : Except Stop (Option String) :=
  if isNumber new then once old new else .error .usage

/-- Gives an option its value. -/
def setOption (a : Arguments) (value : String) : Opt → Except Stop Arguments
  | .input => do return { a with input := ← path a.input value }
  | .output => do return { a with output := ← path a.output value }
  | .format =>
    match value with
    | "svg" => do return { a with format := ← once a.format .svg }
    | "png" => do return { a with format := ← once a.format .png }
    | _ => .error .usage
  | .config => do return { a with config := ← path a.config value }
  | .rule => do return { a with rule := ← once a.rule value }
  | .dumpMetrics => do return { a with dumpMetrics := ← path a.dumpMetrics value }
  | .width => do return { a with width := ← number a.width value }
  | .height => do return { a with height := ← number a.height value }

/-- Raises a flag. -/
def raise (a : Arguments) : Flag → Except Stop Arguments
  | .complex => if a.complex then .error .usage else .ok { a with complex := true }
  | .inline => if a.inline then .error .usage else .ok { a with inline := true }
  | .verbose => if a.verbose then .error .usage else .ok { a with verbose := true }
  | .version => .error .version
  | .help => .error .help

/-- What a word leaves open: an option that waits for its value, or nothing. -/
abbrev Pending := Option Opt

/-- Reads the letters of a word. Behind the letter of an option stands its value. -/
def letters (a : Arguments) : List Char → Except Stop (Arguments × Pending)
  | [] => .ok (a, none)
  | c :: rest =>
    match Switch.ofShort? c with
    | none => .error .usage
    | some (.flag f) => do (← a.raise f).letters rest
    | some (.option o) =>
      match rest with
      | [] => .ok (a, some o)
      | '=' :: value => do return (← a.setOption (String.ofList value) o, none)
      | value => do return (← a.setOption (String.ofList value) o, none)

/-- Reads a long name, perhaps with a value behind an equals sign. -/
def long (a : Arguments) (word : List Char) : Except Stop (Arguments × Pending) :=
  let name := String.ofList (word.takeWhile (· ≠ '='))
  let value := word.dropWhile (· ≠ '=')
  match Switch.ofLong? name, value with
  | none, _ => .error .usage
  | some (.flag f), [] => do return (← a.raise f, none)
  | some (.flag _), _ => .error .usage
  | some (.option o), [] => .ok (a, some o)
  | some (.option o), _ :: value => do return (← a.setOption (String.ofList value) o, none)

/-- Gives an option the next word, unless that looks like an option. -/
def takeValue (a : Arguments) (o : Opt) (value : String) : Except Stop Arguments :=
  match value.toList with
  | '-' :: _ :: _ => .error .usage
  | _ => a.setOption value o

/-- Reads the words of a command line, behind a word that may have left something open. -/
def words (a : Arguments) (pending : Pending) : List String → Except Stop Arguments
  | [] => if pending.isSome then .error .usage else .ok a
  | word :: rest =>
    match pending with
    | some o => do (← a.takeValue o word).words none rest
    | none =>
      match word.toList with
      | ['-', '-'] => if rest.isEmpty then .ok a else .error .usage
      | '-' :: '-' :: name => do
        let (a, pending) ← a.long name
        a.words pending rest
      | '-' :: c :: more => do
        let (a, pending) ← a.letters (c :: more)
        a.words pending rest
      | _ => .error .usage

/-- What can be asked for. -/
def summary : String :=
  "\n".intercalate [
    "EBNF to SVG railroad diagrams",
    "",
    "Usage: railroad [OPTIONS]",
    "",
    "Options:",
    "  -i, --input <PATH>         Input file (.ebnf, .md or .json), or '-' for the standard input",
    "  -o, --output <PATH>        Output file or directory",
    "  -e, --outputFormat <KIND>  Output format: svg or png",
    "  -c, --configFile <PATH>    Configuration",
    "      --rule <NAME>          Draw only the rule of this name",
    "      --complex              Draw the markers of fragments",
    "      --inline               Write markup without namespaces and stylesheet",
    "      --dumpMetrics <PATH>   Write the measures of all nodes to this path",
    "  -w, --width <NUMBER>       Width of the canvas",
    "  -H, --height <NUMBER>      Height of the canvas",
    "  -v, --verbose              Say more",
    "  -h, --help                 Print this text",
    "  -V, --version              Print the version",
    ""]

/-- What a command line asks for. -/
def parse (line : List String) : Except Stop Arguments := words {} none line

end Arguments
end SyntaxDiagram.CommandLine
