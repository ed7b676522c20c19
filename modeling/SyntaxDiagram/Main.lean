import SyntaxDiagram.CommandLine.Run

/-!
# The program

* `console`: the files and streams of the system.
* `main`: a run of the command line on them.
-/

namespace SyntaxDiagram.CommandLine

/-- The cause of an error of the system. Some calls give the number of the error negated. -/
def OsError.ofSystem : IO.Error → OsError
  | .noFileOrDirectory .. => .notFound
  | .inappropriateType _ code _ => if code = 21 ∨ -code = 21 then .isDirectory else .notDirectory
  | e@(.invalidArgument _ code _) =>
    if code = 36 ∨ -code = 36 then .nameTooLong else .other (toString e)
  | e => .other (toString e)

/-- Text from bytes in UTF-8. -/
def decodeText (bytes : ByteArray) : Except OsError String :=
  match String.fromUTF8? bytes with
  | some text => .ok text
  | none => .error (.other "stream did not contain valid UTF-8")

/-- What an action of the system yields. -/
def attempt {β : Type} (action : IO β) : IO (Except OsError β) := do
  return (← action.toBaseIO).mapError .ofSystem

/-- Whether a path leads to a directory, which can be opened but not read. -/
def isDirectory (path : String) : IO Bool := do
  let first ← attempt do (← IO.FS.Handle.mk path .read).read 1
  return first matches .error .isDirectory

/-- The files and streams of the system. -/
def console : Host IO where
  read path := do
    return (← attempt (IO.FS.readBinFile path)) >>= decodeText
  standardInput := do
    return (← attempt do (← IO.getStdin).readBinToEnd) >>= decodeText
  isDirectory
  write path content := attempt (IO.FS.writeFile path content)
  print text := do
    let out ← IO.getStdout
    out.putStr text
    out.flush

end SyntaxDiagram.CommandLine

open SyntaxDiagram.CommandLine in
/-- A run of the command line. The status is zero if it did its work. -/
def main (line : List String) : IO UInt32 := do
  match ← runOn console line with
  | .ok => return 0
  | .failed message =>
    IO.eprintln (message.getD "error")
    return 1
  | .usage =>
    IO.eprint Arguments.summary
    return 2
