/-!
# Path names

* `PathName.parts`: the parts of a path, without what does not change its meaning.
* `PathName.fileStem?`, `PathName.extension?`: the two halves of the last part.
* `PathName.sibling`: another name in the place of the last part.
-/

namespace SyntaxDiagram.CommandLine.PathName

/-- Parts of a path. A dot only counts at the front, and empty parts only mark the root. -/
def parts (path : String) : List String :=
  match path.splitOn "/" with
  | [] => []
  | first :: rest => first :: rest.filter fun part => part ≠ "" && part ≠ "."

/-- Whether two paths have the same parts. -/
def same (a b : String) : Bool := parts a = parts b

/-- The last part of a path if it is a name. -/
def fileName? (path : String) : Option String :=
  (parts path).getLast?.filter fun part => part ≠ "" && part ≠ "." && part ≠ ".."

/-- A name cut at its last dot, if there is one behind its first character. -/
def splitExtension (name : String) : String × Option String :=
  let cs := name.toList
  let after := (cs.reverse.takeWhile (· ≠ '.')).reverse
  let before := cs.take (cs.length - after.length - 1)
  if after.length = cs.length || before.isEmpty then (name, none)
  else (String.ofList before, some (String.ofList after))

/-- The last part of a path without its extension. -/
def fileStem? (path : String) : Option String := (fileName? path).map fun n => (splitExtension n).1

/-- The extension of the last part of a path. -/
def extension? (path : String) : Option String :=
  (fileName? path).bind fun n => (splitExtension n).2

/-- A name in a directory. -/
def join (directory name : String) : String :=
  if directory.isEmpty then name
  else if directory.endsWith "/" then directory ++ name
  else directory ++ "/" ++ name

/-- The path without its last part. -/
def parent (path : String) : String :=
  match (parts path).dropLast with
  | [""] => "/"
  | front => "/".intercalate front

/-- Another name in the place of the last part. -/
def sibling (path name : String) : String := join (parent path) name

/-- A name as a part of a file name: everything but ASCII letters, digits and underscores becomes a
dash. -/
def slug (name : String) : String :=
  name.map fun c => if c.isAlphanum || c = '_' then c else '-'

end SyntaxDiagram.CommandLine.PathName
