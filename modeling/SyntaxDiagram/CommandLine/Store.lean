import Std.Data.TreeMap.Basic
import SyntaxDiagram.CommandLine.PathName

/-!
# Files

* `OsError`: why a file cannot be read or written.
* `Store`: files and directories by their place, seen from a working directory.
* `Store.find`: what a path leads to.
* `Store.read`, `Store.write`: the content of files by their path.
-/

namespace SyntaxDiagram.CommandLine

/-- Why a file cannot be read or written. -/
inductive OsError where
  | notFound
  | notDirectory
  | isDirectory
  | nameTooLong
  /-- anything else, with its message -/
  | other (message : String)
  deriving Repr, DecidableEq

/-- The message of the system. -/
def OsError.message : OsError → String
  | notFound => "No such file or directory (os error 2)"
  | notDirectory => "Not a directory (os error 20)"
  | isDirectory => "Is a directory (os error 21)"
  | nameTooLong => "File name too long (os error 36)"
  | other message => message

/-- Files and directories, by the names on the way to them. The way starts in the working directory,
unless its first name is that of the root, `/`, or leads up, `..`. -/
structure Store where
  files : Std.TreeMap (List String) String := ∅
  directories : List (List String) := []
  deriving Repr

/-- What a path leads to. -/
inductive Store.Target where
  | file (place : List String) (content : String)
  | directory (place : List String)
  /-- nothing, but a file can be made there -/
  | vacant (place : List String)
  /-- no directory, though there is a slash behind the last name; `error` is met on the way in -/
  | noDirectory (error : OsError)
  deriving Repr, DecidableEq

namespace Store

/-- The names on the way of a plain path. -/
def placeOf (path : String) : List String :=
  (path.splitOn "/").filter fun part => part ≠ "" && part ≠ "."

/-- All places on the way to a place. -/
def above (place : List String) : List (List String) :=
  (List.range place.length).map place.take

/-- A store of given files and directories, with the directories above them. -/
def ofPaths (files : List (String × String)) (directories : List String) : Store :=
  let files := files.map fun f => (placeOf f.1, f.2)
  let directories := directories.map placeOf
  { files := .ofList files
    directories :=
      directories ++ (directories ++ files.map (·.1)).flatMap above }

/-- The content of a file. -/
def content? (s : Store) (place : List String) : Option String := s.files[place]?

/-- Whether there is a directory at a place. The working directory is one, and so are all above it
and the root. -/
def hasDirectory (s : Store) (place : List String) : Bool :=
  place.all (· = "..") || place = ["/"] || s.directories.contains place

/-- The place above a directory. -/
def parent (directory : List String) : List String :=
  match directory.getLast? with
  | none | some ".." => directory ++ [".."]
  | some "/" => directory
  | some _ => directory.dropLast

/-- Whether a place is not in the working directory. -/
def isOutside (place : List String) : Bool := place.head? = some ".." || place.head? = some "/"

/-- How many bytes a name can have. -/
def maxName : Nat := 255

/-- How many bytes a path can have. -/
def maxPath : Nat := 4095

/-- Follows the parts of a path from a directory. -/
def follow (s : Store) (directory : List String) : List String → Except OsError Target
  | [] => .ok (.directory directory)
  | part :: rest =>
    if part = "" ∨ part = "." then s.follow directory rest
    else if part = ".." then s.follow (parent directory) rest
    else
      let place := directory ++ [part]
      let tooLong := maxName < part.utf8ByteSize
      if s.hasDirectory place then s.follow place rest
      else
        match s.content? place, rest with
        | some content, [] => .ok (.file place content)
        | none, [] => if tooLong then .error .nameTooLong else .ok (.vacant place)
        | found, rest =>
          let error : OsError :=
            if tooLong then .nameTooLong else if found.isSome then .notDirectory else .notFound
          if rest.all (· = "") then .ok (.noDirectory error) else .error error

/-- What a path leads to. -/
def find (s : Store) (path : String) : Except OsError Target :=
  if maxPath < path.utf8ByteSize then .error .nameTooLong
  else s.follow (if path.startsWith "/" then ["/"] else []) (path.splitOn "/")

/-- The content of the file that a path leads to. -/
def read (s : Store) (path : String) : Except OsError String :=
  match s.find path with
  | .error e => .error e
  | .ok (.file _ content) => .ok content
  | .ok (.directory _) => .error .isDirectory
  | .ok (.vacant _) => .error .notFound
  | .ok (.noDirectory e) => .error e

/-- Whether a path leads to a directory. -/
def isDirectory (s : Store) (path : String) : Bool :=
  match s.find path with
  | .ok (.directory _) => true
  | _ => false

/-- Puts a file at a place. -/
def put (s : Store) (place : List String) (content : String) : Store :=
  { s with files := s.files.insert place content }

/-- Writes the file that a path leads to. A slash at the end of a path asks for a directory. -/
def write (s : Store) (path content : String) : Except OsError Store :=
  match s.find path with
  | .error e => .error e
  | .ok (.file place _) | .ok (.vacant place) => .ok (s.put place content)
  | .ok (.directory _) | .ok (.noDirectory _) => .error .isDirectory

/-- The files in the working directory that another store does not have, or has with another
content, in the order of their places. -/
def changedSince (s old : Store) : List (String × String) :=
  let changed := s.files.toList.filter fun f => !isOutside f.1 && old.content? f.1 ≠ some f.2
  changed.map fun f => ("/".intercalate f.1, f.2)

end Store
end SyntaxDiagram.CommandLine
