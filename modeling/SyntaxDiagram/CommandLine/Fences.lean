import SyntaxDiagram.Text.Blank

/-!
# Fenced blocks

Grammars among other text stand between two lines of backticks or tildes.

* `Fences.lines`: the lines of a text.
* `Fences.blocks`: the grammars of a text. A block that is not closed does not count.
-/

namespace SyntaxDiagram.CommandLine.Fences

/-- A line without the carriage return that is part of its end. -/
def dropReturn (line : List Char) : List Char :=
  if line.getLast? = some '\r' then line.dropLast else line

/-- The lines of a text; what stands behind the last end of a line is a line if it is not empty. -/
def linesFrom (line : List Char) : List Char → List (List Char)
  | [] => if line.isEmpty then [] else [line.reverse]
  | '\n' :: rest => dropReturn line.reverse :: linesFrom [] rest
  | c :: rest => linesFrom (c :: line) rest

/-- The lines of a text. -/
def lines (text : String) : List (List Char) := linesFrom [] text.toList

/-- The two characters that fences are made of. -/
def marks : List Char := ['\x60', '~']

/-- Three marks. -/
def fence (mark : Char) : List Char := List.replicate 3 mark

/-- The mark of a line that opens a grammar. -/
def opening? (line : List Char) : Option Char :=
  marks.find? fun mark =>
    (fence mark).isPrefixOf line &&
      "ebnf".toList.isPrefixOf (Text.trimList (line.dropWhile (· = mark)))

/-- Whether a line closes a grammar. -/
def closes (mark : Char) (line : List Char) : Bool :=
  (fence mark).isPrefixOf line && (line.drop 3).all Text.isBlank

/-- Lines as one text. -/
def joinLines (lines : List (List Char)) : String :=
  String.ofList (List.intercalate ['\n'] lines)

mutual

/-- The blocks of some lines. -/
def outside : List (List Char) → List String
  | [] => []
  | line :: rest =>
    match opening? (Text.trimList line) with
    | some mark => inside mark [] rest
    | none => outside rest

/-- The blocks of some lines, the first of which, with lines so far, is open. -/
def inside (mark : Char) (sofar : List (List Char)) : List (List Char) → List String
  | [] => []
  | line :: rest =>
    if closes mark (Text.trimList line) then joinLines sofar :: outside rest
    else inside mark (sofar ++ [line]) rest

end

/-- The grammars of a text. -/
def blocks (text : String) : List String := outside (lines text)

end SyntaxDiagram.CommandLine.Fences
