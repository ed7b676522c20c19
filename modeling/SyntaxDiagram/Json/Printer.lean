import SyntaxDiagram.Decimal.Notation
import SyntaxDiagram.Json

/-!
# Written JSON

* `Json.pretty`: a value over several lines, each level two blanks further to the right.
-/

namespace SyntaxDiagram.Json

/-- Two hexadecimal digits. -/
def hexByte (n : Nat) : List Char := [Nat.digitChar (n / 16 % 16), Nat.digitChar (n % 16)]

/-- A character within a string: quotes, backslashes and control characters are escaped. -/
def stringChar (c : Char) : List Char :=
  if c = '"' then ['\\', '"']
  else if c = '\\' then ['\\', '\\']
  else if c = '\n' then ['\\', 'n']
  else if c = '\r' then ['\\', 'r']
  else if c = '\t' then ['\\', 't']
  else if c = '\x08' then ['\\', 'b']
  else if c = '\x0c' then ['\\', 'f']
  else if c.toNat < 32 then ['\\', 'u', '0', '0'] ++ hexByte c.toNat
  else [c]

/-- A string with its quotes. -/
def quote (s : String) : String := "\"" ++ String.ofList (s.toList.flatMap stringChar) ++ "\""

/-- The start of a line at a level. -/
def newLine (level : Nat) : String := "\n" ++ String.ofList (List.replicate (2 * level) ' ')

/-- A number. -/
def Number.write : Number → String
  | integer n => toString n
  | float x => Decimal.data.write x

mutual

/-- A value at a level, behind other text. -/
def prettyOnto (level : Nat) (sofar : String) : Json → String
  | null => sofar ++ "null"
  | bool b => sofar ++ if b then "true" else "false"
  | number n => sofar ++ n.write
  | string s => sofar ++ quote s
  | array [] => sofar ++ "[]"
  | array (item :: items) =>
    let opened := sofar ++ "[" ++ newLine (level + 1)
    prettyItems (level + 1) (item.prettyOnto (level + 1) opened) items ++ newLine level ++ "]"
  | object [] => sofar ++ "\x7b\x7d"
  | object (member :: members) =>
    let opened := sofar ++ "\x7b" ++ newLine (level + 1)
    prettyMembers (level + 1) (prettyMember (level + 1) opened member) members ++
      newLine level ++ "\x7d"

/-- The items of an array behind the first. -/
def prettyItems (level : Nat) (sofar : String) : List Json → String
  | [] => sofar
  | item :: items =>
    prettyItems level (item.prettyOnto level (sofar ++ "," ++ newLine level)) items

/-- A member of an object. -/
def prettyMember (level : Nat) (sofar : String) : String × Json → String
  | (name, value) => value.prettyOnto level (sofar ++ quote name ++ ": ")

/-- The members of an object behind the first. -/
def prettyMembers (level : Nat) (sofar : String) : List (String × Json) → String
  | [] => sofar
  | member :: members =>
    prettyMembers level (prettyMember level (sofar ++ "," ++ newLine level) member) members

end

/-- A value over several lines. -/
def pretty (j : Json) : String := j.prettyOnto 0 ""

end SyntaxDiagram.Json
