import SyntaxDiagram.Error
import SyntaxDiagram.Text.Escape

/-!
# Attributes

Named values of a markup element, in the order in which the names first came.

* `Attributes.upsert`: a new value from the old one, the name staying where it is.
* `Attributes.set`, `Attributes.append`: replacing and extending a value.
* `Attributes.add`, `Attributes.concat`: the same for names that have to be checked first.
* `Attributes.text`: the attributes as they stand in a tag.
-/

namespace SyntaxDiagram

/-- An ASCII letter followed by ASCII letters, digits and `-`, `:`, `.`, `_`. -/
def isAttributeName (name : String) : Bool :=
  match name.toList with
  | [] => false
  | c :: rest => c.isAlpha && rest.all fun c =>
      c.isAlphanum || c = '-' || c = ':' || c = '.' || c = '_'

/-- Values by name, oldest name first. -/
structure Attributes (ν : Type) where
  entries : List (String × ν) := []
  deriving Repr, DecidableEq

namespace Attributes

variable {ν μ : Type}

instance : EmptyCollection (Attributes ν) := ⟨⟨[]⟩⟩

/-- The names, oldest first. -/
def names (a : Attributes ν) : List String := a.entries.map (·.1)

/-- The value of a name. -/
def get? (a : Attributes ν) (name : String) : Option ν := a.entries.lookup name

/-- Whether a name has a value. -/
def contains (a : Attributes ν) (name : String) : Bool := (a.get? name).isSome

/-- How many names there are. -/
def count (a : Attributes ν) : Nat := a.entries.length

/-- Whether there is no name at all. -/
def isEmpty (a : Attributes ν) : Bool := a.entries.isEmpty

/-- The first entry of `name` changed in place, or a new entry at the end. -/
def upsertEntries (name : String) (value : Option ν → ν) : List (String × ν) → List (String × ν)
  | [] => [(name, value none)]
  | e :: rest =>
    if e.1 = name then (name, value (some e.2)) :: rest else e :: upsertEntries name value rest

/-- A new value for `name`, made from the one it has. -/
def upsert (a : Attributes ν) (name : String) (value : Option ν → ν) : Attributes ν :=
  ⟨upsertEntries name value a.entries⟩

/-- Replaces the value of a name, or adds the name. -/
def set (a : Attributes ν) (name : String) (value : ν) : Attributes ν :=
  a.upsert name fun _ => value

/-- Extends the value of a name, or adds the name. -/
def append (a : Attributes String) (name value : String) : Attributes String :=
  a.upsert name fun old => old.getD "" ++ value

/-- Removes a name; the others keep their order. -/
def erase (a : Attributes ν) (name : String) : Attributes ν :=
  ⟨a.entries.eraseP fun e => e.1 = name⟩

/-- `set` for a name that has to be valid. -/
def add (a : Attributes String) (name value : String) : Except Error (Attributes String) :=
  if isAttributeName name then .ok (a.set name value) else .error (.invalidAttributeName name)

/-- `append` for a name that has to be valid. -/
def concat (a : Attributes String) (name value : String) : Except Error (Attributes String) :=
  if isAttributeName name then .ok (a.append name value) else .error (.invalidAttributeName name)

/-- Attributes from pairs, added one by one. -/
def ofPairs (pairs : List (String × String)) : Except Error (Attributes String) :=
  pairs.foldlM (fun a p => a.add p.1 p.2) ∅

/-- The same names with other values. -/
def map (f : ν → μ) (a : Attributes ν) : Attributes μ := ⟨a.entries.map fun e => (e.1, f e.2)⟩

/-- One attribute as it stands in a tag. -/
def entryText (e : String × String) : String := e.1 ++ "=\"" ++ Text.escapeValue e.2 ++ "\""

/-- The attributes as they stand in a tag, one blank between them. -/
def text (a : Attributes String) : String := " ".intercalate (a.entries.map entryText)

end Attributes
end SyntaxDiagram
