import SyntaxDiagram.Json.Written

/-!
# Fields of records

A record is written as an object, or as an array of its fields in order.

* `Json.Fields`: the fields by name or by place.
* `Fields.required`, `Fields.optional`, `Fields.defaulted`: the ways in which a field may be left
  out.
* `Json.text?`, `Written.text?` and the like: the plain values that fields have.
-/

namespace SyntaxDiagram.Json

/-- The fields of a record, whose values are of any form. -/
inductive Fields (β : Type) where
  | named (members : List (String × β))
  | listed (items : List β)

namespace Fields

variable {β γ : Type}

/-- The fields that a written value has. All their names have to stand for something. -/
def ofWritten? : Written → Option (Fields Written)
  | .object members =>
    (members.mapM fun (m : Option String × Written) => m.1.map (·, m.2)).map named
  | .array items => some (listed items)
  | _ => none

/-- Whether a list of fields goes on no longer than the record. Names that are not known do not
count. -/
def fit (f : Fields β) (arity : Nat) : Bool :=
  match f with
  | named _ => true
  | listed items => items.length ≤ arity

/-- Whether the values of all names but the known ones have a property. -/
def allUnknown (f : Fields β) (known : List String) (p : β → Bool) : Bool :=
  match f with
  | named members => members.all fun m => known.contains m.1 || p m.2
  | listed _ => true

/-- A field, if it is there. It is an error if it is there twice. -/
def get (f : Fields β) (place : Nat) (name : String) : Option (Option β) :=
  match f with
  | named members =>
    match members.filter fun m => m.1 = name with
    | [] => some none
    | [m] => some (some m.2)
    | _ => none
  | listed items => some items[place]?

/-- A field that has to be there. -/
def required (f : Fields β) (place : Nat) (name : String) : Option β := (f.get place name).join

/-- A field that may be null, which `read` has to admit, and may be missing but for a list. -/
def optional (f : Fields β) (place : Nat) (name : String) (read : β → Option (Option γ)) :
    Option (Option γ) :=
  match f.get place name, f with
  | none, _ => none
  | some (some b), _ => read b
  | some none, named _ => some none
  | some none, listed _ => none

/-- A field that may be missing, and then has the usual value. -/
def defaulted (f : Fields β) (place : Nat) (name : String) (usual : γ) (read : β → Option γ) :
    Option γ :=
  match f.get place name with
  | none => none
  | some none => some usual
  | some (some b) => read b

end Fields

/-- What a value is read as, or nothing for null. -/
def nullable {γ : Type} (read : Json → Option γ) : Json → Option (Option γ)
  | null => some none
  | j => (read j).map some

/-- The text that a value is. -/
def text? : Json → Option String
  | string s => some s
  | _ => none

/-- The number that a value is. -/
def float? : Json → Option Float
  | number n => some n.toFloat
  | _ => none

/-- The truth value that a value is. -/
def bool? : Json → Option Bool
  | bool b => some b
  | _ => none

/-- The values that a value is a list of. -/
def list? : Json → Option (List Json)
  | array items => some items
  | _ => none

namespace Written

/-- What a written value is read as, or nothing for null. -/
def nullable {γ : Type} (read : Written → Option γ) : Written → Option (Option γ)
  | null => some none
  | w => (read w).map some

/-- The text that is written. -/
def text? : Written → Option String
  | string s => s
  | _ => none

/-- The number that is written. -/
def number? : Written → Option Number
  | number n => n
  | _ => none

/-- The number that is written, as a float. -/
def float? (w : Written) : Option Float := w.number?.map Number.toFloat

/-- The truth value that is written. -/
def bool? : Written → Option Bool
  | bool b => some b
  | _ => none

end Written
end SyntaxDiagram.Json
