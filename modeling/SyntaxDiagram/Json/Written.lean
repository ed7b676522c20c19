import SyntaxDiagram.Json

/-!
# Values as they are written

A text can keep to a notation and still hold things that stand for nothing: a number beyond all
floats, or a string with half of a surrogate pair.

* `Json.Written`: a value that may have such gaps.
* `Written.value?`: the value, if there are no gaps.
* `Written.isSound`: whether there are no gaps and no integers beyond 64 bits.
-/

namespace SyntaxDiagram.Json

/-- A value as it is written. A number, a string or a name may stand for nothing. -/
inductive Written where
  | null
  | bool (b : Bool)
  | number (n : Option Number)
  | string (s : Option String)
  | array (items : List Written)
  | object (members : List (Option String × Written))
  deriving Repr

namespace Written

mutual

/-- The value that stands there, if everything in it stands for something. -/
def value? : Written → Option Json
  | null => some .null
  | bool b => some (.bool b)
  | number n => n.map .number
  | string s => s.map .string
  | array items => (values? items).map .array
  | object members => (memberValues? members).map .object

/-- The values that stand there. -/
def values? : List Written → Option (List Json)
  | [] => some []
  | w :: rest => do return (← w.value?) :: (← values? rest)

/-- The members that stand there. -/
def memberValues? : List (Option String × Written) → Option (List (String × Json))
  | [] => some []
  | (name, w) :: rest => do return (← name, ← w.value?) :: (← memberValues? rest)

end

mutual

/-- A value without gaps. -/
def ofJson : Json → Written
  | .null => null
  | .bool b => bool b
  | .number n => number (some n)
  | .string s => string (some s)
  | .array items => array (ofItems items)
  | .object members => object (ofMembers members)

/-- Values without gaps. -/
def ofItems : List Json → List Written
  | [] => []
  | j :: rest => ofJson j :: ofItems rest

/-- Members without gaps. -/
def ofMembers : List (String × Json) → List (Option String × Written)
  | [] => []
  | (name, j) :: rest => (some name, ofJson j) :: ofMembers rest

end

/-- Whether an integer fits 64 bits with a sign. -/
def fitsWord (n : Int) : Bool := Int64.minValue.toInt ≤ n && n ≤ Int64.maxValue.toInt

mutual

/-- Whether everything in a value stands for something, and its integers fit 64 bits. -/
def isSound : Written → Bool
  | null | bool _ | number (some (.float _)) | string (some _) => true
  | number (some (.integer n)) => fitsWord n
  | number none | string none => false
  | array items => areSound items
  | object members => membersAreSound members

/-- Whether this holds for several values. -/
def areSound : List Written → Bool
  | [] => true
  | w :: rest => w.isSound && areSound rest

/-- Whether this holds for several members, whose names have to stand for something too. -/
def membersAreSound : List (Option String × Written) → Bool
  | [] => true
  | (name, w) :: rest => name.isSome && w.isSound && membersAreSound rest

end

mutual

/-- A value has no gaps if it was made from one. -/
theorem value?_ofJson (j : Json) : (ofJson j).value? = some j := by
  cases j with
  | null | bool _ | number _ | string _ => rfl
  | array items => rw [ofJson, value?, values?_ofItems items]; rfl
  | object members => rw [ofJson, value?, memberValues?_ofMembers members]; rfl

theorem values?_ofItems (items : List Json) : values? (ofItems items) = some items := by
  cases items with
  | nil => rfl
  | cons j rest =>
    rw [ofItems, values?, value?_ofJson j, values?_ofItems rest]
    rfl

theorem memberValues?_ofMembers (members : List (String × Json)) :
    memberValues? (ofMembers members) = some members := by
  cases members with
  | nil => rfl
  | cons m rest =>
    rw [ofMembers, memberValues?, value?_ofJson m.2, memberValues?_ofMembers rest]
    rfl

end

end Written
end SyntaxDiagram.Json
