/-!
# Escaped text

Two escapings are used in markup.

* `Text.escapeValue`: for attribute values, which stand between double quotes.
* `Text.escapeContent`: for character data. It also hides what text processors read as emphasis,
  code or links, so that markup can be pasted among other text.
-/

namespace SyntaxDiagram.Text

/-- Characters that are hidden in character data. -/
def isReserved (c : Char) : Bool :=
  c = '*' || c = '_' || c = '\x60' || c = '[' || c = ']' || c = '<' || c = '>' || c = '&'

/-- A numeric character reference. -/
def reference (c : Char) : List Char := '&' :: '#' :: (Nat.toDigits 10 c.toNat ++ [';'])

/-- One character of character data. -/
def contentChar (c : Char) : List Char := if isReserved c then reference c else [c]

/-- Character data, reserved characters written as references. -/
def escapeContent (s : String) : String := String.ofList (s.toList.flatMap contentChar)

/-- One character of an attribute value. -/
def valueChar (c : Char) : List Char :=
  if c = '&' then "&amp;".toList else if c = '"' then "&quot;".toList else [c]

/-- An attribute value for use between double quotes. -/
def escapeValue (s : String) : String := String.ofList (s.toList.flatMap valueChar)

end SyntaxDiagram.Text
