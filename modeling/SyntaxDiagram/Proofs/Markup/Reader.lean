import SyntaxDiagram.Element

/-!
# Reading markup back

A reader for the markup of element trees, which knows nothing of how it is written.

* `Markup.decodeValue`, `Markup.decodeContent`: the text that is meant by an attribute value and by
  character data.
* `Markup.element`: an element at the front of a text and what is behind it. One line break is
  dropped after the opening tag of `g` and `svg` and after every closing tag.
* `Markup.read`: a text that is one element and nothing else.

No tree in a text is deeper, and none has more attributes or children, than the text has characters;
that number bounds all of the recursion.
-/

namespace SyntaxDiagram.Markup

/-- What a name of an element or of an attribute is made of. -/
def isNamePart (c : Char) : Bool := c.isAlphanum || c = '-' || c = ':' || c = '.' || c = '_'

/-- The text that an attribute value stands for. An ampersand has to start a reference. -/
def decodeValue : List Char → Option (List Char)
  | [] => some []
  | '&' :: 'a' :: 'm' :: 'p' :: ';' :: cs => (decodeValue cs).map ('&' :: ·)
  | '&' :: 'q' :: 'u' :: 'o' :: 't' :: ';' :: cs => (decodeValue cs).map ('"' :: ·)
  | '&' :: _ => none
  | c :: cs => (decodeValue cs).map (c :: ·)

mutual

/-- The text that character data stands for. An ampersand has to start a reference by number. -/
def decodeContent : List Char → Option (List Char)
  | [] => some []
  | '&' :: '#' :: cs => decodeReference 0 cs
  | '&' :: _ => none
  | c :: cs => (decodeContent cs).map (c :: ·)

/-- The text from within a reference on, `n` being the number that its digits make up so far. -/
def decodeReference (n : Nat) : List Char → Option (List Char)
  | [] => none
  | ';' :: cs => (decodeContent cs).map (Char.ofNat n :: ·)
  | c :: cs => if c.isDigit then decodeReference (10 * n + (c.toNat - '0'.toNat)) cs else none

end

/-- Drops one line break. -/
def dropBreak : List Char → List Char
  | '\n' :: cs => cs
  | cs => cs

/-- The text in front of a character, and the text behind it. -/
def cutAt (stop : Char) (cs : List Char) : Option (List Char × List Char) :=
  match cs.dropWhile (· ≠ stop) with
  | [] => none
  | _ :: rest => some (cs.takeWhile (· ≠ stop), rest)

/-- An attribute with the blank in front of it. -/
def entry : List Char → Option ((String × String) × List Char)
  | ' ' :: cs =>
    match cs.dropWhile isNamePart with
    | '=' :: '"' :: rest => do
      let (value, rest) ← cutAt '"' rest
      let value ← decodeValue value
      return ((.ofList (cs.takeWhile isNamePart), .ofList value), rest)
    | _ => none
  | _ => none

/-- At most `bound` attributes up to the end of a tag. -/
def entries : (bound : Nat) → List Char → Option (List (String × String) × List Char)
  | 0, _ => none
  | _ + 1, '>' :: cs => some ([], cs)
  | bound + 1, cs => do
    let (e, cs) ← entry cs
    let (es, cs) ← entries bound cs
    return (e :: es, cs)

/-- An opening tag: its name and its attributes. -/
def opening (bound : Nat) : List Char → Option (String × Attributes String × List Char)
  | '<' :: cs => do
    let tag := String.ofList (cs.takeWhile isNamePart)
    let (es, rest) ← entries bound (cs.dropWhile isNamePart)
    return (tag, ⟨es⟩, if tag = "g" || tag = "svg" then dropBreak rest else rest)
  | _ => none

/-- The closing tag of a name: what is behind it. -/
def closing (tag : String) : List Char → Option (List Char)
  | '<' :: '/' :: cs =>
    match cs.dropWhile isNamePart with
    | '>' :: rest =>
      if String.ofList (cs.takeWhile isNamePart) = tag then some (dropBreak rest) else none
    | _ => none
  | _ => none

/-- Whether a closing tag comes next. -/
def atClosing : List Char → Bool
  | '<' :: '/' :: _ => true
  | _ => false

mutual

/-- An element, nested at most `bound` deep. -/
def element : (bound : Nat) → List Char → Option (Element × List Char)
  | 0, _ => none
  | bound + 1, cs => do
    let (tag, attributes, cs) ← opening bound cs
    if cs.head? = some '<' && !atClosing cs then
      let (first, cs) ← element bound cs
      let (rest, cs) ← elements bound cs
      let cs ← closing tag cs
      return (.parent tag attributes first rest, cs)
    else
      let content ← decodeContent (cs.takeWhile (· ≠ '<'))
      let cs ← closing tag (cs.dropWhile (· ≠ '<'))
      return (.text tag attributes (.ofList content), cs)

/-- At most `bound` elements up to a closing tag. -/
def elements : (bound : Nat) → List Char → Option (List Element × List Char)
  | 0, _ => none
  | bound + 1, cs =>
    if atClosing cs then some ([], cs)
    else do
      let (e, cs) ← element bound cs
      let (es, cs) ← elements bound cs
      return (e :: es, cs)

end

/-- The element that a text is. -/
def read (text : String) : Option Element :=
  match element text.length text.toList with
  | some (e, []) => some e
  | _ => none

end SyntaxDiagram.Markup
