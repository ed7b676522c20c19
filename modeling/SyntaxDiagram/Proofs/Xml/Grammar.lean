/-!
# Well-formed XML

Which texts are documents, said without a reader. The grammar is that of XML 1.0 for documents that
consist of one element with elements, character data and references in it: no declarations,
comments, instructions, sections of raw data or tags of empty elements, and no references by
hexadecimal number.

* `Xml.isChar`: the characters that a document may contain.
* `Xml.IsReference`: references by number and to the five entities that every document knows.
* `Xml.IsValue`, `Xml.AreAttributes`: attribute values and the attributes in a tag.
* `Xml.IsCharData`: text between markup.
* `Xml.Matches`: elements, whose tags match, and what may stand between two tags.
* `Xml.IsDocument`: an element with nothing but blanks around it.
-/

namespace SyntaxDiagram.Xml

/-- Whether a document may contain the character with a number. -/
def isCharCode (n : Nat) : Bool :=
  n = 0x9 || n = 0xa || n = 0xd || (0x20 ≤ n && n ≤ 0xd7ff) || (0xe000 ≤ n && n ≤ 0xfffd) ||
    (0x10000 ≤ n && n ≤ 0x10ffff)

/-- Whether a document may contain a character. -/
def isChar (c : Char) : Bool := isCharCode c.toNat

/-- The blanks of markup. -/
def isBlank (c : Char) : Bool := c = ' ' || c = '\t' || c = '\r' || c = '\n'

/-- The numbers of the characters with which a name starts. -/
def nameStarts : List (Nat × Nat) :=
  [(0x3a, 0x3a), (0x41, 0x5a), (0x5f, 0x5f), (0x61, 0x7a), (0xc0, 0xd6), (0xd8, 0xf6),
    (0xf8, 0x2ff), (0x370, 0x37d), (0x37f, 0x1fff), (0x200c, 0x200d), (0x2070, 0x218f),
    (0x2c00, 0x2fef), (0x3001, 0xd7ff), (0xf900, 0xfdcf), (0xfdf0, 0xfffd), (0x10000, 0xeffff)]

/-- The numbers of the characters that a name may have behind its start only. -/
def nameContinuations : List (Nat × Nat) :=
  [(0x2d, 0x2d), (0x2e, 0x2e), (0x30, 0x39), (0xb7, 0xb7), (0x300, 0x36f), (0x203f, 0x2040)]

/-- Whether the number of a character is in one of some ranges. -/
def isWithin (ranges : List (Nat × Nat)) (c : Char) : Bool :=
  ranges.any fun r => r.1 ≤ c.toNat && c.toNat ≤ r.2

/-- The names of elements and attributes. -/
def IsName (cs : List Char) : Prop :=
  ∃ c rest, cs = c :: rest ∧ isWithin nameStarts c ∧
    ∀ d ∈ rest, isWithin (nameStarts ++ nameContinuations) d

/-- The names of the entities that need no declaration. -/
def entities : List String := ["amp", "lt", "gt", "apos", "quot"]

/-- References to characters. -/
inductive IsReference : List Char → Prop
  | number {digits : List Char} (hne : digits ≠ []) (hdigits : ∀ d ∈ digits, d.isDigit)
      (hchar : isCharCode (Nat.ofDigitChars 10 digits 0)) :
      IsReference ('&' :: '#' :: (digits ++ [';']))
  | entity {name : String} (h : name ∈ entities) : IsReference ('&' :: (name.toList ++ [';']))

/-- Attribute values for use between two quotes. -/
inductive IsValue (quote : Char) : List Char → Prop
  | nil : IsValue quote []
  | char {c : Char} {cs : List Char} (hchar : isChar c) (hc : c ≠ '<' ∧ c ≠ '&' ∧ c ≠ quote)
      (hrest : IsValue quote cs) : IsValue quote (c :: cs)
  | reference {r cs : List Char} (h : IsReference r) (hrest : IsValue quote cs) :
      IsValue quote (r ++ cs)

/-- The attributes in a tag, with their names. -/
inductive AreAttributes : (names : List (List Char)) → List Char → Prop
  | nil : AreAttributes [] []
  | cons {names : List (List Char)} {gap name value rest : List Char} {quote : Char}
      (hne : gap ≠ []) (hgap : ∀ c ∈ gap, isBlank c) (hname : IsName name)
      (hquote : quote = '"' ∨ quote = '\'') (hvalue : IsValue quote value)
      (hrest : AreAttributes names rest) :
      AreAttributes (name :: names) (gap ++ (name ++ '=' :: quote :: (value ++ quote :: rest)))

/-- Text between markup. The end of a section of raw data must not stand in it. -/
structure IsCharData (cs : List Char) : Prop where
  isChar : ∀ c ∈ cs, isChar c
  notMem_lt : '<' ∉ cs
  notMem_amp : '&' ∉ cs
  not_infix : ¬ [']', ']', '>'] <:+: cs

/-- The two kinds of phrase in a document. -/
inductive Phrase where
  /-- an element with a name -/
  | element (name : List Char)
  /-- what may stand between the two tags of an element -/
  | content
  deriving Repr, DecidableEq

/-- The texts of each kind. No two attributes of an element have the same name, and the closing tag
of an element has its name. -/
inductive Matches : Phrase → List Char → Prop
  | element {name attributes gap content gap' : List Char} {names : List (List Char)}
      (hname : IsName name) (hattributes : AreAttributes names attributes) (hnames : names.Nodup)
      (hgap : ∀ c ∈ gap, isBlank c) (hcontent : Matches .content content)
      (hgap' : ∀ c ∈ gap', isBlank c) :
      Matches (.element name)
        ('<' :: (name ++ (attributes ++ (gap ++ '>' :: (content ++
          '<' :: '/' :: (name ++ (gap' ++ ['>'])))))))
  | text {cs : List Char} (h : IsCharData cs) : Matches .content cs
  | reference {cs r rest : List Char} (h : IsCharData cs) (hr : IsReference r)
      (hrest : Matches .content rest) : Matches .content (cs ++ (r ++ rest))
  | child {name cs child rest : List Char} (h : IsCharData cs)
      (hchild : Matches (.element name) child) (hrest : Matches .content rest) :
      Matches .content (cs ++ (child ++ rest))

/-- A document whose root has a name. -/
def IsDocument (root text : String) : Prop :=
  ∃ before element after, text.toList = before ++ (element ++ after) ∧
    (∀ c ∈ before, isBlank c) ∧ Matches (.element root.toList) element ∧ ∀ c ∈ after, isBlank c

end SyntaxDiagram.Xml
