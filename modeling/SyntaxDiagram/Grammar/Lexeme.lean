import SyntaxDiagram.Grammar.Token
import SyntaxDiagram.Text.Blank

/-!
# Lexemes

What can stand at the front of a source text.

* `Split cs`: a way to cut `cs` behind a first piece that is not empty.
* `LexicalRule`: a kind of piece, and how it is cut off.
* `LexicalRule.all`: the rules in order of preference; `firstSplit?` takes the first one that
  applies. Blanks and comments are pieces of no kind.
-/

namespace SyntaxDiagram

/-- A text cut in two, the first part not empty. -/
structure Split (cs : List Char) where
  piece : List Char
  rest : List Char
  piece_append_rest : piece ++ rest = cs
  piece_ne_nil : piece ≠ []

namespace Split

variable {cs : List Char}

theorem length_rest_lt (s : Split cs) : s.rest.length < cs.length := by
  have h := congrArg List.length s.piece_append_rest
  have := List.length_pos_iff.2 s.piece_ne_nil
  rw [List.length_append] at h
  omega

/-- One more character in front. -/
def cons (c : Char) (s : Split cs) : Split (c :: cs) :=
  ⟨c :: s.piece, s.rest, by simp [s.piece_append_rest], by simp⟩

/-- The longest piece of a class of characters. -/
def span? (p : Char → Bool) : (cs : List Char) → Option (Split cs)
  | [] => none
  | c :: cs =>
    if p c then
      some ⟨c :: cs.takeWhile p, cs.dropWhile p, by simp [List.takeWhile_append_dropWhile], by simp⟩
    else none

/-- A single character. -/
def char? (wanted : Char) : (cs : List Char) → Option (Split cs)
  | [] => none
  | c :: cs => if c = wanted then some ⟨[c], cs, rfl, by simp⟩ else none

/-- Everything up to the first `quote`, that included. -/
def through? (quote : Char) : (cs : List Char) → Option (Split cs)
  | [] => none
  | c :: cs =>
    if c = quote then some ⟨[c], cs, rfl, by simp⟩ else (through? quote cs).map (cons c)

/-- Text between two characters of a kind. -/
def quoted? (quote : Char) : (cs : List Char) → Option (Split cs)
  | [] => none
  | c :: cs => if c = quote then (through? quote cs).map (cons c) else none

/-- Everything up to the first end of a comment, that included. -/
def throughClose? : (cs : List Char) → Option (Split cs)
  | '*' :: ')' :: rest => some ⟨['*', ')'], rest, rfl, by simp⟩
  | c :: rest => (throughClose? rest).map (cons c)
  | [] => none

/-- A comment. -/
def comment? : (cs : List Char) → Option (Split cs)
  | '(' :: '*' :: rest => (throughClose? rest).map fun s => (s.cons '*').cons '('
  | _ => none

end Split

/-- Letters, digits and blanks, which a name may hold behind its first word. -/
def isNameChar (c : Char) : Bool := c.isAlphanum || c = ' '

/-- The part of a name behind its first letters, if it has more than one character up to its last
letter or digit. -/
def nameTail (cs : List Char) : List Char :=
  let tail := ((cs.takeWhile isNameChar).reverse.dropWhile (· = ' ')).reverse
  if 2 ≤ tail.length then tail else []

theorem nameTail_isPrefix (cs : List Char) : nameTail cs <+: cs := by
  dsimp only [nameTail]
  split
  · refine List.IsPrefix.trans ?_ (List.takeWhile_prefix isNameChar)
    rw [← List.reverse_suffix, List.reverse_reverse]
    exact List.dropWhile_suffix _
  · exact List.nil_prefix

/-- A name: letters, then perhaps more words. -/
def Split.name? (cs : List Char) : Option (Split cs) :=
  match span? Char.isAlpha cs with
  | none => none
  | some s =>
    some
      { piece := s.piece ++ nameTail s.rest
        rest := s.rest.drop (nameTail s.rest).length
        piece_append_rest := by
          have h := List.prefix_iff_eq_append.1 (nameTail_isPrefix s.rest)
          rw [List.append_assoc, h, s.piece_append_rest]
        piece_ne_nil := by simp [s.piece_ne_nil] }

/-- A kind of piece and the way to cut one off. -/
structure LexicalRule where
  /-- the kind of token, or none for what is passed over -/
  kind : Option Token.Kind
  split? : (cs : List Char) → Option (Split cs)

namespace LexicalRule

/-- A rule for a single character. -/
def ofChar (c : Char) (kind : Token.Kind) : LexicalRule := ⟨some kind, Split.char? c⟩

/-- The rules, the preferred ones first. -/
def all : List LexicalRule :=
  [⟨none, Split.span? Text.isBlank⟩,
   ⟨none, Split.comment?⟩,
   ⟨some .identifier, Split.name?⟩,
   ⟨some .terminal, Split.quoted? '"'⟩,
   ⟨some .terminal, Split.quoted? '\''⟩,
   ⟨some .special, Split.quoted? '?'⟩,
   ofChar '=' .equals,
   ofChar ',' .comma,
   ofChar '|' .pipe,
   ofChar ';' .semicolon,
   ofChar '.' .period,
   ofChar '(' .openParen,
   ofChar ')' .closeParen,
   ofChar '[' .openBracket,
   ofChar ']' .closeBracket,
   ofChar '\x7b' .openBrace,
   ofChar '\x7d' .closeBrace]

/-- The first of some rules that applies, and what it cuts off. -/
def firstOf? (cs : List Char) : List LexicalRule → Option (Option Token.Kind × Split cs)
  | [] => none
  | r :: rest =>
    match r.split? cs with
    | some s => some (r.kind, s)
    | none => firstOf? cs rest

end LexicalRule

/-- The piece at the front of a text and its kind. -/
def firstSplit? (cs : List Char) : Option (Option Token.Kind × Split cs) :=
  LexicalRule.firstOf? cs LexicalRule.all

/-- The value of a token: quotes and question marks taken off, and blanks too within the latter. -/
def Token.Kind.value (kind : Token.Kind) (piece : List Char) : String :=
  match kind with
  | .terminal => String.ofList piece.tail.dropLast
  | .special => String.ofList (Text.trimList piece.tail.dropLast)
  | _ => String.ofList piece

end SyntaxDiagram
