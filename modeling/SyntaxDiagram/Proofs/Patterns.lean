import SyntaxDiagram.Proofs.Lexemes

/-!
# Patterns

Which pieces a source is cut into, said by regular expressions. A pattern may match in several ways;
the ways are tried in an order of preference, and the first one counts.

* `Pattern.ways`: all ways to match a pattern at the front of a text, the preferred ones first.
* `Pattern.lexicon`: the patterns of all pieces in their order, with the tokens they stand for.
* `LexicalRule.matches_lexicon`: the lexical rules cut off what these patterns match.
* `IsFirstMatch`: a piece is matched by the first pattern that matches at all, and
  `isFirstMatch_of_firstSplit?`: so it is with what is cut off.
-/

namespace SyntaxDiagram

open Text (isBlank)

/-- A regular expression in which only single characters are repeated. -/
inductive Pattern where
  /-- a character of a class -/
  | one (p : Char → Bool)
  /-- characters of a class, rather more than fewer -/
  | many (p : Char → Bool)
  /-- characters of a class, rather fewer than more -/
  | few (p : Char → Bool)
  /-- a pattern and another one behind it -/
  | andThen (first second : Pattern)
  /-- rather a pattern than nothing -/
  | maybe (inner : Pattern)

/-- A match at the front of a text: what is matched, and what is behind it. -/
abbrev Pattern.Way := List Char × List Char

namespace Pattern

/-- The same way with one more character in front. -/
def Way.cons (c : Char) (w : Way) : Way := (c :: w.1, w.2)

/-- The ways to match a character of a class. -/
def waysOne (p : Char → Bool) : List Char → List Way
  | [] => []
  | c :: cs => if p c then [([c], cs)] else []

/-- The ways to match characters of a class, the longest one first. -/
def waysMany (p : Char → Bool) : List Char → List Way
  | [] => [([], [])]
  | c :: cs => (if p c then (waysMany p cs).map (Way.cons c) else []) ++ [([], c :: cs)]

/-- The ways to match characters of a class, the shortest one first. -/
def waysFew (p : Char → Bool) : List Char → List Way
  | [] => [([], [])]
  | c :: cs => ([], c :: cs) :: if p c then (waysFew p cs).map (Way.cons c) else []

/-- The ways to match a pattern at the front of a text, the preferred ones first. -/
def ways : Pattern → List Char → List Way
  | one p, cs => waysOne p cs
  | many p, cs => waysMany p cs
  | few p, cs => waysFew p cs
  | andThen first second, cs =>
    (first.ways cs).flatMap fun w => (second.ways w.2).map fun w' => (w.1 ++ w'.1, w'.2)
  | maybe inner, cs => inner.ways cs ++ [([], cs)]

/-- The way that is taken. -/
def match? (p : Pattern) (cs : List Char) : Option Way := (p.ways cs).head?

/-! ## The patterns of a source -/

/-- A single character. -/
def char (c : Char) : Pattern := one (· = c)

/-- One or more characters of a class. -/
def several (p : Char → Bool) : Pattern := (one p).andThen (many p)

/-- A comment, which goes to the first mark of its end. -/
def comment : Pattern :=
  (char '(').andThen <| (char '*').andThen <| (few fun _ => true).andThen <|
    (char '*').andThen (char ')')

/-- Letters, then perhaps more words, which end in a letter or digit. -/
def name : Pattern :=
  (several Char.isAlpha).andThen (maybe ((several isNameChar).andThen (one Char.isAlphanum)))

/-- Text between two quotes. -/
def quoted (quote : Char) : Pattern :=
  (char quote).andThen <| (many (· ≠ quote)).andThen (char quote)

/-- The patterns of all pieces, the preferred ones first, with the kind of token that each of them
stands for. -/
def lexicon : List (Option Token.Kind × Pattern) :=
  [(none, several isBlank),
   (none, comment),
   (some .identifier, name),
   (some .terminal, quoted '"'),
   (some .terminal, quoted '\''),
   (some .special, quoted '?'),
   (some .equals, char '='),
   (some .comma, char ','),
   (some .pipe, char '|'),
   (some .semicolon, char ';'),
   (some .period, char '.'),
   (some .openParen, char '('),
   (some .closeParen, char ')'),
   (some .openBracket, char '['),
   (some .closeBracket, char ']'),
   (some .openBrace, char '\x7b'),
   (some .closeBrace, char '\x7d')]

/-! ## Taking a way -/

theorem ways_one (p : Char → Bool) (cs : List Char) : (one p).ways cs = waysOne p cs := rfl

theorem ways_many (p : Char → Bool) (cs : List Char) : (many p).ways cs = waysMany p cs := rfl

theorem ways_few (p : Char → Bool) (cs : List Char) : (few p).ways cs = waysFew p cs := rfl

theorem ways_andThen (first second : Pattern) (cs : List Char) :
    (first.andThen second).ways cs =
      (first.ways cs).flatMap fun w => (second.ways w.2).map fun w' => (w.1 ++ w'.1, w'.2) := rfl

theorem ways_maybe (inner : Pattern) (cs : List Char) :
    (maybe inner).ways cs = inner.ways cs ++ [([], cs)] := rfl

theorem match?_one (p : Char → Bool) (c : Char) (cs : List Char) :
    (one p).match? (c :: cs) = if p c then some ([c], cs) else none := by
  rw [match?, ways_one, waysOne]
  split <;> rfl

theorem match?_maybe (q : Pattern) (cs : List Char) :
    (maybe q).match? cs = some ((q.match? cs).getD ([], cs)) := by
  rw [match?, ways_maybe, List.head?_append, ← match?]
  cases q.match? cs <;> rfl

/-- Whatever is behind a match can be left to the second pattern, if it matches there. -/
theorem match?_andThen {first second : Pattern} {cs : List Char} {w w' : Way}
    (h : first.match? cs = some w) (h' : second.match? w.2 = some w') :
    (first.andThen second).match? cs = some (w.1 ++ w'.1, w'.2) := by
  rw [match?, List.head?_eq_some_iff] at h
  obtain ⟨others, hways⟩ := h
  rw [match?, ways_andThen, hways, List.flatMap_cons, List.head?_append, List.head?_map, ← match?,
    h']
  rfl

theorem match?_andThen_of_none {first second : Pattern} {cs : List Char}
    (h : first.match? cs = none) : (first.andThen second).match? cs = none := by
  rw [match?, List.head?_eq_none_iff] at h
  rw [match?, ways_andThen, h]
  rfl

theorem ways_andThen_assoc (a b q : Pattern) (cs : List Char) :
    ((a.andThen b).andThen q).ways cs = (a.andThen (b.andThen q)).ways cs := by
  simp only [ways_andThen, List.flatMap_assoc, List.flatMap_map, List.map_flatMap, List.map_map,
    Function.comp_def, List.append_assoc]

/-- What is matched behind a character. -/
theorem flatMap_cons (q : Pattern) (c : Char) (found : List Way) :
    ((found.map (Way.cons c)).flatMap fun w => (q.ways w.2).map fun w' => (w.1 ++ w'.1, w'.2)) =
      (found.flatMap fun w => (q.ways w.2).map fun w' => (w.1 ++ w'.1, w'.2)).map (Way.cons c) := by
  simp only [List.flatMap_map, List.map_flatMap, List.map_map]
  rfl

theorem match?_one_andThen (p : Char → Bool) (q : Pattern) (c : Char) (cs : List Char) :
    ((one p).andThen q).match? (c :: cs) =
      if p c then (q.match? cs).map (Way.cons c) else none := by
  rw [match?, ways_andThen, ways_one, waysOne]
  split
  · rw [List.flatMap_singleton, List.head?_map]
    rfl
  · rfl

/-- **Rather more than fewer**: one more character is tried before the rest of the pattern. -/
theorem match?_many_andThen (p : Char → Bool) (q : Pattern) (c : Char) (cs : List Char) :
    ((many p).andThen q).match? (c :: cs) =
      (if p c then (((many p).andThen q).match? cs).map (Way.cons c) else none).or
        (q.match? (c :: cs)) := by
  simp only [match?, ways_andThen, ways_many, waysMany, List.flatMap_append, List.head?_append,
    List.flatMap_singleton, List.nil_append, List.map_id']
  split
  · rw [flatMap_cons, List.head?_map]
  · rfl

/-- **Rather fewer than more**: the rest of the pattern is tried before one more character. -/
theorem match?_few_andThen (p : Char → Bool) (q : Pattern) (c : Char) (cs : List Char) :
    ((few p).andThen q).match? (c :: cs) =
      (q.match? (c :: cs)).or
        (if p c then (((few p).andThen q).match? cs).map (Way.cons c) else none) := by
  simp only [match?, ways_andThen, ways_few, waysFew, List.flatMap_cons, List.head?_append,
    List.nil_append, List.map_id']
  split
  · rw [flatMap_cons, List.head?_map]
  · rfl

theorem match?_many (p : Char → Bool) (cs : List Char) :
    (many p).match? cs = some (cs.takeWhile p, cs.dropWhile p) := by
  induction cs with
  | nil => rfl
  | cons c cs ih =>
    rw [match?, ways_many, waysMany, List.head?_append]
    by_cases hc : p c
    · rw [if_pos hc, List.head?_map]
      rw [match?, ways_many] at ih
      rw [ih, List.takeWhile_cons_of_pos hc, List.dropWhile_cons_of_pos hc]
      rfl
    · rw [if_neg hc, List.takeWhile_cons_of_neg hc, List.dropWhile_cons_of_neg hc]
      rfl

end Pattern

namespace Split

/-- What is cut off, and what is behind it. -/
def way {cs : List Char} (s : Split cs) : Pattern.Way := (s.piece, s.rest)

theorem map_way_cons {cs : List Char} (c : Char) (found : Option (Split cs)) :
    (found.map (cons c)).map way = (found.map way).map (Pattern.Way.cons c) := by
  rw [Option.map_map, Option.map_map]
  rfl

end Split

namespace Pattern

/-! ## Cutting off is matching -/

theorem match?_char (c : Char) (cs : List Char) :
    (char c).match? cs = (Split.char? c cs).map Split.way := by
  cases cs with
  | nil => rfl
  | cons d cs =>
    rw [char, match?_one, Split.char?]
    by_cases hd : d = c
    · rw [if_pos (decide_eq_true hd), if_pos hd]
      rfl
    · rw [if_neg (by rw [decide_eq_false hd]; exact Bool.false_ne_true), if_neg hd]
      rfl

theorem match?_char_andThen (c : Char) (q : Pattern) (d : Char) (cs : List Char) :
    ((char c).andThen q).match? (d :: cs) =
      if d = c then (q.match? cs).map (Way.cons d) else none := by
  rw [char, match?_one_andThen]
  simp only [decide_eq_true_eq]

theorem match?_several (p : Char → Bool) (cs : List Char) :
    (several p).match? cs = (Split.span? p cs).map Split.way := by
  cases cs with
  | nil => rfl
  | cons c cs =>
    rw [several, match?_one_andThen, match?_many, Split.span?]
    split <;> rfl

theorem match?_through (quote : Char) (cs : List Char) :
    ((many (· ≠ quote)).andThen (char quote)).match? cs =
      (Split.through? quote cs).map Split.way := by
  induction cs with
  | nil => rfl
  | cons c cs ih =>
    rw [match?_many_andThen, match?_char, ih, Split.through?, Split.char?]
    by_cases hc : c = quote
    · rw [if_pos hc, if_pos hc, if_neg (by simp [hc])]
      rfl
    · rw [if_neg hc, if_neg hc, if_pos (by simp [hc]), Split.map_way_cons, Option.map_none,
        Option.or_none]

theorem match?_quoted (quote : Char) (cs : List Char) :
    (quoted quote).match? cs = (Split.quoted? quote cs).map Split.way := by
  cases cs with
  | nil => rfl
  | cons c cs =>
    rw [quoted, match?_char_andThen, match?_through, Split.quoted?]
    split
    · rw [Split.map_way_cons]
    · rfl

/-- A comment goes on as long as its end does not come. -/
theorem throughClose?_cons {c : Char} {cs : List Char}
    (h : (Split.char? ')' cs).isNone ∨ c ≠ '*') :
    Split.throughClose? (c :: cs) = (Split.throughClose? cs).map (Split.cons c) := by
  refine Split.throughClose?.eq_2 c cs fun rest hc hcs => ?_
  subst hc hcs
  exact h.elim nofun (fun hne => hne rfl)

theorem match?_throughClose (cs : List Char) :
    ((few fun _ => true).andThen ((char '*').andThen (char ')'))).match? cs =
      (Split.throughClose? cs).map Split.way := by
  induction cs with
  | nil => rfl
  | cons c cs ih =>
    rw [match?_few_andThen, if_pos rfl, ih, match?_char_andThen, match?_char]
    by_cases hc : c = '*'
    · cases hclose : Split.char? ')' cs with
      | none =>
        rw [throughClose?_cons (.inl (by rw [hclose]; rfl)), Split.map_way_cons]
        exact (congrArg (Option.or · _) (ite_self none)).trans (Option.none_or)
      | some cut =>
        obtain ⟨rest, rfl⟩ : ∃ rest, cs = ')' :: rest := by
          cases cs with
          | nil => cases hclose
          | cons d rest =>
            rw [Split.char?] at hclose
            split at hclose
            · rename_i hd
              exact ⟨rest, hd ▸ rfl⟩
            · cases hclose
        cases hclose
        subst hc
        rfl
    · rw [if_neg hc, throughClose?_cons (.inr hc), Split.map_way_cons]
      rfl

theorem match?_comment (cs : List Char) :
    comment.match? cs = (Split.comment? cs).map Split.way := by
  match cs with
  | [] => rfl
  | c :: cs =>
    rw [comment, match?_char_andThen]
    by_cases hc : c = '('
    · subst hc
      rw [if_pos rfl]
      match cs with
      | [] => rfl
      | d :: rest =>
        rw [match?_char_andThen, match?_throughClose]
        by_cases hd : d = '*'
        · subst hd
          rw [if_pos rfl, Split.comment?, Option.map_map, Option.map_map, Option.map_map]
          rfl
        · rw [if_neg hd, Split.comment?.eq_2]
          · rfl
          · rintro rest' ⟨⟩
            exact hd rfl
    · rw [if_neg hc, Split.comment?.eq_2]
      · rfl
      · rintro rest' ⟨⟩
        exact hc rfl

theorem rdropWhile_cons (p : Char → Bool) (c : Char) (cs : List Char) :
    (c :: cs).rdropWhile p =
      if cs.rdropWhile p = [] then (if p c then [] else [c]) else c :: cs.rdropWhile p := by
  rw [List.rdropWhile, List.rdropWhile, List.reverse_cons, List.dropWhile_append]
  cases cs.reverse.dropWhile p with
  | nil =>
    rw [if_pos (by rfl), if_pos (by rfl), List.dropWhile_cons]
    split <;> rfl
  | cons d ds => simp

/-- As much as possible of one class, but with one of a smaller class at the end: what is at the end
of the larger class and not in the smaller one is left off. -/
theorem match?_many_andThen_one {p q drop : Char → Bool} (hq : ∀ c, q c → p c)
    (hdrop : ∀ c, p c → drop c = !q c) (cs : List Char) :
    ((many p).andThen (one q)).match? cs =
      if (cs.takeWhile p).rdropWhile drop = [] then none
      else some ((cs.takeWhile p).rdropWhile drop,
        cs.drop ((cs.takeWhile p).rdropWhile drop).length) := by
  induction cs with
  | nil => rfl
  | cons c cs ih =>
    rw [match?_many_andThen, match?_one, ih]
    by_cases hc : p c
    · rw [if_pos hc, List.takeWhile_cons_of_pos hc, rdropWhile_cons, hdrop c hc]
      cases hwords : (cs.takeWhile p).rdropWhile drop with
      | nil => cases q c <;> rfl
      | cons d ds => rfl
    · rw [if_neg hc, List.takeWhile_cons_of_neg hc, if_neg fun h => hc (hq c h)]
      rfl

theorem match?_nameTail (cs : List Char) :
    ((several isNameChar).andThen (one Char.isAlphanum)).match? cs =
      if nameTail cs = [] then none else some (nameTail cs, cs.drop (nameTail cs).length) := by
  cases cs with
  | nil => rfl
  | cons c cs =>
    have hq : ∀ c : Char, c.isAlphanum → isNameChar c := fun c hc => by simp [isNameChar, hc]
    have hdrop : ∀ c : Char, isNameChar c → decide (c = ' ') = !c.isAlphanum := by
      intro c hc
      by_cases hblank : c = ' '
      · subst hblank
        rfl
      · rw [isNameChar, decide_eq_false hblank, Bool.or_false] at hc
        rw [decide_eq_false hblank, hc]
        rfl
    rw [several, match?, ways_andThen_assoc, ← match?, match?_one_andThen,
      match?_many_andThen_one hq hdrop]
    by_cases hc : isNameChar c
    · rw [if_pos hc, nameTail_eq, List.takeWhile_cons_of_pos hc, rdropWhile_cons]
      cases (cs.takeWhile isNameChar).rdropWhile (· = ' ') with
      | nil => cases decide (c = ' ') <;> rfl
      | cons d ds =>
        simp [Way.cons]
    · rw [if_neg hc, nameTail_eq, List.takeWhile_cons_of_neg hc]
      rfl

/-- Letters, then the words behind them. -/
theorem match?_name (cs : List Char) : name.match? cs = (Split.name? cs).map Split.way := by
  rw [name, Split.name?]
  cases hletters : Split.span? Char.isAlpha cs with
  | none =>
    refine match?_andThen_of_none ?_
    rw [match?_several, hletters]
    rfl
  | some letters =>
    have hfirst : (several Char.isAlpha).match? cs = some letters.way := by
      rw [match?_several, hletters]
      rfl
    rw [match?_andThen hfirst (match?_maybe _ _), match?_nameTail]
    by_cases htail : nameTail letters.rest = []
    · simp [Split.way, htail]
    · simp [Split.way, htail]

end Pattern

/-! ## The rules and their patterns -/

namespace LexicalRule

/-- A rule makes a kind of token of what a pattern matches. -/
structure Matches (r : LexicalRule) (e : Option Token.Kind × Pattern) : Prop where
  kind : r.kind = e.1
  match? (cs : List Char) : e.2.match? cs = (r.split? cs).map Split.way

/-- **The lexical rules cut off what the patterns match**, one by one. -/
theorem matches_lexicon : List.Forall₂ Matches all Pattern.lexicon := by
  have hchar (c : Char) (kind : Token.Kind) :
      (ofChar c kind).Matches (some kind, Pattern.char c) := ⟨rfl, Pattern.match?_char c⟩
  exact .cons ⟨rfl, Pattern.match?_several isBlank⟩ <| .cons ⟨rfl, Pattern.match?_comment⟩ <|
    .cons ⟨rfl, Pattern.match?_name⟩ <| .cons ⟨rfl, Pattern.match?_quoted '"'⟩ <|
    .cons ⟨rfl, Pattern.match?_quoted '\''⟩ <| .cons ⟨rfl, Pattern.match?_quoted '?'⟩ <|
    .cons (hchar _ _) <| .cons (hchar _ _) <| .cons (hchar _ _) <| .cons (hchar _ _) <|
    .cons (hchar _ _) <| .cons (hchar _ _) <| .cons (hchar _ _) <| .cons (hchar _ _) <|
    .cons (hchar _ _) <| .cons (hchar _ _) <| .cons (hchar _ _) .nil

end LexicalRule

/-! ## The first pattern that matches -/

/-- A piece in front of a text is matched by the first pattern that matches there at all. -/
def IsFirstMatch (kind : Option Token.Kind) (piece rest : List Char) : Prop :=
  ∃ before pattern behind, Pattern.lexicon = before ++ (kind, pattern) :: behind ∧
    pattern.match? (piece ++ rest) = some (piece, rest) ∧
    ∀ e ∈ before, e.2.match? (piece ++ rest) = none

/-- No pattern matches at the front of a text. -/
def NoMatch (cs : List Char) : Prop := ∀ e ∈ Pattern.lexicon, e.2.match? cs = none

theorem isFirstMatch_of_firstOf? {rules : List LexicalRule}
    {entries : List (Option Token.Kind × Pattern)}
    (h : List.Forall₂ LexicalRule.Matches rules entries) {cs : List Char}
    {kind : Option Token.Kind} {cut : Split cs}
    (hcut : LexicalRule.firstOf? cs rules = some (kind, cut)) :
    ∃ before pattern behind, entries = before ++ (kind, pattern) :: behind ∧
      pattern.match? cs = some cut.way ∧ ∀ e ∈ before, e.2.match? cs = none := by
  induction h with
  | nil => cases hcut
  | @cons r e rules entries hre _ ih =>
    obtain ⟨ekind, pattern⟩ := e
    rw [LexicalRule.firstOf?] at hcut
    split at hcut
    · rename_i found hfound
      cases hcut
      obtain rfl : r.kind = ekind := hre.kind
      have hmatch := hre.match? cs
      rw [hfound] at hmatch
      exact ⟨[], pattern, entries, rfl, hmatch, List.forall_mem_nil _⟩
    · rename_i hnone
      obtain ⟨before, pattern', behind, rfl, hmatch, hbefore⟩ := ih hcut
      refine ⟨(ekind, pattern) :: before, pattern', behind, rfl, hmatch,
        List.forall_mem_cons.2 ⟨?_, hbefore⟩⟩
      rw [hre.match?, hnone]
      rfl

/-- **What is cut off is matched by the first pattern** that matches at all. -/
theorem isFirstMatch_of_firstSplit? {cs : List Char} {kind : Option Token.Kind} {cut : Split cs}
    (h : firstSplit? cs = some (kind, cut)) : IsFirstMatch kind cut.piece cut.rest := by
  rw [IsFirstMatch, cut.piece_append_rest]
  exact isFirstMatch_of_firstOf? LexicalRule.matches_lexicon h

theorem firstOf?_eq_none {rules : List LexicalRule}
    {entries : List (Option Token.Kind × Pattern)}
    (h : List.Forall₂ LexicalRule.Matches rules entries) {cs : List Char}
    (hnone : LexicalRule.firstOf? cs rules = none) :
    ∀ e ∈ entries, e.2.match? cs = none := by
  induction h with
  | nil => exact List.forall_mem_nil _
  | @cons r e rules entries hre _ ih =>
    rw [LexicalRule.firstOf?] at hnone
    split at hnone
    · cases hnone
    · rename_i hr
      refine List.forall_mem_cons.2 ⟨?_, ih hnone⟩
      rw [hre.match?, hr]
      rfl

/-- Where nothing is cut off no pattern matches. -/
theorem noMatch_of_firstSplit? {cs : List Char} (h : firstSplit? cs = none) : NoMatch cs :=
  firstOf?_eq_none LexicalRule.matches_lexicon h

end SyntaxDiagram
