import Mathlib.Data.List.DropRight
import SyntaxDiagram.Proofs.Characters
import SyntaxDiagram.Proofs.Scanning

/-!
# Pieces of a source and what they are read as

Which values the tokens of a source can have, and that a piece with such a value is read as the same
token again, wherever it is written.

* `Token.Spelled`: the values of names, of quoted texts and of texts between question marks.
* `Scanner.Passes.spelled`: all tokens that a scanner comes to have such values.
* `Lexes`: a piece of a kind stands at the front of a text, with more text behind it.
* `lexes_name`, `lexes_terminal`, `lexes_special`, `lexes_mark`: the pieces of each kind. What stands
  behind a name must not go on with it.
* `Scanner.passes_lexeme`: a piece is read as one token, whatever blanks are in front of it.
-/

namespace SyntaxDiagram

open Text (isBlank trimList trimEnd)

/-! ## Cutting off -/

/-- What is left when the characters of a class are dropped does not start with one of them. -/
theorem head_of_prefix_dropWhile {p : Char → Bool} {piece cs : List Char}
    (h : piece <+: cs.dropWhile p) : ∀ c ∈ piece.head?, p c = false := by
  intro c hc
  obtain ⟨behind, hbehind⟩ := h
  have hnot := List.head?_dropWhile_not p cs
  rw [← hbehind, List.head?_append, Option.mem_def.1 hc] at hnot
  simpa using hnot

/-- Only what stands behind the last character of another class can be dropped from the end. -/
theorem rdropWhile_append_of_last {p : Char → Bool} {front : List Char}
    (hlast : ∀ c ∈ front.getLast?, p c = false) (more : List Char) :
    (front ++ more).rdropWhile p = front ++ more.rdropWhile p := by
  induction more using List.reverseRecOn with
  | nil =>
    simp only [List.append_nil, List.rdropWhile_nil]
    refine List.rdropWhile_eq_self_iff.2 fun hne => ?_
    simpa using hlast _ (List.getLast?_eq_some_getLast hne)
  | append_singleton more c ih =>
    rw [← List.append_assoc, List.rdropWhile_concat, List.rdropWhile_concat]
    split
    · exact ih
    · exact List.append_assoc _ _ _

namespace Split

variable {cs : List Char}

theorem rest_of_piece {piece rest : List Char} {cut : Split (piece ++ rest)}
    (h : cut.piece = piece) : cut.rest = rest :=
  List.append_cancel_left (h ▸ cut.piece_append_rest)

theorem span?_eq_some {p : Char → Bool} {cut : Split cs} (h : span? p cs = some cut) :
    cut.piece = cs.takeWhile p ∧ cut.rest = cs.dropWhile p := by
  cases cs with
  | nil => cases h
  | cons c cs =>
    rw [span?] at h
    split at h
    · rename_i hc
      cases h
      rw [List.takeWhile_cons_of_pos hc, List.dropWhile_cons_of_pos hc]
      exact ⟨rfl, rfl⟩
    · cases h

/-- A piece of a class of characters ends where the class does. -/
theorem span?_append {p : Char → Bool} {piece rest : List Char} (hne : piece ≠ [])
    (hpiece : ∀ c ∈ piece, p c) (hrest : ∀ c ∈ rest.head?, p c = false) :
    ∃ cut, span? p (piece ++ rest) = some cut ∧ cut.piece = piece ∧ cut.rest = rest := by
  have hstop : rest.takeWhile p = [] := by
    cases rest with
    | nil => rfl
    | cons c rest => exact List.takeWhile_cons_of_neg (by simp [hrest c rfl])
  have htake : (piece ++ rest).takeWhile p = piece := by
    rw [List.takeWhile_append_of_pos hpiece, hstop, List.append_nil]
  obtain ⟨cut, hcut⟩ : ∃ cut, span? p (piece ++ rest) = some cut := by
    cases piece with
    | nil => exact absurd rfl hne
    | cons c piece => exact ⟨_, if_pos (hpiece c List.mem_cons_self)⟩
  have hcutpiece := (span?_eq_some hcut).1.trans htake
  exact ⟨cut, hcut, hcutpiece, rest_of_piece hcutpiece⟩

theorem through?_eq_some {quote : Char} {cut : Split cs} (h : through? quote cs = some cut) :
    ∃ text, cut.piece = text ++ [quote] ∧ quote ∉ text := by
  induction cs with
  | nil => cases h
  | cons c cs ih =>
    rw [through?] at h
    split at h
    · rename_i hc
      cases h
      exact ⟨[], by rw [hc, List.nil_append], List.not_mem_nil⟩
    · rename_i hc
      obtain ⟨tail, htail, rfl⟩ := Option.map_eq_some_iff.1 h
      obtain ⟨text, hpiece, hmem⟩ := ih htail
      refine ⟨c :: text, congrArg (List.cons c) hpiece, fun hq => ?_⟩
      rcases List.mem_cons.1 hq with rfl | hq
      · exact hc rfl
      · exact hmem hq

theorem through?_append {quote : Char} {text : List Char} (htext : quote ∉ text)
    (rest : List Char) :
    ∃ cut, through? quote (text ++ quote :: rest) = some cut ∧ cut.piece = text ++ [quote] := by
  induction text with
  | nil => exact ⟨_, if_pos rfl, rfl⟩
  | cons c text ih =>
    obtain ⟨cut, hcut, hpiece⟩ := ih fun h => htext (List.mem_cons_of_mem c h)
    have hc : c ≠ quote := fun h => htext (h ▸ List.mem_cons_self)
    refine ⟨cut.cons c, ?_, congrArg (List.cons c) hpiece⟩
    change through? quote (c :: (text ++ quote :: rest)) = _
    rw [through?, if_neg hc, hcut]
    rfl

/-- What is cut off between two quotes. -/
theorem quoted?_eq_some {quote : Char} {cut : Split cs} (h : quoted? quote cs = some cut) :
    ∃ text, cut.piece = quote :: (text ++ [quote]) ∧ quote ∉ text := by
  cases cs with
  | nil => cases h
  | cons c cs =>
    rw [quoted?] at h
    split at h
    · rename_i hc
      obtain ⟨tail, htail, rfl⟩ := Option.map_eq_some_iff.1 h
      obtain ⟨text, hpiece, hmem⟩ := through?_eq_some htail
      refine ⟨text, ?_, hmem⟩
      change c :: tail.piece = _
      rw [hpiece, hc]
    · cases h

theorem quoted?_append {quote : Char} {text : List Char} (htext : quote ∉ text)
    (rest : List Char) :
    ∃ cut, quoted? quote (quote :: (text ++ [quote]) ++ rest) = some cut ∧
      cut.piece = quote :: (text ++ [quote]) := by
  rw [List.cons_append, List.append_assoc, List.singleton_append]
  obtain ⟨cut, hcut, hpiece⟩ := through?_append htext rest
  refine ⟨cut.cons quote, ?_, congrArg (List.cons quote) hpiece⟩
  rw [quoted?, if_pos rfl, hcut]
  rfl

end Split

/-! ## Names -/

/-- What a name consists of: letters, and perhaps more words behind them, which have at least two
characters with their blanks and do not end in a blank. -/
structure IsName (letters tail : List Char) : Prop where
  letters_ne_nil : letters ≠ []
  isAlpha : ∀ c ∈ letters, c.isAlpha
  head_tail : ∀ c ∈ tail.head?, c.isAlpha = false
  isNameChar : ∀ c ∈ tail, isNameChar c
  getLast_tail : ∀ c ∈ tail.getLast?, c ≠ ' '
  length_tail : tail = [] ∨ 2 ≤ tail.length

theorem nameTail_eq (cs : List Char) :
    nameTail cs =
      if 2 ≤ ((cs.takeWhile isNameChar).rdropWhile (· = ' ')).length then
        (cs.takeWhile isNameChar).rdropWhile (· = ' ')
      else [] := rfl

/-- The letters and the words behind them that are cut off together are a name. -/
theorem Split.name?_eq_some {cs : List Char} {cut : Split cs} (h : name? cs = some cut) :
    ∃ letters tail, cut.piece = letters ++ tail ∧ IsName letters tail := by
  rw [name?] at h
  split at h
  · cases h
  · rename_i letters hletters
    obtain ⟨hpiece, hrest⟩ := span?_eq_some hletters
    cases h
    refine ⟨letters.piece, nameTail letters.rest, rfl, letters.piece_ne_nil, ?_, ?_, ?_, ?_, ?_⟩
    · exact fun c hc => List.mem_takeWhile_imp (hpiece ▸ hc)
    · have hprefix := nameTail_isPrefix letters.rest
      rw [hrest] at hprefix ⊢
      exact head_of_prefix_dropWhile hprefix
    · intro c hc
      rw [nameTail_eq] at hc
      split at hc
      · exact List.mem_takeWhile_imp (((List.rdropWhile_prefix _ _).subset hc))
      · exact absurd hc List.not_mem_nil
    · intro c hc
      rw [nameTail_eq] at hc
      split at hc
      · have hne := List.ne_nil_of_length_pos (Nat.zero_lt_of_lt ‹2 ≤ _›)
        obtain rfl := Option.some.inj ((List.getLast?_eq_some_getLast hne).symm.trans hc)
        simpa using List.rdropWhile_last_not (· = ' ') _ hne
      · cases hc
    · rw [nameTail_eq]
      split
      · exact .inr ‹_›
      · exact .inl rfl

/-- What ends a name: a blank that nothing stands behind that could be a part of it. -/
def EndsName (rest : List Char) : Prop := ∃ c cs, rest = ' ' :: c :: cs ∧ isNameChar c = false

theorem nameTail_append {letters tail rest : List Char} (h : IsName letters tail)
    (hrest : EndsName rest) : nameTail (tail ++ rest) = tail := by
  obtain ⟨c, cs, rfl, hc⟩ := hrest
  have htake : (tail ++ ' ' :: c :: cs).takeWhile isNameChar = tail ++ [' '] := by
    rw [List.takeWhile_append_of_pos h.isNameChar, List.takeWhile_cons_of_pos (by decide),
      List.takeWhile_cons_of_neg (by simp [hc])]
  have hdrop : (tail ++ [' ']).rdropWhile (· = ' ') = tail := by
    rw [List.rdropWhile_concat_pos _ _ _ (by simp)]
    refine List.rdropWhile_eq_self_iff.2 fun hne => ?_
    simpa using h.getLast_tail _ (List.getLast?_eq_some_getLast hne)
  rw [nameTail_eq, htake, hdrop]
  rcases h.length_tail with rfl | hlength
  · rfl
  · exact if_pos hlength

theorem Split.name?_append {letters tail rest : List Char} (h : IsName letters tail)
    (hrest : EndsName rest) :
    ∃ cut, name? (letters ++ tail ++ rest) = some cut ∧ cut.piece = letters ++ tail := by
  have hstop : ∀ c ∈ (tail ++ rest).head?, c.isAlpha = false := by
    cases tail with
    | nil =>
      obtain ⟨d, ds, rfl, -⟩ := hrest
      rintro c ⟨⟩
      decide
    | cons d tail => exact h.head_tail
  obtain ⟨cut, hcut, hpiece, hbehind⟩ := span?_append h.letters_ne_nil h.isAlpha hstop
  rw [List.append_assoc, name?, hcut]
  refine ⟨_, rfl, ?_⟩
  change cut.piece ++ nameTail cut.rest = _
  rw [hpiece, hbehind, nameTail_append h hrest]

/-! ## Values of tokens -/

theorem trimEnd_eq (cs : List Char) : trimEnd cs = cs.rdropWhile isBlank := rfl

/-- Nothing is left to be trimmed. -/
theorem trimList_trimList (cs : List Char) : trimList (trimList cs) = trimList cs := by
  have hhead : (trimList cs).dropWhile isBlank = trimList cs := by
    have hnot := head_of_prefix_dropWhile (List.rdropWhile_prefix isBlank (cs.dropWhile isBlank))
    rw [← trimEnd_eq, ← trimList] at hnot
    cases htrim : trimList cs with
    | nil => rfl
    | cons c ds => exact List.dropWhile_cons_of_neg (by simp [hnot c (by rw [htrim]; rfl)])
  rw [trimList, hhead, trimEnd_eq, trimList, trimEnd_eq, List.rdropWhile_idempotent]

theorem mem_of_mem_trimList {c : Char} {cs : List Char} (h : c ∈ trimList cs) : c ∈ cs :=
  (List.dropWhile_suffix _).subset ((List.rdropWhile_prefix _ _).subset h)

/-- The values of the words that a source can have: a quoted text lacks one of the quotes, and a
text between question marks has none, and no blanks at its ends. -/
def Token.Spelled (t : Token) : Prop :=
  match t.kind with
  | .identifier => ∃ letters tail, t.value.toList = letters ++ tail ∧ IsName letters tail
  | .terminal => '"' ∉ t.value.toList ∨ '\'' ∉ t.value.toList
  | .special => '?' ∉ t.value.toList ∧ trimList t.value.toList = t.value.toList
  | _ => True

namespace LexicalRule

theorem exists_mem_of_firstOf?_eq_some {cs : List Char} {rules : List LexicalRule}
    {kind : Option Token.Kind} {cut : Split cs} (h : firstOf? cs rules = some (kind, cut)) :
    ∃ r ∈ rules, r.kind = kind ∧ r.split? cs = some cut := by
  induction rules with
  | nil => cases h
  | cons r rules ih =>
    rw [firstOf?] at h
    split at h
    · rename_i hcut
      cases h
      exact ⟨r, List.mem_cons_self, rfl, hcut⟩
    · obtain ⟨r', hr', hfound⟩ := ih h
      exact ⟨r', List.mem_cons_of_mem r hr', hfound⟩

/-- A rule applies if none before it does. -/
theorem firstOf?_append {cs : List Char} {r : LexicalRule} {before : List LexicalRule}
    {cut : Split cs} (hbefore : ∀ r' ∈ before, r'.split? cs = none) (h : r.split? cs = some cut)
    (after : List LexicalRule) : firstOf? cs (before ++ r :: after) = some (r.kind, cut) := by
  induction before with
  | nil => rw [List.nil_append, firstOf?, h]
  | cons r' before ih =>
    rw [List.cons_append, firstOf?, hbefore r' List.mem_cons_self]
    exact ih fun r'' h => hbefore r'' (List.mem_cons_of_mem r' h)

end LexicalRule

/-- Blanks are cut off first. -/
theorem firstSplit?_of_blank {cs : List Char} {cut : Split cs}
    (h : Split.span? isBlank cs = some cut) : firstSplit? cs = some (none, cut) :=
  LexicalRule.firstOf?_append (r := ⟨none, Split.span? isBlank⟩) (List.forall_mem_nil _) h
    (LexicalRule.all.drop 1)

theorem spelled_of_firstSplit? {cs : List Char} {kind : Token.Kind} {cut : Split cs}
    (h : firstSplit? cs = some (some kind, cut)) (p : Position) :
    Token.Spelled ⟨kind, kind.value cut.piece, p⟩ := by
  obtain ⟨r, hr, hkind, hcut⟩ := LexicalRule.exists_mem_of_firstOf?_eq_some h
  simp only [LexicalRule.all, LexicalRule.ofChar, List.mem_cons, List.not_mem_nil, or_false] at hr
  have hquoted {quote : Char} {piece : List Char}
      (h : ∃ text, piece = quote :: (text ++ [quote]) ∧ quote ∉ text) :
      quote ∉ piece.tail.dropLast := by
    obtain ⟨text, rfl, hmem⟩ := h
    rwa [List.tail_cons, List.dropLast_concat]
  rcases hr with rfl | rfl | rfl | rfl | rfl | rfl | hmark
  · cases hkind
  · cases hkind
  · cases hkind
    obtain ⟨letters, tail, hpiece, hname⟩ := Split.name?_eq_some hcut
    exact ⟨letters, tail, by rw [← hpiece]; exact String.toList_ofList, hname⟩
  · cases hkind
    refine .inl ?_
    change '"' ∉ (String.ofList cut.piece.tail.dropLast).toList
    rw [String.toList_ofList]
    exact hquoted (Split.quoted?_eq_some hcut)
  · cases hkind
    refine .inr ?_
    change '\'' ∉ (String.ofList cut.piece.tail.dropLast).toList
    rw [String.toList_ofList]
    exact hquoted (Split.quoted?_eq_some hcut)
  · cases hkind
    change '?' ∉ (String.ofList (trimList cut.piece.tail.dropLast)).toList ∧
      trimList (String.ofList (trimList cut.piece.tail.dropLast)).toList =
        (String.ofList (trimList cut.piece.tail.dropLast)).toList
    rw [String.toList_ofList]
    have hmem := hquoted (Split.quoted?_eq_some hcut)
    exact ⟨fun h => hmem (mem_of_mem_trimList h), trimList_trimList _⟩
  · rcases hmark with rfl | rfl | rfl | rfl | rfl | rfl | rfl | rfl | rfl | rfl | rfl <;>
      cases hkind <;> trivial

/-- **All tokens of a source** have such values. -/
theorem Scanner.Passes.spelled {s s' : Scanner} {ts : List Token} (h : s.Passes ts s') :
    ∀ t ∈ ts, t.Spelled := by
  induction h with
  | refl s => exact fun t ht => absurd ht List.not_mem_nil
  | skip h hrest ih => exact ih
  | token h hrest ih =>
    intro t ht
    rcases List.mem_cons.1 ht with rfl | ht
    · exact spelled_of_firstSplit? h _
    · exact ih t ht

theorem Scanner.Yields.spelled {s : Scanner} {ts : List Token} (h : s.Yields ts) :
    ∀ t ∈ ts, t.Spelled := by
  obtain ⟨p, hp⟩ := yields_iff.1 h
  obtain ⟨s', hpasses, -⟩ := exists_passes hp
  exact hpasses.spelled

/-! ## Pieces in a text -/

/-- A piece of a kind stands at the front of a text, with the rest behind it. -/
def Lexes (kind : Option Token.Kind) (piece rest : List Char) : Prop :=
  ∃ cut : Split (piece ++ rest), firstSplit? (piece ++ rest) = some (kind, cut) ∧ cut.piece = piece

theorem lexes_of_rule {piece rest : List Char} {r : LexicalRule} (before : List LexicalRule)
    {after : List LexicalRule} (hall : LexicalRule.all = before ++ r :: after)
    (hbefore : ∀ r' ∈ before, r'.split? (piece ++ rest) = none)
    (h : ∃ cut, r.split? (piece ++ rest) = some cut ∧ cut.piece = piece) :
    Lexes r.kind piece rest := by
  obtain ⟨cut, hcut, hpiece⟩ := h
  refine ⟨cut, ?_, hpiece⟩
  rw [firstSplit?, hall, LexicalRule.firstOf?_append hbefore hcut]

/-- Printed characters are not blank. -/
theorem isBlank_of_toNat {c : Char} (hlow : 33 ≤ c.toNat) (hhigh : c.toNat ≤ 126) :
    isBlank c = false := by
  rw [Bool.eq_false_iff]
  intro hblank
  simp only [isBlank, Bool.or_eq_true, Bool.and_eq_true, decide_eq_true_eq, Char.le_def,
    UInt32.le_iff_toNat_le] at hblank
  change ((((((((((9 ≤ c.toNat ∧ c.toNat ≤ 13) ∨ c = ' ') ∨ c = '\u0085') ∨ c = '\u00a0') ∨
    c = '\u1680') ∨ (0x2000 ≤ c.toNat ∧ c.toNat ≤ 0x200a)) ∨ c = '\u2028') ∨ c = '\u2029') ∨
    c = '\u202f') ∨ c = '\u205f') ∨ c = '\u3000' at hblank
  rcases hblank with (((((((((hblank | rfl) | rfl) | rfl) | rfl) | hblank) | rfl) | rfl) | rfl) |
    rfl) | rfl
  all_goals first | omega | exact absurd hlow (by decide) | exact absurd hhigh (by decide)

theorem isBlank_of_isAlpha {c : Char} (h : c.isAlpha) : isBlank c = false := by
  have halpha := toNat_of_isAlpha h
  exact isBlank_of_toNat (by omega) (by omega)

/-- In front of a letter no rule before that for names applies. -/
theorem LexicalRule.forall_before_name {c : Char} (hc : c.isAlpha) (cs : List Char) :
    ∀ r ∈ LexicalRule.all.take 2, r.split? (c :: cs) = none := by
  simp only [LexicalRule.all, List.take_succ_cons, List.take_zero, List.forall_mem_cons]
  refine ⟨if_neg ?_, ?_, List.forall_mem_nil _⟩
  · rw [isBlank_of_isAlpha hc]
    exact Bool.false_ne_true
  · refine Split.comment?.eq_2 _ fun cs hcs => ?_
    obtain rfl : c = '(' := (List.cons.inj hcs).1
    exact absurd hc (by decide)

theorem lexes_name {letters tail rest : List Char} (h : IsName letters tail)
    (hrest : EndsName rest) : Lexes (some .identifier) (letters ++ tail) rest := by
  refine lexes_of_rule (LexicalRule.all.take 2) rfl ?_ (Split.name?_append h hrest)
  cases letters with
  | nil => exact absurd rfl h.letters_ne_nil
  | cons c letters => exact LexicalRule.forall_before_name (h.isAlpha c List.mem_cons_self) _

theorem lexes_terminal {quote : Char} {text : List Char} (hquote : quote = '"' ∨ quote = '\'')
    (htext : quote ∉ text) (rest : List Char) :
    Lexes (some .terminal) (quote :: (text ++ [quote])) rest := by
  rcases hquote with rfl | rfl
  · refine lexes_of_rule (LexicalRule.all.take 3) rfl ?_ (Split.quoted?_append htext rest)
    simp only [LexicalRule.all, List.take_succ_cons, List.take_zero, List.forall_mem_cons]
    exact ⟨rfl, rfl, rfl, List.forall_mem_nil _⟩
  · refine lexes_of_rule (LexicalRule.all.take 4) rfl ?_ (Split.quoted?_append htext rest)
    simp only [LexicalRule.all, List.take_succ_cons, List.take_zero, List.forall_mem_cons]
    exact ⟨rfl, rfl, rfl, rfl, List.forall_mem_nil _⟩

theorem lexes_special {text : List Char} (htext : '?' ∉ text) (rest : List Char) :
    Lexes (some .special) ('?' :: (text ++ ['?'])) rest := by
  refine lexes_of_rule (LexicalRule.all.take 5) rfl ?_ (Split.quoted?_append htext rest)
  simp only [LexicalRule.all, List.take_succ_cons, List.take_zero, List.forall_mem_cons]
  exact ⟨rfl, rfl, rfl, rfl, rfl, List.forall_mem_nil _⟩

/-- The character of a kind of token that is always the same character. -/
def Token.Kind.mark? : Token.Kind → Option Char
  | equals => some '='
  | comma => some ','
  | pipe => some '|'
  | semicolon => some ';'
  | period => some '.'
  | openParen => some '('
  | closeParen => some ')'
  | openBracket => some '['
  | closeBracket => some ']'
  | openBrace => some '\x7b'
  | closeBrace => some '\x7d'
  | identifier | terminal | special => none

/-- In front of a blank there is no comment. -/
theorem lexes_mark (kind : Token.Kind) {c blank : Char} (hkind : kind.mark? = some c)
    (hblank : blank = ' ' ∨ blank = '\n') (rest : List Char) :
    Lexes (some kind) [c] (blank :: rest) := by
  rcases hblank with rfl | rfl <;> cases kind <;> cases hkind <;> exact ⟨_, rfl, rfl⟩

namespace Scanner

/-- What can be read starts with no blank. -/
theorem not_isBlank_of_lexes {kind : Token.Kind} {piece rest : List Char}
    (h : Lexes (some kind) piece rest) : ∀ c ∈ (piece ++ rest).head?, isBlank c = false := by
  obtain ⟨cut, hcut, -⟩ := h
  generalize piece ++ rest = cs at cut
  intro c hc
  cases cs with
  | nil => cases hc
  | cons d cs =>
    obtain rfl : d = c := Option.some.inj hc
    rw [Bool.eq_false_iff]
    intro hblank
    obtain ⟨skip, hskip⟩ : ∃ skip, Split.span? isBlank (d :: cs) = some skip :=
      ⟨_, if_pos hblank⟩
    cases (firstSplit?_of_blank hskip).symm.trans hcut

/-- Blanks in front of a text are passed over. -/
theorem passes_gap {gap cs : List Char} (hgap : ∀ c ∈ gap, isBlank c)
    (hcs : ∀ c ∈ cs.head?, isBlank c = false) (p : Position) :
    ∃ q, Passes ⟨gap ++ cs, p⟩ [] ⟨cs, q⟩ := by
  by_cases hne : gap = []
  · exact ⟨p, hne ▸ .refl _⟩
  · obtain ⟨cut, hcut, -, hrest⟩ := Split.span?_append hne hgap hcs
    refine ⟨p.advance cut.piece, .skip (firstSplit?_of_blank hcut) ?_⟩
    rw [past, hrest]
    exact .refl _

/-- **A piece is read as one token**, whatever blanks are in front of it. -/
theorem passes_lexeme {kind : Token.Kind} {gap piece rest : List Char}
    (hgap : ∀ c ∈ gap, isBlank c) (h : Lexes (some kind) piece rest) (p : Position) :
    ∃ t q, t.kind = kind ∧ t.value = kind.value piece ∧
      Passes ⟨gap ++ (piece ++ rest), p⟩ [t] ⟨rest, q⟩ := by
  obtain ⟨q, hpasses⟩ := passes_gap hgap (not_isBlank_of_lexes h) p
  obtain ⟨cut, hcut, hpiece⟩ := h
  have htoken : Passes ⟨piece ++ rest, q⟩ [⟨kind, kind.value cut.piece, q⟩]
      (past ⟨piece ++ rest, q⟩ cut) := .token hcut (.refl _)
  rw [past, Split.rest_of_piece hpiece, hpiece] at htoken
  exact ⟨_, q.advance piece, rfl, rfl, hpasses.trans htoken⟩

/-- A mark between two blanks. -/
theorem passes_mark (kind : Token.Kind) {c blank : Char} (hkind : kind.mark? = some c)
    (hblank : blank = ' ' ∨ blank = '\n') (rest : List Char) (p : Position) :
    ∃ t q, t.kind = kind ∧ Passes ⟨' ' :: c :: blank :: rest, p⟩ [t] ⟨blank :: rest, q⟩ := by
  have hgap : ∀ c ∈ [' '], isBlank c := List.forall_mem_singleton.2 (by decide)
  obtain ⟨t, q, ht, -, hpasses⟩ := passes_lexeme hgap (lexes_mark kind hkind hblank rest) p
  exact ⟨t, q, ht, hpasses⟩

end Scanner
end SyntaxDiagram
