import SyntaxDiagram.Proofs.Lexemes

/-!
# How much of a name is read

A name may go on behind its first letters with digits and with blanks between words. What is read at
once are the letters and what goes on behind them if that has more than one character. So a name is
read as a whole unless it consists of letters and a single digit.

* `IsLongestWords`: the longest name that stands at the front of a text.
* `Split.name?_isLongestWords`: what is cut off is that, or lacks a last digit.
* `Scanner.next_whole_iff`: which names are read as a whole.
* `Scanner.stuck_of_single_digit`: the digit that is left is a stray character, and the source cannot
  be read.
-/

namespace SyntaxDiagram

open Text (isBlank)

/-! ## Words -/

/-- Letters, digits and blanks that end in a letter or a digit. -/
structure IsWords (text : List Char) : Prop where
  isNameChar : ∀ c ∈ text, isNameChar c
  last : ∃ c ∈ text.getLast?, c.isAlphanum

/-- The longest words at the front of a text. -/
structure IsLongestWords (cs words : List Char) : Prop where
  isPrefix : words <+: cs
  isWords : IsWords words
  longest : ∀ others, others <+: cs → IsWords others → others <+: words

/-- A text has one name at its front. -/
theorem IsLongestWords.eq {cs words others : List Char} (h : IsLongestWords cs words)
    (h' : IsLongestWords cs others) : words = others := by
  have hle := h'.longest words h.isPrefix h.isWords
  have hge := h.longest others h'.isPrefix h'.isWords
  exact hle.eq_of_length_le hge.length_le

/-- The characters that can be a part of a name, up to the last one that is not blank. -/
def wordsOf (cs : List Char) : List Char := (cs.takeWhile isNameChar).rdropWhile (· = ' ')

theorem wordsOf_isPrefix (cs : List Char) : wordsOf cs <+: cs :=
  (List.rdropWhile_prefix _ _).trans (List.takeWhile_prefix _)

theorem isNameChar_of_mem_wordsOf {c : Char} {cs : List Char} (h : c ∈ wordsOf cs) :
    isNameChar c :=
  List.mem_takeWhile_imp ((List.rdropWhile_prefix _ _).subset h)

theorem isAlphanum_of_isNameChar {c : Char} (h : isNameChar c) (hc : c ≠ ' ') : c.isAlphanum := by
  simpa [isNameChar, hc] using h

theorem last_isNot_blank {words : List Char} (h : IsWords words) :
    ∀ c ∈ words.getLast?, decide (c = ' ') = false := by
  obtain ⟨d, hd, halpha⟩ := h.last
  intro c hc
  obtain rfl := Option.mem_unique hd hc
  refine decide_eq_false ?_
  rintro rfl
  exact absurd halpha (by decide)

/-- **The longest words of a text.** -/
theorem isLongestWords_wordsOf {cs : List Char} (hne : wordsOf cs ≠ []) :
    IsLongestWords cs (wordsOf cs) := by
  refine ⟨wordsOf_isPrefix cs, ⟨fun c hc => isNameChar_of_mem_wordsOf hc, ?_⟩, ?_⟩
  · have hlast := List.rdropWhile_last_not (· = ' ') (cs.takeWhile isNameChar) hne
    rw [decide_eq_true_eq] at hlast
    refine ⟨_, List.getLast?_eq_some_getLast hne, isAlphanum_of_isNameChar ?_ hlast⟩
    exact isNameChar_of_mem_wordsOf (List.getLast_mem hne)
  · rintro others ⟨behind, rfl⟩ hothers
    -- they are not longer than all characters that can be a part of a name
    rw [wordsOf, List.takeWhile_append_of_pos hothers.isNameChar,
      rdropWhile_append_of_last (last_isNot_blank hothers)]
    exact List.prefix_append _ _

/-! ## Names -/

/-- Behind letters words go on as they do without the letters. -/
theorem wordsOf_append {letters : List Char} (h : ∀ c ∈ letters, c.isAlpha) (cs : List Char) :
    wordsOf (letters ++ cs) = letters ++ wordsOf cs := by
  have hpart : ∀ c ∈ letters, isNameChar c := by
    intro c hc
    simp [isNameChar, Char.isAlphanum, h c hc]
  have hlast : ∀ c ∈ letters.getLast?, decide (c = ' ') = false := by
    intro c hc
    refine decide_eq_false ?_
    rintro rfl
    exact absurd (h ' ' (List.mem_of_getLast? hc)) (by decide)
  rw [wordsOf, List.takeWhile_append_of_pos hpart, rdropWhile_append_of_last hlast, wordsOf]

theorem nameTail_eq_wordsOf (cs : List Char) :
    nameTail cs = if 2 ≤ (wordsOf cs).length then wordsOf cs else [] := rfl

/-- Words that are a single character behind all letters are a digit. -/
theorem isDigit_of_wordsOf {d : Char} {cs : List Char}
    (h : wordsOf (cs.dropWhile Char.isAlpha) = [d]) : d.isDigit := by
  have hwords := isLongestWords_wordsOf (h ▸ List.cons_ne_nil d [])
  rw [h] at hwords
  obtain ⟨c, hc, halphanum⟩ := hwords.isWords.last
  obtain rfl : d = c := Option.some.inj hc
  have hletter := head_of_prefix_dropWhile hwords.isPrefix d rfl
  simpa [Char.isAlphanum, hletter] using halphanum

/-- A name of letters and a single digit. -/
def LettersAndDigit (words : List Char) : Prop :=
  ∃ letters d, words = letters ++ [d] ∧ (∀ c ∈ letters, c.isAlpha) ∧ d.isDigit

/-- A name that is read goes on behind its first letters with more than a digit. -/
theorem IsName.not_lettersAndDigit {letters tail : List Char} (h : IsName letters tail) :
    ¬ LettersAndDigit (letters ++ tail) := by
  rintro ⟨front, d, hsplit, hfront, hd⟩
  cases tail with
  | nil =>
    have hmem : d ∈ letters := by
      rw [List.append_nil] at hsplit
      simp [hsplit]
    have halpha := toNat_of_isAlpha (h.isAlpha d hmem)
    have hdigit := toNat_of_isDigit hd
    omega
  | cons e more =>
    cases more with
    | nil => simpa using h.length_tail
    | cons f more =>
      -- the first character that is not a letter is not the last one
      have hdrop := congrArg List.dropLast hsplit
      rw [List.dropLast_concat, List.dropLast_append_cons, List.dropLast_cons_cons] at hdrop
      have hletter := hfront e (by simp [← hdrop])
      simp [h.head_tail e rfl] at hletter

/-- **What is cut off as a name** are the longest words, or they are letters and a digit, and the
letters are cut off. -/
theorem Split.name?_isLongestWords {cs : List Char} {cut : Split cs} (h : name? cs = some cut) :
    IsLongestWords cs cut.piece ∧ ¬ LettersAndDigit cut.piece ∨
      ∃ d, d.isDigit ∧ (∀ c ∈ cut.piece, c.isAlpha) ∧ cut.rest.head? = some d ∧
        IsLongestWords cs (cut.piece ++ [d]) := by
  have hname : ¬ LettersAndDigit cut.piece := by
    obtain ⟨letters, tail, hpiece, hname⟩ := name?_eq_some h
    exact hpiece ▸ hname.not_lettersAndDigit
  refine (?_ : _ ∨ _).imp_left fun hlongest => ⟨hlongest, hname⟩
  rw [name?] at h
  split at h
  · cases h
  · rename_i letters hletters
    obtain ⟨hpiece, hrest⟩ := span?_eq_some hletters
    have halpha : ∀ c ∈ letters.piece, c.isAlpha := by
      rw [hpiece]
      exact fun c hc => List.mem_takeWhile_imp hc
    have hwords : wordsOf cs = letters.piece ++ wordsOf letters.rest := by
      rw [← wordsOf_append halpha, letters.piece_append_rest]
    have hlongest : IsLongestWords cs (letters.piece ++ wordsOf letters.rest) := by
      rw [← hwords]
      exact isLongestWords_wordsOf (by simp [hwords, letters.piece_ne_nil])
    obtain rfl := Option.some.inj h
    change IsLongestWords cs (letters.piece ++ nameTail letters.rest) ∨
      ∃ d, d.isDigit ∧ (∀ c ∈ letters.piece ++ nameTail letters.rest, c.isAlpha) ∧
        (letters.rest.drop (nameTail letters.rest).length).head? = some d ∧
          IsLongestWords cs (letters.piece ++ nameTail letters.rest ++ [d])
    rw [nameTail_eq_wordsOf]
    -- by how many characters the words go on behind the letters
    cases hmore : wordsOf letters.rest with
    | nil =>
      rw [hmore] at hlongest
      exact .inl hlongest
    | cons d more =>
      rw [hmore] at hlongest
      cases more with
      | nil =>
        obtain ⟨behind, hbehind⟩ := wordsOf_isPrefix letters.rest
        rw [hmore] at hbehind
        refine .inr ⟨d, isDigit_of_wordsOf (hrest ▸ hmore), ?_, ?_, ?_⟩
        · simpa using halpha
        · simp [← hbehind]
        · simpa using hlongest
      | cons e more => exact .inl hlongest

/-! ## Scanners -/

/-- Nothing can be cut off in front of a digit. -/
theorem firstSplit?_of_isDigit {d : Char} (hd : d.isDigit) (cs : List Char) :
    firstSplit? (d :: cs) = none := by
  have hne {c : Char} (hc : c.isDigit = false) : d ≠ c := by
    rintro rfl
    exact absurd hd (by simp [hc])
  have hrange := toNat_of_isDigit hd
  have hblank : isBlank d = false := isBlank_of_toNat (by omega) (by omega)
  have halpha : d.isAlpha = false := by
    rw [Bool.eq_false_iff]
    intro h
    have := toNat_of_isAlpha h
    omega
  have hcomment : Split.comment? (d :: cs) = none := by
    refine Split.comment?.eq_2 _ fun rest hrest => ?_
    exact hne (c := '(') rfl (List.cons.inj hrest).1
  simp [firstSplit?, LexicalRule.all, LexicalRule.firstOf?, LexicalRule.ofChar, Split.span?,
    Split.name?, Split.quoted?, Split.char?, hblank, halpha, hcomment, hne]

namespace Scanner

variable {s : Scanner} {c : Char} {cs : List Char} (hs : s.rest = c :: cs) (hc : c.isAlpha)
include hs hc

/-- **In front of a letter a name is read.** The name is whole, or a digit is left of it, which is a
stray character. -/
theorem next_name :
    ∃ cut : Split s.rest,
      s.next = (.token ⟨.identifier, String.ofList cut.piece, s.position⟩, s.past cut) ∧
        (IsLongestWords s.rest cut.piece ∧ ¬ LettersAndDigit cut.piece ∨
          ∃ d, d.isDigit ∧ (∀ c ∈ cut.piece, c.isAlpha) ∧ IsLongestWords s.rest (cut.piece ++ [d]) ∧
            (s.past cut).next =
              (.error ⟨.strayCharacter d, (s.past cut).position⟩, s.past cut)) := by
  obtain ⟨rest, position⟩ := s
  obtain rfl : rest = c :: cs := hs
  obtain ⟨cut, hcut⟩ : ∃ cut, Split.name? (c :: cs) = some cut := by
    rw [Split.name?, Split.span?, if_pos hc]
    exact ⟨_, rfl⟩
  have hfirst : firstSplit? (c :: cs) = some (some .identifier, cut) :=
    LexicalRule.firstOf?_append (r := ⟨some .identifier, Split.name?⟩)
      (LexicalRule.forall_before_name hc cs) hcut (LexicalRule.all.drop 3)
  refine ⟨cut, next_of_token hfirst, ?_⟩
  rcases Split.name?_isLongestWords hcut with hwhole | ⟨d, hd, hletters, hleft, hwords⟩
  · exact .inl hwhole
  · obtain ⟨behind, hbehind⟩ := List.head?_eq_some_iff.1 hleft
    refine .inr ⟨d, hd, hletters, hwords, next_of_stray hbehind ?_⟩
    change firstSplit? cut.rest = none
    rw [hbehind]
    exact firstSplit?_of_isDigit hd behind

/-- **A name is read as a whole if and only if it is not letters and a single digit.** -/
theorem next_whole_iff {words : List Char} (hwords : IsLongestWords s.rest words) :
    (∃ s', s.next = (.token ⟨.identifier, String.ofList words, s.position⟩, s')) ↔
      ¬ LettersAndDigit words := by
  obtain ⟨cut, hnext, hcut⟩ := next_name hs hc
  rcases hcut with ⟨hwhole, hnot⟩ | ⟨d, hd, hletters, hlongest, -⟩
  · obtain rfl := hwords.eq hwhole
    exact ⟨fun _ => hnot, fun _ => ⟨_, hnext⟩⟩
  · obtain rfl := hwords.eq hlongest
    refine ⟨?_, fun hnot => absurd ⟨cut.piece, d, rfl, hletters, hd⟩ hnot⟩
    rintro ⟨s', hs'⟩
    have hvalue := congrArg Token.value (Event.token.inj (congrArg Prod.fst (hnext.symm.trans hs')))
    have hlist := congrArg String.toList hvalue
    simp only [String.toList_ofList] at hlist
    simp at hlist

/-- **The digit behind the letters cannot be read.** -/
theorem stuck_of_single_digit {letters : List Char} {d : Char} (hletters : ∀ c ∈ letters, c.isAlpha)
    (hd : d.isDigit) (hwords : IsLongestWords s.rest (letters ++ [d])) :
    Tokens.ofScanner s = .token ⟨.identifier, String.ofList letters, s.position⟩
      (.stuck ⟨.strayCharacter d, s.position.advance letters⟩) := by
  obtain ⟨cut, hnext, hcut⟩ := next_name hs hc
  rcases hcut with ⟨hwhole, hnot⟩ | ⟨e, -, -, hlongest, hstray⟩
  · exact absurd ⟨letters, d, hwhole.eq hwords, hletters, hd⟩ hnot
  · obtain ⟨hpiece, hlast⟩ := List.append_inj' (hlongest.eq hwords) rfl
    obtain rfl : e = d := List.singleton_inj.1 hlast
    rw [Tokens.ofScanner_token hnext, Tokens.ofScanner_stuck hstray, ← hpiece]
    rfl

/-- A letter and a digit: the digit is left over. -/
example : Tokens.ofString "a1" =
    .token ⟨.identifier, "a", ⟨1, 1⟩⟩ (.stuck ⟨.strayCharacter '1', ⟨1, 2⟩⟩) := by decide +kernel

end Scanner
end SyntaxDiagram
