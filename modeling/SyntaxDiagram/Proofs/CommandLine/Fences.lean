import SyntaxDiagram.CommandLine.Fences
import SyntaxDiagram.Proofs.Lexemes

/-!
# Grammars among other text

Grammars that are written between fences into a text are read off it again if their fences have
three marks. Longer fences open a grammar as well, but a line that is as long does not close it: the
grammar goes on with that line up to the next fence of three marks, or is lost.

* `Fences.IsWritten`: how lines make up a text. `Fences.lines_eq`: they are its lines.
* `Fences.Block`, `Fences.Document`: grammars between fences, and other lines around them.
* `Fences.outside_block`, `Fences.outside_long_block`: what comes of one grammar.
* `Fences.blocks_eq_contents_iff`: what comes of a text.
-/

namespace SyntaxDiagram.CommandLine.Fences

open Text (isBlank trimList trimEnd)

/-! ## Lines -/

/-- What can stand on a line. -/
structure IsLine (line : List Char) : Prop where
  newline : '\n' ∉ line
  return_ : line.getLast? ≠ some '\r'

instance (line : List Char) : Decidable (IsLine line) :=
  decidable_of_iff ('\n' ∉ line ∧ line.getLast? ≠ some '\r')
    ⟨fun h => ⟨h.1, h.2⟩, fun h => ⟨h.newline, h.return_⟩⟩

/-- A text consists of lines. The last one may lack an end. -/
inductive IsWritten : List (List Char) → List Char → Prop
  | nil : IsWritten [] []
  | last {line : List Char} (hne : line ≠ []) : IsWritten [line] line
  | newline (line : List Char) {rest : List (List Char)} {text : List Char}
      (hrest : IsWritten rest text) : IsWritten (line :: rest) (line ++ '\n' :: text)
  | return_ (line : List Char) {rest : List (List Char)} {text : List Char}
      (hrest : IsWritten rest text) : IsWritten (line :: rest) (line ++ '\r' :: '\n' :: text)

theorem dropReturn_eq {line : List Char} (h : line.getLast? ≠ some '\r') :
    dropReturn line = line := if_neg h

theorem dropReturn_concat (line : List Char) : dropReturn (line ++ ['\r']) = line := by
  rw [dropReturn, if_pos List.getLast?_concat, List.dropLast_concat]

/-- A line is read up to its end. -/
theorem linesFrom_append {line : List Char} (h : '\n' ∉ line) (sofar rest : List Char) :
    linesFrom sofar (line ++ '\n' :: rest) =
      dropReturn (sofar.reverse ++ line) :: linesFrom [] rest := by
  induction line generalizing sofar with
  | nil => rw [List.nil_append, List.append_nil, linesFrom]
  | cons c line ih =>
    obtain ⟨hc, hline⟩ := not_or.1 (List.mem_cons.not.1 h)
    rw [List.cons_append, linesFrom.eq_3 _ _ _ fun heq => hc heq.symm, ih hline]
    simp

theorem linesFrom_last {line : List Char} (h : '\n' ∉ line) (sofar : List Char)
    (hne : sofar ≠ [] ∨ line ≠ []) : linesFrom sofar line = [sofar.reverse ++ line] := by
  induction line generalizing sofar with
  | nil =>
    rw [linesFrom, if_neg (by simpa using hne), List.append_nil]
  | cons c line ih =>
    obtain ⟨hc, hline⟩ := not_or.1 (List.mem_cons.not.1 h)
    rw [linesFrom.eq_3 _ _ _ fun heq => hc heq.symm, ih hline _ (.inl (List.cons_ne_nil _ _))]
    simp

/-- **The lines of a text are those it is written in.** -/
theorem lines_eq {ls : List (List Char)} {text : String} (h : IsWritten ls text.toList)
    (hls : ∀ line ∈ ls, IsLine line) : lines text = ls := by
  rw [lines]
  generalize text.toList = cs at h
  induction h with
  | nil => rfl
  | last hne => exact linesFrom_last (hls _ List.mem_cons_self).newline [] (.inr hne)
  | newline line hrest ih =>
    obtain ⟨hline, hothers⟩ := List.forall_mem_cons.1 hls
    rw [linesFrom_append hline.newline, ih hothers]
    exact congrArg (· :: _) (dropReturn_eq hline.return_)
  | @return_ line rest text hrest ih =>
    obtain ⟨hline, hothers⟩ := List.forall_mem_cons.1 hls
    have hnewline : '\n' ∉ line ++ ['\r'] := by simpa using hline.newline
    rw [List.append_cons, linesFrom_append hnewline, ih hothers]
    exact congrArg (· :: _) (dropReturn_concat line)

/-! ## Fences -/

/-- A grammar between two fences. -/
structure Block where
  mark : Char
  /-- the number of marks in each fence -/
  count : Nat
  opening : List Char
  content : List (List Char)
  closing : List Char

namespace Block

/-- All lines of a block. -/
def lines (b : Block) : List (List Char) := b.opening :: (b.content ++ [b.closing])

/-- A block is written as such: up to blanks at their ends, the first line consists of marks and the
name of the notation, perhaps with more behind it, and the last line of as many marks. No other line
consists of three marks or more. -/
structure Sound (b : Block) : Prop where
  mark : b.mark ∈ marks
  count : 3 ≤ b.count
  opening : ∃ gap info, (∀ c ∈ gap, isBlank c) ∧
    trimList b.opening = List.replicate b.count b.mark ++ (gap ++ ("ebnf".toList ++ info))
  content : ∀ line ∈ b.content, ∀ n, 3 ≤ n → trimList line ≠ List.replicate n b.mark
  closing : trimList b.closing = List.replicate b.count b.mark

end Block

theorem isBlank_of_mem_marks {mark : Char} (h : mark ∈ marks) : isBlank mark = false := by
  rcases List.mem_pair.1 h with rfl | rfl <;> decide

theorem isBlank_last_trimList (line : List Char) :
    ∀ c ∈ (trimList line).getLast?, isBlank c = false := by
  intro c hc
  rw [trimList, trimEnd_eq] at hc
  have hne := List.ne_nil_of_mem (List.mem_of_getLast? hc)
  obtain rfl := Option.some.inj ((List.getLast?_eq_some_getLast hne).symm.trans hc)
  simpa using List.rdropWhile_last_not isBlank _ hne

/-- **What closes a grammar** are three marks, and nothing else but blanks around them. -/
theorem closes_iff {mark : Char} {line : List Char} :
    closes mark (trimList line) ↔ trimList line = fence mark := by
  rw [closes, Bool.and_eq_true, List.isPrefixOf_iff_prefix, List.all_eq_true]
  constructor
  · rintro ⟨⟨behind, hbehind⟩, hblank⟩
    have hdrop : (trimList line).drop 3 = behind := by
      rw [← hbehind]
      rfl
    rw [← hbehind]
    rw [hdrop] at hblank
    -- a blank behind the marks would be the last character
    cases hlast : behind.getLast? with
    | none => rw [List.getLast?_eq_none_iff.1 hlast, List.append_nil]
    | some c =>
      have hend := isBlank_last_trimList line c (by simp [← hbehind, hlast])
      have hc := hblank c (List.mem_of_getLast? hlast)
      simp [hend] at hc
  · intro h
    rw [h]
    exact ⟨List.prefix_rfl, by simp [fence]⟩

/-- Blanks in front of the name of the notation do not hide it. -/
theorem isPrefix_trimList_gap {gap info : List Char} (hgap : ∀ c ∈ gap, isBlank c) :
    "ebnf".toList <+: trimList (gap ++ ("ebnf".toList ++ info)) := by
  have hdrop : (gap ++ ("ebnf".toList ++ info)).dropWhile isBlank = "ebnf".toList ++ info := by
    rw [List.dropWhile_append_of_pos hgap]
    rfl
  have hlast : ∀ c ∈ "ebnf".toList.getLast?, isBlank c = false := by
    intro c hc
    obtain rfl : 'f' = c := Option.some.inj hc
    rfl
  rw [trimList, hdrop, trimEnd_eq, rdropWhile_append_of_last hlast]
  exact List.prefix_append _ _

/-- Three marks or more begin with three. -/
theorem exists_replicate_eq_fence_append (mark : Char) {count : Nat} (hcount : 3 ≤ count) :
    ∃ more, List.replicate count mark = fence mark ++ more := by
  obtain ⟨more, rfl⟩ := Nat.exists_eq_add_of_le hcount
  exact ⟨List.replicate more mark, List.replicate_append_replicate.symm⟩

/-- **What opens a grammar** are three marks or more in front of the name of the notation. -/
theorem opening?_eq {mark : Char} (hmark : mark ∈ marks) {count : Nat} (hcount : 3 ≤ count)
    {gap : List Char} (hgap : ∀ c ∈ gap, isBlank c) (info : List Char) :
    opening? (List.replicate count mark ++ (gap ++ ("ebnf".toList ++ info))) = some mark := by
  have hstop : (gap ++ ("ebnf".toList ++ info)).dropWhile (· = mark) =
      gap ++ ("ebnf".toList ++ info) := by
    have hblank := isBlank_of_mem_marks hmark
    cases gap with
    | nil =>
      refine List.dropWhile_cons_of_neg ?_
      rcases List.mem_pair.1 hmark with rfl | rfl <;> decide
    | cons c gap =>
      refine List.dropWhile_cons_of_neg ?_
      rw [decide_eq_true_eq]
      rintro rfl
      simp [hgap c List.mem_cons_self] at hblank
  have hopens : ((fence mark).isPrefixOf
      (List.replicate count mark ++ (gap ++ ("ebnf".toList ++ info))) &&
        "ebnf".toList.isPrefixOf (trimList ((List.replicate count mark ++
          (gap ++ ("ebnf".toList ++ info))).dropWhile (· = mark)))) = true := by
    rw [List.dropWhile_append_of_pos (by simp), hstop, Bool.and_eq_true,
      List.isPrefixOf_iff_prefix, List.isPrefixOf_iff_prefix]
    refine ⟨?_, isPrefix_trimList_gap hgap⟩
    obtain ⟨more, hmarks⟩ := exists_replicate_eq_fence_append mark hcount
    rw [hmarks, List.append_assoc]
    exact List.prefix_append _ _
  rcases List.mem_pair.1 hmark with rfl | rfl
  · exact List.find?_cons_of_pos hopens
  · -- tildes are not backticks
    have hother : (fence '\x60').isPrefixOf
        (List.replicate count '~' ++ (gap ++ ("ebnf".toList ++ info))) = false := by
      obtain ⟨more, hmarks⟩ := exists_replicate_eq_fence_append '~' hcount
      rw [hmarks]
      rfl
    simp only [opening?, marks, List.find?_cons, hother, Bool.false_and, hopens]

/-! ## Blocks -/

/-- Lines around the grammars are passed over. -/
theorem outside_append {prose : List (List Char)}
    (h : ∀ line ∈ prose, opening? (trimList line) = none) (rest : List (List Char)) :
    outside (prose ++ rest) = outside rest := by
  induction prose with
  | nil => rfl
  | cons line prose ih =>
    obtain ⟨hline, hothers⟩ := List.forall_mem_cons.1 h
    rw [List.cons_append, outside, hline]
    exact ih hothers

/-- Lines of a grammar are kept. -/
theorem inside_append {mark : Char} {content : List (List Char)}
    (h : ∀ line ∈ content, closes mark (trimList line) = false) (sofar rest : List (List Char)) :
    inside mark sofar (content ++ rest) = inside mark (sofar ++ content) rest := by
  induction content generalizing sofar with
  | nil => rw [List.nil_append, List.append_nil]
  | cons line content ih =>
    obtain ⟨hline, hothers⟩ := List.forall_mem_cons.1 h
    rw [List.cons_append, inside, hline, if_neg Bool.false_ne_true, ih hothers]
    simp

/-- The lines so far are a part of the grammar that is read next. -/
theorem head_inside (mark : Char) (sofar ls : List (List Char)) :
    ∀ grammar ∈ (inside mark sofar ls).head?, ∃ more, grammar = joinLines (sofar ++ more) := by
  induction ls generalizing sofar with
  | nil => exact fun grammar h => absurd h (Option.not_mem_none grammar)
  | cons line ls ih =>
    rw [inside]
    split
    · rintro grammar hgrammar
      obtain rfl := Option.some.inj hgrammar
      exact ⟨[], by rw [List.append_nil]⟩
    · intro grammar hgrammar
      obtain ⟨more, hmore⟩ := ih _ grammar hgrammar
      exact ⟨line :: more, by rw [hmore, List.append_assoc, List.singleton_append]⟩

theorem length_intercalate_le (sep line : List Char) (front more : List (List Char)) :
    (List.intercalate sep front).length + line.length ≤
      (List.intercalate sep (front ++ line :: more)).length := by
  induction front with
  | nil =>
    cases more with
    | nil => simp [List.intercalate_singleton]
    | cons next more => simp [List.intercalate_cons_cons]
  | cons first front ih =>
    cases front with
    | nil =>
      rw [List.nil_append, List.intercalate_nil, List.length_nil] at ih
      rw [List.intercalate_singleton, List.cons_append, List.nil_append,
        List.intercalate_cons_cons, List.length_append, List.length_append]
      omega
    | cons second front =>
      rw [List.cons_append] at ih
      simp only [List.cons_append, List.intercalate_cons_cons, List.length_append]
      omega

/-- A grammar with more lines, one of which is not empty, is another one. -/
theorem joinLines_append_ne {line : List Char} (hne : line ≠ []) (front more : List (List Char)) :
    joinLines (front ++ line :: more) ≠ joinLines front := by
  intro heq
  have hlength := length_intercalate_le ['\n'] line front more
  have hpos := List.length_pos_iff.2 hne
  have hsame := congrArg List.length (String.ofList_injective heq)
  omega

namespace Block

variable {b : Block} (h : b.Sound)
include h

theorem Sound.closing_ne_nil : b.closing ≠ [] := by
  intro hnil
  have hclosing := h.closing
  have hcount := h.count
  rw [hnil] at hclosing
  have hlength := congrArg List.length hclosing
  rw [List.length_replicate] at hlength
  change 0 = b.count at hlength
  omega

/-- What the first line and the others of a grammar come to. -/
theorem Sound.outside_lines (rest : List (List Char)) :
    outside (b.lines ++ rest) = inside b.mark b.content (b.closing :: rest) := by
  obtain ⟨gap, info, hgap, hopening⟩ := h.opening
  have hopens : opening? (trimList b.opening) = some b.mark := by
    rw [hopening]
    exact opening?_eq h.mark h.count hgap info
  have hcontent : ∀ line ∈ b.content, closes b.mark (trimList line) = false := by
    intro line hline
    rw [Bool.eq_false_iff, ne_eq, closes_iff]
    exact h.content line hline 3 (le_refl 3)
  rw [lines, List.cons_append, outside, hopens, List.append_assoc, List.singleton_append]
  exact inside_append hcontent [] _

/-- **A grammar between three marks is read.** -/
theorem Sound.outside_block (hcount : b.count = 3) (rest : List (List Char)) :
    outside (b.lines ++ rest) = joinLines b.content :: outside rest := by
  have hcloses : closes b.mark (trimList b.closing) := by
    rw [closes_iff, h.closing, hcount, fence]
  rw [h.outside_lines, inside, if_pos hcloses]

/-- **A longer fence does not close a grammar**: the first one that is read goes on with the fence. -/
theorem Sound.outside_long_block (hcount : b.count ≠ 3) (rest : List (List Char)) :
    ∀ grammar ∈ (outside (b.lines ++ rest)).head?,
      ∃ more, grammar = joinLines (b.content ++ b.closing :: more) := by
  have hopen : ¬ closes b.mark (trimList b.closing) := by
    rw [closes_iff, h.closing, fence]
    intro heq
    exact hcount (by simpa using congrArg List.length heq)
  rw [h.outside_lines, inside, if_neg hopen]
  intro grammar hgrammar
  obtain ⟨more, hmore⟩ := head_inside b.mark _ rest grammar hgrammar
  exact ⟨more, by rw [hmore, List.append_assoc, List.singleton_append]⟩

end Block

/-! ## Documents -/

/-- Grammars among other lines. -/
structure Document where
  /-- the lines in front of each grammar and the grammar -/
  sections : List (List (List Char) × Block)
  /-- the lines behind the last grammar -/
  behind : List (List Char)

namespace Document

/-- All lines of a document. -/
def lines (d : Document) : List (List Char) :=
  d.sections.flatMap (fun part => part.1 ++ part.2.lines) ++ d.behind

/-- The grammars of a document. -/
def contents (d : Document) : List String := d.sections.map fun part => joinLines part.2.content

/-- The grammars of a document are written as such, and the other lines open no grammar. -/
structure Sound (d : Document) : Prop where
  isLine : ∀ line ∈ d.lines, IsLine line
  block : ∀ part ∈ d.sections, part.2.Sound
  prose : ∀ part ∈ d.sections, ∀ line ∈ part.1, opening? (trimList line) = none
  behind : ∀ line ∈ d.behind, opening? (trimList line) = none

end Document

/-- The grammars that are read off sections are theirs if and only if all fences have three marks. -/
theorem outside_sections_iff {sections : List (List (List Char) × Block)}
    {behind : List (List Char)} (hblock : ∀ part ∈ sections, part.2.Sound)
    (hprose : ∀ part ∈ sections, ∀ line ∈ part.1, opening? (trimList line) = none)
    (hbehind : ∀ line ∈ behind, opening? (trimList line) = none) :
    outside (sections.flatMap (fun part => part.1 ++ part.2.lines) ++ behind) =
        sections.map (fun part => joinLines part.2.content) ↔
      ∀ part ∈ sections, part.2.count = 3 := by
  induction sections with
  | nil =>
    have hnone : outside behind = [] := by
      have hall := outside_append hbehind []
      rwa [List.append_nil] at hall
    simp [hnone]
  | cons part sections ih =>
    obtain ⟨hfirst, hblocks⟩ := List.forall_mem_cons.1 hblock
    obtain ⟨hfront, hproses⟩ := List.forall_mem_cons.1 hprose
    rw [List.flatMap_cons, List.append_assoc, List.append_assoc, outside_append hfront,
      List.map_cons, List.forall_mem_cons]
    by_cases hcount : part.2.count = 3
    · rw [hfirst.outside_block hcount, ← ih hblocks hproses]
      simp [hcount]
    · refine iff_of_false (fun heq => ?_) fun hall => hcount hall.1
      obtain ⟨more, hmore⟩ := hfirst.outside_long_block hcount _ _ (congrArg List.head? heq)
      exact joinLines_append_ne hfirst.closing_ne_nil _ _ hmore.symm

/-- **The grammars that are read off a text are those that are written into it if and only if all
fences have three marks.** -/
theorem blocks_eq_contents_iff {d : Document} (h : d.Sound) {text : String}
    (htext : IsWritten d.lines text.toList) :
    blocks text = d.contents ↔ ∀ part ∈ d.sections, part.2.count = 3 := by
  rw [blocks, lines_eq htext h.isLine]
  exact outside_sections_iff h.block h.prose h.behind

/-- A grammar between four tildes is lost. -/
theorem blocks_of_four_marks :
    let b : Block := ⟨'~', 4, "~~~~ebnf".toList, ["a = 'x';".toList], "~~~~".toList⟩
    let d : Document := ⟨[([], b)], []⟩
    d.Sound ∧ IsWritten d.lines "~~~~ebnf\na = 'x';\n~~~~\n".toList ∧
      d.contents = ["a = 'x';"] ∧ blocks "~~~~ebnf\na = 'x';\n~~~~\n" = [] := by
  intro b d
  have hb : b.Sound := by
    refine ⟨by decide, by decide, ⟨[], [], List.forall_mem_nil _, rfl⟩, ?_, rfl⟩
    intro line hline n hn heq
    obtain rfl := List.mem_singleton.1 hline
    cases n with
    | zero => omega
    | succ n =>
      have hhead : some 'a' = some '~' := congrArg List.head? heq
      exact absurd hhead (by decide)
  have htext : "~~~~ebnf\na = 'x';\n~~~~\n".toList =
      "~~~~ebnf".toList ++ '\n' :: ("a = 'x';".toList ++ '\n' :: ("~~~~".toList ++ ['\n'])) := by
    decide +kernel
  refine ⟨⟨by decide, ?_, ?_, List.forall_mem_nil _⟩, ?_, rfl, by decide +kernel⟩
  · exact List.forall_mem_singleton.2 hb
  · exact List.forall_mem_singleton.2 (List.forall_mem_nil _)
  · rw [htext]
    exact .newline _ (.newline _ (.newline _ .nil))

end SyntaxDiagram.CommandLine.Fences
