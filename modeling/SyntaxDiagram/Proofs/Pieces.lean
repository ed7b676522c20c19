import Mathlib.Logic.Function.Iterate
import SyntaxDiagram.Proofs.Patterns

/-!
# Sources in pieces

A scanner that is called again and again takes a source apart, piece by piece, up to its end or to a
place where no piece starts.

* `Position.behind`: the place behind a text, found by counting.
* `Lexeme`: a piece of a source, and `Lexeme.tokensOf`, the tokens that pieces make.
* `Token.Kind.IsValue`, `IsComment`: what the pieces look like.
* `Scanner.Cuts`: the pieces between two places. One call goes from piece to piece
  (`Scanner.Cuts.next`), and so do all calls (`Scanner.Cuts.after`).
* `Scanner.Reading`: an account of all calls, and `Scanner.exists_reading`: every source has one.
-/

namespace SyntaxDiagram

open Text (isBlank trimList)

/-! ## Places -/

/-- The place behind a text. Lines are counted from one, and so are the characters of a line. -/
def Position.behind (before : List Char) : Position where
  line := 1 + before.count '\n'
  column := 1 + (before.rtakeWhile (· ≠ '\n')).length

/-- **Going along a text leads to the place behind it.** -/
theorem Position.advance_start (before : List Char) : start.advance before = behind before := by
  induction before using List.reverseRecOn with
  | nil => rfl
  | append_singleton before c ih =>
    rw [advance_append, ih, advance, List.foldl_cons, List.foldl_nil, next, behind, behind]
    by_cases hc : c = '\n'
    · rw [if_pos hc, hc, List.rtakeWhile_concat_neg _ _ _ (by simp), List.count_append]
      rfl
    · rw [if_neg hc, List.rtakeWhile_concat_pos _ _ _ (by simp [hc]), List.count_append,
        List.count_singleton, if_neg (by simpa using hc), List.length_append]
      rfl

/-! ## Pieces -/

/-- A piece of a source, and the kind of token that it makes, if it makes one. -/
structure Lexeme where
  kind : Option Token.Kind
  text : List Char

namespace Lexeme

/-- Pieces put end to end. -/
def textOf (ls : List Lexeme) : List Char := ls.flatMap (·.text)

/-- The tokens that pieces make behind a text. -/
def tokensOf (before : List Char) : List Lexeme → List Token
  | [] => []
  | l :: rest =>
    (l.kind.toList.map fun kind => ⟨kind, kind.value l.text, .behind before⟩) ++
      tokensOf (before ++ l.text) rest

@[simp] theorem textOf_cons (l : Lexeme) (rest : List Lexeme) :
    textOf (l :: rest) = l.text ++ textOf rest := List.flatMap_cons
end Lexeme

/-- A comment goes to the first mark of its end. -/
def IsComment (piece : List Char) : Prop :=
  ∃ body, piece = '(' :: '*' :: (body ++ ['*', ')']) ∧
    ∀ front behind, body ++ ['*', ')'] = front ++ '*' :: ')' :: behind → behind = []

/-- The value that a piece has as a token: quotes and question marks are left out, and so are the
blanks at both ends of what is between question marks. -/
inductive Token.Kind.IsValue : Token.Kind → (piece : List Char) → (value : String) → Prop
  | identifier (piece : List Char) : IsValue .identifier piece (.ofList piece)
  | terminal {quote : Char} {text : List Char} (hquote : quote = '"' ∨ quote = '\'')
      (htext : quote ∉ text) : IsValue .terminal (quote :: (text ++ [quote])) (.ofList text)
  | special {before text behind : List Char} (hbefore : ∀ c ∈ before, isBlank c)
      (hbehind : ∀ c ∈ behind, isBlank c) (hhead : ∀ c ∈ text.head?, isBlank c = false)
      (hlast : ∀ c ∈ text.getLast?, isBlank c = false) (hmark : '?' ∉ before ++ (text ++ behind)) :
      IsValue .special ('?' :: (before ++ (text ++ behind) ++ ['?'])) (.ofList text)
  | mark {kind : Token.Kind} {c : Char} (h : kind.mark? = some c) :
      IsValue kind [c] (.ofList [c])

/-! ## What pieces look like -/

theorem Split.throughClose?_eq_some {cs : List Char} {cut : Split cs}
    (h : throughClose? cs = some cut) :
    ∃ body, cut.piece = body ++ ['*', ')'] ∧
      ∀ front behind, body ++ ['*', ')'] = front ++ '*' :: ')' :: behind → behind = [] := by
  induction cs with
  | nil => cases h
  | cons c cs ih =>
    by_cases hclose : c = '*' ∧ cs.head? = some ')'
    · obtain ⟨rfl, hhead⟩ := hclose
      obtain ⟨rest, rfl⟩ := List.head?_eq_some_iff.1 hhead
      cases h
      refine ⟨[], rfl, fun front behind heq => ?_⟩
      have hlength := congrArg List.length heq
      rw [List.length_append, List.length_cons, List.length_cons] at hlength
      exact List.eq_nil_of_length_eq_zero (by simp at hlength; omega)
    · rw [Split.throughClose?.eq_2 c cs fun rest hc hcs => hclose ⟨hc, by rw [hcs]; rfl⟩] at h
      obtain ⟨tail, htail, rfl⟩ := Option.map_eq_some_iff.1 h
      obtain ⟨body, hpiece, hfirst⟩ := ih htail
      refine ⟨c :: body, congrArg (List.cons c) hpiece, fun front behind heq => ?_⟩
      cases front with
      | nil =>
        -- the end would stand right here
        obtain ⟨rfl, hbody⟩ := List.cons.inj heq
        change body ++ ['*', ')'] = ')' :: behind at hbody
        refine absurd ⟨rfl, ?_⟩ hclose
        rw [← tail.piece_append_rest, hpiece, hbody]
        rfl
      | cons d front => exact hfirst front behind (List.cons.inj heq).2

theorem Split.comment?_eq_some {cs : List Char} {cut : Split cs} (h : comment? cs = some cut) :
    IsComment cut.piece := by
  unfold comment? at h
  split at h
  · obtain ⟨tail, htail, rfl⟩ := Option.map_eq_some_iff.1 h
    obtain ⟨body, hpiece, hfirst⟩ := throughClose?_eq_some htail
    exact ⟨body, congrArg (fun piece => '(' :: '*' :: piece) hpiece, hfirst⟩
  · cases h

theorem Split.char?_eq_some {cs : List Char} {c : Char} {cut : Split cs}
    (h : char? c cs = some cut) : cut.piece = [c] := by
  cases cs with
  | nil => cases h
  | cons d cs =>
    rw [char?] at h
    split at h
    · rename_i hd
      cases h
      rw [hd]
    · cases h

/-- A piece that makes no token is a run of blanks or a comment. -/
theorem passedOver_of_firstSplit? {cs : List Char} {cut : Split cs}
    (h : firstSplit? cs = some (none, cut)) :
    (∀ c ∈ cut.piece, isBlank c) ∨ IsComment cut.piece := by
  obtain ⟨r, hr, hkind, hcut⟩ := LexicalRule.exists_mem_of_firstOf?_eq_some h
  simp only [LexicalRule.all, LexicalRule.ofChar, List.mem_cons, List.not_mem_nil, or_false] at hr
  rcases hr with rfl | rfl | hr
  · rw [(Split.span?_eq_some hcut).1]
    exact .inl fun c hc => List.mem_takeWhile_imp hc
  · exact .inr (Split.comment?_eq_some hcut)
  · rcases hr with rfl | rfl | rfl | rfl | rfl | rfl | rfl | rfl | rfl | rfl | rfl | rfl | rfl |
      rfl | rfl <;> cases hkind

theorem isValue_special {text : List Char} (hmark : '?' ∉ text) :
    Token.Kind.special.IsValue ('?' :: (text ++ ['?'])) (.ofList (trimList text)) := by
  have hfront : text.takeWhile isBlank ++ text.dropWhile isBlank = text :=
    List.takeWhile_append_dropWhile
  have hback : trimList text ++ (text.dropWhile isBlank).rtakeWhile isBlank =
      text.dropWhile isBlank := List.rdropWhile_append_rtakeWhile
  have hhead : ∀ c ∈ (trimList text).head?, isBlank c = false :=
    head_of_prefix_dropWhile (List.rdropWhile_prefix isBlank (text.dropWhile isBlank))
  have hlast : ∀ c ∈ (trimList text).getLast?, isBlank c = false := by
    intro c hc
    obtain ⟨hne, rfl⟩ := List.mem_getLast?_eq_getLast hc
    exact Bool.eq_false_iff.2 (List.rdropWhile_last_not isBlank (text.dropWhile isBlank) hne)
  rw [← hback] at hfront
  have hvalue := Token.Kind.IsValue.special (fun c hc => List.mem_takeWhile_imp hc)
    (fun c hc => List.mem_rtakeWhile_imp hc) hhead hlast (hfront.symm ▸ hmark)
  rwa [hfront] at hvalue

/-- The value of a token is what its piece says. -/
theorem isValue_of_firstSplit? {cs : List Char} {kind : Token.Kind} {cut : Split cs}
    (h : firstSplit? cs = some (some kind, cut)) :
    kind.IsValue cut.piece (kind.value cut.piece) := by
  obtain ⟨r, hr, hkind, hcut⟩ := LexicalRule.exists_mem_of_firstOf?_eq_some h
  simp only [LexicalRule.all, LexicalRule.ofChar, List.mem_cons, List.not_mem_nil, or_false] at hr
  have hquoted {quote : Char} {text : List Char} :
      (quote :: (text ++ [quote])).tail.dropLast = text := by
    rw [List.tail_cons, List.dropLast_concat]
  rcases hr with rfl | rfl | rfl | rfl | rfl | rfl | hmark
  · cases hkind
  · cases hkind
  · cases hkind
    exact .identifier cut.piece
  · cases hkind
    obtain ⟨text, hpiece, hmem⟩ := Split.quoted?_eq_some hcut
    rw [hpiece, Token.Kind.value, hquoted]
    exact .terminal (.inl rfl) hmem
  · cases hkind
    obtain ⟨text, hpiece, hmem⟩ := Split.quoted?_eq_some hcut
    rw [hpiece, Token.Kind.value, hquoted]
    exact .terminal (.inr rfl) hmem
  · cases hkind
    obtain ⟨text, hpiece, hmem⟩ := Split.quoted?_eq_some hcut
    rw [hpiece, Token.Kind.value, hquoted]
    exact isValue_special hmem
  · rcases hmark with rfl | rfl | rfl | rfl | rfl | rfl | rfl | rfl | rfl | rfl | rfl <;>
      cases hkind <;> rw [Split.char?_eq_some hcut] <;> exact .mark rfl

/-! ## From piece to piece -/

namespace Scanner

/-- The pieces that are cut off between two places. -/
inductive Cuts : Scanner → List Lexeme → Scanner → Prop
  | refl (s : Scanner) : Cuts s [] s
  | step {s s' : Scanner} {kind : Option Token.Kind} {cut : Split s.rest} {ls : List Lexeme}
      (h : firstSplit? s.rest = some (kind, cut)) (hrest : Cuts (s.past cut) ls s') :
      Cuts s (⟨kind, cut.piece⟩ :: ls) s'

/-- A place where nothing can be cut off. -/
def Stuck (s : Scanner) : Prop := firstSplit? s.rest = none

namespace Cuts

variable {s s' s'' : Scanner} {ls ms : List Lexeme}

theorem trans (h : s.Cuts ls s') (h' : s'.Cuts ms s'') : s.Cuts (ls ++ ms) s'' := by
  induction h with
  | refl s => exact h'
  | step h hrest ih => exact .step h (ih h')

/-- **Nothing is lost**, and the place moves on by just what is cut off. -/
theorem rest_eq (h : s.Cuts ls s') :
    s.rest = Lexeme.textOf ls ++ s'.rest ∧
      s'.position = s.position.advance (Lexeme.textOf ls) := by
  induction h with
  | refl s => exact ⟨rfl, rfl⟩
  | @step s s' kind cut ls h hrest ih =>
    obtain ⟨hrest, hposition⟩ := ih
    rw [Lexeme.textOf_cons, List.append_assoc, ← hrest, Position.advance_append]
    exact ⟨cut.piece_append_rest.symm, hposition⟩

/-- The place behind the pieces of a source. -/
theorem position_eq {source : String} (h : (ofString source).Cuts ls s') :
    s'.position = .behind (Lexeme.textOf ls) := by
  rw [h.rest_eq.2, ← Position.advance_start]
  rfl

/-- The place in front of a piece, from where it is cut off. -/
theorem split_of_append {l : Lexeme} (h : s.Cuts (ls ++ l :: ms) s'') :
    ∃ (s' : Scanner) (cut : Split s'.rest), firstSplit? s'.rest = some (l.kind, cut) ∧
      cut.piece = l.text ∧ cut.rest = Lexeme.textOf ms ++ s''.rest := by
  induction ls generalizing s with
  | nil =>
    cases h with
    | step h hrest => exact ⟨s, _, h, rfl, hrest.rest_eq.1⟩
  | cons _ ls ih =>
    cases h with
    | step h hrest => exact ih hrest

theorem exists_split {l : Lexeme} (h : s.Cuts ls s') (hl : l ∈ ls) :
    ∃ (s : Scanner) (cut : Split s.rest), firstSplit? s.rest = some (l.kind, cut) ∧
      cut.piece = l.text := by
  obtain ⟨front, back, rfl⟩ := List.append_of_mem hl
  obtain ⟨s, cut, hsplit, hpiece, -⟩ := h.split_of_append
  exact ⟨s, cut, hsplit, hpiece⟩

end Cuts

/-- A place where nothing can be cut off is reached from everywhere, as every piece takes something
off the text that is left. -/
theorem exists_cuts (s : Scanner) : ∃ ls s', s.Cuts ls s' ∧ s'.Stuck := by
  induction hlength : s.rest.length using Nat.strongRecOn generalizing s with
  | _ length ih =>
    cases hsplit : firstSplit? s.rest with
    | none => exact ⟨[], s, .refl s, hsplit⟩
    | some found =>
      obtain ⟨kind, cut⟩ := found
      have hlt := cut.length_rest_lt
      obtain ⟨ls, s', hcuts, hstuck⟩ := ih _ (hlength ▸ hlt) (s.past cut) rfl
      exact ⟨⟨kind, cut.piece⟩ :: ls, s', .step hsplit hcuts, hstuck⟩

/-! ## From call to call -/

/-- The scanner behind a number of calls. -/
def after (s : Scanner) (n : Nat) : Scanner := (fun s => s.next.2)^[n] s

/-- What comes of a call behind a number of others. -/
def call (s : Scanner) (n : Nat) : Event × Scanner := (s.after n).next

/-- What comes of a call where nothing can be cut off. -/
def ending (s : Scanner) : Event :=
  match s.rest with
  | [] => .finished
  | c :: _ => .error ⟨.strayCharacter c, s.position⟩

theorem next_of_stuck {s : Scanner} (h : s.Stuck) : s.next = (s.ending, s) := by
  rw [ending]
  split
  · exact next_of_nil ‹_›
  · exact next_of_stray ‹_› h

/-- **One call goes from piece to piece.** -/
theorem Cuts.next {s last : Scanner} {ls : List Lexeme} (h : s.Cuts ls last) (hlast : last.Stuck) :
    ∃ front back, ls = front ++ back ∧ s.Cuts front s.next.2 ∧ s.next.2.Cuts back last := by
  induction h with
  | refl s =>
    rw [next_of_stuck hlast]
    exact ⟨[], [], rfl, .refl s, .refl s⟩
  | @step s s' kind cut ls h hrest ih =>
    cases kind with
    | none =>
      obtain ⟨front, back, rfl, hfront, hback⟩ := ih hlast
      rw [next_of_skip h]
      exact ⟨_, back, rfl, .step h hfront, hback⟩
    | some kind =>
      rw [next_of_token h]
      exact ⟨[_], ls, rfl, .step h (.refl _), hrest⟩

/-- **All calls go from piece to piece.** -/
theorem Cuts.after {s last : Scanner} {ls : List Lexeme} (h : s.Cuts ls last) (hlast : last.Stuck)
    (n : Nat) :
    ∃ front back, ls = front ++ back ∧ s.Cuts front (s.after n) ∧ (s.after n).Cuts back last := by
  induction n with
  | zero => exact ⟨[], ls, rfl, .refl s, h⟩
  | succ n ih =>
    obtain ⟨front, back, rfl, hfront, hback⟩ := ih
    obtain ⟨next, back, rfl, hnext, hback⟩ := hback.next hlast
    rw [Scanner.after, Function.iterate_succ_apply', ← Scanner.after]
    exact ⟨front ++ next, back, (List.append_assoc _ _ _).symm, hfront.trans hnext, hback⟩

theorem call_zero (s : Scanner) : s.call 0 = s.next := rfl

theorem call_succ (s : Scanner) (n : Nat) : s.call (n + 1) = s.next.2.call n := by
  rw [call, call, after, Function.iterate_succ_apply, ← after]

/-- The calls depend on the first of them alone. -/
theorem call_congr {s s' : Scanner} (h : s.next = s'.next) (n : Nat) : s.call n = s'.call n := by
  cases n with
  | zero => exact h
  | succ n => rw [call_succ, call_succ, h]

theorem call_of_stuck {s : Scanner} (h : s.Stuck) (n : Nat) : s.call n = (s.ending, s) := by
  induction n with
  | zero => exact next_of_stuck h
  | succ n ih => rw [call_succ, next_of_stuck h, ih]

/-- **The calls give the tokens of the pieces**, one after another, and then the end again and
again. -/
theorem Cuts.call {s last : Scanner} {ls : List Lexeme} (h : s.Cuts ls last) (hlast : last.Stuck)
    {before : List Char} (hbefore : s.position = .behind before) :
    (∀ n t, (Lexeme.tokensOf before ls)[n]? = some t → (s.call n).1 = .token t) ∧
      ∀ n ≥ (Lexeme.tokensOf before ls).length, s.call n = (last.ending, last) := by
  induction h generalizing before with
  | refl s => exact ⟨nofun, fun n _ => call_of_stuck hlast n⟩
  | @step s s' kind cut ls h hrest ih =>
    have hpast : (s.past cut).position = .behind (before ++ cut.piece) := by
      rw [past, hbefore, ← Position.advance_start, ← Position.advance_start,
        Position.advance_append]
    obtain ⟨htokens, hends⟩ := ih hlast hpast
    cases kind with
    | none =>
      have hcall := call_congr (next_of_skip h)
      simp only [hcall]
      exact ⟨htokens, hends⟩
    | some kind =>
      have hnext := next_of_token h
      rw [hbefore] at hnext
      constructor
      · intro n t ht
        cases n with
        | zero =>
          rw [call_zero, hnext]
          exact congrArg Event.token (Option.some.inj ht)
        | succ n =>
          rw [call_succ, hnext]
          exact htokens n t ht
      · intro n hn
        cases n with
        | zero => exact absurd hn (Nat.not_succ_le_zero _)
        | succ n =>
          rw [call_succ, hnext]
          exact hends n (Nat.le_of_succ_le_succ hn)

/-! ## Sources -/

/-- An account of all calls on a source: the pieces that it is cut into, the place where the calls
come to, and what they give there. -/
structure Reading (source : String) (pieces : List Lexeme) (last : Scanner) (ending : Event) :
    Prop where
  /-- the pieces are all that is in front of the last place -/
  lossless : source.toList = Lexeme.textOf pieces ++ last.rest
  nonempty : ∀ l ∈ pieces, l.text ≠ []
  firstMatch : ∀ front l back, pieces = front ++ l :: back →
    IsFirstMatch l.kind l.text (Lexeme.textOf back ++ last.rest)
  passedOver : ∀ l ∈ pieces, l.kind = none → (∀ c ∈ l.text, isBlank c) ∨ IsComment l.text
  isValue : ∀ l ∈ pieces, ∀ kind ∈ l.kind, kind.IsValue l.text (kind.value l.text)
  /-- every call leaves the scanner behind a piece -/
  consumed : ∀ n, ∃ front back, pieces = front ++ back ∧
    ((ofString source).after n).rest = Lexeme.textOf back ++ last.rest ∧
    ((ofString source).after n).position = .behind (Lexeme.textOf front)
  /-- the first calls give the tokens -/
  token : ∀ n t, (Lexeme.tokensOf [] pieces)[n]? = some t →
    ((ofString source).call n).1 = .token t
  /-- all later calls give the same and leave the scanner where it is -/
  ends : ∀ n ≥ (Lexeme.tokensOf [] pieces).length, (ofString source).call n = (ending, last)
  position : last.position = .behind (Lexeme.textOf pieces)
  /-- the last place is the end of the source, or one where no pattern matches -/
  ending : (last.rest = [] ∧ ending = .finished) ∨
    ∃ c cs, last.rest = c :: cs ∧ NoMatch last.rest ∧
      ending = .error ⟨.strayCharacter c, last.position⟩

/-- **Scanning loses nothing, says where it is and comes to an end.** Called again and again on any
source, a scanner gives the tokens of its pieces at their places, and then either the end or an
error at the first place where no pattern matches. -/
theorem exists_reading (source : String) :
    ∃ pieces last ending, Reading source pieces last ending := by
  obtain ⟨pieces, last, hcuts, hstuck⟩ := exists_cuts (ofString source)
  have hstart : (ofString source).position = .behind [] := rfl
  obtain ⟨htokens, hends⟩ := hcuts.call hstuck hstart
  refine ⟨pieces, last, last.ending, ?_⟩
  constructor
  case lossless => exact hcuts.rest_eq.1
  case nonempty =>
    intro l hl
    obtain ⟨s, cut, -, hpiece⟩ := hcuts.exists_split hl
    exact hpiece ▸ cut.piece_ne_nil
  case firstMatch =>
    rintro front l back rfl
    obtain ⟨s, cut, hsplit, hpiece, hrest⟩ := hcuts.split_of_append
    rw [← hpiece, ← hrest]
    exact isFirstMatch_of_firstSplit? hsplit
  case passedOver =>
    intro l hl hkind
    obtain ⟨s, cut, hsplit, hpiece⟩ := hcuts.exists_split hl
    rw [← hpiece]
    exact passedOver_of_firstSplit? (hkind ▸ hsplit)
  case isValue =>
    intro l hl kind hkind
    obtain ⟨s, cut, hsplit, hpiece⟩ := hcuts.exists_split hl
    rw [← hpiece]
    exact isValue_of_firstSplit? (Option.mem_def.1 hkind ▸ hsplit)
  case consumed =>
    intro n
    obtain ⟨front, back, hpieces, hfront, hback⟩ := hcuts.after hstuck n
    exact ⟨front, back, hpieces, hback.rest_eq.1, hfront.position_eq⟩
  case token => exact htokens
  case ends => exact hends
  case position => exact hcuts.position_eq
  case ending =>
    cases hrest : last.rest with
    | nil => exact .inl ⟨rfl, by rw [ending, hrest]⟩
    | cons c cs =>
      refine .inr ⟨c, cs, rfl, ?_, by rw [ending, hrest]⟩
      exact noMatch_of_firstSplit? (hrest ▸ hstuck)

end Scanner
end SyntaxDiagram
