import SyntaxDiagram.Proofs.Derivation
import SyntaxDiagram.Proofs.Parser.Runs

/-!
# Scanning piece by piece

A scanner cuts one piece after another off the text that is left. Blanks and comments leave no
token behind.

* `Position.isBefore`: the order of places in a text. Whatever is cut off leads to a later place.
* `Scanner.yields_iff`: tokens that go on to the end of a source.
* `Scanner.Passes`: the pieces between two places, and the tokens that they make.
* `Scanner.Faces`: what stands at a place, if neither blanks nor comments do.
* `Scanner.exists_passes`: the tokens of a source, cut in two, are what is passed up to some place
  and what stands there.
* `Scanner.Passes.filter_isBefore`: they are cut in two by the order of places.
-/

namespace SyntaxDiagram

/-! ## Places in order -/

namespace Position

/-- Whether a place comes before another one. -/
def isBefore (p q : Position) : Bool :=
  p.line < q.line || (p.line = q.line && p.column < q.column)

theorem isBefore_iff {p q : Position} :
    p.isBefore q ↔ p.line < q.line ∨ p.line = q.line ∧ p.column < q.column := by
  simp [isBefore]

theorem isBefore_trans {p q r : Position} (h : p.isBefore q) (h' : q.isBefore r) :
    p.isBefore r := by
  rw [isBefore_iff] at *
  omega

theorem not_isBefore_of_isBefore {p q : Position} (h : p.isBefore q) : q.isBefore p = false := by
  rw [isBefore_iff] at h
  rw [Bool.eq_false_iff, ne_eq, isBefore_iff]
  omega

theorem not_isBefore_self (p : Position) : p.isBefore p = false := by
  rw [Bool.eq_false_iff, ne_eq, isBefore_iff]
  omega

theorem isBefore_next (p : Position) (c : Char) : p.isBefore (p.next c) := by
  rw [isBefore_iff, next]
  split
  · exact .inl (Nat.lt_succ_self _)
  · exact .inr ⟨rfl, Nat.lt_succ_self _⟩

/-- Every run of characters leads to a later place. -/
theorem isBefore_advance (p : Position) {cs : List Char} (h : cs ≠ []) :
    p.isBefore (p.advance cs) := by
  induction cs generalizing p with
  | nil => exact absurd rfl h
  | cons c cs ih =>
    cases cs with
    | nil => exact p.isBefore_next c
    | cons d cs => exact isBefore_trans (p.isBefore_next c) (ih _ (List.cons_ne_nil d cs))

end Position

/-! ## Tokens of a source -/

namespace Tokens

theorem ofScanner_eq (s : Scanner) :
    ofScanner s = match s.next with
      | (.token t, s') => token t (ofScanner s')
      | (.finished, s') => finished s'.position
      | (.error e, _) => stuck e := by
  rw [ofScanner]
  split <;> rename_i h <;> simp only [h]

theorem ofScanner_token {s s' : Scanner} {t : Token} (h : s.next = (.token t, s')) :
    ofScanner s = token t (ofScanner s') := by
  rw [ofScanner_eq, h]

theorem ofScanner_finished {s s' : Scanner} (h : s.next = (.finished, s')) :
    ofScanner s = finished s'.position := by
  rw [ofScanner_eq, h]

theorem ofScanner_stuck {s s' : Scanner} {e : ParseError} (h : s.next = (.error e, s')) :
    ofScanner s = stuck e := by
  rw [ofScanner_eq, h]

/-- The tokens depend on the next step alone. -/
theorem ofScanner_congr {s s' : Scanner} (h : s.next = s'.next) : ofScanner s = ofScanner s' := by
  rw [ofScanner_eq s, ofScanner_eq s', h]

/-- The tokens in front of the place where there are no more. -/
def toList : Tokens → List Token
  | token t rest => t :: rest.toList
  | finished _ | stuck _ => []

theorem toList_append (ts : List Token) (s : Tokens) : (ts ++ s).toList = ts ++ s.toList := by
  induction ts with
  | nil => rfl
  | cons t ts ih => rw [cons_append, toList, ih, List.cons_append]

/-- Tokens come to one kind of end only. -/
theorem append_stuck_ne_append_finished (ts us : List Token) (e : ParseError) (p : Position) :
    ts ++ stuck e ≠ us ++ finished p := by
  induction ts generalizing us with
  | nil => cases us <;> nofun
  | cons t ts ih =>
    cases us with
    | nil => nofun
    | cons u us => exact fun h => ih us (Tokens.token.inj h).2

theorem exists_append_of_mem {s : Tokens} {t : Token} (h : t ∈ s.toList) :
    ∃ (ts : List Token) (rest : Tokens), s = ts ++ token t rest := by
  induction s with
  | token u rest ih =>
    rcases List.mem_cons.1 h with rfl | h
    · exact ⟨[], rest, rfl⟩
    · obtain ⟨ts, behind, rfl⟩ := ih h
      exact ⟨u :: ts, behind, rfl⟩
  | finished p | stuck e => exact absurd h List.not_mem_nil

end Tokens

/-- The tokens of a scanner go on to the end of the source exactly if it yields them. -/
theorem Scanner.yields_iff {s : Scanner} {ts : List Token} :
    s.Yields ts ↔ ∃ p, Tokens.ofScanner s = ts ++ Tokens.finished p := by
  constructor
  · intro h
    induction h with
    | finished h => exact ⟨_, Tokens.ofScanner_finished h⟩
    | token h hrest ih =>
      obtain ⟨p, hp⟩ := ih
      exact ⟨p, by rw [Tokens.ofScanner_token h, hp, Tokens.cons_append]⟩
  · rintro ⟨p, hp⟩
    fun_induction Tokens.ofScanner s generalizing ts with
    | case1 s t s' h hlt ih =>
      cases ts with
      | nil => cases hp
      | cons u us =>
        rw [Tokens.cons_append] at hp
        injection hp with hu hus
        exact hu ▸ .token h (ih hus)
    | case2 s s' h =>
      cases ts with
      | nil => exact .finished h
      | cons u us => cases hp
    | case3 s e s' h => cases ts <;> cases hp

/-! ## Steps of a scanner -/

namespace Scanner

theorem next_of_nil {s : Scanner} (h : s.rest = []) : s.next = (.finished, s) := by
  obtain ⟨rest, position⟩ := s
  cases h
  rw [next]

/-- A text that has a first piece is not empty. -/
theorem rest_ne_nil {s : Scanner} (cut : Split s.rest) : s.rest ≠ [] :=
  List.ne_nil_of_length_pos (Nat.zero_lt_of_lt cut.length_rest_lt)

theorem next_of_stray {s : Scanner} {c : Char} {cs : List Char} (h : s.rest = c :: cs)
    (hnone : firstSplit? s.rest = none) :
    s.next = (.error ⟨.strayCharacter c, s.position⟩, s) := by
  rw [next]
  split
  · rename_i hnil
    rw [hnil] at h
    cases h
  · rename_i hcons
    rw [hcons] at h
    cases h
    split
    · rfl
    · rename_i heq
      rw [hnone] at heq
      cases heq
    · rename_i heq
      rw [hnone] at heq
      cases heq

theorem next_of_skip {s : Scanner} {cut : Split s.rest}
    (h : firstSplit? s.rest = some (none, cut)) : s.next = (s.past cut).next := by
  rw [next]
  split
  · exact absurd ‹s.rest = []› (rest_ne_nil cut)
  · split
    · rename_i heq
      rw [h] at heq
      cases heq
    · rename_i heq
      rw [h] at heq
      cases heq
      rfl
    · rename_i heq
      rw [h] at heq
      cases heq

theorem next_of_token {s : Scanner} {kind : Token.Kind} {cut : Split s.rest}
    (h : firstSplit? s.rest = some (some kind, cut)) :
    s.next = (.token ⟨kind, kind.value cut.piece, s.position⟩, s.past cut) := by
  rw [next]
  split
  · exact absurd ‹s.rest = []› (rest_ne_nil cut)
  · split
    · rename_i heq
      rw [h] at heq
      cases heq
    · rename_i heq
      rw [h] at heq
      cases heq
    · rename_i heq
      rw [h] at heq
      cases heq
      rfl

/-- The tokens that are made of the pieces between two places. -/
inductive Passes : Scanner → List Token → Scanner → Prop
  | refl (s : Scanner) : Passes s [] s
  /-- blanks and comments -/
  | skip {s s' : Scanner} {cut : Split s.rest} {ts : List Token}
      (h : firstSplit? s.rest = some (none, cut)) (hrest : Passes (s.past cut) ts s') :
      Passes s ts s'
  | token {s s' : Scanner} {kind : Token.Kind} {cut : Split s.rest} {ts : List Token}
      (h : firstSplit? s.rest = some (some kind, cut)) (hrest : Passes (s.past cut) ts s') :
      Passes s (⟨kind, kind.value cut.piece, s.position⟩ :: ts) s'

/-- What stands at a place where there is neither a blank nor a comment, with all that is behind
it. -/
inductive Faces : Scanner → Tokens → Prop
  | token {s : Scanner} {kind : Token.Kind} {cut : Split s.rest}
      (h : firstSplit? s.rest = some (some kind, cut)) :
      Faces s (.token ⟨kind, kind.value cut.piece, s.position⟩ (.ofScanner (s.past cut)))
  | finished {s : Scanner} (h : s.rest = []) : Faces s (.finished s.position)
  | stuck {s : Scanner} {c : Char} {cs : List Char} (h : s.rest = c :: cs)
      (hnone : firstSplit? s.rest = none) : Faces s (.stuck ⟨.strayCharacter c, s.position⟩)

theorem Faces.position_eq {s : Scanner} {r : Tokens} (h : s.Faces r) :
    r.position = s.position := by
  cases h <;> rfl

theorem Faces.ofScanner_eq {s : Scanner} {r : Tokens} (h : s.Faces r) : .ofScanner s = r := by
  cases h with
  | token h => exact Tokens.ofScanner_token (next_of_token h)
  | finished h => exact Tokens.ofScanner_finished (next_of_nil h)
  | stuck h hnone => exact Tokens.ofScanner_stuck (next_of_stray h hnone)

namespace Passes

theorem trans {s s' s'' : Scanner} {ts us : List Token} (h : s.Passes ts s')
    (h' : s'.Passes us s'') : s.Passes (ts ++ us) s'' := by
  induction h with
  | refl s => exact h'
  | skip h hrest ih => exact .skip h (ih h')
  | token h hrest ih => exact .token h (ih h')

/-- What is passed is a part of the text, and moves the place by just that. -/
theorem exists_taken {s s' : Scanner} {ts : List Token} (h : s.Passes ts s') :
    ∃ taken, s.rest = taken ++ s'.rest ∧ s'.position = s.position.advance taken := by
  induction h with
  | refl s => exact ⟨[], rfl, rfl⟩
  | @skip s s' cut ts h hrest ih | @token s s' kind cut ts h hrest ih =>
    obtain ⟨taken, hrest, hposition⟩ := ih
    refine ⟨cut.piece ++ taken, ?_, ?_⟩
    · rw [List.append_assoc, ← hrest]
      exact cut.piece_append_rest.symm
    · rw [hposition, past, Position.advance_append]

/-- Behind the last piece the source is finished, and the tokens are all there are. -/
theorem yields {s s' : Scanner} {ts : List Token} (h : s.Passes ts s') (hs' : s'.rest = []) :
    s.Yields ts := by
  induction h with
  | refl s => exact .finished (next_of_nil hs')
  | skip h hrest ih =>
    have hnext := next_of_skip h
    cases ih hs' with
    | finished h' => exact .finished (hnext.trans h')
    | token h' hrest' => exact .token (hnext.trans h') hrest'
  | token h hrest ih => exact .token (next_of_token h) (ih hs')

end Passes

/-- Blanks and comments lead to a place where there are none, and the tokens from there on are the
same. -/
theorem exists_faces (s : Scanner) : ∃ s', s.Passes [] s' ∧ s'.Faces (.ofScanner s) := by
  induction hlength : s.rest.length using Nat.strongRecOn generalizing s with
  | _ length ih =>
    cases hrest : s.rest with
    | nil =>
      rw [Tokens.ofScanner_finished (next_of_nil hrest)]
      exact ⟨s, .refl s, .finished hrest⟩
    | cons c cs =>
      cases hsplit : firstSplit? s.rest with
      | none =>
        rw [Tokens.ofScanner_stuck (next_of_stray hrest hsplit)]
        exact ⟨s, .refl s, .stuck hrest hsplit⟩
      | some found =>
        obtain ⟨kind, cut⟩ := found
        cases kind with
        | none =>
          have hlt := cut.length_rest_lt
          obtain ⟨s', hpasses, hfaces⟩ := ih _ (hlength ▸ hlt) (s.past cut) rfl
          rw [← Tokens.ofScanner_congr (next_of_skip hsplit)] at hfaces
          exact ⟨s', .skip hsplit hpasses, hfaces⟩
        | some kind =>
          rw [Tokens.ofScanner_token (next_of_token hsplit)]
          exact ⟨s, .refl s, .token hsplit⟩

/-- **The tokens of a source, cut in two**: some are passed, and what is left stands behind them. -/
theorem exists_passes {s : Scanner} {ts : List Token} {r : Tokens}
    (h : Tokens.ofScanner s = ts ++ r) : ∃ s', s.Passes ts s' ∧ s'.Faces r := by
  induction ts generalizing s with
  | nil =>
    rw [Tokens.nil_append] at h
    exact h ▸ exists_faces s
  | cons t ts ih =>
    obtain ⟨s₁, hpasses, hfaces⟩ := exists_faces s
    rw [h, Tokens.cons_append] at hfaces
    generalize htail : ts ++ r = tail at hfaces
    cases hfaces with
    | token hsplit =>
      obtain ⟨s', hpasses', hfaces'⟩ := ih htail.symm
      exact ⟨s', hpasses.trans (.token hsplit hpasses'), hfaces'⟩

/-! ## Tokens in order -/

/-- Tokens that are passed stand between the two places. -/
theorem Passes.isBefore {s s' : Scanner} {ts : List Token} (h : s.Passes ts s') :
    ∀ t ∈ ts, t.position.isBefore s'.position := by
  induction h with
  | refl s => exact fun t ht => absurd ht List.not_mem_nil
  | skip h hrest ih => exact ih
  | @token s s' kind cut ts h hrest ih =>
    intro t ht
    rcases List.mem_cons.1 ht with rfl | ht
    · obtain ⟨taken, -, hposition⟩ := hrest.exists_taken
      rw [hposition, past, ← Position.advance_append]
      exact s.position.isBefore_advance (by simp [cut.piece_ne_nil])
    · exact ih t ht

/-- Tokens from a place on do not stand before it. -/
theorem not_isBefore_of_mem {s : Scanner} {t : Token} (h : t ∈ (Tokens.ofScanner s).toList) :
    t.position.isBefore s.position = false := by
  obtain ⟨us, rest, hsplit⟩ := Tokens.exists_append_of_mem h
  obtain ⟨s', hpasses, hfaces⟩ := exists_passes hsplit
  obtain ⟨taken, -, hposition⟩ := hpasses.exists_taken
  have ht : t.position = s.position.advance taken := hfaces.position_eq.trans hposition
  rw [ht]
  cases taken with
  | nil => exact s.position.not_isBefore_self
  | cons c cs =>
    exact Position.not_isBefore_of_isBefore (s.position.isBefore_advance (List.cons_ne_nil c cs))

/-- **The order of places cuts the tokens of a source in two**: what is passed up to a place is what
stands before it. -/
theorem Passes.filter_isBefore {s s' : Scanner} {ts : List Token} {r : Tokens}
    (h : s.Passes ts s') (hr : s'.Faces r) (hs : Tokens.ofScanner s = ts ++ r) :
    (Tokens.ofScanner s).toList.filter (·.position.isBefore s'.position) = ts := by
  have hbefore : ts.filter (·.position.isBefore s'.position) = ts :=
    List.filter_eq_self.2 h.isBefore
  have hbehind : r.toList.filter (·.position.isBefore s'.position) = [] := by
    refine List.filter_eq_nil_iff.2 fun t ht => ?_
    rw [Bool.not_eq_true]
    exact not_isBefore_of_mem (hr.ofScanner_eq.symm ▸ ht)
  rw [hs, Tokens.toList_append, List.filter_append, hbefore, hbehind, List.append_nil]

end Scanner
end SyntaxDiagram
