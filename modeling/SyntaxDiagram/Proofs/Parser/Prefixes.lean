import SyntaxDiagram.Proofs.Derivation

/-!
# Beginnings of grammars

Which token lists are the beginning of a grammar can be told from left to right, with the brackets
that are open as the only memory.

* `Grammar.Stage`: how far a grammar has come, and `Stage.step`: the tokens that may come next.
* `Stage.run_of_derives`: a whole grammar leads from the place between two rules back to it.
* `Stage.exists_completion`: from every stage some tokens lead to the end of a rule.
* `Grammar.Viable`: lists of tokens that can go on to be a grammar.
-/

namespace SyntaxDiagram

namespace Grammar

/-- How far a grammar has come. -/
inductive Stage where
  /-- a rule may start, or the grammar may end -/
  | rule
  /-- the name of a rule was the last token -/
  | equals
  /-- an operand has to come, in these brackets, the innermost first -/
  | operand (brackets : List Bracket)
  /-- an operand is complete -/
  | operator (brackets : List Bracket)
  deriving Repr, DecidableEq

namespace Stage

/-- What may come behind a complete operand: an operator, the other half of the innermost bracket,
or the end of the rule if no bracket is open. -/
def afterOperand : List Bracket → Token.Kind → Option Stage
  | brackets, .comma | brackets, .pipe => some (operand brackets)
  | b :: outer, kind => if kind = b.closing then some (operator outer) else none
  | [], .semicolon | [], .period => some rule
  | [], _ => none

/-- The stage behind one more token, if that may come next. -/
def step : Stage → Token.Kind → Option Stage
  | rule, kind => if kind = .identifier then some equals else none
  | equals, kind => if kind = .equals then some (operand []) else none
  | operand brackets, .identifier | operand brackets, .terminal | operand brackets, .special =>
    some (operator brackets)
  | operand brackets, .openParen => some (operand (.round :: brackets))
  | operand brackets, .openBrace => some (operand (.curly :: brackets))
  | operand brackets, .openBracket => some (operand (.square :: brackets))
  | operand _, _ => none
  | operator brackets, kind => afterOperand brackets kind

/-- The stage behind some more tokens, if they may come next. -/
def run : Stage → List Token → Option Stage
  | q, [] => some q
  | q, t :: ts => (q.step t.kind).bind fun q' => run q' ts

theorem run_append (q : Stage) (ts us : List Token) :
    run q (ts ++ us) = (run q ts).bind fun q' => run q' us := by
  induction ts generalizing q with
  | nil => rfl
  | cons t ts ih =>
    rw [List.cons_append, run, run, Option.bind_assoc]
    exact congrArg _ (funext fun q' => ih q')

theorem run_singleton (q : Stage) (t : Token) : run q [t] = q.step t.kind := by
  rw [run]
  cases q.step t.kind <;> rfl

/-- Steps that lead on from where others end. -/
theorem run_append_of_eq {q q' : Stage} {ts : List Token} (h : run q ts = some q')
    (us : List Token) : run q (ts ++ us) = run q' us := by
  rw [run_append, h, Option.bind_some]

theorem run_cons_of_eq {q q' : Stage} {t : Token} (h : q.step t.kind = some q')
    (us : List Token) : run q (t :: us) = run q' us := by
  rw [run, h, Option.bind_some]

/-! ## Steps -/

theorem step_opening (b : Bracket) (brackets : List Bracket) :
    (operand brackets).step b.opening = some (operand (b :: brackets)) := by
  cases b <;> rfl

theorem step_closing (b : Bracket) (brackets : List Bracket) :
    (operator (b :: brackets)).step b.closing = some (operator brackets) := by
  cases b <;> rfl

theorem step_comma (brackets : List Bracket) :
    (operator brackets).step .comma = some (operand brackets) := by
  cases brackets <;> rfl

theorem step_pipe (brackets : List Bracket) :
    (operator brackets).step .pipe = some (operand brackets) := by
  cases brackets <;> rfl

theorem step_stop {kind : Token.Kind} (h : kind = .semicolon ∨ kind = .period) :
    (operator []).step kind = some rule := by
  rcases h with rfl | rfl <;> rfl

/-- Nothing else comes behind an operand in brackets. -/
theorem step_operator_cons {b : Bracket} {brackets : List Bracket} {kind : Token.Kind}
    (hcomma : kind ≠ .comma) (hpipe : kind ≠ .pipe) (hclosing : kind ≠ b.closing) :
    (operator (b :: brackets)).step kind = none := by
  cases kind <;> first | exact absurd rfl ‹_› | exact if_neg hclosing

/-- Nothing else comes behind an operand outside brackets. -/
theorem step_operator_nil {kind : Token.Kind} (hcomma : kind ≠ .comma) (hpipe : kind ≠ .pipe)
    (hsemicolon : kind ≠ .semicolon) (hperiod : kind ≠ .period) :
    (operator []).step kind = none := by
  cases kind <;> first | exact absurd rfl ‹_› | rfl

/-! ## Whole phrases -/

/-- A phrase is what an operand may be, whatever brackets are around it. -/
theorem run_of_derives_phrase {phrase : Phrase} {ts : List Token} {e : Expr}
    (h : Expr.Derives phrase ts e) (brackets : List Bracket) :
    run (operand brackets) ts = some (operator brackets) := by
  induction h generalizing brackets with
  | identifier h | terminal h | special h => rw [run_singleton, h]; rfl
  | @enclosed b opening closing ts e ho h hc ih =>
    rw [run_cons_of_eq (ho ▸ step_opening b brackets), run_append_of_eq (ih _), run_singleton, hc,
      step_closing]
  | ofOperand h ih | ofSequence h ih => exact ih brackets
  | comma hl ho hr ihl ihr =>
    rw [run_append_of_eq (ihl brackets), run_cons_of_eq (ho ▸ step_comma brackets), ihr]
  | pipe hl ho hr ihl ihr =>
    rw [run_append_of_eq (ihl brackets), run_cons_of_eq (ho ▸ step_pipe brackets), ihr]

theorem run_of_derives_rule {ts : List Token} {r : Rule} (h : Rule.Derives ts r) :
    run rule ts = some rule := by
  obtain @⟨name, equals, stop, ts, body, hn, he, hb, hs⟩ := h
  rw [run_cons_of_eq (by rw [hn]; rfl), run_cons_of_eq (by rw [he]; rfl),
    run_append_of_eq (run_of_derives_phrase hb []), run_singleton, step_stop hs]

/-- **A grammar leads back to where it started**: behind its last rule another one might start. -/
theorem run_of_derives {ts : List Token} {g : Grammar} (h : Grammar.Derives ts g) :
    run rule ts = some rule := by
  induction h with
  | nil => rfl
  | cons hr hrest ih => rw [run_append_of_eq (run_of_derives_rule hr), ih]

/-! ## Completions -/

/-- A token of a kind, wherever it stands. -/
def anyToken (kind : Token.Kind) : Token := ⟨kind, "", .start⟩

/-- Behind an operand the open brackets can be closed one by one, and then the rule. -/
theorem exists_completion_operator (brackets : List Bracket) :
    ∃ us, run (operator brackets) us = some rule := by
  induction brackets with
  | nil => exact ⟨[anyToken .semicolon], rfl⟩
  | cons b brackets ih =>
    obtain ⟨us, hus⟩ := ih
    exact ⟨anyToken b.closing :: us, (run_cons_of_eq (step_closing b brackets) us).trans hus⟩

/-- **From every stage** some tokens lead to the end of a rule. -/
theorem exists_completion (q : Stage) : ∃ us, run q us = some rule := by
  have hoperand (brackets : List Bracket) : ∃ us, run (operand brackets) us = some rule := by
    obtain ⟨us, hus⟩ := exists_completion_operator brackets
    exact ⟨anyToken .identifier :: us, hus⟩
  cases q with
  | rule => exact ⟨[], rfl⟩
  | equals =>
    obtain ⟨us, hus⟩ := hoperand []
    exact ⟨anyToken .equals :: us, hus⟩
  | operand brackets => exact hoperand brackets
  | operator brackets => exact exists_completion_operator brackets

end Stage

/-- Tokens that can be extended to those of a grammar. -/
def Viable (ts : List Token) : Prop := ∃ us g, Derives (ts ++ us) g

/-- What can be extended to a grammar leads from stage to stage. -/
theorem Viable.exists_run {ts : List Token} (h : Viable ts) : ∃ q, Stage.rule.run ts = some q := by
  obtain ⟨us, g, hderives⟩ := h
  have hrun := Stage.run_of_derives hderives
  rw [Stage.run_append] at hrun
  exact (Option.bind_eq_some_iff.1 hrun).imp fun q hq => hq.1

end Grammar
end SyntaxDiagram
