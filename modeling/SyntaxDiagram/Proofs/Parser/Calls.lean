import SyntaxDiagram.Proofs.Parser.Acceptance

/-!
# Calls on one parser

A parser can be asked for one thing after another, and goes on from where it stands even if a call
has failed.

* `Parser.calls`: calls one after another.
* `Parser.Reports`: a reader drops tokens off the front only, and where it comes to a character that
  cannot be read it says so. It holds of readers in turn if it holds of each.
* `Parser.reports_call`, `Parser.reports_calls`: all that can be asked for is read that way.
* `Parser.calls_at_end`: what it means that there is no next token, in terms of the source.
* `Parser.eat_eq_error`: an `eat` that fails leaves the parser where it was, unless it is the token
  behind that cannot be read. `Parser.grammar_after_failed_eat` shows what can come of that.
-/

namespace SyntaxDiagram

namespace Parser

variable {β γ : Type}

/-! ## Readers report where they get stuck -/

/-- From where it starts, a reader drops some tokens. It does not succeed in front of a character
that cannot be read, unless it started there, and if it comes there and fails that is its error. -/
structure Reports (p : Parser β) (s : Tokens) : Prop where
  ok {b : β} {s' : Tokens} (h : p s = .ok b s') :
    (∃ ts : List Token, s = ts ++ s') ∧ ∀ e', s' = .stuck e' → s = .stuck e'
  error {e : ParseError} {s' : Tokens} (h : p s = .error e s') :
    (∃ ts : List Token, s = ts ++ s') ∧ ∀ e', s' = .stuck e' → s = .stuck e' ∨ e = e'

section Reports

variable {p : Parser β} {s : Tokens}

theorem Reports.congr {p' : Parser β} (h : Reports p s) (hp : p' s = p s) : Reports p' s :=
  ⟨fun hok => h.ok (hp ▸ hok), fun herror => h.error (hp ▸ herror)⟩

theorem reports_pure (b : β) (s : Tokens) : Reports (pure b) s := by
  constructor
  · intro c s' hok
    obtain ⟨-, rfl⟩ := pure_eq_ok.1 hok
    exact ⟨⟨[], rfl⟩, fun _ => id⟩
  · intro e s' herror
    cases herror

/-- Whoever fails without dropping a token does not get stuck by it. -/
theorem reports_of_error {e : ParseError} (h : p s = .error e s) : Reports p s := by
  constructor
  · intro b s' hok
    rw [h] at hok
    cases hok
  · intro e' s' herror
    rw [h] at herror
    cases herror
    exact ⟨⟨[], rfl⟩, fun _ => .inl⟩

/-- Two readers in turn. -/
theorem Reports.bind {f : β → Parser γ} (h : Reports p s) (hf : ∀ b s', Reports (f b) s') :
    Reports (p >>= f) s := by
  constructor
  · intro c s' hok
    obtain ⟨b, s₁, hp, hfs⟩ := bind_eq_ok.1 hok
    obtain ⟨⟨ts, rfl⟩, hs₁⟩ := h.ok hp
    obtain ⟨⟨us, rfl⟩, hs'⟩ := (hf b s₁).ok hfs
    exact ⟨⟨ts ++ us, (Tokens.append_append ..).symm⟩, fun e' he' => hs₁ e' (hs' e' he')⟩
  · intro e s' herror
    rcases bind_eq_error.1 herror with hp | ⟨b, s₁, hp, hfs⟩
    · exact h.error hp
    · obtain ⟨⟨ts, rfl⟩, hs₁⟩ := h.ok hp
      obtain ⟨⟨us, rfl⟩, hs'⟩ := (hf b s₁).error hfs
      refine ⟨⟨ts ++ us, (Tokens.append_append ..).symm⟩, fun e' he' => ?_⟩
      exact (hs' e' he').imp_left (hs₁ e')

theorem Reports.map (h : Reports p s) (f : β → γ) : Reports (f <$> p) s := by
  rw [map_eq_pure_bind]
  exact h.bind fun b s' => reports_pure (f b) s'

/-- **An `eat` that fails** leaves the parser where it was, unless it found the right token and a
character behind it that cannot be read. Then the token is lost. -/
theorem eat_eq_error {kind : Token.Kind} {s s' : Tokens} {e : ParseError}
    (h : eat kind s = .error e s') :
    s' = s ∨ ∃ t, s = .token t (.stuck e) ∧ t.kind = kind ∧ s' = .stuck e := by
  cases s with
  | token t rest =>
    by_cases ht : t.kind = kind
    · rcases rest.settled_or_stuck with hrest | ⟨e', rfl⟩
      · rw [eat_of_eq ht hrest] at h
        cases h
      · rw [eat_of_stuck e' ht] at h
        cases h
        exact .inr ⟨t, rfl, ht, rfl⟩
    · rw [eat_of_ne rest ht] at h
      cases h
      exact .inl rfl
  | finished position | stuck error =>
    cases h
    exact .inl rfl

theorem reports_eat (kind : Token.Kind) (s : Tokens) : Reports (eat kind) s := by
  constructor
  · intro t s' hok
    obtain ⟨rfl, -, hs'⟩ := eat_eq_ok.1 hok
    exact ⟨⟨[t], rfl⟩, fun e' he' => absurd he' (hs' e')⟩
  · intro e s' herror
    obtain rfl | ⟨t, rfl, -, rfl⟩ := eat_eq_error herror
    · exact ⟨⟨[], rfl⟩, fun _ => .inl⟩
    · exact ⟨⟨[t], rfl⟩, fun e' he' => .inr (Tokens.stuck.inj he')⟩

/-! ## Phrases -/

theorem reports_enclosed {inner : Parser Expr} (hinner : ∀ s, Reports inner s)
    (opening closing : Token.Kind) (s : Tokens) : Reports (enclosed opening closing inner) s :=
  (reports_eat opening s).bind fun _ s₁ => (hinner s₁).bind fun e s₂ =>
    (reports_eat closing s₂).bind fun _ s₃ => reports_pure e s₃

theorem reports_operandWith {inner : Parser Expr} (hinner : ∀ s, Reports inner s) (s : Tokens) :
    Reports (operandWith inner) s := by
  have henclosed (opening closing : Token.Kind) (make : Expr → Expr) (s : Tokens) :
      Reports (make <$> enclosed opening closing inner) s :=
    (reports_enclosed hinner opening closing s).map make
  have hword (kind : Token.Kind) (make : Token → Expr) (s : Tokens) :
      Reports (make <$> eat kind) s := (reports_eat kind s).map make
  cases s with
  | token t rest =>
    obtain ⟨kind, value, position⟩ := t
    cases kind with
    | openParen => exact (henclosed .openParen .closeParen .group _).congr rfl
    | openBrace => exact (henclosed .openBrace .closeBrace .repetition _).congr rfl
    | openBracket => exact (henclosed .openBracket .closeBracket .optional _).congr rfl
    | special => exact (hword .special (fun t => .special t.value) _).congr rfl
    | identifier => exact (hword .identifier (fun t => .identifier t.value) _).congr rfl
    | terminal => exact (hword .terminal (fun t => .terminal t.value) _).congr rfl
    | _ => exact reports_of_error rfl
  | finished position | stuck error => exact reports_of_error rfl

section Chain

variable {operator : Token.Kind} {join : Expr → Expr → Expr} {operand : Parser Expr}

theorem reports_more (hoperand : ∀ s, Reports operand s) (n : Nat) (left : Expr) (s : Tokens) :
    Reports (more operator join operand n left) s := by
  induction n generalizing left s with
  | zero => exact reports_pure left s
  | succ n ih =>
    by_cases hnext : s.nextKind = some operator
    · refine Reports.congr ?_ (more_step hnext)
      exact (reports_eat operator s).bind fun _ s₁ => (hoperand s₁).bind fun right s₂ =>
        ih (join left right) s₂
    · exact (reports_pure left s).congr (more_stop hnext)

theorem reports_chain (hoperand : ∀ s, Reports operand s) (n : Nat) (s : Tokens) :
    Reports (chain operator join operand n) s :=
  (hoperand s).bind fun left s₁ => reports_more hoperand n left s₁

end Chain

/-- Operands, by induction on how deep they may nest. -/
theorem reports_operandTo (n depth : Nat) (s : Tokens) : Reports (operandTo n depth) s := by
  induction depth generalizing s with
  | zero => exact reports_operandWith (fun _ => reports_of_error rfl) s
  | succ depth ih =>
    exact reports_operandWith (reports_chain (reports_chain ih n) n) s

theorem reports_sequenceOf (n : Nat) (s : Tokens) : Reports (sequenceOf n) s :=
  reports_chain (reports_operandTo n n) n s

theorem reports_choiceOf (n : Nat) (s : Tokens) : Reports (choiceOf n) s :=
  reports_chain (reports_sequenceOf n) n s

theorem reports_eatStop (s : Tokens) : Reports eatStop s := by
  by_cases hnext : s.nextKind = some .period
  · exact (reports_eat .period s).congr (congrFun (if_pos hnext) s)
  · exact (reports_eat .semicolon s).congr (congrFun (if_neg hnext) s)

theorem reports_ruleOf (n : Nat) (s : Tokens) : Reports (ruleOf n) s := by
  rw [ruleOf_eq]
  exact (reports_eat .identifier s).bind fun name s₁ => (reports_eat .equals s₁).bind fun _ s₂ =>
    (reports_choiceOf n s₂).bind fun body s₃ => (reports_eatStop s₃).bind fun _ s₄ =>
      reports_pure (Rule.mk name.value body) s₄

theorem reports_rulesOf (n count : Nat) (s : Tokens) : Reports (rulesOf n count) s := by
  induction count generalizing s with
  | zero => exact reports_pure [] s
  | succ count ih =>
    cases s with
    | token t rest =>
      refine Reports.congr ?_ (rulesOf_token n count t rest)
      exact (reports_ruleOf n _).bind fun r s₁ => (ih s₁).bind fun rules s₂ =>
        reports_pure (r :: rules) s₂
    | finished position | stuck error => exact (reports_pure [] _).congr rfl

end Reports

/-! ## Calls -/

/-- What a parser can be asked for. -/
inductive Call where
  | grammar
  | rule
  | choice
  | sequence
  | operand
  | eat (kind : Token.Kind)

/-- What a parser answers. -/
inductive Answer where
  | grammar (g : Grammar)
  | rule (r : Rule)
  | expr (e : Expr)
  | token (t : Token)
  | failed (error : ParseError)
  deriving DecidableEq

/-- The answer to a call and the tokens that are left behind it. -/
def call (s : Tokens) : Call → Answer × Tokens
  | .grammar => answer .grammar (Parser.grammar s)
  | .rule => answer .rule (Parser.rule s)
  | .choice => answer .expr (Parser.choice s)
  | .sequence => answer .expr (Parser.sequence s)
  | .operand => answer .expr (Parser.operand s)
  | .eat kind => answer .token (Parser.eat kind s)
where
  /-- What came of a reader. -/
  answer {β : Type} (make : β → Answer) : EStateM.Result ParseError Tokens β → Answer × Tokens
    | .ok b s' => (make b, s')
    | .error e s' => (.failed e, s')

/-- The answers to calls one after another, and the tokens that are left behind them. -/
def calls (s : Tokens) : List Call → List Answer × Tokens
  | [] => ([], s)
  | c :: rest =>
    let (answer, s') := call s c
    let (answers, s'') := calls s' rest
    (answer :: answers, s'')

theorem calls_cons (s : Tokens) (c : Call) (rest : List Call) :
    calls s (c :: rest) =
      ((call s c).1 :: (calls (call s c).2 rest).1, (calls (call s c).2 rest).2) := rfl

theorem Reports.answer {p : Parser β} {s : Tokens} (h : Reports p s) (make : β → Answer) :
    (∃ ts : List Token, s = ts ++ (call.answer make (p s)).2) ∧
      ∀ e, (call.answer make (p s)).2 = .stuck e →
        s = .stuck e ∨ (call.answer make (p s)).1 = .failed e := by
  cases hp : p s with
  | ok b s' =>
    obtain ⟨hts, hs'⟩ := h.ok hp
    exact ⟨hts, fun e he => .inl (hs' e he)⟩
  | error e' s' =>
    obtain ⟨hts, hs'⟩ := h.error hp
    exact ⟨hts, fun e he => (hs' e he).imp_right (congrArg Answer.failed)⟩

/-- **One call** drops some tokens, and gets stuck only if it says so. -/
theorem reports_call (s : Tokens) (c : Call) :
    (∃ ts : List Token, s = ts ++ (call s c).2) ∧
      ∀ e, (call s c).2 = .stuck e → s = .stuck e ∨ (call s c).1 = .failed e := by
  cases c with
  | grammar =>
    have hgrammar : Reports Parser.grammar s :=
      ((reports_rulesOf s.length s.length s).bind fun rules s₁ =>
        reports_pure (Grammar.mk rules) s₁).congr rfl
    exact hgrammar.answer .grammar
  | rule => exact ((reports_ruleOf s.length s).congr rfl : Reports Parser.rule s).answer .rule
  | choice => exact ((reports_choiceOf s.length s).congr rfl : Reports Parser.choice s).answer .expr
  | sequence =>
    exact ((reports_sequenceOf s.length s).congr rfl : Reports Parser.sequence s).answer .expr
  | operand =>
    have hoperand := reports_operandTo s.length s.length s
    exact (hoperand.congr rfl : Reports Parser.operand s).answer .expr
  | eat kind => exact (reports_eat kind s).answer .token

/-- **Calls one after another** drop some tokens, and the parser gets stuck only if one of them said
so. -/
theorem reports_calls (s : Tokens) (cs : List Call) :
    (∃ ts : List Token, s = ts ++ (calls s cs).2) ∧
      ∀ e, (calls s cs).2 = .stuck e → s = .stuck e ∨ .failed e ∈ (calls s cs).1 := by
  induction cs generalizing s with
  | nil => exact ⟨⟨[], rfl⟩, fun _ => .inl⟩
  | cons c rest ih =>
    obtain ⟨⟨ts, hts⟩, hfirst⟩ := reports_call s c
    obtain ⟨⟨us, hus⟩, hrest⟩ := ih (call s c).2
    rw [calls_cons]
    refine ⟨⟨ts ++ us, by rw [Tokens.append_append, ← hus, ← hts]⟩, fun e he => ?_⟩
    rcases hrest e he with hstuck | hmem
    · rcases hfirst e hstuck with hs | hanswer
      · exact .inl hs
      · rw [hanswer]
        exact .inr List.mem_cons_self
    · exact .inr (List.mem_cons_of_mem _ hmem)

/-! ## The end of a source -/

/-- A parser starts in front of all tokens, unless there cannot be a first one. -/
theorem of_start {source : String} {s : Tokens} (h : start source = .ok s) :
    s = .ofString source ∧ s.Settled := by
  rw [start] at h
  generalize Tokens.ofString source = tokens at h ⊢
  cases tokens with
  | token t rest =>
    cases h
    exact ⟨rfl, Tokens.settled_token t rest⟩
  | finished position =>
    cases h
    exact ⟨rfl, Tokens.settled_finished position⟩
  | stuck e => cases h

/-- A grammar is answered at the end of the tokens only, or in front of a character that cannot be
read, where the parser has no next token either. -/
theorem grammar_ends {s s' : Tokens} {g : Grammar} (h : grammar s = .ok g s') :
    (∃ ts p, s = ts ++ Tokens.finished p ∧ s' = .finished p ∧ Grammar.Derives ts g) ∨
      ∃ e, s = .stuck e ∧ s' = .stuck e ∧ g = ⟨[]⟩ := by
  rcases s.settled_or_stuck with hs | ⟨e, rfl⟩
  · exact .inl ((grammar_eq_ok hs).1 h)
  · cases h
    exact .inr ⟨e, rfl, rfl, rfl⟩

/-- **What it means that there is no next token.** Whatever has been called on a parser, calls that
failed included, it stands at some place of the source. If there is no next token, nothing is left
of the source, or one of the calls has already answered the error of the character at that place. A
grammar that is answered next is all that was left of the source, unless one of the calls has
answered such an error. -/
theorem calls_at_end {source : String} {s : Tokens} (h : start source = .ok s) (cs : List Call) :
    ∃ ts place, (Scanner.ofString source).Passes ts place ∧ place.Faces (calls s cs).2 ∧
      ((calls s cs).2.peek? = none → place.rest = [] ∨
        ∃ e, (calls s cs).2 = .stuck e ∧ .failed e ∈ (calls s cs).1) ∧
      ∀ g s', grammar (calls s cs).2 = .ok g s' →
        (∃ us p, (calls s cs).2 = us ++ Tokens.finished p ∧ s' = .finished p ∧
          Grammar.Derives us g) ∨
        ∃ e, (calls s cs).2 = .stuck e ∧ .failed e ∈ (calls s cs).1 := by
  obtain ⟨rfl, hsettled⟩ := of_start h
  obtain ⟨⟨ts, hts⟩, hreported⟩ := reports_calls (.ofString source) cs
  obtain ⟨place, hpasses, hfaces⟩ := Scanner.exists_passes hts
  have hstuck {e : ParseError} (he : (calls (.ofString source) cs).2 = .stuck e) :
      .failed e ∈ (calls (.ofString source) cs).1 :=
    (hreported e he).resolve_left (hsettled e)
  refine ⟨ts, place, hpasses, hfaces, fun hpeek => ?_, fun g s' hgrammar => ?_⟩
  · generalize hrest : (calls (.ofString source) cs).2 = rest at hfaces hpeek
    cases hfaces with
    | token hcut => cases hpeek
    | finished hnil => exact .inl hnil
    | stuck hcons hnone => exact .inr ⟨_, rfl, hstuck hrest⟩
  · obtain hall | ⟨e, he, -, -⟩ := grammar_ends hgrammar
    · exact .inl hall
    · exact .inr ⟨e, he, hstuck he⟩

/-- The exception shows: behind a name stands a character that cannot be read. The call that finds
it loses the name, and the next one takes the rest of the source for nothing. -/
theorem grammar_after_failed_eat :
    start "a!" = .ok (.ofString "a!") ∧
      (calls (.ofString "a!") [.eat .identifier, .grammar]).1 =
        [.failed ⟨.strayCharacter '!', ⟨1, 2⟩⟩, .grammar ⟨[]⟩] := by
  decide +kernel

end Parser
end SyntaxDiagram
