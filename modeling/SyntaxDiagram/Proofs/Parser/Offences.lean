import SyntaxDiagram.Proofs.Parser.Acceptance
import SyntaxDiagram.Proofs.Parser.Prefixes

/-!
# Syntax errors stand at the first offence

A reader that fails has gone through tokens that could go on to be a grammar, and says where they
cannot go on.

* `Parser.Offence`: what is wrong at the place of an error, for a reader that set out at a stage.
* `Parser.Follows`: a reader goes from one stage to another, or ends at an offence. It holds of a
  chain if it holds of its operands.
* `Parser.operandTo_follows`, `Parser.ruleOf_follows`, `Parser.rulesOf_follows`: the readers of the
  grammar, by the recursion of the parser.
* `Grammar.viable_iff`: the stages tell which tokens can be extended to a grammar.
* `Grammar.parse_error_first_offence`: the error of a source stands at its first offending place.
-/

namespace SyntaxDiagram

open Grammar (Stage)

namespace Parser

variable {β γ : Type}

/-- The place of an error: the tokens in front of it lead on from a stage, and the next one does
not, or the source ends before the grammar. -/
def Offence (q : Stage) (s : Tokens) (e : ParseError) : Prop :=
  ∃ (ts : List Token) (rest : Tokens) (q' : Stage),
    s = ts ++ rest ∧ q.run ts = some q' ∧ e.position = rest.position ∧
      match rest with
      | .token t _ => q'.step t.kind = none
      | .finished _ => q' ≠ .rule
      | .stuck _ => True

/-- An offence behind some more tokens. -/
theorem Offence.of_run {q q' : Stage} {ts : List Token} {s : Tokens} {e : ParseError}
    (hrun : q.run ts = some q') (h : Offence q' s e) : Offence q (ts ++ s) e := by
  obtain ⟨us, rest, q'', rfl, hus, hplace⟩ := h
  refine ⟨ts ++ us, rest, q'', (Tokens.append_append ts us rest).symm, ?_, hplace⟩
  rw [Stage.run_append_of_eq hrun, hus]

/-- From where it starts, a reader goes from one stage to another and stops in front of none of the
kinds that are given, or it ends at an offence. -/
structure Follows (q q' : Stage) (kinds : List Token.Kind) (p : Parser β) (s : Tokens) : Prop where
  ok {b : β} {s' : Tokens} (h : p s = .ok b s') :
    ∃ ts : List Token, s = ts ++ s' ∧ q.run ts = some q' ∧ ∀ kind ∈ kinds, s'.nextKind ≠ some kind
  error {e : ParseError} {s' : Tokens} (h : p s = .error e s') : Offence q s e

variable {q q₁ q₂ q' : Stage} {kinds stops : List Token.Kind} {p : Parser β} {s : Tokens}

/-- Two readers in turn. The second one starts where the first one stops. -/
theorem Follows.bind {f : β → Parser γ} (h : Follows q q₁ stops p s)
    (hf : ∀ b s', p s = .ok b s' → s'.length ≤ s.length →
      (∀ kind ∈ stops, s'.nextKind ≠ some kind) → Follows q₁ q₂ kinds (f b) s') :
    Follows q q₂ kinds (p >>= f) s := by
  have hnext {b : β} {s₁ : Tokens} (hp : p s = .ok b s₁) : ∃ ts : List Token, s = ts ++ s₁ ∧
      q.run ts = some q₁ ∧ Follows q₁ q₂ kinds (f b) s₁ := by
    obtain ⟨ts, rfl, hrun, hstops⟩ := h.ok hp
    exact ⟨ts, rfl, hrun, hf b s₁ hp (by rw [Tokens.length_append]; omega) hstops⟩
  constructor
  · intro c s' hok
    obtain ⟨b, s₁, hp, hfs⟩ := bind_eq_ok.1 hok
    obtain ⟨ts, rfl, hrun, hfollows⟩ := hnext hp
    obtain ⟨us, rfl, hus, hkinds⟩ := hfollows.ok hfs
    refine ⟨ts ++ us, (Tokens.append_append ..).symm, ?_, hkinds⟩
    rw [Stage.run_append_of_eq hrun, hus]
  · intro e s' herror
    rcases bind_eq_error.1 herror with hp | ⟨b, s₁, hp, hfs⟩
    · exact h.error hp
    · obtain ⟨ts, rfl, hrun, hfollows⟩ := hnext hp
      exact (hfollows.error hfs).of_run hrun

/-- What is made of the answer does not change where a reader goes. -/
theorem Follows.map (h : Follows q q' kinds p s) (f : β → γ) :
    Follows q q' kinds (f <$> p) s := by
  constructor
  · intro c s' hok
    obtain ⟨b, hp, -⟩ := map_eq_ok.1 hok
    exact h.ok hp
  · exact fun herror => h.error (map_eq_error.1 herror)

/-- Only what a reader does from where it starts counts. -/
theorem Follows.congr {p' : Parser β} (h : Follows q q' kinds p s) (hp : p' s = p s) :
    Follows q q' kinds p' s :=
  ⟨fun hok => h.ok (hp ▸ hok), fun herror => h.error (hp ▸ herror)⟩

theorem pure_follows (hkinds : ∀ kind ∈ kinds, s.nextKind ≠ some kind) (b : β) :
    Follows q q kinds (pure b) s := by
  constructor
  · intro c s' hok
    obtain ⟨-, rfl⟩ := pure_eq_ok.1 hok
    exact ⟨[], rfl, rfl, hkinds⟩
  · intro e s' herror
    cases herror

theorem Offence.here (e : ParseError) (hposition : e.position = s.position)
    (htoken : ∀ t rest, s = .token t rest → q.step t.kind = none) (hrule : q ≠ .rule) :
    Offence q s e := by
  refine ⟨[], s, q, rfl, rfl, hposition, ?_⟩
  cases s with
  | token t rest => exact htoken t rest rfl
  | finished position => exact hrule
  | stuck error => trivial

/-! ## Taking a token -/

/-- A token is taken. Whatever else could stand there is an offence. -/
theorem eat_follows {kind : Token.Kind} (hstep : q.step kind = some q')
    (hother : ∀ t rest, s = .token t rest → t.kind ≠ kind → q.step t.kind = none)
    (hend : q ≠ .rule ∨ s.peek?.isSome) : Follows q q' [] (eat kind) s := by
  constructor
  · intro t s' hok
    obtain ⟨rfl, ht, -⟩ := eat_eq_ok.1 hok
    refine ⟨[t], rfl, ?_, List.forall_mem_nil _⟩
    rw [Stage.run_singleton, ht, hstep]
  · intro e s' herror
    cases s with
    | token t rest =>
      by_cases ht : t.kind = kind
      · rcases rest.settled_or_stuck with hrest | ⟨e', rfl⟩
        · rw [eat_of_eq ht hrest] at herror
          cases herror
        · rw [eat_of_stuck e' ht] at herror
          cases herror
          refine ⟨[t], .stuck e, q', rfl, ?_, rfl, trivial⟩
          rw [Stage.run_singleton, ht, hstep]
      · rw [eat_of_ne rest ht] at herror
        cases herror
        exact ⟨[], .token t rest, q, rfl, rfl, rfl, hother t rest rfl ht⟩
    | finished position =>
      cases herror
      refine ⟨[], .finished position, q, rfl, rfl, rfl, hend.elim id fun hsome => ?_⟩
      cases hsome
    | stuck error =>
      cases herror
      exact ⟨[], .stuck error, q, rfl, rfl, rfl, trivial⟩

/-- A token of the kind that comes next is taken, and another reader goes on behind it. -/
theorem Follows.eat_bind {kind : Token.Kind} {f : Token → Parser γ} (hnext : s.nextKind = some kind)
    (hstep : q.step kind = some q₁)
    (hf : ∀ t s', s'.length < s.length → Follows q₁ q₂ kinds (f t) s') :
    Follows q q₂ kinds (eat kind >>= f) s := by
  cases s with
  | token t rest =>
    have ht : t.kind = kind := Option.some.inj hnext
    have heat : Follows q q₁ [] (eat kind) (.token t rest) :=
      eat_follows hstep (fun u _ hu hne => by cases hu; exact absurd ht hne) (.inr rfl)
    constructor
    · intro c s' hok
      obtain ⟨b, s₁, hp, hfs⟩ := bind_eq_ok.1 hok
      obtain ⟨hs, -, -⟩ := eat_eq_ok.1 hp
      cases hs
      obtain ⟨us, rfl, hus, hkinds⟩ := (hf t rest (Nat.lt_succ_self _)).ok hfs
      exact ⟨t :: us, rfl, (Stage.run_cons_of_eq (ht ▸ hstep) us).trans hus, hkinds⟩
    · intro e s' herror
      rcases bind_eq_error.1 herror with hp | ⟨b, s₁, hp, hfs⟩
      · exact heat.error hp
      · obtain ⟨hs, -, -⟩ := eat_eq_ok.1 hp
        cases hs
        have hrun : q.run [t] = some q₁ := by rw [Stage.run_singleton, ht, hstep]
        exact ((hf t rest (Nat.lt_succ_self _)).error hfs).of_run hrun
  | finished position => cases hnext
  | stuck error => cases hnext

/-! ## Operands -/

theorem enclosed_follows (b : Bracket) {brackets : List Bracket} {inner : Parser Expr}
    (hnext : s.nextKind = some b.opening)
    (hinner : ∀ s', s'.length < s.length →
      Follows (.operand (b :: brackets)) (.operator (b :: brackets)) [.pipe, .comma] inner s') :
    Follows (.operand brackets) (.operator brackets) []
      (b.enclose <$> enclosed b.opening b.closing inner) s := by
  refine Follows.map (Follows.eat_bind hnext (Stage.step_opening b brackets) fun _ s₁ h₁ => ?_) _
  refine (hinner s₁ h₁).bind fun e s₂ _ h₂ hstops => ?_
  have hclosing : Follows (.operator (b :: brackets)) (.operator brackets) []
      (eat b.closing) s₂ := by
    refine eat_follows (Stage.step_closing b brackets) (fun t rest ht hne => ?_) (.inl nofun)
    rw [ht] at hstops
    refine Stage.step_operator_cons (fun h => ?_) (fun h => ?_) hne
    · exact hstops .comma (by simp) (congrArg some h)
    · exact hstops .pipe (by simp) (congrArg some h)
  exact hclosing.bind fun _ s₃ _ _ _ => pure_follows (List.forall_mem_nil _) e

theorem operandWith_follows {brackets : List Bracket} {inner : Parser Expr}
    (hinner : ∀ b s', s'.length < s.length →
      Follows (.operand (b :: brackets)) (.operator (b :: brackets)) [.pipe, .comma] inner s') :
    Follows (.operand brackets) (.operator brackets) [] (operandWith inner) s := by
  have hword {kind : Token.Kind} (make : Token → Expr) {t : Token} {rest : Tokens}
      (ht : t.kind = kind)
      (hstep : (Stage.operand brackets).step kind = some (.operator brackets)) :
      Follows (.operand brackets) (.operator brackets) [] (make <$> eat kind) (.token t rest) :=
    (eat_follows hstep (fun u _ hu hne => by cases hu; exact absurd ht hne) (.inl nofun)).map make
  have hother {t : Token} {rest : Tokens}
      (hstep : (Stage.operand brackets).step t.kind = none)
      (hthrow : operandWith inner (.token t rest) =
        .error ⟨.notAnOperand t.kind, t.position⟩ (.token t rest)) :
      Follows (.operand brackets) (.operator brackets) [] (operandWith inner) (.token t rest) := by
    constructor
    · intro e s' hok
      rw [hthrow] at hok
      cases hok
    · intro e s' herror
      rw [hthrow] at herror
      cases herror
      exact .here _ rfl (fun u _ hu => by cases hu; exact hstep) nofun
  cases s with
  | token t rest =>
    obtain ⟨kind, value, position⟩ := t
    cases kind with
    | openParen => exact (enclosed_follows .round rfl (hinner .round)).congr rfl
    | openBrace => exact (enclosed_follows .curly rfl (hinner .curly)).congr rfl
    | openBracket => exact (enclosed_follows .square rfl (hinner .square)).congr rfl
    | special => exact (hword (fun t => .special t.value) rfl rfl).congr rfl
    | identifier => exact (hword (fun t => .identifier t.value) rfl rfl).congr rfl
    | terminal => exact (hword (fun t => .terminal t.value) rfl rfl).congr rfl
    | _ => exact hother rfl rfl
  | finished position | stuck error =>
    constructor
    · intro e s' hok
      cases hok
    · intro e s' herror
      cases herror
      exact .here _ rfl nofun nofun

/-! ## Chains -/

section Chain

variable {brackets : List Bracket} {operator : Token.Kind} {join : Expr → Expr → Expr}
  {operand : Parser Expr}

/-- A chain goes on as long as operators come, and stops in front of whatever its operands stop in
front of, and not in front of an operator. -/
theorem more_follows
    (hstep : (Stage.operator brackets).step operator = some (.operand brackets)) {most : Nat}
    (hoperand : ∀ s' : Tokens, s'.length ≤ most →
      Follows (.operand brackets) (.operator brackets) stops operand s')
    {n : Nat} (hs : s.length ≤ n) (hmost : s.length ≤ most)
    (hstops : ∀ kind ∈ stops, s.nextKind ≠ some kind) (left : Expr) :
    Follows (.operator brackets) (.operator brackets) (operator :: stops)
      (more operator join operand n left) s := by
  induction n generalizing left s with
  | zero =>
    refine pure_follows (fun kind hkind => ?_) left
    cases s with
    | token t rest => exact absurd hs (Nat.not_succ_le_zero _)
    | finished | stuck => nofun
  | succ n ih =>
    by_cases hnext : s.nextKind = some operator
    · refine Follows.congr ?_ (more_step hnext)
      refine Follows.eat_bind hnext hstep fun _ s₁ h₁ => ?_
      exact (hoperand s₁ (by omega)).bind fun right s₂ _ h₂ hstops₂ =>
        ih (by omega) (by omega) hstops₂ _
    · refine Follows.congr (pure_follows (fun kind hkind => ?_) left) (more_stop hnext)
      rcases List.mem_cons.1 hkind with rfl | hkind
      · exact hnext
      · exact hstops kind hkind

theorem chain_follows
    (hstep : (Stage.operator brackets).step operator = some (.operand brackets))
    (hoperand : ∀ s' : Tokens, s'.length ≤ s.length →
      Follows (.operand brackets) (.operator brackets) stops operand s')
    {n : Nat} (hs : s.length ≤ n) :
    Follows (.operand brackets) (.operator brackets) (operator :: stops)
      (chain operator join operand n) s :=
  (hoperand s (Nat.le_refl _)).bind fun left _ _ h hstops =>
    more_follows hstep hoperand (Nat.le_trans h hs) h hstops left

end Chain

theorem choiceTo_follows {brackets : List Bracket} {n depth : Nat}
    (hoperand : ∀ s' : Tokens, s'.length ≤ s.length →
      Follows (.operand brackets) (.operator brackets) [] (operandTo n depth) s')
    (hs : s.length ≤ n) :
    Follows (.operand brackets) (.operator brackets) [.pipe, .comma] (choiceTo n depth) s := by
  refine chain_follows (Stage.step_pipe brackets) (fun s₁ h₁ => ?_) hs
  exact chain_follows (Stage.step_comma brackets) (fun s₂ h₂ => hoperand s₂ (by omega)) (by omega)

/-- **Operands lead from stage to stage**, or end at an offence. By induction on how deep they may
nest: what is between brackets is shorter than what they are a part of. -/
theorem operandTo_follows {n depth : Nat} (brackets : List Bracket) (hs : s.length ≤ n)
    (hdepth : s.length ≤ depth) :
    Follows (.operand brackets) (.operator brackets) [] (operandTo n depth) s := by
  induction depth generalizing brackets s with
  | zero => exact operandWith_follows fun b s' h => absurd h (by omega)
  | succ depth ih =>
    refine operandWith_follows fun b s₁ h₁ => ?_
    refine choiceTo_follows (fun s₂ h₂ => ?_) (by omega)
    exact ih (b :: brackets) (by omega) (by omega)

/-! ## Rules -/

theorem eatStop_follows (hcomma : s.nextKind ≠ some .comma) (hpipe : s.nextKind ≠ some .pipe) :
    Follows (.operator []) .rule [] eatStop s := by
  by_cases h : s.nextKind = some .period
  · have heat : Follows (.operator []) .rule [] (eat .period) s := by
      refine eat_follows rfl (fun t rest ht hne => ?_) (.inl nofun)
      rw [ht] at h
      exact absurd (Option.some.inj h) hne
    refine heat.congr ?_
    change (ite _ _ _ : Parser Token) s = _
    rw [if_pos h]
  · have heat : Follows (.operator []) .rule [] (eat .semicolon) s := by
      refine eat_follows rfl (fun t rest ht hne => ?_) (.inl nofun)
      rw [ht] at hcomma hpipe h
      exact Stage.step_operator_nil (fun hk => hcomma (congrArg some hk))
        (fun hk => hpipe (congrArg some hk)) hne (fun hk => h (congrArg some hk))
    refine heat.congr ?_
    change (ite _ _ _ : Parser Token) s = _
    rw [if_neg h]

/-- A rule leads from one place between rules to the next. There has to be one. -/
theorem ruleOf_follows {n : Nat} (hs : s.length ≤ n) (hsome : s.peek?.isSome) :
    Follows .rule .rule [] (ruleOf n) s := by
  have hname : Follows .rule .equals [] (eat .identifier) s :=
    eat_follows rfl (fun _ _ _ hne => if_neg hne) (.inr hsome)
  have hequals (s : Tokens) : Follows .equals (.operand []) [] (eat .equals) s :=
    eat_follows rfl (fun _ _ _ hne => if_neg hne) (.inl nofun)
  rw [ruleOf_eq]
  refine hname.bind fun name s₁ _ h₁ _ => (hequals s₁).bind fun _ s₂ _ h₂ _ => ?_
  have hbody : Follows (.operand []) (.operator []) [.pipe, .comma] (choiceOf n) s₂ :=
    choiceTo_follows (fun s₃ h₃ => operandTo_follows [] (by omega) (by omega)) (by omega)
  refine hbody.bind fun body s₃ _ _ hstops => ?_
  refine (eatStop_follows (hstops .comma (by simp)) (hstops .pipe (by simp))).bind
    fun _ s₄ _ _ _ => ?_
  exact pure_follows (List.forall_mem_nil _) _

/-- Rules lead to the place behind the last one, or end at an offence. -/
theorem rulesOf_follows {n count : Nat} (hs : s.length ≤ n) (hcount : s.length ≤ count) :
    Follows .rule .rule [] (rulesOf n count) s := by
  induction count generalizing s with
  | zero => exact pure_follows (List.forall_mem_nil _) _
  | succ count ih =>
    cases s with
    | token t rest =>
      refine Follows.congr ?_ (rulesOf_token n count t rest)
      refine (ruleOf_follows hs rfl).bind fun r s₁ hr h₁ _ => ?_
      -- a rule takes at least one token, so the bound goes on to be enough
      have hlt : s₁.length ≤ count := by
        obtain ⟨ts, hts, -, hderives⟩ := ruleOf_sound n _ _ _ hr
        have := List.length_pos_iff.2 hderives.ne_nil
        rw [hts, Tokens.length_append] at hcount
        omega
      refine (ih (by omega) hlt).bind fun rules s₂ _ _ _ => ?_
      exact pure_follows (List.forall_mem_nil _) _
    | finished | stuck => exact (pure_follows (List.forall_mem_nil _) []).congr rfl

/-- **The error of a token list** stands at its first offence. -/
theorem offence_of_grammar_eq_error {s s' : Tokens} {e : ParseError}
    (h : grammar s = .error e s') : Offence .rule s e := by
  rw [grammar_eq] at h
  rcases bind_eq_error.1 h with h | ⟨rules, s₁, -, h⟩
  · exact (rulesOf_follows (Nat.le_refl _) (Nat.le_refl _)).error h
  · cases h

end Parser

/-! ## Beginnings of grammars -/

namespace Grammar

/-- Tokens that lead from the place between two rules back to it are a grammar. The parser finds it:
it would fail at an offence, and there is none. -/
theorem exists_derives_of_run {ts : List Token} (h : Stage.rule.run ts = some .rule) :
    ∃ g, Derives ts g := by
  have hs := (Tokens.settled_finished .start).append ts
  cases hread : Parser.grammar (ts ++ Tokens.finished .start) with
  | ok g s' =>
    obtain ⟨us, p, hus, -, hderives⟩ := (Parser.grammar_eq_ok hs).1 hread
    have hlist := congrArg Tokens.toList hus
    rw [Tokens.toList_append, Tokens.toList_append] at hlist
    simp only [Tokens.toList, List.append_nil] at hlist
    exact ⟨g, hlist ▸ hderives⟩
  | error e s' =>
    obtain ⟨us, rest, q, hus, hrun, -, hplace⟩ := Parser.offence_of_grammar_eq_error hread
    have hlist := congrArg Tokens.toList hus
    rw [Tokens.toList_append, Tokens.toList_append, Tokens.toList, List.append_nil] at hlist
    cases rest with
    | token t rest =>
      rw [hlist, Stage.run_append_of_eq hrun, Tokens.toList, Stage.run, hplace] at h
      cases h
    | finished p =>
      rw [hlist, Stage.run_append_of_eq hrun] at h
      exact absurd (Option.some.inj h) hplace
    | stuck e => exact absurd hus.symm (Tokens.append_stuck_ne_append_finished us ts e .start)

/-- **The stages tell** which tokens can go on to be a grammar. -/
theorem viable_iff {ts : List Token} : Viable ts ↔ ∃ q, Stage.rule.run ts = some q := by
  refine ⟨Viable.exists_run, fun ⟨q, hq⟩ => ?_⟩
  obtain ⟨us, hus⟩ := q.exists_completion
  exact ⟨us, exists_derives_of_run ((Stage.run_append_of_eq hq us).trans hus)⟩

/-! ## Sources -/

/-- The error of a source stands at an offence among its tokens. -/
theorem offence_of_parse_eq_error {source : String} {e : ParseError}
    (h : parse source = .error e) : Parser.Offence .rule (Tokens.ofString source) e := by
  rcases hs : (Tokens.ofString source).settled_or_stuck with hsettled | ⟨e', he⟩
  · rw [parse_of_settled hsettled] at h
    cases hread : Parser.grammar (Tokens.ofString source) with
    | ok g s' =>
      rw [hread] at h
      cases h
    | error e' s' =>
      rw [hread] at h
      cases h
      exact Parser.offence_of_grammar_eq_error hread
  · rw [parse_of_stuck he] at h
    cases h
    exact ⟨[], .stuck e, .rule, he, rfl, rfl, trivial⟩

/-- What is wrong at a place of a source, if some tokens have been passed up to there. -/
inductive WrongAt (ts : List Token) (s : Scanner) : Prop
  /-- the next token is one that no grammar goes on with -/
  | token {kind : Token.Kind} {cut : Split s.rest}
      (h : firstSplit? s.rest = some (some kind, cut))
      (hwrong : ¬ Viable (ts ++ [⟨kind, kind.value cut.piece, s.position⟩]))
  /-- no piece of a source starts with the next character -/
  | stray (h : s.rest ≠ []) (hnone : firstSplit? s.rest = none)
  /-- the source ends, and the tokens are not a grammar yet -/
  | ending (h : s.rest = []) (hpartial : ¬ ∃ g, Derives ts g)

/-- **Errors stand at the first offending place**: the tokens before the place of an error can go on
to be a grammar, and there they cannot go on as the source does. -/
theorem parse_error_first_offence {source : String} {e : ParseError}
    (h : parse source = .error e) :
    ∃ ts s, (Scanner.ofString source).Passes ts s ∧ e.position = s.position ∧
      (Tokens.ofString source).toList.filter (·.position.isBefore e.position) = ts ∧
      Viable ts ∧ WrongAt ts s := by
  obtain ⟨ts, rest, q, hsplit, hrun, hposition, hplace⟩ := offence_of_parse_eq_error h
  obtain ⟨s, hpasses, hfaces⟩ := Scanner.exists_passes hsplit
  have hposition : e.position = s.position := hposition.trans hfaces.position_eq
  have hfilter := hpasses.filter_isBefore hfaces hsplit
  refine ⟨ts, s, hpasses, hposition, hposition ▸ hfilter, viable_iff.2 ⟨q, hrun⟩, ?_⟩
  cases hfaces with
  | token hcut =>
    refine .token hcut fun hviable => ?_
    obtain ⟨q', hq'⟩ := hviable.exists_run
    rw [Stage.run_append_of_eq hrun, Stage.run_singleton, hplace] at hq'
    cases hq'
  | finished hnil =>
    refine .ending hnil fun ⟨g, hderives⟩ => hplace ?_
    exact Option.some.inj (hrun.symm.trans (Stage.run_of_derives hderives))
  | stuck hcons hnone => exact .stray (hcons ▸ List.cons_ne_nil _ _) hnone

/-- A bracket that is open when the rule ends: the tokens in front of the semicolon could go on,
those up to the semicolon cannot. -/
theorem parse_error_first_offence_unclosed :
    parse "a=(b;" = .error ⟨.wrongToken .semicolon .closeParen, ⟨1, 5⟩⟩ ∧
      Viable ((Tokens.ofString "a=(b;").toList.filter (·.position.isBefore ⟨1, 5⟩)) ∧
      ¬ Viable (Tokens.ofString "a=(b;").toList := by
  have herror : parse "a=(b;" = .error ⟨.wrongToken .semicolon .closeParen, ⟨1, 5⟩⟩ := by
    decide +kernel
  have hrun : Stage.rule.run (Tokens.ofString "a=(b;").toList = none := by decide +kernel
  obtain ⟨ts, s, -, -, hts, hviable, -⟩ := parse_error_first_offence herror
  refine ⟨herror, hts ▸ hviable, fun hall => ?_⟩
  obtain ⟨q, hq⟩ := hall.exists_run
  rw [hrun] at hq
  cases hq

end Grammar
end SyntaxDiagram
