import SyntaxDiagram.Proofs.Derivation
import SyntaxDiagram.Proofs.Parser.Runs

/-!
# Expressions are read exactly

A successful reader takes tokens off the front that derive what it answers, and a derivation in
front of other tokens is read to its end.

* `Parser.Sound`: the first half, for any reader. It holds of a chain if it holds of its operands.
* `Parser.choiceOf_sound`: whatever is read as an expression derives it.
* `Parser.ReadTo`: the second half, for each kind of phrase. A phrase ends where no operator goes on
  with it.
* `Parser.choiceOf_of_derives`: whatever derives an expression is read as it.
-/

namespace SyntaxDiagram.Parser

variable {β γ : Type}

/-! ## What is read derives the answer -/

/-- Whenever a reader succeeds, it has taken tokens off the front from which its answer derives, and
something can be read behind them. -/
def Sound (D : List Token → β → Prop) (p : Parser β) : Prop :=
  ∀ (s s' : Tokens) (b : β), p s = .ok b s' → ∃ ts, s = ts ++ s' ∧ s'.Settled ∧ D ts b

/-- Operands that are joined from the left make up longer and longer chains. -/
theorem more_sound {D U : List Token → Expr → Prop} {operator : Token.Kind}
    {join : Expr → Expr → Expr} {operand : Parser Expr} (hp : Sound D operand)
    (hjoin : ∀ {ts us t l r}, U ts l → t.kind = operator → D us r → U (ts ++ t :: us) (join l r))
    {n : Nat} {left e : Expr} {ts : List Token} {s s' : Tokens} (hleft : U ts left)
    (hs : s.Settled) (h : more operator join operand n left s = .ok e s') :
    ∃ us, s = us ++ s' ∧ s'.Settled ∧ U (ts ++ us) e := by
  induction n generalizing left ts s with
  | zero =>
    cases h
    exact ⟨[], rfl, hs, by rwa [List.append_nil]⟩
  | succ n ih =>
    by_cases hnext : s.nextKind = some operator
    · rw [more_step hnext, bind_eq_ok] at h
      obtain ⟨t, s₁, heat, h⟩ := h
      obtain ⟨rfl, ht, hs₁⟩ := eat_eq_ok.1 heat
      rw [bind_eq_ok] at h
      obtain ⟨right, s₂, hright, h⟩ := h
      obtain ⟨us, rfl, hs₂, hus⟩ := hp _ _ _ hright
      -- the tokens so far, the operator and the operand behind it are the next left part
      obtain ⟨vs, rfl, hs', hvs⟩ := ih (hjoin hleft ht hus) hs₂ h
      refine ⟨t :: (us ++ vs), by rw [Tokens.cons_append, Tokens.append_append], hs', ?_⟩
      rwa [List.append_assoc, List.cons_append] at hvs
    · rw [more_stop hnext] at h
      cases h
      exact ⟨[], rfl, hs, by rwa [List.append_nil]⟩

theorem chain_sound {D U : List Token → Expr → Prop} {operator : Token.Kind}
    {join : Expr → Expr → Expr} {operand : Parser Expr} (hp : Sound D operand)
    (hone : ∀ {ts e}, D ts e → U ts e)
    (hjoin : ∀ {ts us t l r}, U ts l → t.kind = operator → D us r → U (ts ++ t :: us) (join l r))
    (n : Nat) : Sound U (chain operator join operand n) := by
  intro s s' e h
  rw [chain, bind_eq_ok] at h
  obtain ⟨left, s₁, hleft, h⟩ := h
  obtain ⟨ts, rfl, hs₁, hts⟩ := hp _ _ _ hleft
  obtain ⟨us, rfl, hs', hus⟩ := more_sound hp hjoin (hone hts) hs₁ h
  exact ⟨ts ++ us, (Tokens.append_append ..).symm, hs', hus⟩

/-- A word of one of the kinds that stand for themselves. -/
theorem word_sound {kind : Token.Kind} {make : Token → Expr}
    (hmake : ∀ {t}, t.kind = kind → Expr.Derives .operand [t] (make t)) :
    Sound (Expr.Derives .operand) (make <$> eat kind) := by
  intro s s' e h
  obtain ⟨t, heat, rfl⟩ := map_eq_ok.1 h
  obtain ⟨rfl, ht, hs'⟩ := eat_eq_ok.1 heat
  exact ⟨[t], rfl, hs', hmake ht⟩

theorem enclosed_sound (b : Bracket) {inner : Parser Expr}
    (hp : Sound (Expr.Derives .choice) inner) :
    Sound (Expr.Derives .operand) (b.enclose <$> enclosed b.opening b.closing inner) := by
  intro s s' e henclosed
  obtain ⟨e, h, rfl⟩ := map_eq_ok.1 henclosed
  rw [enclosed, bind_eq_ok] at h
  obtain ⟨opening, s₁, heat, h⟩ := h
  obtain ⟨rfl, ho, -⟩ := eat_eq_ok.1 heat
  rw [bind_eq_ok] at h
  obtain ⟨e', s₂, hinner, h⟩ := h
  obtain ⟨ts, rfl, -, hts⟩ := hp _ _ _ hinner
  rw [bind_eq_ok] at h
  obtain ⟨closing, s₃, heat', h⟩ := h
  obtain ⟨rfl, hc, hs₃⟩ := eat_eq_ok.1 heat'
  obtain ⟨rfl, rfl⟩ := pure_eq_ok.1 h
  refine ⟨opening :: (ts ++ [closing]), ?_, hs₃, .enclosed b ho hts hc⟩
  rw [Tokens.cons_append, Tokens.append_append]
  rfl

theorem operandWith_sound {inner : Parser Expr} (hp : Sound (Expr.Derives .choice) inner) :
    Sound (Expr.Derives .operand) (operandWith inner) := by
  intro s s' e h
  cases s with
  | token t rest =>
    obtain ⟨kind, value, position⟩ := t
    cases kind with
    | openParen => exact enclosed_sound .round hp _ _ _ h
    | openBrace => exact enclosed_sound .curly hp _ _ _ h
    | openBracket => exact enclosed_sound .square hp _ _ _ h
    | special => exact word_sound .special _ _ _ h
    | identifier => exact word_sound .identifier _ _ _ h
    | terminal => exact word_sound .terminal _ _ _ h
    | _ => cases h
  | finished | stuck => cases h

/-- Sequences whose operands nest at most `depth` deep. -/
def sequenceTo (n depth : Nat) : Parser Expr := chain .comma .sequence (operandTo n depth) n

/-- Choices whose operands nest at most `depth` deep. -/
def choiceTo (n depth : Nat) : Parser Expr := chain .pipe .choice (sequenceTo n depth) n

theorem sequenceTo_sound {n depth : Nat}
    (hp : Sound (Expr.Derives .operand) (operandTo n depth)) :
    Sound (Expr.Derives .sequence) (sequenceTo n depth) :=
  chain_sound hp .ofOperand .comma n

theorem choiceTo_sound {n depth : Nat}
    (hp : Sound (Expr.Derives .operand) (operandTo n depth)) :
    Sound (Expr.Derives .choice) (choiceTo n depth) :=
  chain_sound (sequenceTo_sound hp) .ofSequence .pipe n

theorem operandTo_sound (n depth : Nat) : Sound (Expr.Derives .operand) (operandTo n depth) := by
  induction depth with
  | zero => exact operandWith_sound (fun _ _ _ h => by cases h)
  | succ depth ih => exact operandWith_sound (choiceTo_sound ih)

theorem choiceOf_sound (n : Nat) : Sound (Expr.Derives .choice) (choiceOf n) :=
  choiceTo_sound (operandTo_sound n n)

/-! ## What derives is read -/

theorem enclosed_of_ok (b : Bracket) {inner : Parser Expr} {opening closing : Token}
    {rest s : Tokens} {e : Expr} (ho : opening.kind = b.opening) (hc : closing.kind = b.closing)
    (hrest : rest.Settled) (hs : s.Settled) (h : inner rest = .ok e (.token closing s)) :
    operandWith inner (.token opening rest) = .ok (b.enclose e) s := by
  have hrun : (b.enclose <$> enclosed b.opening b.closing inner) (.token opening rest) =
      .ok (b.enclose e) s := by
    refine map_eq_ok.2 ⟨e, ?_, rfl⟩
    rw [enclosed, bind_of_ok _ (eat_of_eq ho hrest), bind_of_ok _ h,
      bind_of_ok _ (eat_of_eq hc hs)]
    rfl
  rw [← hrun]
  obtain ⟨kind, value, position⟩ := opening
  cases b <;> cases ho <;> rfl

/-- Chains are read from the left: behind the tokens that derive a left part, reading goes on as if
that part had just been read. How many joins there are in it is all that is taken off the bound. -/
def ReadTo : Phrase → List Token → Expr → Prop
  | .operand, ts, e => ∀ n depth s, ts.length ≤ n → ts.length ≤ depth → s.Settled →
      operandTo n depth (ts ++ s) = .ok e s
  | .sequence, ts, e => ∃ joins ≤ ts.length, ∀ n depth m s, ts.length ≤ n → ts.length ≤ depth →
      s.Settled →
      chain .comma .sequence (operandTo n depth) (joins + m) (ts ++ s) =
        more .comma .sequence (operandTo n depth) m e s
  | .choice, ts, e => ∃ joins ≤ ts.length, ∀ n depth m s, ts.length ≤ n → ts.length ≤ depth →
      s.Settled → s.nextKind ≠ some .comma →
      chain .pipe .choice (sequenceTo n depth) (joins + m) (ts ++ s) =
        more .pipe .choice (sequenceTo n depth) m e s

theorem ReadTo.sequenceTo_eq {ts : List Token} {e : Expr} (h : ReadTo .sequence ts e)
    {n depth : Nat} {s : Tokens} (hn : ts.length ≤ n) (hdepth : ts.length ≤ depth) (hs : s.Settled)
    (hcomma : s.nextKind ≠ some .comma) : sequenceTo n depth (ts ++ s) = .ok e s := by
  obtain ⟨joins, hjoins, hread⟩ := h
  have := hread n depth (n - joins) s hn hdepth hs
  rwa [Nat.add_sub_cancel' (Nat.le_trans hjoins hn), more_stop hcomma] at this

theorem ReadTo.choiceTo_eq {ts : List Token} {e : Expr} (h : ReadTo .choice ts e)
    {n depth : Nat} {s : Tokens} (hn : ts.length ≤ n) (hdepth : ts.length ≤ depth) (hs : s.Settled)
    (hcomma : s.nextKind ≠ some .comma) (hpipe : s.nextKind ≠ some .pipe) :
    choiceTo n depth (ts ++ s) = .ok e s := by
  obtain ⟨joins, hjoins, hread⟩ := h
  have := hread n depth (n - joins) s hn hdepth hs hcomma
  rwa [Nat.add_sub_cancel' (Nat.le_trans hjoins hn), more_stop hpipe] at this

/-- **Derivations are read.** By induction on the derivation; the left part of a chain is read with
the rest of the chain behind it. -/
theorem readTo_of_derives {phrase : Phrase} {ts : List Token} {e : Expr}
    (h : Expr.Derives phrase ts e) : ReadTo phrase ts e := by
  induction h with
  | @identifier t ht | @terminal t ht | @special t ht =>
    intro n depth s _ _ hs
    -- a word is an operand whatever may be nested in other operands
    obtain ⟨kind, value, position⟩ := t
    cases ht
    cases depth <;> exact map_eq_ok.2 ⟨_, eat_of_eq rfl hs, rfl⟩
  | @enclosed b opening closing ts e ho h hc ih =>
    intro n depth s hn hdepth hs
    simp only [List.length_cons, List.length_append, List.length_nil] at hn hdepth
    -- the brackets pay for one more level
    obtain ⟨depth, rfl⟩ : ∃ d, depth = d + 1 := ⟨depth - 1, by omega⟩
    rw [Tokens.cons_append, Tokens.append_append, Tokens.cons_append, Tokens.nil_append]
    refine enclosed_of_ok b ho hc ((Tokens.settled_token _ s).append ts) hs ?_
    refine ih.choiceTo_eq (by omega) (by omega) (Tokens.settled_token _ s) ?_ ?_
    · rw [Tokens.nextKind_token, hc]
      cases b <;> decide
    · rw [Tokens.nextKind_token, hc]
      cases b <;> decide
  | ofOperand h ih =>
    refine ⟨0, Nat.zero_le _, fun n depth m s hn hdepth hs => ?_⟩
    rw [Nat.zero_add, chain_of_ok (ih n depth s hn hdepth hs)]
  | @comma t ts us left right hl ho hr ihl ihr =>
    obtain ⟨joins, hjoins, hread⟩ := ihl
    -- the left part is read with one more step of the bound left over, for the join
    refine ⟨joins + 1, by rw [List.length_append, List.length_cons]; omega, ?_⟩
    intro n depth m s hn hdepth hs
    rw [List.length_append, List.length_cons] at hn hdepth
    rw [Tokens.append_append, Tokens.cons_append, Nat.add_assoc, Nat.add_comm 1 m,
      hread n depth (m + 1) _ (by omega) (by omega) (Tokens.settled_token _ _),
      more_of_ok ho (hs.append us) (ihr n depth s (by omega) (by omega) hs)]
  | ofSequence h ih =>
    refine ⟨0, Nat.zero_le _, fun n depth m s hn hdepth hs hcomma => ?_⟩
    rw [Nat.zero_add, chain_of_ok (ih.sequenceTo_eq hn hdepth hs hcomma)]
  | @pipe t ts us left right hl ho hr ihl ihr =>
    obtain ⟨joins, hjoins, hread⟩ := ihl
    refine ⟨joins + 1, by rw [List.length_append, List.length_cons]; omega, ?_⟩
    intro n depth m s hn hdepth hs hcomma
    rw [List.length_append, List.length_cons] at hn hdepth
    have hpipe : (Tokens.token t (us ++ s)).nextKind ≠ some .comma := by
      rw [Tokens.nextKind_token, ho]
      decide
    rw [Tokens.append_append, Tokens.cons_append, Nat.add_assoc, Nat.add_comm 1 m,
      hread n depth (m + 1) _ (by omega) (by omega) (Tokens.settled_token _ _) hpipe,
      more_of_ok ho (hs.append us) (ihr.sequenceTo_eq (by omega) (by omega) hs hcomma)]

/-- Behind a choice that derives stands neither operator. -/
theorem choiceOf_of_derives {ts : List Token} {e : Expr} (h : Expr.Derives .choice ts e) {n : Nat}
    {s : Tokens} (hn : ts.length ≤ n) (hs : s.Settled) (hcomma : s.nextKind ≠ some .comma)
    (hpipe : s.nextKind ≠ some .pipe) : choiceOf n (ts ++ s) = .ok e s :=
  (readTo_of_derives h).choiceTo_eq hn hn hs hcomma hpipe

end SyntaxDiagram.Parser
