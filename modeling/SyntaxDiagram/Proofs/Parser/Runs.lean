import SyntaxDiagram.Grammar.Parser

/-!
# Runs of the parser

What the smallest readers do with the tokens that are next.

* `Tokens.Settled`: tokens behind which the scanner is not stuck. Nothing else is read by a run that
  succeeds.
* `Parser.eat_eq_ok`: a token is taken if it has the kind that is asked for.
* `Parser.chain_of_ok`, `Parser.more_of_ok`, `Parser.more_stop`: how far a chain of an operator
  goes.
-/

namespace SyntaxDiagram

namespace Tokens

/-- Tokens in front of others. -/
def prepend (ts : List Token) (s : Tokens) : Tokens := ts.foldr token s

instance : HAppend (List Token) Tokens Tokens := ⟨prepend⟩

@[simp] theorem nil_append (s : Tokens) : ([] : List Token) ++ s = s := rfl

@[simp] theorem cons_append (t : Token) (ts : List Token) (s : Tokens) :
    (t :: ts) ++ s = token t (ts ++ s) := rfl

@[simp] theorem append_append (ts us : List Token) (s : Tokens) :
    (ts ++ us) ++ s = ts ++ (us ++ s) := List.foldr_append ..

@[simp] theorem length_append (ts : List Token) (s : Tokens) :
    (ts ++ s).length = ts.length + s.length := by
  induction ts with
  | nil => rw [nil_append, List.length_nil, Nat.zero_add]
  | cons t ts ih => rw [cons_append, length, ih, List.length_cons]; omega

/-- Something can be read here, or the source ends here. -/
def Settled (s : Tokens) : Prop := ∀ e, s ≠ stuck e

theorem settled_token (t : Token) (s : Tokens) : (token t s).Settled := nofun

theorem settled_finished (p : Position) : (finished p).Settled := nofun

theorem settled_or_stuck (s : Tokens) : s.Settled ∨ ∃ e, s = stuck e := by
  cases s with
  | token t s => exact .inl (settled_token t s)
  | finished p => exact .inl (settled_finished p)
  | stuck e => exact .inr ⟨e, rfl⟩

theorem Settled.append {s : Tokens} (h : s.Settled) (ts : List Token) : (ts ++ s).Settled := by
  cases ts with
  | nil => exact h
  | cons t ts => exact settled_token t _

/-- The kind of the next token. -/
abbrev nextKind (s : Tokens) : Option Token.Kind := s.peek?.map (·.kind)

theorem nextKind_token (t : Token) (s : Tokens) : (token t s).nextKind = some t.kind := rfl

end Tokens

namespace Parser

variable {β γ : Type}

/-! ## Runs -/

/-- A run of two readers in turn that succeeds. -/
theorem bind_eq_ok {p : Parser β} {f : β → Parser γ} {s s' : Tokens} {c : γ} :
    (p >>= f) s = .ok c s' ↔ ∃ b s₁, p s = .ok b s₁ ∧ f b s₁ = .ok c s' := by
  change EStateM.bind p f s = _ ↔ _
  rw [EStateM.bind]
  cases h : p s with
  | ok b s₁ =>
    constructor
    · exact fun hf => ⟨b, s₁, rfl, hf⟩
    · rintro ⟨b', s₁', h', hf⟩
      cases h'
      exact hf
  | error e s₁ => simp

/-- A run of two readers in turn that fails: one of them fails. -/
theorem bind_eq_error {p : Parser β} {f : β → Parser γ} {s s' : Tokens} {e : ParseError} :
    (p >>= f) s = .error e s' ↔
      p s = .error e s' ∨ ∃ b s₁, p s = .ok b s₁ ∧ f b s₁ = .error e s' := by
  change EStateM.bind p f s = _ ↔ _
  rw [EStateM.bind]
  cases h : p s with
  | ok b s₁ =>
    constructor
    · exact fun hf => .inr ⟨b, s₁, rfl, hf⟩
    · rintro (h' | ⟨b', s₁', h', hf⟩)
      · cases h'
      · cases h'
        exact hf
  | error e s₁ => simp

/-- A reader that succeeds hands on to the next one. -/
theorem bind_of_ok {p : Parser β} (f : β → Parser γ) {s s₁ : Tokens} {b : β}
    (h : p s = .ok b s₁) : (p >>= f) s = f b s₁ := by
  change EStateM.bind p f s = _
  rw [EStateM.bind, h]

theorem pure_eq_ok {b c : β} {s s' : Tokens} :
    (pure b : Parser β) s = .ok c s' ↔ b = c ∧ s = s' := by
  change EStateM.Result.ok b s = .ok c s' ↔ _
  simp

theorem map_eq_ok {f : β → γ} {p : Parser β} {s s' : Tokens} {c : γ} :
    (f <$> p) s = .ok c s' ↔ ∃ b, p s = .ok b s' ∧ f b = c := by
  rw [map_eq_pure_bind, bind_eq_ok]
  constructor
  · rintro ⟨b, s₁, hp, hf⟩
    obtain ⟨hc, rfl⟩ := pure_eq_ok.1 hf
    exact ⟨b, hp, hc⟩
  · rintro ⟨b, hp, hc⟩
    exact ⟨b, s', hp, pure_eq_ok.2 ⟨hc, rfl⟩⟩

theorem map_eq_error {f : β → γ} {p : Parser β} {s s' : Tokens} {e : ParseError} :
    (f <$> p) s = .error e s' ↔ p s = .error e s' := by
  rw [map_eq_pure_bind, bind_eq_error]
  constructor
  · rintro (h | ⟨b, s₁, -, h⟩)
    · exact h
    · cases h
  · exact .inl

/-! ## Taking a token -/

theorem eat_of_ne {kind : Token.Kind} {t : Token} (rest : Tokens) (h : t.kind ≠ kind) :
    eat kind (.token t rest) = .error ⟨.wrongToken t.kind kind, t.position⟩ (.token t rest) := by
  change (ite _ _ _ : Parser Token) (.token t rest) = _
  rw [if_pos h]
  rfl

theorem eat_of_eq {kind : Token.Kind} {t : Token} {rest : Tokens} (h : t.kind = kind)
    (hrest : rest.Settled) : eat kind (.token t rest) = .ok t rest := by
  change (ite _ _ _ : Parser Token) (.token t rest) = _
  rw [if_neg (fun hne => hne h)]
  cases rest with
  | token | finished => rfl
  | stuck e => exact absurd rfl (hrest e)

theorem eat_of_stuck {kind : Token.Kind} {t : Token} (e : ParseError) (h : t.kind = kind) :
    eat kind (.token t (.stuck e)) = .error e (.stuck e) := by
  change (ite _ _ _ : Parser Token) (.token t (.stuck e)) = _
  rw [if_neg (fun hne => hne h)]
  rfl

/-- **Taking a token** succeeds on a token of the kind behind which something can be read. -/
theorem eat_eq_ok {kind : Token.Kind} {s s' : Tokens} {t : Token} :
    eat kind s = .ok t s' ↔ s = .token t s' ∧ t.kind = kind ∧ s'.Settled := by
  constructor
  · intro h
    cases s with
    | token u rest =>
      by_cases hk : u.kind = kind
      · rcases rest.settled_or_stuck with hs | ⟨e, rfl⟩
        · rw [eat_of_eq hk hs] at h
          cases h
          exact ⟨rfl, hk, hs⟩
        · rw [eat_of_stuck e hk] at h
          cases h
      · rw [eat_of_ne rest hk] at h
        cases h
    | finished | stuck => cases h
  · rintro ⟨rfl, hk, hs⟩
    exact eat_of_eq hk hs

/-! ## Chains of an operator -/

section Chain

variable {operator : Token.Kind} {join : Expr → Expr → Expr} {operand : Parser Expr}

theorem more_stop {n : Nat} {left : Expr} {s : Tokens} (h : s.nextKind ≠ some operator) :
    more operator join operand n left s = .ok left s := by
  cases n with
  | zero => rfl
  | succ n =>
    change (ite _ _ _ : Parser Expr) s = _
    rw [if_neg h]
    rfl

theorem more_step {n : Nat} {left : Expr} {s : Tokens} (h : s.nextKind = some operator) :
    more operator join operand (n + 1) left s =
      (eat operator >>= fun _ => operand >>= fun right =>
        more operator join operand n (join left right)) s := by
  change (ite _ _ _ : Parser Expr) s = _
  rw [if_pos h]

theorem more_of_ok {n : Nat} {left right : Expr} {t : Token} {rest s : Tokens}
    (ht : t.kind = operator) (hrest : rest.Settled) (hright : operand rest = .ok right s) :
    more operator join operand (n + 1) left (.token t rest) =
      more operator join operand n (join left right) s := by
  rw [more_step (by rw [Tokens.nextKind_token, ht]), bind_of_ok _ (eat_of_eq ht hrest),
    bind_of_ok _ hright]

theorem chain_of_ok {n : Nat} {left : Expr} {s s₁ : Tokens} (h : operand s = .ok left s₁) :
    chain operator join operand n s = more operator join operand n left s₁ := by
  rw [chain, bind_of_ok _ h]

end Chain

end Parser
end SyntaxDiagram
