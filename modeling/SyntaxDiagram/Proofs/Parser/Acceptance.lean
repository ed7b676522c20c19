import SyntaxDiagram.Proofs.Parser.Expressions
import SyntaxDiagram.Proofs.Scanning

/-!
# The parser accepts exactly its grammar

* `Parser.ruleOf_sound`, `Parser.ruleOf_of_derives`: rules.
* `Parser.grammar_eq_ok`: a token list is read as a grammar exactly if it derives it.
* `Grammar.parse_accepts_exactly`: sources, from their text to the tree.
-/

namespace SyntaxDiagram

namespace Parser

/-! ## Rules -/

/-- Takes the token at the end of a rule. -/
def eatStop : Parser Token := do
  if (← peekKind) = some .period then eat .period else eat .semicolon

theorem ruleOf_eq (n : Nat) :
    ruleOf n = (do
      let name ← eat .identifier
      let _ ← eat .equals
      let body ← choiceOf n
      let _ ← eatStop
      return ⟨name.value, body⟩) := by
  unfold ruleOf eatStop
  refine bind_congr fun name => bind_congr fun _ => bind_congr fun body => ?_
  rw [bind_assoc]
  refine bind_congr fun kind => ?_
  split
  · rfl
  · rfl

theorem eatStop_eq_ok {s s' : Tokens} {t : Token} :
    eatStop s = .ok t s' ↔
      s = .token t s' ∧ (t.kind = .semicolon ∨ t.kind = .period) ∧ s'.Settled := by
  by_cases h : s.nextKind = some .period
  · have : eatStop s = eat .period s := by
      change (ite _ _ _ : Parser Token) s = _
      rw [if_pos h]
    rw [this, eat_eq_ok]
    constructor
    · rintro ⟨hs, hk, hs'⟩
      exact ⟨hs, .inr hk, hs'⟩
    · rintro ⟨rfl, -, hs'⟩
      exact ⟨rfl, Option.some.inj h, hs'⟩
  · have : eatStop s = eat .semicolon s := by
      change (ite _ _ _ : Parser Token) s = _
      rw [if_neg h]
    rw [this, eat_eq_ok]
    constructor
    · rintro ⟨hs, hk, hs'⟩
      exact ⟨hs, .inl hk, hs'⟩
    · rintro ⟨rfl, hk | hk, hs'⟩
      · exact ⟨rfl, hk, hs'⟩
      · exact absurd (congrArg some hk) h

theorem ruleOf_sound (n : Nat) : Sound Rule.Derives (ruleOf n) := by
  intro s s' r h
  rw [ruleOf_eq, bind_eq_ok] at h
  obtain ⟨name, s₁, heat, h⟩ := h
  obtain ⟨rfl, hn, -⟩ := eat_eq_ok.1 heat
  rw [bind_eq_ok] at h
  obtain ⟨equals, s₂, heat, h⟩ := h
  obtain ⟨rfl, he, -⟩ := eat_eq_ok.1 heat
  rw [bind_eq_ok] at h
  obtain ⟨body, s₃, hbody, h⟩ := h
  obtain ⟨ts, rfl, -, hts⟩ := choiceOf_sound n _ _ _ hbody
  rw [bind_eq_ok] at h
  obtain ⟨stop, s₄, hstop, h⟩ := h
  obtain ⟨rfl, hk, hs'⟩ := eatStop_eq_ok.1 hstop
  obtain ⟨rfl, rfl⟩ := pure_eq_ok.1 h
  refine ⟨name :: equals :: (ts ++ [stop]), ?_, hs', .intro hn he hts hk⟩
  rw [Tokens.cons_append, Tokens.cons_append, Tokens.append_append]
  rfl

theorem ruleOf_of_derives {ts : List Token} {r : Rule} (h : Rule.Derives ts r) {n : Nat}
    {s : Tokens} (hn : ts.length ≤ n) (hs : s.Settled) : ruleOf n (ts ++ s) = .ok r s := by
  obtain @⟨name, equals, stop, ts, body, hname, hequals, hbody, hstop⟩ := h
  simp only [List.length_cons, List.length_append, List.length_nil] at hn
  have hstopped : eatStop (.token stop s) = .ok stop s := eatStop_eq_ok.2 ⟨rfl, hstop, hs⟩
  have hcomma : (Tokens.token stop s).nextKind ≠ some .comma := by
    rw [Tokens.nextKind_token]
    rcases hstop with h | h <;> rw [h] <;> decide
  have hpipe : (Tokens.token stop s).nextKind ≠ some .pipe := by
    rw [Tokens.nextKind_token]
    rcases hstop with h | h <;> rw [h] <;> decide
  have hread := choiceOf_of_derives hbody (n := n) (by omega) (Tokens.settled_token stop s) hcomma
    hpipe
  rw [ruleOf_eq, Tokens.cons_append, Tokens.cons_append, Tokens.append_append, Tokens.cons_append,
    Tokens.nil_append, bind_of_ok _ (eat_of_eq hname (Tokens.settled_token _ _)),
    bind_of_ok _ (eat_of_eq hequals ((Tokens.settled_token _ _).append ts)), bind_of_ok _ hread,
    bind_of_ok _ hstopped]
  rfl

/-! ## Grammars -/

theorem rulesOf_token (n count : Nat) (t : Token) (s : Tokens) :
    rulesOf n (count + 1) (.token t s) =
      (ruleOf n >>= fun r => rulesOf n count >>= fun rest => pure (r :: rest)) (.token t s) := rfl

theorem rulesOf_finished (n count : Nat) (p : Position) :
    rulesOf n count (.finished p) = .ok [] (.finished p) := by
  cases count <;> rfl

theorem rulesOf_sound {n count : Nat} {s s' : Tokens} {rules : List Rule} (hs : s.Settled)
    (hcount : s.length ≤ count) (h : rulesOf n count s = .ok rules s') :
    ∃ ts p, s = ts ++ Tokens.finished p ∧ Grammar.Derives ts ⟨rules⟩ := by
  induction count generalizing s s' rules with
  | zero =>
    cases s with
    | token t s => rw [Tokens.length] at hcount; omega
    | finished p =>
      cases h
      exact ⟨[], p, rfl, .nil⟩
    | stuck e => exact absurd rfl (hs e)
  | succ count ih =>
    cases s with
    | token t s =>
      rw [rulesOf_token, bind_eq_ok] at h
      obtain ⟨r, s₁, hr, h⟩ := h
      obtain ⟨ts, hts, hs₁, hderives⟩ := ruleOf_sound n _ _ _ hr
      rw [bind_eq_ok] at h
      obtain ⟨rest, s₂, hrest, h⟩ := h
      have hlt : s₁.length ≤ count := by
        have := List.length_pos_iff.2 hderives.ne_nil
        rw [hts, Tokens.length_append] at hcount
        omega
      obtain ⟨us, p, rfl, hus⟩ := ih hs₁ hlt hrest
      obtain ⟨rfl, -⟩ := pure_eq_ok.1 h
      exact ⟨ts ++ us, p, by rw [hts, Tokens.append_append], .cons hderives hus⟩
    | finished p =>
      cases h
      exact ⟨[], p, rfl, .nil⟩
    | stuck e => exact absurd rfl (hs e)

theorem rulesOf_of_derives {ts : List Token} {g : Grammar} (h : Grammar.Derives ts g) {n : Nat}
    (hn : ts.length ≤ n) {count : Nat} (hcount : ts.length ≤ count) (p : Position) :
    rulesOf n count (ts ++ Tokens.finished p) = .ok g.rules (.finished p) := by
  induction h generalizing count with
  | nil => exact rulesOf_finished n count p
  | @cons ts us r rules hr hrest ih =>
    have hpos := List.length_pos_iff.2 hr.ne_nil
    rw [List.length_append] at hn hcount
    obtain ⟨count, rfl⟩ : ∃ c, count = c + 1 := ⟨count - 1, by omega⟩
    have hrule := ruleOf_of_derives hr (n := n) (by omega)
      ((Tokens.settled_finished p).append us)
    have hrest := ih (show us.length ≤ n by omega) (show us.length ≤ count by omega)
    cases ts with
    | nil => exact absurd rfl hr.ne_nil
    | cons t ts =>
      rw [Tokens.append_append, Tokens.cons_append, rulesOf_token, ← Tokens.cons_append,
        bind_of_ok _ hrule, bind_of_ok _ hrest]
      rfl

theorem grammar_eq (s : Tokens) :
    grammar s = (rulesOf s.length s.length >>= fun rules => pure ⟨rules⟩) s := rfl

/-- **A token list is read as a grammar** exactly if that grammar derives from it. -/
theorem grammar_eq_ok {s s' : Tokens} {g : Grammar} (hs : s.Settled) :
    grammar s = .ok g s' ↔
      ∃ ts p, s = ts ++ Tokens.finished p ∧ s' = .finished p ∧ Grammar.Derives ts g := by
  rw [grammar_eq, bind_eq_ok]
  constructor
  · rintro ⟨rules, s₁, hrules, h⟩
    obtain ⟨rfl, rfl⟩ := pure_eq_ok.1 h
    obtain ⟨ts, p, rfl, hts⟩ := rulesOf_sound hs (Nat.le_refl _) hrules
    have hlen := Tokens.length_append ts (.finished p)
    rw [rulesOf_of_derives hts (by omega) (by omega)] at hrules
    cases hrules
    exact ⟨ts, p, rfl, rfl, hts⟩
  · rintro ⟨ts, p, rfl, rfl, hts⟩
    have hlen := Tokens.length_append ts (.finished p)
    exact ⟨g.rules, _, rulesOf_of_derives hts (by omega) (by omega) p, rfl⟩

end Parser

/-- **The grammar of grammars is unambiguous.** Both readings of a token list are what the parser
finds there. -/
theorem Grammar.Derives.eq {ts : List Token} {g g' : Grammar} (h : Derives ts g)
    (h' : Derives ts g') : g = g' := by
  have hs := (Tokens.settled_finished .start).append ts
  have hread := (Parser.grammar_eq_ok hs).2 ⟨ts, .start, rfl, rfl, h⟩
  rw [(Parser.grammar_eq_ok hs).2 ⟨ts, .start, rfl, rfl, h'⟩] at hread
  cases hread
  rfl

/-! ## Sources -/

instance Except.decidableEq {ε α : Type} [DecidableEq ε] [DecidableEq α] :
    DecidableEq (Except ε α)
  | .error e, .error e' => decidable_of_iff (e = e') (by simp)
  | .ok a, .ok a' => decidable_of_iff (a = a') (by simp)
  | .error _, .ok _ => isFalse (by simp)
  | .ok _, .error _ => isFalse (by simp)

theorem Grammar.parse_of_stuck {source : String} {e : ParseError}
    (h : Tokens.ofString source = .stuck e) : parse source = .error e := by
  rw [parse, Parser.start, h]
  rfl

theorem Grammar.parse_of_settled {source : String} (h : (Tokens.ofString source).Settled) :
    parse source = match Parser.grammar (Tokens.ofString source) with
      | .ok g _ => .ok g
      | .error e _ => .error e := by
  rw [parse, Parser.start]
  generalize Tokens.ofString source = s at h
  cases s with
  | token | finished => rfl
  | stuck e => exact absurd rfl (h e)

theorem Grammar.parse_eq_ok {source : String} {g : Grammar} :
    parse source = .ok g ↔ ∃ ts, (Scanner.ofString source).Yields ts ∧ Derives ts g := by
  rcases hs : (Tokens.ofString source).settled_or_stuck with h | ⟨e, he⟩
  · rw [parse_of_settled h]
    constructor
    · intro hparse
      cases hg : Parser.grammar (Tokens.ofString source) with
      | ok g' s' =>
        rw [hg] at hparse
        cases hparse
        obtain ⟨ts, p, hts, -, hderives⟩ := (Parser.grammar_eq_ok h).1 hg
        exact ⟨ts, Scanner.yields_iff.2 ⟨p, hts⟩, hderives⟩
      | error e s' =>
        rw [hg] at hparse
        cases hparse
    · rintro ⟨ts, hts, hderives⟩
      obtain ⟨p, hp⟩ := Scanner.yields_iff.1 hts
      rw [(Parser.grammar_eq_ok h).2 ⟨ts, p, hp, rfl, hderives⟩]
  · rw [parse_of_stuck he]
    constructor
    · nofun
    · rintro ⟨ts, hts, -⟩
      obtain ⟨p, hp⟩ := Scanner.yields_iff.1 hts
      have hsettled := (Tokens.settled_finished p).append ts
      exact absurd (hp.symm.trans he) (hsettled e)

/-- **Parsing accepts exactly the grammar of grammars.** A source is read as a grammar if and only
if it has tokens up to its end from which that grammar derives; every other source is malformed; and
no token list derives two grammars. -/
theorem Grammar.parse_accepts_exactly (source : String) :
    (∀ g, parse source = .ok g ↔ ∃ ts, (Scanner.ofString source).Yields ts ∧ Derives ts g) ∧
      ((¬ ∃ ts g, (Scanner.ofString source).Yields ts ∧ Derives ts g) →
        ∃ e, parse source = .error e ∧ (Error.grammar e).kind = .malformed) ∧
      ∀ ts g g', Derives ts g → Derives ts g' → g = g' := by
  refine ⟨fun _ => parse_eq_ok, fun hnone => ?_, fun _ _ _ h h' => h.eq h'⟩
  cases h : parse source with
  | ok g =>
    obtain ⟨ts, hts⟩ := parse_eq_ok.1 h
    exact absurd ⟨ts, g, hts⟩ hnone
  | error e => exact ⟨e, rfl, rfl⟩

/-- Both outcomes occur: a rule that is whole, whose tokens derive no other grammar, and one that
breaks off behind its equals sign. -/
theorem Grammar.parse_accepts_one_rule :
    parse "a=b;" = .ok ⟨[⟨"a", .identifier "b"⟩]⟩ ∧
      (∃ e, parse "a=" = .error e ∧ (Error.grammar e).kind = .malformed) ∧
      ¬ Derives [⟨.identifier, "a", ⟨1, 1⟩⟩, ⟨.equals, "=", ⟨1, 2⟩⟩, ⟨.identifier, "b", ⟨1, 3⟩⟩,
        ⟨.semicolon, ";", ⟨1, 4⟩⟩] ⟨[]⟩ := by
  have hderives : Derives [⟨.identifier, "a", ⟨1, 1⟩⟩, ⟨.equals, "=", ⟨1, 2⟩⟩,
      ⟨.identifier, "b", ⟨1, 3⟩⟩, ⟨.semicolon, ";", ⟨1, 4⟩⟩] ⟨[⟨"a", .identifier "b"⟩]⟩ :=
    .cons (.intro rfl rfl (.ofSequence (.ofOperand (.identifier rfl))) (.inl rfl)) .nil
  refine ⟨?_, ?_, fun hempty => ?_⟩
  · refine ((parse_accepts_exactly "a=b;").1 _).2 ⟨_, Scanner.yields_iff.2 ⟨⟨1, 5⟩, ?_⟩, hderives⟩
    decide +kernel
  · refine (parse_accepts_exactly "a=").2.1 ?_
    rintro ⟨ts, g, hts⟩
    have hok := ((parse_accepts_exactly "a=").1 g).2 ⟨ts, hts⟩
    have hnone : (parse "a=").toOption = none := by decide +kernel
    rw [hok] at hnone
    cases hnone
  · have := (parse_accepts_exactly "").2.2 _ _ _ hderives hempty
    cases this

end SyntaxDiagram
