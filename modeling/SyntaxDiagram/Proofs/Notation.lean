import SyntaxDiagram.Proofs.Lexemes
import SyntaxDiagram.Proofs.Parser.Acceptance

/-!
# Grammars in their own notation

* `Grammar.write`: a grammar as text, one rule on each line.
* `Expr.ReadsAs`: a text from which, wherever it stands, tokens are read that derive an expression.
  Brackets and operators keep this.
* `Expr.readsAs_write`: expressions of a source are read from their own text.
* `Grammar.parse_write`: parsing a grammar that has been written gives the same grammar.
-/

namespace SyntaxDiagram

open Text (isBlank)

/-! ## Writing -/

/-- The quote around a text: the plain one, unless the text has it in itself. -/
def quoteAround (text : String) : Char := if '"' ∈ text.toList then '\'' else '"'

/-- An expression in grammar notation, with a blank between two words. -/
def Expr.write : Expr → String
  | identifier name => name
  | terminal text =>
    String.singleton (quoteAround text) ++ text ++ String.singleton (quoteAround text)
  | special text => "?" ++ text ++ "?"
  | group inner => "( " ++ inner.write ++ " )"
  | repetition inner => "\x7b " ++ inner.write ++ " \x7d"
  | optional inner => "[ " ++ inner.write ++ " ]"
  | choice left right => left.write ++ " | " ++ right.write
  | sequence left right => left.write ++ " , " ++ right.write

/-- A rule in grammar notation. -/
def Rule.write (r : Rule) : String := r.name ++ " = " ++ r.body.write ++ " ;"

/-- A grammar in its own notation. -/
def Grammar.write (g : Grammar) : String := String.join (g.rules.map fun r => r.write ++ "\n")

/-! ## Reading what is written -/

namespace Expr

/-- Wherever a text stands, behind blanks and in front of what ends a name, tokens are read from it
that derive an expression. -/
def ReadsAs (phrase : Phrase) (text : List Char) (e : Expr) : Prop :=
  ∀ gap rest p, (∀ c ∈ gap, isBlank c) → EndsName rest →
    ∃ us q, Scanner.Passes ⟨gap ++ (text ++ rest), p⟩ us ⟨rest, q⟩ ∧ Derives phrase us e

variable {phrase phrase₁ phrase₂ : Phrase} {text text₁ text₂ : List Char} {e e₁ e₂ : Expr}

theorem ReadsAs.imp (h : ReadsAs phrase₁ text e)
    (hderives : ∀ {us}, Derives phrase₁ us e → Derives phrase₂ us e) : ReadsAs phrase₂ text e := by
  intro gap rest p hgap hrest
  obtain ⟨us, q, hpasses, hus⟩ := h gap rest p hgap hrest
  exact ⟨us, q, hpasses, hderives hus⟩

/-- A single token that is read from a piece. -/
theorem readsAs_word {kind : Token.Kind} {piece : List Char}
    (hlexes : ∀ rest, EndsName rest → Lexes (some kind) piece rest)
    (hderives : ∀ t : Token, t.kind = kind → t.value = kind.value piece →
      Derives .operand [t] e) : ReadsAs .operand piece e := by
  intro gap rest p hgap hrest
  obtain ⟨t, q, hkind, hvalue, hpasses⟩ := Scanner.passes_lexeme hgap (hlexes rest hrest) p
  exact ⟨[t], q, hpasses, hderives t hkind hvalue⟩

theorem forall_isBlank_blank : ∀ c ∈ [' '], isBlank c :=
  List.forall_mem_singleton.2 (by decide)

/-- An expression in brackets. -/
theorem readsAs_enclose (b : Bracket) {opening closing : Char}
    (ho : b.opening.mark? = some opening) (hc : b.closing.mark? = some closing)
    (hname : isNameChar closing = false) (h : ReadsAs .choice text e) :
    ReadsAs .operand (opening :: ' ' :: (text ++ [' ', closing])) (b.enclose e) := by
  rintro gap rest p hgap ⟨d, ds, rfl, -⟩
  obtain ⟨t, q, ht, -, hopening⟩ := Scanner.passes_lexeme hgap
    (lexes_mark b.opening ho (.inl rfl) (text ++ ' ' :: closing :: ' ' :: d :: ds)) p
  obtain ⟨us, q₁, hinner, hderives⟩ := h [' '] (' ' :: closing :: ' ' :: d :: ds) q
    forall_isBlank_blank ⟨closing, _, rfl, hname⟩
  obtain ⟨t', q₂, ht', hclosing⟩ := Scanner.passes_mark b.closing hc (.inl rfl) (d :: ds) q₁
  refine ⟨t :: (us ++ [t']), q₂, ?_, .enclosed b ht hderives ht'⟩
  have hpasses := hopening.trans (hinner.trans hclosing)
  simpa using hpasses

/-- Two expressions with an operator between them. -/
theorem readsAs_join (operator : Token.Kind) {c : Char} {join : Expr → Expr → Expr}
    (hc : operator.mark? = some c) (hname : isNameChar c = false)
    (h₁ : ReadsAs phrase₁ text₁ e₁) (h₂ : ReadsAs phrase₂ text₂ e₂)
    (hderives : ∀ {t ts us}, Derives phrase₁ ts e₁ → t.kind = operator → Derives phrase₂ us e₂ →
      Derives phrase (ts ++ t :: us) (join e₁ e₂)) :
    ReadsAs phrase (text₁ ++ ' ' :: c :: ' ' :: text₂) (join e₁ e₂) := by
  intro gap rest p hgap hrest
  obtain ⟨ts, q₁, hleft, hts⟩ := h₁ gap (' ' :: c :: ' ' :: (text₂ ++ rest)) p hgap
    ⟨c, _, rfl, hname⟩
  obtain ⟨t, q, ht, hoperator⟩ := Scanner.passes_mark operator hc (.inl rfl) (text₂ ++ rest) q₁
  obtain ⟨us, q₂, hright, hus⟩ := h₂ [' '] rest q forall_isBlank_blank hrest
  refine ⟨ts ++ t :: us, q₂, ?_, hderives hts ht hus⟩
  have hpasses := hleft.trans (hoperator.trans hright)
  simpa using hpasses

theorem readsAs_identifier {name : String} {letters tail : List Char}
    (hname : name.toList = letters ++ tail) (h : IsName letters tail) :
    ReadsAs .operand name.toList (.identifier name) := by
  refine readsAs_word (fun rest hrest => hname ▸ lexes_name h hrest) fun t hkind hvalue => ?_
  have hderives := Derives.identifier hkind
  have hread : Token.Kind.identifier.value name.toList = name := String.ofList_toList
  rwa [hvalue, hread] at hderives

theorem readsAs_terminal {text : String} (h : '"' ∉ text.toList ∨ '\'' ∉ text.toList) :
    ReadsAs .operand (quoteAround text :: (text.toList ++ [quoteAround text]))
      (.terminal text) := by
  have hquote : quoteAround text = '"' ∨ quoteAround text = '\'' := by
    unfold quoteAround
    split
    · exact .inr rfl
    · exact .inl rfl
  have hmem : quoteAround text ∉ text.toList := by
    unfold quoteAround
    split
    · exact h.resolve_left (not_not_intro ‹_›)
    · assumption
  refine readsAs_word (fun rest _ => lexes_terminal hquote hmem rest) fun t hkind hvalue => ?_
  have hderives := Derives.terminal hkind
  rwa [hvalue, Token.Kind.value, List.tail_cons, List.dropLast_concat, String.ofList_toList]
    at hderives

theorem readsAs_special {text : String} (hmem : '?' ∉ text.toList)
    (htrim : Text.trimList text.toList = text.toList) :
    ReadsAs .operand ('?' :: (text.toList ++ ['?'])) (.special text) := by
  refine readsAs_word (fun rest _ => lexes_special hmem rest) fun t hkind hvalue => ?_
  have hderives := Derives.special hkind
  rwa [hvalue, Token.Kind.value, List.tail_cons, List.dropLast_concat, htrim,
    String.ofList_toList] at hderives

/-- **An expression of a source is read from its own text.** By induction on how it was derived. -/
theorem readsAs_write {ts : List Token} (h : Derives phrase ts e) (hts : ∀ t ∈ ts, t.Spelled) :
    ReadsAs phrase e.write.toList e := by
  induction h with
  | @identifier t ht =>
    have hspelled := hts t List.mem_cons_self
    rw [Token.Spelled, ht] at hspelled
    obtain ⟨letters, tail, hvalue, hname⟩ := hspelled
    exact readsAs_identifier hvalue hname
  | @terminal t ht =>
    have hspelled := hts t List.mem_cons_self
    rw [Token.Spelled, ht] at hspelled
    simpa [write] using readsAs_terminal hspelled
  | @special t ht =>
    have hspelled := hts t List.mem_cons_self
    rw [Token.Spelled, ht] at hspelled
    simpa [write] using readsAs_special hspelled.1 hspelled.2
  | @enclosed b opening closing ts e ho h hc ih =>
    have hinner := ih fun t ht => hts t (by simp [ht])
    cases b with
    | round =>
      simpa [Bracket.enclose, write] using readsAs_enclose .round rfl rfl (by decide) hinner
    | curly =>
      simpa [Bracket.enclose, write] using readsAs_enclose .curly rfl rfl (by decide) hinner
    | square =>
      simpa [Bracket.enclose, write] using readsAs_enclose .square rfl rfl (by decide) hinner
  | ofOperand h ih => exact (ih hts).imp .ofOperand
  | ofSequence h ih => exact (ih hts).imp .ofSequence
  | comma hl ho hr ihl ihr =>
    have hleft := ihl fun t ht => hts t (by simp [ht])
    have hright := ihr fun t ht => hts t (by simp [ht])
    simpa [write] using readsAs_join .comma rfl (by decide) hleft hright .comma
  | pipe hl ho hr ihl ihr =>
    have hleft := ihl fun t ht => hts t (by simp [ht])
    have hright := ihr fun t ht => hts t (by simp [ht])
    simpa [write] using readsAs_join .pipe rfl (by decide) hleft hright .pipe

end Expr

/-- A rule of a source is read from its own line. -/
theorem Rule.passes_write {ts : List Token} {r : Rule} (h : Rule.Derives ts r)
    (hts : ∀ t ∈ ts, t.Spelled) {gap : List Char} (hgap : ∀ c ∈ gap, isBlank c) (rest : List Char)
    (p : Position) :
    ∃ us q, Scanner.Passes ⟨gap ++ (r.write.toList ++ '\n' :: rest), p⟩ us ⟨'\n' :: rest, q⟩ ∧
      Rule.Derives us r := by
  obtain @⟨name, equals, stop, ts, body, hname, hequals, hbody, hstop⟩ := h
  have hspelled := hts name List.mem_cons_self
  rw [Token.Spelled, hname] at hspelled
  obtain ⟨letters, tail, hvalue, hletters⟩ := hspelled
  let afterName := ' ' :: '=' :: ' ' :: (body.write.toList ++ ' ' :: ';' :: '\n' :: rest)
  have hword : Lexes (some .identifier) name.value.toList afterName := by
    rw [hvalue]
    exact lexes_name hletters ⟨'=', _, rfl, by decide⟩
  obtain ⟨t, q, ht, htvalue, hpasses⟩ := Scanner.passes_lexeme hgap hword p
  obtain ⟨t₁, q₁, ht₁, hpasses₁⟩ := Scanner.passes_mark .equals rfl (.inl rfl)
    (body.write.toList ++ ' ' :: ';' :: '\n' :: rest) q
  obtain ⟨us, q₂, hpasses₂, hus⟩ := Expr.readsAs_write hbody
    (fun t ht => hts t (by simp [ht])) [' '] (' ' :: ';' :: '\n' :: rest) q₁
    Expr.forall_isBlank_blank ⟨';', _, rfl, by decide⟩
  obtain ⟨t₂, q₃, ht₂, hpasses₃⟩ := Scanner.passes_mark .semicolon rfl (.inr rfl) rest q₂
  have hall := hpasses.trans (hpasses₁.trans (hpasses₂.trans hpasses₃))
  have hderives := Rule.Derives.intro ht ht₁ hus (.inl ht₂)
  have hread : Token.Kind.identifier.value name.value.toList = name.value := String.ofList_toList
  rw [htvalue, hread] at hderives
  refine ⟨t :: t₁ :: (us ++ [t₂]), q₃, ?_, hderives⟩
  simpa [Rule.write, afterName] using hall

namespace Grammar

theorem toList_write_cons (r : Rule) (rules : List Rule) :
    (write ⟨r :: rules⟩).toList = r.write.toList ++ '\n' :: (write ⟨rules⟩).toList := by
  simp [write]

/-- The rules of a source are read from their lines. -/
theorem passes_write {ts : List Token} {g : Grammar} (h : Derives ts g)
    (hts : ∀ t ∈ ts, t.Spelled) {gap : List Char} (hgap : ∀ c ∈ gap, isBlank c) (p : Position) :
    ∃ us q, Scanner.Passes ⟨gap ++ g.write.toList, p⟩ us ⟨[], q⟩ ∧ Derives us g := by
  induction h generalizing gap p with
  | nil =>
    have hnil : ∀ c ∈ ([] : List Char).head?, isBlank c = false := nofun
    obtain ⟨q, hpasses⟩ := Scanner.passes_gap hgap hnil p
    exact ⟨[], q, hpasses, .nil⟩
  | @cons ts us r rules hr hrest ih =>
    rw [toList_write_cons]
    obtain ⟨vs, q, hpasses, hvs⟩ := Rule.passes_write hr
      (fun t ht => hts t (List.mem_append_left us ht)) hgap (write ⟨rules⟩).toList p
    -- the end of a line is the gap in front of the next one
    have hline : ∀ c ∈ ['\n'], isBlank c := List.forall_mem_singleton.2 (by decide)
    obtain ⟨ws, q', hpasses', hws⟩ :=
      ih (fun t ht => hts t (List.mem_append_right ts ht)) hline q
    exact ⟨vs ++ ws, q', hpasses.trans hpasses', .cons hvs hws⟩

/-- **Parsing undoes writing**: whatever has been parsed is written as a text that is parsed to the
same grammar. -/
theorem parse_write {source : String} {g : Grammar} (h : parse source = .ok g) :
    parse g.write = .ok g := by
  obtain ⟨ts, hyields, hderives⟩ := parse_eq_ok.1 h
  obtain ⟨us, q, hpasses, hus⟩ :=
    passes_write hderives hyields.spelled (List.forall_mem_nil _) .start
  exact parse_eq_ok.2 ⟨us, hpasses.yields rfl, hus⟩

/-- A source that is written differently: other blanks and another quote, with a period and a
comment at its end. -/
theorem parse_write_choice :
    ∃ g, parse "a b1='x'|\x7b? y ?,(c)\x7d. (* end *)" = .ok g ∧
      g.write = "a b1 = \"x\" | \x7b ?y? , ( c ) \x7d ;\n" ∧ parse g.write = .ok g := by
  have hparse : parse "a b1='x'|\x7b? y ?,(c)\x7d. (* end *)" =
      .ok ⟨[⟨"a b1", .choice (.terminal "x")
        (.repetition (.sequence (.special "y") (.group (.identifier "c"))))⟩]⟩ := by
    decide +kernel
  exact ⟨_, hparse, by decide +kernel, parse_write hparse⟩

end Grammar
end SyntaxDiagram
