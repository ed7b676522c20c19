import SyntaxDiagram.Proofs.Lexemes
import SyntaxDiagram.Proofs.Parser.Acceptance
import SyntaxDiagram.Proofs.RuleDiagram
import SyntaxDiagram.Proofs.Translation
import SyntaxDiagram.Proofs.Xml.Descriptions

/-!
# The markup of grammars is well formed

The texts in the diagram of a rule are words of the source, and so they are made of its characters.
None of them becomes an attribute value.

* `Scanner.Yields.only`: the characters of tokens are those of the source.
* `Grammar.only_texts`: the same for names of rules and for the texts in expressions.
* `Rule.forall_walk_items`, `Rule.legal_diagram`: what is made of such texts is legal.
* `render_isDocument`: the markup of every rule of a source is a document.
-/

namespace SyntaxDiagram

open Text (Only)

variable {P : Char → Prop}

/-! ## Texts of a source -/

/-- The value of a token is made of the characters of its piece. -/
theorem Token.Kind.mem_of_mem_value {kind : Kind} {piece : List Char} {c : Char}
    (h : c ∈ (kind.value piece).toList) : c ∈ piece := by
  unfold value at h
  split at h
  · rw [String.toList_ofList] at h
    exact List.mem_of_mem_tail (List.mem_of_mem_dropLast h)
  · rw [String.toList_ofList] at h
    exact List.mem_of_mem_tail (List.mem_of_mem_dropLast (mem_of_mem_trimList h))
  · rwa [String.toList_ofList] at h

namespace Scanner

theorem only_of_next {s s' : Scanner} {t : Token} (hs : ∀ c ∈ s.rest, P c)
    (h : s.next = (.token t, s')) : Only P t.value ∧ ∀ c ∈ s'.rest, P c := by
  have hcut {rest : List Char} (cut : Split rest) (hrest : ∀ c ∈ rest, P c) :
      (∀ c ∈ cut.piece, P c) ∧ ∀ c ∈ cut.rest, P c := by
    rwa [← List.forall_mem_append, cut.piece_append_rest]
  fun_induction next s with
  | case1 => cases h
  | case2 => cases h
  | case3 s _ _ _ cut _ _ ih => exact ih (hcut cut hs).2 h
  | case4 s _ _ _ kind cut _ =>
    cases h
    exact ⟨fun c hc => (hcut cut hs).1 c (Token.Kind.mem_of_mem_value hc), (hcut cut hs).2⟩

/-- **Tokens are made of the characters of their source.** -/
theorem Yields.only {s : Scanner} {ts : List Token} (h : s.Yields ts) (hs : ∀ c ∈ s.rest, P c) :
    ∀ t ∈ ts, Only P t.value := by
  induction h with
  | finished h => nofun
  | token h hrest ih =>
    obtain ⟨ht, hs'⟩ := only_of_next hs h
    exact List.forall_mem_cons.2 ⟨ht, ih hs'⟩

end Scanner

/-- The texts in an expression are the values of its tokens. -/
theorem Expr.Derives.exists_token {phrase : Phrase} {ts : List Token} {e : Expr}
    (h : Derives phrase ts e) : ∀ s ∈ e.leaves, ∃ t ∈ ts, t.value = s.text := by
  induction h with
  | @identifier t | @terminal t | @special t =>
    intro s hs
    rw [List.mem_singleton.1 hs]
    exact ⟨t, List.mem_cons_self, rfl⟩
  | enclosed b ho h hc ih =>
    intro s hs
    obtain ⟨t, ht, hvalue⟩ := ih s (by cases b <;> exact hs)
    exact ⟨t, List.mem_cons_of_mem _ (List.mem_append_left _ ht), hvalue⟩
  | ofOperand h ih | ofSequence h ih => exact ih
  | comma hl ho hr ihl ihr | pipe hl ho hr ihl ihr =>
    intro s hs
    rcases List.mem_append.1 hs with hs | hs
    · obtain ⟨t, ht, hvalue⟩ := ihl s hs
      exact ⟨t, List.mem_append_left _ ht, hvalue⟩
    · obtain ⟨t, ht, hvalue⟩ := ihr s hs
      exact ⟨t, List.mem_append_right _ (List.mem_cons_of_mem _ ht), hvalue⟩

namespace Grammar

/-- Names of rules and texts in them are values of tokens as well. -/
theorem Derives.exists_token {ts : List Token} {g : Grammar} (h : Derives ts g) :
    ∀ r ∈ g.rules, (∃ t ∈ ts, t.value = r.name) ∧
      ∀ s ∈ r.body.leaves, ∃ t ∈ ts, t.value = s.text := by
  induction h with
  | nil => nofun
  | @cons ts us r rules hr hrest ih =>
    refine List.forall_mem_cons.2 ⟨?_, fun r hr => ?_⟩
    · obtain @⟨name, equals, stop, ts, body, hn, he, hb, hs⟩ := hr
      refine ⟨⟨name, by simp, rfl⟩, fun s hs => ?_⟩
      obtain ⟨t, ht, hvalue⟩ := hb.exists_token s hs
      exact ⟨t, by simp [ht], hvalue⟩
    · obtain ⟨⟨t, ht, hname⟩, hleaves⟩ := ih r hr
      refine ⟨⟨t, List.mem_append_right _ ht, hname⟩, fun s hs => ?_⟩
      obtain ⟨t, ht, hvalue⟩ := hleaves s hs
      exact ⟨t, List.mem_append_right _ ht, hvalue⟩

/-- **A grammar is made of the characters of its source.** -/
theorem only_texts {source : String} {g : Grammar} (h : parse source = .ok g)
    (hsource : Only P source) :
    ∀ r ∈ g.rules, Only P r.name ∧ ∀ s ∈ r.body.leaves, Only P s.text := by
  intro r hr
  obtain ⟨ts, hyields, hderives⟩ := parse_eq_ok.1 h
  have htokens := hyields.only hsource
  obtain ⟨⟨t, ht, hname⟩, hleaves⟩ := hderives.exists_token r hr
  refine ⟨hname ▸ htokens t ht, fun s hs => ?_⟩
  obtain ⟨t, ht, hvalue⟩ := hleaves s hs
  exact hvalue ▸ htokens t ht

end Grammar

/-! ## Diagrams of rules -/

variable {α : Type}

variable [Scalar α] {o : Options α}

namespace Description.Tells

variable {R : Xml.Role → String → Prop} {here : Node α → Prop} (h : Tells R here)
include h

theorem sequence {items : List (Node.Measured o)} (hitems : ∀ m ∈ items, ∀ n ∈ m.node.walk, here n) :
    ∀ n ∈ (Node.Measured.sequence items).node.walk, here n := by
  refine (h.contains ⟨rfl, rfl⟩).2 fun c hc => ?_
  obtain ⟨m, hm, rfl⟩ := List.mem_map.1 hc
  exact hitems m hm

theorem rows {rows : List (List (Node.Measured o))}
    (hrows : ∀ row ∈ rows, ∀ m ∈ row, ∀ n ∈ m.node.walk, here n) :
    ∀ n ∈ (Node.Measured.ofRows rows).node.walk, here n := by
  match rows with
  | [] => exact h.sequence nofun
  | [row] => exact h.sequence (hrows row List.mem_cons_self)
  | row :: next :: rows =>
    refine (h.contains ⟨rfl, rfl⟩).2 (List.forall_mem_cons.2
      ⟨h.sequence (hrows row List.mem_cons_self), fun c hc => ?_⟩)
    obtain ⟨m, hm, rfl⟩ := List.mem_map.1 hc
    obtain ⟨row', hrow', rfl⟩ := List.mem_map.1 hm
    exact h.sequence (hrows row' (List.mem_cons_of_mem _ hrow'))

theorem wrapped {wrap : Option α} {items : List (Node.Measured o)}
    (hitems : ∀ m ∈ items, ∀ n ∈ m.node.walk, here n) :
    ∀ n ∈ (Node.Measured.wrapped wrap items).node.walk, here n := by
  cases wrap with
  | none => exact h.sequence hitems
  | some limit =>
    refine h.rows fun row hrow m hm => hitems m ?_
    have hmem := List.mem_flatten.2 ⟨row, hrow, hm⟩
    rwa [flatten_wrapRows, List.reverse_nil, List.nil_append] at hmem

/-- Expressions give nodes with texts of their own, and none of the texts becomes an attribute
value. -/
theorem closed (o : Options α) (wrap : Option α) :
    Expr.Parts.Closed o wrap (R .content) fun n => ∀ m ∈ n.walk, here m where
  identifier {name} ht := by
    have hhere : here (.nonTerminal name (linkAttributes none none)) :=
      h.nonTerminal.2 ⟨ht, by simp, by simp⟩
    exact Node.forall_mem_walk.2 ⟨hhere, List.forall_mem_nil _⟩
  terminal {text} ht := by
    have hhere : here (.terminal text (linkAttributes none none)) :=
      h.terminal.2 ⟨ht, by simp, by simp⟩
    exact Node.forall_mem_walk.2 ⟨hhere, List.forall_mem_nil _⟩
  special ht :=
    Node.forall_mem_walk.2 ⟨h.comment.2 ⟨ht, by simp, by simp⟩, List.forall_mem_nil _⟩
  repetition {item} hitem := by
    have hloop := (h.loop item .skip).2 ⟨hitem, h.skip⟩
    exact (h.contains ⟨rfl, rfl⟩).2
      (List.forall_mem_cons.2 ⟨h.skip, List.forall_mem_singleton.2 hloop⟩)
  optional hitem := (h.contains ⟨rfl, rfl⟩).2
    (List.forall_mem_cons.2 ⟨h.skip, List.forall_mem_singleton.2 hitem⟩)
  choice hfirst hothers :=
    (h.contains ⟨rfl, rfl⟩).2 (List.forall_mem_cons.2 ⟨hfirst, hothers⟩)
  wrapped := h.wrapped

end Description.Tells

/-- All nodes in the diagram of a rule are of a sort if its texts are. -/
theorem Rule.forall_walk_items {R : Xml.Role → String → Prop} {here : Node α → Prop}
    (h : Description.Tells R here) {r : Rule} {style : RuleStyle α} (hname : R .content r.name)
    (hbody : ∀ s ∈ r.body.leaves, R .content s.text) :
    ∀ n ∈ (r.diagram o style).items, ∀ m ∈ n.walk, here m := by
  have hlabel : R .content (style.label r) := by
    rw [RuleStyle.label]
    split
    · exact hname
    · exact h.empty
  have hnode : ∀ m ∈ (r.body.toNode o style.wrapWidth).walk, here m :=
    r.body.toNode_of_closed (h.closed o) hbody
  rw [r.diagram_eq]
  exact List.forall_mem_cons.2 ⟨(h.marker _ _).2 hlabel,
    List.forall_mem_cons.2 ⟨hnode, List.forall_mem_singleton.2 (h.finish _)⟩⟩

/-- **The diagram of a rule is legal** if its texts and its class are. -/
theorem Rule.legal_diagram {r : Rule} {style : RuleStyle α} (hclass : Only P o.diagramClass)
    (hname : Only (Xml.isChar ·) r.name)
    (hbody : ∀ s ∈ r.body.leaves, Only (Xml.isChar ·) s.text) : (r.diagram o style).Legal P where
  diagramClass := by
    rw [r.diagram_eq]
    exact hclass
  items := r.forall_walk_items (Description.tells_legalHere P) hname hbody

/-- What a source is rendered as, if it is a grammar. -/
theorem render_eq_ok {config : Config} {source : String} {pieces : List Rendered} :
    render config source = .ok pieces ↔
      ∃ g, Grammar.parse source = .ok g ∧ g.rules.map (Rule.render config) = pieces := by
  rw [render]
  cases Grammar.parse source with
  | error e => exact ⟨nofun, nofun⟩
  | ok g =>
    constructor
    · rintro ⟨⟩
      exact ⟨g, rfl, rfl⟩
    · rintro ⟨g, ⟨⟩, rfl⟩
      rfl

/-- **Grammars render to well-formed XML.** Whatever the rules of a source hold, the markup of each
of them is a document with the root `svg`, in a file of its own or as a part of one. The characters
of the source and those of the stylesheet and the class need to be ones that a document may contain,
and the class must not start a tag. -/
theorem render_isDocument {config : Config} {source : String} {pieces : List Rendered}
    (hsource : Only (Xml.isChar ·) source)
    (hclass : Only (Xml.isChar ·) config.options.diagramClass)
    (hopen : '<' ∉ config.options.diagramClass.toList)
    (hstyle : ∀ css ∈ config.render.style, Only (Xml.isChar ·) css)
    (h : render config source = .ok pieces) :
    ∀ p ∈ pieces, Xml.IsDocument "svg" p.svg := by
  have hvalue : Only Xml.IsValueChar config.options.diagramClass :=
    fun c hc => ⟨hclass c hc, fun heq => hopen (heq ▸ hc)⟩
  obtain ⟨g, hparse, rfl⟩ := render_eq_ok.1 h
  intro p hp
  obtain ⟨r, hr, rfl⟩ := List.mem_map.1 hp
  obtain ⟨hname, hbody⟩ := Grammar.only_texts hparse hsource r hr
  exact Diagram.isDocument_render (Rule.legal_diagram hvalue hname hbody) hstyle

/-- A rule whose literal tokens look like tags and whose remark looks like the end of raw data, with
a class and a stylesheet that hold reserved characters. -/
theorem render_isDocument_tags :
    let source := "tag = \"<a b='&'>\" , [ tag ] , ?]]>? , \"</a>\" ;"
    let config : Config :=
      { options := { Options.default with diagramClass := "\"a & b\"" }
        render := { style := some "svg > g" } }
    ∃ piece, render config source = .ok [piece] ∧ piece.name = "tag" ∧
      Xml.IsDocument "svg" piece.svg := by
  intro source config
  let r : Rule := ⟨"tag",
    .sequence (.sequence (.sequence (.terminal "<a b='&'>") (.optional (.identifier "tag")))
      (.special "]]>")) (.terminal "</a>")⟩
  have hparse : Grammar.parse source = .ok ⟨[r]⟩ := by decide +kernel
  have hrender : render config source = .ok [r.render config] := render_eq_ok.2 ⟨_, hparse, rfl⟩
  have hstyle : ∀ css ∈ config.render.style, Only (Xml.isChar ·) css := by
    rintro css ⟨⟩
    exact Text.only_of_all (by decide)
  refine ⟨r.render config, hrender, rfl, ?_⟩
  exact render_isDocument (Text.only_of_all (by decide +kernel)) (Text.only_of_all (by decide))
    (by decide) hstyle hrender _ List.mem_cons_self

end SyntaxDiagram
