import SyntaxDiagram.Grammar.Diagram
import SyntaxDiagram.Proofs.Language

/-!
# Diagrams of rules

What the diagram of a rule is made of.

* `Rule.diagram_eq`: a marker at the start, one node and a marker at the end.
* `Expr.Parts.Closed`, `Expr.toNode_of_closed`: a sort of nodes that contains whatever expressions
  make of its nodes contains the nodes of expressions.
* `Node.Unwrapped`: the nodes that expressions have as long as no sequence is broken into rows.
* `Expr.unwrapped_toNode`: there are no others.
-/

namespace SyntaxDiagram

variable {α : Type} [Scalar α] {o : Options α}

/-! ## Markers -/

namespace Expr

/-- What is made of an expression is not a marker, so markers are not taken for parts of it. -/
theorem toNode_ne_finish (wrap : Option α) (e : Expr) (style : MarkerStyle) :
    e.toNode o wrap ≠ .finish style := by
  have hwrapped : ∀ (wrap : Option α) (items : List (Node.Measured o)),
      (Node.Measured.wrapped wrap items).node ≠ .finish style := by
    intro wrap items
    cases wrap with
    | none => nofun
    | some limit =>
      rw [Node.Measured.wrapped]
      match wrapRows Node.Measured.spacedWidth limit [] 0 items with
      | [] => nofun
      | [row] => nofun
      | row :: next :: rows => nofun
  rw [toNode]
  generalize wrap.filter _ = wrap
  induction e with
  | identifier | terminal | special | repetition | optional => nofun
  | group inner ih => exact ih
  | choice left right => nofun
  | sequence left right => exact hwrapped wrap _

end Expr

/-- The marker at both ends of a diagram. -/
def RuleStyle.marker (style : RuleStyle α) : MarkerStyle :=
  if style.complex then .complex else .simple

/-- What stands at the start of the diagram of a rule. -/
def RuleStyle.label (style : RuleStyle α) (r : Rule) : String :=
  if style.labelRules then r.name else ""

/-- **The diagram of a rule** is the node of its right hand side between two markers. -/
theorem Rule.diagram_eq (o : Options α) (style : RuleStyle α) (r : Rule) :
    r.diagram o style =
      ⟨[.start style.marker (style.label r), r.body.toNode o style.wrapWidth,
        .finish style.marker], o⟩ := by
  have hbody := r.body.toNode_ne_finish (o := o) style.wrapWidth
  rw [Rule.diagram, RuleStyle.marker, RuleStyle.label]
  generalize r.body.toNode o style.wrapWidth = body at *
  cases style.complex with
  | true =>
    rw [if_pos rfl, if_pos rfl, Diagram.fragment, Diagram.withFragmentFinish]
    cases body with
    | finish marker => exact absurd rfl (hbody marker)
    | _ => rfl
  | false =>
    rw [if_neg Bool.false_ne_true, if_neg Bool.false_ne_true, Diagram.simple, Diagram.withFinish]
    cases body with
    | finish marker => exact absurd rfl (hbody marker)
    | _ => rfl

/-! ## Nodes of one sort -/

namespace Expr

/-- Parts all of whose nodes are of one sort. -/
def Parts.All (S : Node α → Prop) : Parts o → Prop
  | single n => S n.node
  | choice first others => S first.node ∧ ∀ m ∈ others, S m.node
  | sequence items => ∀ m ∈ items, S m.node

/-- A sort of nodes to which the nodes of some texts belong, and with some nodes all that an
expression can make of them. -/
structure Parts.Closed (o : Options α) (wrap : Option α) (T : String → Prop)
    (S : Node α → Prop) : Prop where
  identifier {name : String} (h : T name) : S (.nonTerminal name ∅)
  terminal {text : String} (h : T text) : S (.terminal text ∅)
  special {text : String} (h : T text) : S (.comment text none none)
  repetition {item : Node α} (h : S item) : S (.zeroOrMore item .skip)
  optional {item : Node α} (h : S item) : S (.optional item false)
  choice {first : Node α} {others : List (Node α)} (hfirst : S first)
    (hothers : ∀ n ∈ others, S n) : S (.choice [] first others)
  wrapped {items : List (Node.Measured o)} (h : ∀ m ∈ items, S m.node) :
    S (Node.Measured.wrapped wrap items).node

section All

variable {wrap : Option α} {T : String → Prop} {S : Node α → Prop}
  (hS : Parts.Closed o wrap T S)
include hS

theorem Parts.All.node {p : Parts o} (h : p.All S) : S (p.node wrap).node := by
  cases p with
  | single n => exact h
  | choice first others =>
    refine hS.choice h.1 fun i hi => ?_
    obtain ⟨m, hm, rfl⟩ := List.mem_map.1 hi
    exact h.2 m (Array.mem_toList_iff.1 hm)
  | sequence items => exact hS.wrapped fun m hm => h m (Array.mem_toList_iff.1 hm)

theorem Parts.All.firstBranch {p : Parts o} (h : p.All S) : S (p.firstBranch wrap).node := by
  cases p with
  | single n => exact h
  | choice first others => exact h.1
  | sequence items => exact h.node hS

omit hS in
theorem Parts.All.otherBranches {p : Parts o} (h : p.All S) :
    ∀ m ∈ p.otherBranches, S m.node := by
  cases p with
  | choice first others => exact h.2
  | _ => exact fun m hm => absurd hm (Array.not_mem_empty m)

theorem Parts.All.items {p : Parts o} (h : p.All S) : ∀ m ∈ p.items wrap, S m.node := by
  cases p with
  | sequence items => exact h
  | _ => exact fun m hm => Array.mem_singleton.1 hm ▸ h.node hS

theorem all_parts {e : Expr} (h : ∀ s ∈ e.leaves, T s.text) : (e.parts o wrap).All S := by
  induction e with
  | identifier name => exact hS.identifier (h _ List.mem_cons_self)
  | terminal text => exact hS.terminal (h _ List.mem_cons_self)
  | special text => exact hS.special (h _ List.mem_cons_self)
  | group inner ih => exact (ih h).node hS
  | repetition inner ih => exact hS.repetition ((ih h).node hS)
  | optional inner ih => exact hS.optional ((ih h).node hS)
  | choice left right ihl ihr =>
    obtain ⟨hl, hr⟩ := List.forall_mem_append.1 h
    refine ⟨(ihl hl).firstBranch hS, fun m hm => ?_⟩
    rcases Array.mem_append.1 hm with hm | hm
    · rcases Array.mem_push.1 hm with hm | rfl
      · exact (ihl hl).otherBranches m hm
      · exact (ihr hr).firstBranch hS
    · exact (ihr hr).otherBranches m hm
  | sequence left right ihl ihr =>
    obtain ⟨hl, hr⟩ := List.forall_mem_append.1 h
    intro m hm
    rcases Array.mem_append.1 hm with hm | hm
    · exact (ihl hl).items hS m hm
    · exact (ihr hr).items hS m hm

end All

/-- The node of an expression whose texts are of a kind is of every sort that is closed for it. -/
theorem toNode_of_closed {wrap : Option α} {T : String → Prop} {S : Node α → Prop}
    (hS : ∀ wrap, Parts.Closed o wrap T S) {e : Expr} (h : ∀ s ∈ e.leaves, T s.text) :
    S (e.toNode o wrap) :=
  (all_parts (hS _) h).node (hS _)

end Expr

/-! ## Without rows -/

/-- The nodes of expressions whose sequences are not broken into rows. -/
inductive Node.Unwrapped : Node α → Prop
  | terminal (text : String) (attributes : Attributes String) :
      Unwrapped (.terminal text attributes)
  | nonTerminal (text : String) (attributes : Attributes String) :
      Unwrapped (.nonTerminal text attributes)
  | comment (text : String) (href title : Option String) : Unwrapped (.comment text href title)
  | sequence {items : List (Node α)} (h : ∀ i ∈ items, Unwrapped i) : Unwrapped (.sequence items)
  | choice {first : Node α} {others : List (Node α)} (hfirst : Unwrapped first)
      (hothers : ∀ i ∈ others, Unwrapped i) : Unwrapped (.choice [] first others)
  | optional {item : Node α} (h : Unwrapped item) : Unwrapped (.optional item false)
  | zeroOrMore {item : Node α} (h : Unwrapped item) : Unwrapped (.zeroOrMore item .skip)

theorem Node.closed_unwrapped (o : Options α) :
    Expr.Parts.Closed o none (fun _ => True) Unwrapped where
  identifier _ := .nonTerminal _ ∅
  terminal _ := .terminal _ ∅
  special _ := .comment _ none none
  repetition := .zeroOrMore
  optional := .optional
  choice := .choice
  wrapped h := by
    refine .sequence fun i hi => ?_
    obtain ⟨m, hm, rfl⟩ := List.mem_map.1 hi
    exact h m hm

/-- **Without a limit** no sequence is broken into rows. -/
theorem Expr.unwrapped_toNode (o : Options α) (e : Expr) : (e.toNode o none).Unwrapped :=
  (all_parts (Node.closed_unwrapped o) fun _ _ => trivial).node (Node.closed_unwrapped o)

end SyntaxDiagram
