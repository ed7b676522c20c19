import SyntaxDiagram.Description.Reader
import SyntaxDiagram.Proofs.Attempts
import SyntaxDiagram.Proofs.Descriptions.Indices

/-!
# Legal descriptions

A description is legal if it has no diagrams in it and each of its nodes meets the rule of its kind.
The rules look at one node at a time: at the number of its items and at its own fields.

* `Description.nodes`: the nodes of a description, each before what is in it.
* `Description.MeetsRule`: the rules.
* `Description.TopLevel.Legal`: what a whole text may describe.
* `Description.TopLevel.exists_buildAll_eq`: the nodes of the diagram that a text describes.
* `Decides`: an attempt that succeeds exactly if something holds. `Node.Makes` says so of the ways
  to build a node from a list of nodes.
-/

namespace SyntaxDiagram

variable {α : Type}

/-! ## Attempts that decide -/

/-- An attempt succeeds exactly if something holds, and what comes of it is good. -/
def Decides {β : Type} (legal : Prop) (good : β → Prop) : Except Error β → Prop
  | .ok b => legal ∧ good b
  | .error _ => ¬ legal

namespace Decides

variable {β γ : Type} {legal legal' : Prop} {good : β → Prop} {good' : γ → Prop}
  {x : Except Error β}

theorem exists_ok_iff (h : Decides legal good x) : (∃ b, x = .ok b) ↔ legal := by
  cases x with
  | error e => exact iff_of_false nofun h
  | ok b => exact iff_of_true ⟨b, rfl⟩ h.1

theorem of_ok {b : β} (h : Decides legal good x) (hx : x = .ok b) : good b := by
  subst hx
  exact h.2

theorem congr (h : Decides legal good x) (hlegal : legal' ↔ legal) : Decides legal' good x := by
  rwa [propext hlegal]

theorem imp {good' : β → Prop} (h : Decides legal good x) (hgood : ∀ b, good b → good' b) :
    Decides legal good' x := by
  cases x with
  | error e => exact h
  | ok b => exact h.imp_right (hgood b)

theorem pure {b : β} (h : good b) : Decides True good (Pure.pure b) := ⟨trivial, h⟩

/-- One attempt after another. -/
theorem bind {f : β → Except Error γ} (h : Decides legal good x)
    (hf : ∀ b, good b → Decides legal' good' (f b)) :
    Decides (legal ∧ legal') good' (x >>= f) := by
  cases x with
  | error e => exact fun hlegal => h hlegal.1
  | ok b =>
    obtain ⟨hlegal, hgood⟩ := h
    exact (hf b hgood).congr (and_iff_right hlegal)

end Decides

/-! ## Nodes from lists -/

namespace Node

/-- A way to build nodes of a kind from as many nodes as a rule allows. -/
def Makes (kind : Kind) (rule : Nat → Prop) (make : List (Node α) → Except Error (Node α)) : Prop :=
  ∀ ns, Decides (rule ns.length) (fun n => n.kind = kind ∧ n.children = ns) (make ns)

theorem makes_sequence :
    Makes .sequence (fun _ => True) fun ns => (pure (sequence ns) : Except Error (Node α)) :=
  fun _ => .pure ⟨rfl, rfl⟩

theorem makes_stack? : Makes .stack (1 ≤ ·) (stack? (α := α)) := by
  rintro (_ | ⟨first, rest⟩)
  · exact Nat.not_succ_le_zero 0
  · exact ⟨Nat.succ_le_succ (Nat.zero_le _), rfl, rfl⟩

theorem makes_verticalSequence? : Makes .verticalSequence (1 ≤ ·) (verticalSequence? (α := α)) := by
  rintro (_ | ⟨first, rest⟩)
  · exact Nat.not_succ_le_zero 0
  · exact ⟨Nat.succ_le_succ (Nat.zero_le _), rfl, rfl⟩

theorem makes_optionalSequence? : Makes .optionalSequence (2 ≤ ·) (optionalSequence? (α := α)) := by
  rintro (_ | ⟨first, _ | ⟨second, rest⟩⟩)
  · exact Nat.not_succ_le_zero 1
  · exact Nat.not_succ_le_self 1
  · exact ⟨Nat.succ_le_succ (Nat.succ_le_succ (Nat.zero_le _)), rfl, rfl⟩

theorem makes_alternatingSequence? :
    Makes .alternatingSequence (· = 2) (alternatingSequence? (α := α)) := by
  rintro (_ | ⟨first, _ | ⟨second, _ | ⟨third, rest⟩⟩⟩)
  · exact nofun
  · exact nofun
  · exact ⟨rfl, rfl, rfl⟩
  · exact nofun

theorem makes_horizontalChoice? : Makes .horizontalChoice (2 ≤ ·) (horizontalChoice? (α := α)) := by
  intro ns
  rw [horizontalChoice?]
  split
  · rename_i hnone
    match ns, hnone with
    | [], _ => exact Nat.not_succ_le_zero 1
    | [_], _ => exact Nat.not_succ_le_self 1
  · rename_i b hsome
    have hitems := Layout.Beside.toList_of_ofList? hsome
    refine ⟨?_, rfl, hitems⟩
    rw [← hitems]
    simp [Layout.Beside.toList]

theorem length_le_of_ofList?_none {normal : Nat} {ns : List (Node α)}
    (h : Layout.Branches.ofList? normal ns = none) : ns.length ≤ normal := by
  cases hdrop : ns.drop normal with
  | nil => exact List.drop_eq_nil_iff.1 hdrop
  | cons straight below =>
    rw [Layout.Branches.ofList?, hdrop] at h
    cases h

theorem lt_length_of_ofList? {normal : Nat} {ns : List (Node α)} {b : Layout.Branches (Node α)}
    (h : Layout.Branches.ofList? normal ns = some b) : normal < ns.length := by
  by_contra hlt
  rw [Layout.Branches.ofList?, List.drop_eq_nil_of_le (Nat.not_lt.1 hlt)] at h
  cases h

/-- Both kinds of choices are made from branches, and fail where there are none. -/
theorem makes_branches {kind : Kind} {build : Layout.Branches (Node α) → Node α}
    {make : List (Node α) → Except Error (Node α)} {normal : Nat}
    (hbuild : ∀ b, (build b).kind = kind ∧ (build b).children = b.toList)
    (hnone : ∀ ns, Layout.Branches.ofList? normal ns = none →
      make ns = .error (noBranch normal ns.length))
    (hsome : ∀ ns b, Layout.Branches.ofList? normal ns = some b → make ns = .ok (build b)) :
    Makes kind (normal < ·) make := by
  intro ns
  cases h : Layout.Branches.ofList? normal ns with
  | none =>
    rw [hnone ns h]
    exact Nat.not_lt.2 (length_le_of_ofList?_none h)
  | some b =>
    obtain ⟨hkind, hchildren⟩ := hbuild b
    rw [hsome ns b h]
    exact ⟨lt_length_of_ofList? h, hkind, hchildren.trans (Layout.Branches.toList_of_ofList? h)⟩

theorem makes_choice? (normal : Nat) : Makes .choice (normal < ·) (choice? (α := α) normal) := by
  have hbuild (b : Layout.Branches (Node α)) :
      (choice b.above b.straight b.below).kind = .choice ∧
        (choice b.above b.straight b.below).children = b.toList := ⟨rfl, rfl⟩
  apply makes_branches hbuild
  · intro ns h
    rw [choice?, h]
  · intro ns b h
    rw [choice?, h]

theorem makes_multipleChoice? (kind : ChoiceKind) (normal : Nat) :
    Makes .multipleChoice (normal < ·) (multipleChoice? (α := α) kind normal) := by
  have hbuild (b : Layout.Branches (Node α)) :
      (multipleChoice kind b.above b.straight b.below).kind = .multipleChoice ∧
        (multipleChoice kind b.above b.straight b.below).children = b.toList := ⟨rfl, rfl⟩
  apply makes_branches hbuild
  · intro ns h
    rw [multipleChoice?, h]
  · intro ns b h
    rw [multipleChoice?, h]

end Node

/-! ## Rules -/

theorem validateNormal_decides (normal : Float) (count : Nat) :
    Decides (IsIndex normal count) (· < count) (validateNormal normal count) := by
  cases h : validateNormal normal count with
  | error e =>
    intro hindex
    have hok := validateNormal_eq_ok_iff.2 ⟨hindex, rfl⟩
    rw [h] at hok
    cases hok
  | ok k => exact ⟨(validateNormal_eq_ok_iff.1 h).1, lt_of_validateNormal h⟩

namespace Description

theorem markerStyle_decides (style : Option String) :
    Decides (style ∈ [none, some "simple", some "complex"]) (fun _ => True)
      (markerStyle style) := by
  rcases style with _ | name
  · exact ⟨by simp, trivial⟩
  by_cases hsimple : name = "simple"
  · subst hsimple
    exact ⟨by simp, trivial⟩
  by_cases hcomplex : name = "complex"
  · subst hcomplex
    exact ⟨by simp, trivial⟩
  have hnone : MarkerStyle.ofName? name = none := by
    rw [MarkerStyle.ofName?] <;> assumption
  rw [markerStyle, hnone]
  show some name ∉ _
  simp [hsimple, hcomplex]

theorem choiceKind_decides (kind : Option String) :
    Decides (kind ∈ [none, some "any", some "all"]) (fun _ => True) (choiceKind kind) := by
  rcases kind with _ | name
  · exact ⟨by simp, trivial⟩
  by_cases hany : name = "any"
  · subst hany
    exact ⟨by simp, trivial⟩
  by_cases hall : name = "all"
  · subst hall
    exact ⟨by simp, trivial⟩
  have hunknown : ChoiceKind.ofName name = .error (.unknownChoiceKind name) := by
    rw [ChoiceKind.ofName] <;> assumption
  rw [choiceKind, hunknown]
  show some name ∉ _
  simp [hany, hall]

/-- The node is a diagram, which has no place in another one. -/
def isDiagram : Description → Bool
  | diagram .. => true
  | _ => false

/-- The rule of the kind of a node. -/
def MeetsRule : Description → Prop
  | stack items | verticalSequence items => 1 ≤ items.length
  | horizontalChoice items | optionalSequence items => 2 ≤ items.length
  | alternatingSequence items => items.length = 2
  | choice normal items => IsIndex normal items.length
  | multipleChoice normal kind items =>
    IsIndex normal items.length ∧ kind ∈ [none, some "any", some "all"]
  | start style _ | finish style => style ∈ [none, some "simple", some "complex"]
  | _ => True

/-! ## The nodes of a description -/

/-- The descriptions in a description, in the order in which they are written. -/
def children : Description → List Description
  | text _ | terminal .. | nonTerminal .. | comment .. | skip | start .. | finish _ => []
  | diagram items _ | sequence items | stack items | optionalSequence items
  | alternatingSequence items | verticalSequence items | horizontalChoice items
  | choice _ items | multipleChoice _ _ items => items
  | optional item _ | group item _ => [item]
  | oneOrMore item separator | zeroOrMore item separator => item :: separator.toList

mutual

/-- The nodes in a description, at any depth. -/
def inner : Description → List Description
  | text _ | terminal .. | nonTerminal .. | comment .. | skip | start .. | finish _ => []
  | diagram items _ | sequence items | stack items | optionalSequence items
  | alternatingSequence items | verticalSequence items | horizontalChoice items
  | choice _ items | multipleChoice _ _ items => allInner items
  | optional item _ | group item _ => item :: inner item
  | oneOrMore item separator | zeroOrMore item separator =>
    item :: (inner item ++ separatorInner separator)

/-- Several descriptions and the nodes in them. -/
def allInner : List Description → List Description
  | [] => []
  | d :: rest => d :: (inner d ++ allInner rest)

/-- A separator and the nodes in it, if one is described. -/
def separatorInner : Option Description → List Description
  | none => []
  | some d => d :: inner d

end

/-- The nodes of a description, each before what is in it. -/
def nodes (d : Description) : List Description := d :: d.inner

theorem allInner_eq (ds : List Description) : allInner ds = ds.flatMap nodes := by
  induction ds with
  | nil => rfl
  | cons d rest ih => rw [allInner, ih, List.flatMap_cons, nodes, List.cons_append]

theorem separatorInner_eq (s : Option Description) : separatorInner s = s.toList.flatMap nodes := by
  cases s with
  | none => rfl
  | some d => exact (List.flatMap_singleton ..).symm

theorem nodes_eq (d : Description) : d.nodes = d :: d.children.flatMap nodes := by
  rw [nodes]
  cases d <;>
    simp only [inner, children, allInner_eq, separatorInner_eq, List.flatMap_cons, List.flatMap_nil,
      List.append_nil, nodes, List.cons_append]

/-- There is no diagram in a description, the description itself included, and all of its nodes meet
their rules. -/
def Legal (d : Description) : Prop := ∀ e ∈ d.nodes, e.isDiagram = false ∧ e.MeetsRule

theorem legal_iff (d : Description) :
    d.Legal ↔ (d.isDiagram = false ∧ d.MeetsRule) ∧ ∀ c ∈ d.children, c.Legal := by
  rw [Legal, nodes_eq, List.forall_mem_cons]
  simp only [List.mem_flatMap, Legal]
  constructor
  · rintro ⟨hd, hbelow⟩
    exact ⟨hd, fun c hc e he => hbelow e ⟨c, hc, he⟩⟩
  · rintro ⟨hd, hchildren⟩
    exact ⟨hd, fun e ⟨c, hc, he⟩ => hchildren c hc e he⟩

namespace TopLevel

/-- The nodes of a row, or those of a diagram, or a single node. -/
def items : TopLevel → List Description
  | row items | one (.diagram items _) => items
  | one d => [d]

/-- What a text describes is legal: there is no diagram below the top, and all nodes meet their
rules. -/
def Legal (top : TopLevel) : Prop :=
  ∀ d ∈ top.items.flatMap nodes, d.isDiagram = false ∧ d.MeetsRule

theorem legal_iff (top : TopLevel) : top.Legal ↔ ∀ d ∈ top.items, d.Legal := by
  simp only [Legal, List.mem_flatMap, Description.Legal]
  constructor
  · intro h d hd e he
    exact h e ⟨d, hd, he⟩
  · rintro h e ⟨d, hd, he⟩
    exact h d hd e he

/-- Whether what a text describes is a fragment. -/
def isFragment : TopLevel → Bool
  | one (.diagram _ complex) => complex
  | _ => false

/-- The nodes of a diagram that is described, between its markers. -/
theorem exists_buildAll_eq {top : TopLevel} {o : Options α} {d : Diagram α}
    (hd : top.toDiagram o = .ok d) :
    ∃ ns, buildAll top.items = .ok ns ∧
      d = if top.isFragment then .fragment o ns else .simple o ns := by
  have hrow {items : List Description} (hd : Description.row o items = .ok d) :
      ∃ ns, buildAll items = .ok ns ∧ d = .simple o ns := by
    obtain ⟨ns, hns, ⟨⟩⟩ := bind_eq_ok.1 hd
    exact ⟨ns, hns, rfl⟩
  have hone {e : Description} (hd : (e.build >>= fun n => pure (.simple o [n])) = .ok d) :
      ∃ ns, buildAll [e] = .ok ns ∧ d = .simple o ns := by
    obtain ⟨n, hn, ⟨⟩⟩ := bind_eq_ok.1 hd
    refine ⟨[n], ?_, rfl⟩
    rw [buildAll, hn]
    rfl
  cases top with
  | row items => exact hrow hd
  | one e =>
    cases e with
    | diagram items complex =>
      cases complex with
      | true =>
        obtain ⟨ns, hns, ⟨⟩⟩ := bind_eq_ok.1 hd
        exact ⟨ns, hns, rfl⟩
      | false => exact hrow hd
    | _ => exact hone hd

end TopLevel
end Description
end SyntaxDiagram
