import Mathlib.Data.List.Forall2
import SyntaxDiagram.Proofs.Descriptions.Legality
import SyntaxDiagram.Proofs.Walk

/-!
# Building what is described

A description is built if it is legal and refused if it is not. What is built has a node for each
node that is described, in the same order, and a few more: the lines and loops that some kinds are
made of, the captions of groups, and the markers at both ends.

* `Origin`: what a node of a diagram is there for.
* `Description.trace`: the origins of the nodes that come of a description, in the order of a walk.
* `Description.build_decides`: what is built, and when.
-/

namespace SyntaxDiagram

variable {α : Type}

namespace Description

/-! ## Induction -/

theorem sizeOf_lt_of_mem_children {c d : Description} (h : c ∈ d.children) :
    sizeOf c < sizeOf d := by
  cases d with
  | text | terminal | nonTerminal | comment | skip | start | finish => cases h
  | diagram items | sequence items | stack items | optionalSequence items
  | alternatingSequence items | verticalSequence items | horizontalChoice items | choice _ items
  | multipleChoice _ _ items =>
    have hlt := List.sizeOf_lt_of_mem (show c ∈ items from h)
    simp
    omega
  | optional item =>
    obtain rfl : c = item := List.mem_singleton.1 h
    simp
  | group item =>
    obtain rfl : c = item := List.mem_singleton.1 h
    simp
    omega
  | oneOrMore item separator | zeroOrMore item separator =>
    rcases List.mem_cons.1 h with rfl | h
    · simp
      omega
    · obtain rfl : separator = some c := Option.mem_toList.1 h
      simp
      omega

/-- **Induction over descriptions**, whatever the kinds of their nodes. -/
theorem induction {motive : Description → Prop}
    (h : ∀ d : Description, (∀ c ∈ d.children, motive c) → motive d) (d : Description) :
    motive d :=
  h d fun c hc =>
    have := sizeOf_lt_of_mem_children hc
    induction h c
termination_by sizeOf d

/-- The kind of the node that is described; a diagram is no node. -/
def kind? : Description → Option Node.Kind
  | text _ | terminal .. => some .terminal
  | diagram .. => none
  | nonTerminal .. => some .nonTerminal
  | comment .. => some .comment
  | skip => some .skip
  | start .. => some .start
  | finish _ => some .finish
  | sequence _ => some .sequence
  | stack _ => some .stack
  | optionalSequence _ => some .optionalSequence
  | alternatingSequence _ => some .alternatingSequence
  | verticalSequence _ => some .verticalSequence
  | horizontalChoice _ => some .horizontalChoice
  | choice .. => some .choice
  | multipleChoice .. => some .multipleChoice
  | optional .. => some .optional
  | oneOrMore .. => some .oneOrMore
  | zeroOrMore .. => some .zeroOrMore
  | group .. => some .group

end Description

/-! ## Origins -/

/-- What a node of a diagram is there for. -/
inductive Origin where
  /-- it is described -/
  | node (d : Description)
  /-- it is the caption of a group -/
  | caption (text : String)
  /-- it is the loop in a loop that can be passed by -/
  | loop
  /-- it is the bare line around an item, or in the place of a separator -/
  | line

namespace Origin

/-- The description of a node that is described. -/
def described? : Origin → Option Description
  | node d => some d
  | _ => none

/-- A node is what it is there for. It has the kind that is described; bare text is a terminal with
this text and nothing else, and a caption is a comment of that kind. -/
def Shows : Origin → Node α → Prop
  | node d, n => d.kind? = some n.kind ∧ ∀ s, d = .text s → n = .terminal s ∅
  | caption text, n => n = .comment text none none
  | loop, n => n.kind = .oneOrMore
  | line, n => n = .skip

end Origin

namespace Description

/-- The origin of the caption of a group. A label that is empty stands for none. -/
def captionTrace : Option String → List Origin
  | none | some "" => []
  | some label => [.caption label]

mutual

/-- The origins of the nodes in a described node. -/
def innerTrace : Description → List Origin
  | text _ | terminal .. | nonTerminal .. | comment .. | skip | start .. | finish _ => []
  | diagram items _ | sequence items | stack items | optionalSequence items
  | alternatingSequence items | verticalSequence items | horizontalChoice items
  | choice _ items | multipleChoice _ _ items => allTrace items
  | optional item _ => .line :: .node item :: innerTrace item
  | oneOrMore item separator => .node item :: (innerTrace item ++ separatorTrace separator)
  | zeroOrMore item separator =>
    .line :: .loop :: .node item :: (innerTrace item ++ separatorTrace separator)
  | group item label => .node item :: (innerTrace item ++ captionTrace label)

/-- The origins of several nodes and of those in them. -/
def allTrace : List Description → List Origin
  | [] => []
  | d :: rest => .node d :: (innerTrace d ++ allTrace rest)

/-- The origins of a separator and of the nodes in it. -/
def separatorTrace : Option Description → List Origin
  | none => [.line]
  | some d => .node d :: innerTrace d

end

/-- The origins of the nodes that come of a description, in the order of a walk. -/
def trace (d : Description) : List Origin := .node d :: d.innerTrace

theorem allTrace_eq (ds : List Description) : allTrace ds = ds.flatMap trace := by
  induction ds with
  | nil => rfl
  | cons d rest ih => rw [allTrace, ih, List.flatMap_cons, trace, List.cons_append]

theorem filterMap_separatorTrace (s : Option Description) :
    (separatorTrace s).filterMap Origin.described? =
      (s.toList.flatMap trace).filterMap Origin.described? := by
  cases s with
  | none => rfl
  | some d => rw [Option.toList_some, List.flatMap_singleton, trace, separatorTrace]

/-- A caption is not described by a node of its own. -/
theorem filterMap_captionTrace (label : Option String) :
    (captionTrace label).filterMap Origin.described? = [] := by
  unfold captionTrace
  split <;> rfl

/-- A group has a caption if its label is not empty. -/
theorem captionTrace_eq (label : Option String) :
    captionTrace label = ((Node.caption? label).map Origin.caption).toList := by
  unfold captionTrace
  split
  · rfl
  · rfl
  · next text htext =>
    have hcaption : Node.caption? (some text) = some text := by
      simpa [Node.caption?] using htext
    rw [hcaption]
    rfl

/-- The nodes that are not described are passed over. -/
theorem filterMap_innerTrace (d : Description) :
    d.innerTrace.filterMap Origin.described? =
      (d.children.flatMap trace).filterMap Origin.described? := by
  cases d with
  | text | terminal | nonTerminal | comment | skip | start | finish => rfl
  | diagram | sequence | stack | optionalSequence | alternatingSequence | verticalSequence
  | horizontalChoice | choice | multipleChoice => rw [innerTrace, allTrace_eq, children]
  | optional item bypass =>
    simp [innerTrace, children, trace, List.filterMap_cons, Origin.described?]
  | oneOrMore item separator | zeroOrMore item separator =>
    simp [innerTrace, children, trace, List.filterMap_cons, Origin.described?,
      filterMap_separatorTrace]
  | group item label =>
    simp [innerTrace, children, trace, Origin.described?, filterMap_captionTrace]

/-- **Every node that is described has its place in the trace**, and nothing else that is described
has one. -/
theorem filterMap_trace (d : Description) : d.trace.filterMap Origin.described? = d.nodes := by
  induction d using Description.induction with
  | h d ih =>
    have hd : (Origin.node d).described? = some d := rfl
    rw [trace, List.filterMap_cons_some hd, filterMap_innerTrace, List.filterMap_flatMap, nodes_eq,
      List.flatMap_congr ih]

/-! ## What is built -/

/-- A node is what comes of a description. -/
def Built (d : Description) (n : Node α) : Prop := List.Forall₂ Origin.Shows d.trace n.walk

theorem built_of {d : Description} {n : Node α} (hkind : d.kind? = some n.kind)
    (htext : ∀ s, d = .text s → n = .terminal s ∅)
    (hinner : List.Forall₂ Origin.Shows d.innerTrace (n.children.flatMap Node.walk)) :
    d.Built n := by
  rw [Built, trace, n.walk_eq]
  exact .cons ⟨hkind, htext⟩ hinner

/-- Several nodes are built one by one. -/
theorem shows_flatMap {ds : List Description} {ns : List (Node α)}
    (h : List.Forall₂ Built ds ns) :
    List.Forall₂ Origin.Shows (ds.flatMap trace) (ns.flatMap Node.walk) :=
  List.rel_flatMap h fun _ _ hbuilt => hbuilt

theorem shows_line : List.Forall₂ Origin.Shows [.line] (Node.skip (α := α)).walk := by
  rw [Node.walk_eq]
  exact .cons rfl .nil

theorem kind?_of_built {d : Description} {n : Node α} (h : d.Built n) : d.kind? = some n.kind := by
  rw [Built, trace, n.walk_eq, List.forall₂_cons] at h
  exact h.1.1

/-- A node without others in it. -/
theorem decides_leaf {d : Description} {n : Node α} (hlegal : d.isDiagram = false ∧ d.MeetsRule)
    (hchildren : d.children = []) (hbuilt : d.Built n) : Decides d.Legal d.Built (.ok n) := by
  refine ⟨d.legal_iff.2 ⟨hlegal, ?_⟩, hbuilt⟩
  rw [hchildren]
  exact nofun

/-- A node that holds the nodes of a list and nothing else. -/
structure Holds (d : Description) (items : List Description) (kind : Node.Kind) : Prop where
  kind : d.kind? = some kind
  children : d.children = items
  trace : d.innerTrace = allTrace items
  text : ∀ s, d ≠ .text s

theorem isDiagram_of_kind? {d : Description} {kind : Node.Kind} (h : d.kind? = some kind) :
    d.isDiagram = false := by
  cases d with
  | diagram => cases h
  | _ => rfl

theorem Holds.legal_iff {d : Description} {items : List Description} {kind : Node.Kind}
    (hd : d.Holds items kind) : d.Legal ↔ d.MeetsRule ∧ ∀ c ∈ items, c.Legal := by
  rw [Description.legal_iff, hd.children, and_iff_right (isDiagram_of_kind? hd.kind)]

/-- A list is built if it is legal, and then into as many nodes. -/
theorem buildAll_decides {ds : List Description}
    (h : ∀ d ∈ ds, Decides d.Legal d.Built (d.build (α := α))) :
    Decides (∀ d ∈ ds, d.Legal) (List.Forall₂ Built ds) (buildAll (α := α) ds) := by
  induction ds with
  | nil => exact ⟨nofun, .nil⟩
  | cons d rest ih =>
    obtain ⟨hd, hrest⟩ := List.forall_mem_cons.1 h
    rw [buildAll]
    refine Decides.congr (Decides.bind hd fun n hn => Decides.bind (ih hrest) fun ns hns =>
      Decides.pure (.cons hn hns)) ?_
    rw [List.forall_mem_cons, and_true]

theorem buildSeparator_decides {s : Option Description}
    (h : ∀ d ∈ s.toList, Decides d.Legal d.Built (d.build (α := α))) :
    Decides (∀ d ∈ s.toList, d.Legal)
      (fun n => List.Forall₂ Origin.Shows (separatorTrace s) n.walk)
      (buildSeparator (α := α) s) := by
  cases s with
  | none => exact ⟨nofun, shows_line⟩
  | some d =>
    have hd := h d List.mem_cons_self
    rw [buildSeparator]
    exact hd.congr (by simp)

/-- A container is built if its items are and there are as many as its rule asks for. -/
theorem decides_container {d : Description} {items : List Description} {kind : Node.Kind}
    {rule : Nat → Prop} {make : List (Node α) → Except Error (Node α)} (hd : d.Holds items kind)
    (hmake : Node.Makes kind rule make)
    (hitems : ∀ c ∈ d.children, Decides c.Legal c.Built (c.build (α := α))) :
    Decides ((∀ c ∈ items, c.Legal) ∧ rule items.length) d.Built (buildAll items >>= make) := by
  rw [hd.children] at hitems
  apply Decides.bind (buildAll_decides hitems)
  intro ns hns
  rw [hns.length_eq]
  apply (hmake ns).imp
  rintro n ⟨hkind, hchildren⟩
  refine built_of (hkind ▸ hd.kind) (fun s hs => absurd hs (hd.text s)) ?_
  rw [hd.trace, allTrace_eq, hchildren]
  exact shows_flatMap hns

/-- A container whose rule looks at nothing but the number of its items. -/
theorem decides_counted {d : Description} {items : List Description} {kind : Node.Kind}
    {rule : Nat → Prop} {make : List (Node α) → Except Error (Node α)} (hd : d.Holds items kind)
    (hrule : d.MeetsRule ↔ rule items.length) (hmake : Node.Makes kind rule make)
    (hitems : ∀ c ∈ d.children, Decides c.Legal c.Built (c.build (α := α))) :
    Decides d.Legal d.Built (buildAll items >>= make) := by
  apply (decides_container hd hmake hitems).congr
  rw [hd.legal_iff, hrule, and_comm]

/-! ## Kinds with items of their own -/

section

variable {item : Description} {separator : Option Description} {n m : Node α}

theorem built_optional (hn : item.Built n) (bypass : Bool) :
    (optional item bypass).Built (.optional n bypass) := by
  refine built_of rfl nofun ?_
  rw [Node.children, List.flatMap_cons, List.flatMap_singleton]
  exact List.rel_append shows_line hn

theorem shows_loop (hn : item.Built n)
    (hm : List.Forall₂ Origin.Shows (separatorTrace separator) m.walk) :
    List.Forall₂ Origin.Shows (item.trace ++ separatorTrace separator)
      ((Node.oneOrMore n m).children.flatMap Node.walk) := by
  rw [Node.children, List.flatMap_cons, List.flatMap_singleton]
  exact List.rel_append hn hm

theorem built_oneOrMore (hn : item.Built n)
    (hm : List.Forall₂ Origin.Shows (separatorTrace separator) m.walk) :
    (oneOrMore item separator).Built (.oneOrMore n m) :=
  built_of rfl nofun (shows_loop hn hm)

theorem built_zeroOrMore (hn : item.Built n)
    (hm : List.Forall₂ Origin.Shows (separatorTrace separator) m.walk) :
    (zeroOrMore item separator).Built (.zeroOrMore n m) := by
  refine built_of rfl nofun ?_
  have hloop : List.Forall₂ Origin.Shows (.loop :: (item.trace ++ separatorTrace separator))
      (Node.oneOrMore n m).walk := by
    rw [Node.walk_eq]
    exact .cons rfl (shows_loop hn hm)
  rw [Node.children, List.flatMap_cons, List.flatMap_singleton]
  exact List.rel_append shows_line hloop

theorem built_group (hn : item.Built n) (label : Option String) :
    (group item label).Built (.group n label) := by
  refine built_of rfl nofun ?_
  have htrace : (group item label).innerTrace = item.trace ++ captionTrace label := rfl
  rw [htrace, captionTrace_eq, Node.children]
  cases Node.caption? label with
  | none =>
    rw [Option.map_none, Option.toList_none, List.append_nil, List.flatMap_singleton]
    exact hn
  | some text =>
    have hcaption : List.Forall₂ Origin.Shows [.caption text]
        (Node.comment (α := α) text none none).walk := by
      rw [Node.walk_eq]
      exact .cons rfl .nil
    rw [Option.map_some, Option.toList_some, List.flatMap_cons, List.flatMap_singleton]
    exact List.rel_append hn hcaption

end

/-- **A description is built exactly if it is legal**, and what is built shows it. -/
theorem build_decides (d : Description) : Decides d.Legal d.Built (d.build (α := α)) := by
  induction d using Description.induction with
  | h d ih =>
    cases d with
    | text s => exact decides_leaf ⟨rfl, trivial⟩ rfl (built_of rfl (by simp [Node.ofText]) .nil)
    | diagram items complex =>
      intro hlegal
      have hdiagram := (legal_iff _).1 hlegal
      exact Bool.false_ne_true hdiagram.1.1.symm
    | terminal s href title => exact decides_leaf ⟨rfl, trivial⟩ rfl (built_of rfl (by simp) .nil)
    | nonTerminal s href title =>
      exact decides_leaf ⟨rfl, trivial⟩ rfl (built_of rfl (by simp) .nil)
    | comment s href title => exact decides_leaf ⟨rfl, trivial⟩ rfl (built_of rfl (by simp) .nil)
    | skip => exact decides_leaf ⟨rfl, trivial⟩ rfl (built_of rfl (by simp) .nil)
    | start style label =>
      have hbuilt (m : MarkerStyle) :
          (start style label).Built (.start (α := α) m (label.getD "")) :=
        built_of rfl (by simp) .nil
      rw [build]
      refine ((markerStyle_decides style).bind fun m _ => .pure (hbuilt m)).congr ?_
      rw [legal_iff]
      simp [isDiagram, MeetsRule, children]
    | finish style =>
      have hbuilt (m : MarkerStyle) : (finish style).Built (.finish (α := α) m) :=
        built_of rfl (by simp) .nil
      rw [build]
      refine ((markerStyle_decides style).bind fun m _ => .pure (hbuilt m)).congr ?_
      rw [legal_iff]
      simp [isDiagram, MeetsRule, children]
    | sequence items =>
      rw [build]
      exact decides_counted ⟨rfl, rfl, rfl, by simp⟩ .rfl Node.makes_sequence ih
    | stack items =>
      rw [build]
      exact decides_counted ⟨rfl, rfl, rfl, by simp⟩ .rfl Node.makes_stack? ih
    | optionalSequence items =>
      rw [build]
      exact decides_counted ⟨rfl, rfl, rfl, by simp⟩ .rfl Node.makes_optionalSequence? ih
    | alternatingSequence items =>
      rw [build]
      exact decides_counted ⟨rfl, rfl, rfl, by simp⟩ .rfl Node.makes_alternatingSequence? ih
    | verticalSequence items =>
      rw [build]
      exact decides_counted ⟨rfl, rfl, rfl, by simp⟩ .rfl Node.makes_verticalSequence? ih
    | horizontalChoice items =>
      rw [build]
      exact decides_counted ⟨rfl, rfl, rfl, by simp⟩ .rfl Node.makes_horizontalChoice? ih
    | choice normal items =>
      have hd : (choice normal items).Holds items .choice := ⟨rfl, rfl, rfl, by simp⟩
      rw [build]
      exact ((validateNormal_decides normal items.length).bind fun k hk =>
        (decides_container hd (Node.makes_choice? k) ih).congr
          (and_iff_left hk).symm).congr hd.legal_iff
    | multipleChoice normal kind items =>
      have hd : (multipleChoice normal kind items).Holds items .multipleChoice :=
        ⟨rfl, rfl, rfl, by simp⟩
      rw [build]
      exact ((validateNormal_decides normal items.length).bind fun k hk =>
        (choiceKind_decides kind).bind fun kind _ =>
          (decides_container hd (Node.makes_multipleChoice? kind k) ih).congr
            (and_iff_left hk).symm).congr (hd.legal_iff.trans and_assoc)
    | optional item bypass =>
      have hitem := ih item List.mem_cons_self
      rw [build]
      refine (hitem.bind fun n hn => .pure (built_optional hn bypass)).congr ?_
      rw [legal_iff]
      simp [isDiagram, MeetsRule, children]
    | oneOrMore item separator =>
      obtain ⟨hitem, hseparator⟩ := List.forall_mem_cons.1 ih
      rw [build]
      refine (hitem.bind fun n hn => (buildSeparator_decides hseparator).bind fun m hm =>
        .pure (built_oneOrMore hn hm)).congr ?_
      rw [legal_iff]
      simp [isDiagram, MeetsRule, children]
    | zeroOrMore item separator =>
      obtain ⟨hitem, hseparator⟩ := List.forall_mem_cons.1 ih
      rw [build]
      refine (hitem.bind fun n hn => (buildSeparator_decides hseparator).bind fun m hm =>
        .pure (built_zeroOrMore hn hm)).congr ?_
      rw [legal_iff]
      simp [isDiagram, MeetsRule, children]
    | group item label =>
      have hitem := ih item List.mem_cons_self
      rw [build]
      refine (hitem.bind fun n hn => .pure (built_group hn label)).congr ?_
      rw [legal_iff]
      simp [isDiagram, MeetsRule, children]

end Description
end SyntaxDiagram
