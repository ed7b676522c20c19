import SyntaxDiagram.Proofs.Descriptions.Diagrams
import SyntaxDiagram.Proofs.Texts

/-!
# Described texts

What is written in a description is to be read in its drawing, as often as it is written, but for
one label: a marker with double ticks in front of a fragment is replaced, and its label with it.

* `Description.written`: what the nodes of a description have to write. `Description.texts_build`
  says that the nodes that are built from it do.
* `TopLevel.words`, `TopLevel.badges`: what is described, and what multiple choices add to it.
* `TopLevel.lost`: the label that a fragment loses.
* `TopLevel.texts_drawing`: what there is to read in the drawing of a description.
* `TopLevel.no_text_lost`: where no label is lost, all texts are drawn.
-/

namespace SyntaxDiagram

variable {α : Type}

/-! ## What nodes write -/

namespace Node

variable {n : Node α}

/-- A node without others in it. -/
theorem texts_of_leaf (h : n.children = []) : n.texts = n.wording := by
  rw [texts_eq, h, List.flatMap_nil, List.append_nil]

@[simp] theorem texts_skip : (skip : Node α).texts = [] := texts_of_leaf rfl

@[simp] theorem texts_finish (style : MarkerStyle) : (finish style : Node α).texts = [] :=
  texts_of_leaf rfl

@[simp] theorem texts_start (style : MarkerStyle) (label : String) :
    (start style label : Node α).texts = (caption? (some label)).toList := texts_of_leaf rfl

@[simp] theorem texts_comment (text : String) (href title : Option String) :
    (comment text href title : Node α).texts = [text] := texts_of_leaf rfl

theorem texts_group (item : Node α) (label : Option String) :
    (group item label).texts = item.texts ++ (caption? label).toList := by
  rw [texts_eq, children]
  cases caption? label <;> simp [wording]

theorem caption?_getD (label : Option String) : caption? (some (label.getD "")) = caption? label := by
  cases label <;> rfl

/-- A way to put nodes into a node that writes the same itself, whichever they are. -/
def Writes (writing : List String) (make : List (Node α) → Except Error (Node α)) : Prop :=
  ∀ {ns n}, make ns = .ok n → n.wording = writing ∧ n.children = ns

theorem writes_of_makes {kind : Kind} {rule : Nat → Prop}
    {make : List (Node α) → Except Error (Node α)} (hmake : Makes kind rule make)
    (hlines : kind.isLines) : Writes [] make := by
  intro ns n hn
  obtain ⟨hkind, hchildren⟩ := (hmake ns).of_ok hn
  exact ⟨wording_of_isLines (hkind ▸ hlines), hchildren⟩

theorem writes_multipleChoice? (kind : ChoiceKind) (normal : Nat) :
    Writes [Layout.ChoiceKind.badge kind] (multipleChoice? (α := α) kind normal) := by
  intro ns n hn
  refine ⟨?_, ((makes_multipleChoice? kind normal ns).of_ok hn).2⟩
  unfold multipleChoice? at hn
  split at hn
  · cases hn
  · cases hn
    rfl

end Node

/-! ## What is written in descriptions -/

namespace Description

/-- The text of a described node, or its label if that is not empty. -/
def wording : Description → List String
  | text s | terminal s .. | nonTerminal s .. | comment s .. => [s]
  | start _ label | group _ label => (Node.caption? label).toList
  | _ => []

/-- What a described multiple choice says of its branches. -/
def badge : Description → List String
  | multipleChoice _ name _ =>
    match choiceKind name with
    | .ok kind => [Layout.ChoiceKind.badge kind]
    | .error _ => []
  | _ => []

/-- What a node that is described has to write. -/
def writing (d : Description) : List String := d.wording ++ d.badge

/-- All that the nodes of a description have to write. -/
def written (d : Description) : List String := d.nodes.flatMap writing

theorem written_eq (d : Description) : d.written = d.writing ++ d.children.flatMap written := by
  rw [written, d.nodes_eq, List.flatMap_cons, List.flatMap_assoc]
  rfl

/-! ## What described nodes write -/

section Build

variable {d item : Description} {n m : Node α}

/-- A node writes what is described, if it does so itself and the nodes in it do. -/
theorem texts_perm_of (hwording : n.wording = d.writing)
    (hchildren : (n.children.flatMap Node.texts).Perm (d.children.flatMap written)) :
    n.texts.Perm d.written := by
  rw [n.texts_eq, d.written_eq, hwording]
  exact hchildren.append_left _

theorem texts_buildAll {ds : List Description} {ns : List (Node α)} (hns : buildAll ds = .ok ns)
    (h : ∀ d ∈ ds, ∀ n : Node α, d.build = .ok n → n.texts.Perm d.written) :
    (ns.flatMap Node.texts).Perm (ds.flatMap written) := by
  induction ds generalizing ns with
  | nil =>
    cases hns
    exact .nil
  | cons d rest ih =>
    obtain ⟨hd, hrest⟩ := List.forall_mem_cons.1 h
    rw [buildAll, bind_eq_ok] at hns
    obtain ⟨n, hn, hns⟩ := hns
    obtain ⟨others, hothers, ⟨⟩⟩ := bind_eq_ok.1 hns
    rw [List.flatMap_cons, List.flatMap_cons]
    exact (hd n hn).append (ih hothers hrest)

theorem texts_buildSeparator {s : Option Description} (hm : buildSeparator s = .ok m)
    (h : ∀ d ∈ s.toList, ∀ n : Node α, d.build = .ok n → n.texts.Perm d.written) :
    m.texts.Perm (s.toList.flatMap written) := by
  cases s with
  | none =>
    cases hm
    exact .of_eq Node.texts_skip
  | some d =>
    rw [Option.toList_some, List.flatMap_singleton]
    exact h d List.mem_cons_self m hm

/-- A container of a list of items. -/
theorem texts_container {items : List Description}
    {make : List (Node α) → Except Error (Node α)} (hitems : d.children = items)
    (hmake : Node.Writes d.writing make) (hn : (buildAll items >>= make) = .ok n)
    (h : ∀ c ∈ d.children, ∀ n : Node α, c.build = .ok n → n.texts.Perm c.written) :
    n.texts.Perm d.written := by
  obtain ⟨ns, hns, hn⟩ := bind_eq_ok.1 hn
  obtain ⟨hwording, hchildren⟩ := hmake hn
  subst hitems
  exact texts_perm_of hwording (hchildren ▸ texts_buildAll hns h)

/-- An item and the separator that it is repeated with. -/
theorem texts_loop {separator : Option Description} (hn : n.texts.Perm item.written)
    (hm : m.texts.Perm (separator.toList.flatMap written)) :
    (Node.oneOrMore n m).texts.Perm ((item :: separator.toList).flatMap written) := by
  rw [Node.texts_eq, Node.children, List.flatMap_cons, List.flatMap_singleton, List.flatMap_cons]
  exact hn.append hm

/-- **A node that is described writes what is described.** -/
theorem texts_build (d : Description) (n : Node α) (hn : d.build = .ok n) :
    n.texts.Perm d.written := by
  induction d using Description.induction generalizing n with
  | h d ih =>
    cases d with
    | text | terminal | nonTerminal | comment | skip =>
      cases hn
      exact texts_perm_of rfl .nil
    | diagram items complex => cases hn
    | start style label =>
      rw [build, bind_eq_ok] at hn
      obtain ⟨marker, -, ⟨⟩⟩ := hn
      have hwriting : (start style label).writing = (Node.caption? label).toList :=
        List.append_nil _
      refine texts_perm_of ?_ .nil
      rw [Node.wording, Node.caption?_getD, hwriting]
    | finish style =>
      rw [build, bind_eq_ok] at hn
      obtain ⟨style, -, ⟨⟩⟩ := hn
      exact texts_perm_of rfl .nil
    | sequence items =>
      rw [build] at hn
      exact texts_container rfl (Node.writes_of_makes Node.makes_sequence rfl) hn ih
    | stack items =>
      rw [build] at hn
      exact texts_container rfl (Node.writes_of_makes Node.makes_stack? rfl) hn ih
    | optionalSequence items =>
      rw [build] at hn
      exact texts_container rfl (Node.writes_of_makes Node.makes_optionalSequence? rfl) hn ih
    | alternatingSequence items =>
      rw [build] at hn
      exact texts_container rfl (Node.writes_of_makes Node.makes_alternatingSequence? rfl) hn ih
    | verticalSequence items =>
      rw [build] at hn
      exact texts_container rfl (Node.writes_of_makes Node.makes_verticalSequence? rfl) hn ih
    | horizontalChoice items =>
      rw [build] at hn
      exact texts_container rfl (Node.writes_of_makes Node.makes_horizontalChoice? rfl) hn ih
    | choice normal items =>
      rw [build, bind_eq_ok] at hn
      obtain ⟨normal, -, hn⟩ := hn
      exact texts_container rfl (Node.writes_of_makes (Node.makes_choice? normal) rfl) hn ih
    | multipleChoice index name items =>
      rw [build, bind_eq_ok] at hn
      obtain ⟨normal, -, hn⟩ := hn
      obtain ⟨kind, hkind, hn⟩ := bind_eq_ok.1 hn
      have hwriting : (multipleChoice index name items).writing =
          [Layout.ChoiceKind.badge kind] := by
        simp [writing, wording, badge, hkind]
      exact texts_container rfl (hwriting ▸ Node.writes_multipleChoice? kind normal) hn ih
    | optional item bypass =>
      rw [build, bind_eq_ok] at hn
      obtain ⟨n, hn, ⟨⟩⟩ := hn
      refine texts_perm_of rfl ?_
      have hitem := ih item List.mem_cons_self n hn
      simpa [Node.children, children] using hitem
    | oneOrMore item separator =>
      obtain ⟨hitem, hseparator⟩ := List.forall_mem_cons.1 ih
      rw [build, bind_eq_ok] at hn
      obtain ⟨n, hn, hbuilt⟩ := hn
      obtain ⟨m, hm, ⟨⟩⟩ := bind_eq_ok.1 hbuilt
      rw [written_eq]
      exact texts_loop (hitem n hn) (texts_buildSeparator hm hseparator)
    | zeroOrMore item separator =>
      obtain ⟨hitem, hseparator⟩ := List.forall_mem_cons.1 ih
      rw [build, bind_eq_ok] at hn
      obtain ⟨n, hn, hbuilt⟩ := hn
      obtain ⟨m, hm, ⟨⟩⟩ := bind_eq_ok.1 hbuilt
      refine texts_perm_of rfl ?_
      have hloop := texts_loop (hitem n hn) (texts_buildSeparator hm hseparator)
      simpa [Node.children, children] using hloop
    | group item label =>
      rw [build, bind_eq_ok] at hn
      obtain ⟨n, hn, ⟨⟩⟩ := hn
      have hitem := ih item List.mem_cons_self n hn
      have hwriting : (group item label).writing = (Node.caption? label).toList :=
        List.append_nil _
      -- the caption is drawn behind the item, but stands before it here
      rw [Node.texts_group, written_eq, hwriting, children, List.flatMap_singleton]
      exact (hitem.append_right _).trans List.perm_append_comm

end Build

end Description

/-! ## Markers -/

namespace Diagram

/-- The label of a marker with double ticks in front of some nodes. -/
def frontLabel : List (Node α) → List String
  | .start .simple label :: _ => (Node.caption? (some label)).toList
  | _ => []

theorem texts_withFinish (ns : List (Node α)) :
    (withFinish ns).flatMap Node.texts = ns.flatMap Node.texts := by
  unfold withFinish
  split
  · rfl
  · simp

theorem texts_withFragmentFinish (ns : List (Node α)) :
    (withFragmentFinish ns).flatMap Node.texts = ns.flatMap Node.texts := by
  unfold withFragmentFinish
  split
  · rfl
  · rename_i hlast
    rw [← List.dropLast_append_getLast? _ hlast]
    simp
  · simp

/-- Markers that are added write nothing. -/
theorem texts_simple (o : Options α) (ns : List (Node α)) :
    (simple o ns).items.flatMap Node.texts = ns.flatMap Node.texts := by
  rw [simple, texts_withFinish]
  unfold withStart
  split
  · rfl
  · simp [Node.caption?]

/-- **A fragment loses the label of a marker that is replaced**, and no other text. -/
theorem texts_fragment (o : Options α) (ns : List (Node α)) :
    frontLabel ns ++ (fragment o ns).items.flatMap Node.texts = ns.flatMap Node.texts := by
  rw [fragment, texts_withFragmentFinish]
  unfold withFragmentStart
  split
  · rfl
  · -- the marker is replaced by one without a label
    simp [Node.caption?, frontLabel]
  · rename_i hsimple
    rw [frontLabel]
    · simp [Node.caption?]
    · exact hsimple

end Diagram

/-! ## Whole texts -/

namespace Description

/-- The label of a described marker with double ticks in front of some nodes. -/
def frontLabel : List Description → List String
  | start style label :: _ =>
    if style = some "complex" then [] else (Node.caption? label).toList
  | _ => []

theorem eq_complex_iff_of_markerStyle {name : Option String} {style : MarkerStyle}
    (h : markerStyle name = .ok style) : style = .complex ↔ name = some "complex" := by
  cases name with
  | none =>
    cases h
    exact iff_of_false nofun nofun
  | some name =>
    rw [markerStyle] at h
    split at h
    · rename_i hname
      cases h
      unfold MarkerStyle.ofName? at hname
      split at hname <;> cases hname <;> simp
    · cases h

/-- A marker in front is built from a described one. -/
theorem frontLabel_of_buildAll {ds : List Description} {ns : List (Node α)}
    (hns : buildAll ds = .ok ns) : Diagram.frontLabel ns = frontLabel ds := by
  cases ds with
  | nil =>
    cases hns
    rfl
  | cons d rest =>
    rw [buildAll, bind_eq_ok] at hns
    obtain ⟨n, hn, hns⟩ := hns
    obtain ⟨others, -, ⟨⟩⟩ := bind_eq_ok.1 hns
    have hkind : d.kind? = some n.kind := kind?_of_built ((build_decides d).of_ok hn)
    cases d with
    | start name label =>
      rw [build, bind_eq_ok] at hn
      obtain ⟨style, hstyle, ⟨⟩⟩ := hn
      have hcomplex := eq_complex_iff_of_markerStyle hstyle
      cases style with
      | simple =>
        have hname : name ≠ some "complex" := mt hcomplex.2 (by decide)
        rw [frontLabel, if_neg hname]
        exact congrArg Option.toList (Node.caption?_getD label)
      | complex =>
        rw [frontLabel, if_pos (hcomplex.1 rfl)]
        rfl
    | _ =>
      -- no marker is built from anything else
      cases n with
      | start => cases hkind
      | _ => rfl

namespace TopLevel

/-- The texts of what a text describes, and its labels that are not empty. -/
def words (top : TopLevel) : List String := (top.items.flatMap nodes).flatMap wording

/-- What the multiple choices of what a text describes say of their branches. -/
def badges (top : TopLevel) : List String := (top.items.flatMap nodes).flatMap badge

/-- The label that a fragment loses. -/
def lost (top : TopLevel) : List String := if top.isFragment then frontLabel top.items else []

variable {top : TopLevel} {o : Options α} {d : Diagram α}

theorem written_perm (top : TopLevel) :
    (top.words ++ top.badges).Perm (top.items.flatMap written) := by
  refine (List.flatMap_append_perm _ wording badge).trans (.of_eq ?_)
  rw [List.flatMap_assoc]
  rfl

/-- **What there is to read in the drawing of a description** is what is described, each text as
often as it is described, and the badges of multiple choices. Only a fragment may lose the label of
a marker in front. -/
theorem texts_drawing [Scalar α] (number : α → String) (hd : top.toDiagram o = .ok d) (x y : α)
    (padding : Padding α) :
    (top.lost ++ ((d.draw x y padding).toElement number).texts).Perm (top.words ++ top.badges) := by
  obtain ⟨ns, hns, hdiagram⟩ := exists_buildAll_eq hd
  have hbuilt := texts_buildAll hns fun e _ => texts_build e
  have hitems : top.lost ++ d.items.flatMap Node.texts = ns.flatMap Node.texts := by
    rw [lost, hdiagram]
    split
    · rw [← frontLabel_of_buildAll hns, Diagram.texts_fragment]
    · exact Diagram.texts_simple o ns
  rw [Drawing.texts_toElement]
  refine ((d.texts_draw x y padding).append_left _).trans ?_
  rw [hitems]
  exact hbuilt.trans top.written_perm.symm

/-- **No text is lost** where no fragment loses a label: all texts of a description, and all its
labels that are not empty, are to be read in its drawing at least as often as they are described. -/
theorem no_text_lost [Scalar α] (number : α → String) (hd : top.toDiagram o = .ok d)
    (hlost : top.lost = []) (x y : α) (padding : Padding α) :
    top.words.Subperm ((d.draw x y padding).toElement number).texts := by
  have htexts := texts_drawing number hd x y padding
  rw [hlost, List.nil_append] at htexts
  exact (List.sublist_append_left _ _).subperm.trans htexts.symm.subperm

/-- **A fragment loses the label of a marker with double ticks**: what there is to read in it is
what the items behind that marker have to write. -/
theorem texts_drawing_of_replaced [Scalar α] (number : α → String) {name label : Option String}
    {items : List Description} (hname : name ≠ some "complex")
    (hd : (one (.diagram (.start name label :: items) true)).toDiagram o = .ok d) (x y : α)
    (padding : Padding α) :
    ((d.draw x y padding).toElement number).texts.Perm ((row items).words ++ (row items).badges) := by
  have hlost : (one (.diagram (.start name label :: items) true)).lost =
      (Node.caption? label).toList := if_neg hname
  have htexts := texts_drawing number hd x y padding
  have hwords : (one (.diagram (.start name label :: items) true)).words =
      (Node.caption? label).toList ++ (row items).words := rfl
  rw [hlost, hwords, List.append_assoc, List.perm_append_left_iff] at htexts
  exact htexts

/-- A fragment with a label and an item shows no more than the item. -/
theorem label_lost [Scalar α] (number : α → String) (o : Options α) (x y : α)
    (padding : Padding α) :
    let top : TopLevel := .one (.diagram [.start none (some "rule"), .text "x"] true)
    top.words = ["rule", "x"] ∧ ∃ d, top.toDiagram o = .ok d ∧
      ((d.draw x y padding).toElement number).texts = ["x"] := by
  intro top
  have hshown (d : Diagram α) (hd : top.toDiagram o = .ok d) :
      ((d.draw x y padding).toElement number).texts.Perm ["x"] :=
    texts_drawing_of_replaced number (by decide) hd x y padding
  exact ⟨rfl, _, rfl, List.perm_singleton.1 (hshown _ rfl)⟩

end TopLevel
end Description
end SyntaxDiagram
