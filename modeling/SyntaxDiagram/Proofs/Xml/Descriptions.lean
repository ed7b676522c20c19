import SyntaxDiagram.Proofs.Descriptions.Legality
import SyntaxDiagram.Proofs.Xml.Diagrams

/-!
# The markup of descriptions

The texts of a description become character data, in which everything is escaped, or attribute
values, in which the character that starts a tag is not.

* `Description.texts`: the texts that are drawn, and where they end up.
* `Description.Tells`: properties of nodes that depend on those texts alone.
* `Description.forall_walk_build`: such a property holds of all nodes of a described node exactly if
  the texts of the description are right.
* `renderDescription_isDocument_iff`: which descriptions have markup that is a document.
-/

namespace SyntaxDiagram

open Text (Only)

variable {α : Type}

/-! ## Containers of lists -/

namespace Node

/-- Kinds of node with texts of their own. -/
def Kind.hasText : Kind → Bool
  | .terminal | .nonTerminal | .comment | .start => true
  | _ => false

/-- A node without texts of its own that holds some nodes. -/
structure Contains (n : Node α) (ns : List (Node α)) : Prop where
  kind : n.kind.hasText = false
  children : n.children = ns

variable {ns : List (Node α)} {n : Node α}

theorem contains_sequence (h : (pure (sequence ns) : Except Error (Node α)) = .ok n) :
    n.Contains ns := by
  cases h
  exact ⟨rfl, rfl⟩

theorem contains_stack? (h : stack? ns = .ok n) : n.Contains ns := by
  cases ns with
  | nil => cases h
  | cons first rest =>
    cases h
    exact ⟨rfl, rfl⟩

theorem contains_verticalSequence? (h : verticalSequence? ns = .ok n) : n.Contains ns := by
  cases ns with
  | nil => cases h
  | cons first rest =>
    cases h
    exact ⟨rfl, rfl⟩

theorem contains_optionalSequence? (h : optionalSequence? ns = .ok n) : n.Contains ns := by
  unfold optionalSequence? at h
  split at h
  · cases h
    exact ⟨rfl, rfl⟩
  · cases h

theorem contains_alternatingSequence? (h : alternatingSequence? ns = .ok n) : n.Contains ns := by
  unfold alternatingSequence? at h
  split at h
  · cases h
    exact ⟨rfl, rfl⟩
  · cases h

theorem contains_horizontalChoice? (h : horizontalChoice? ns = .ok n) : n.Contains ns := by
  unfold horizontalChoice? at h
  split at h
  · cases h
  · rename_i b hb
    cases h
    exact ⟨rfl, Layout.Beside.toList_of_ofList? hb⟩

theorem contains_choice? {normal : Nat} (h : choice? normal ns = .ok n) : n.Contains ns := by
  unfold choice? at h
  split at h
  · cases h
  · rename_i b hb
    cases h
    exact ⟨rfl, Layout.Branches.toList_of_ofList? hb⟩

theorem contains_multipleChoice? {kind : ChoiceKind} {normal : Nat}
    (h : multipleChoice? kind normal ns = .ok n) : n.Contains ns := by
  unfold multipleChoice? at h
  split at h
  · cases h
  · rename_i b hb
    cases h
    exact ⟨rfl, Layout.Branches.toList_of_ofList? hb⟩

end Node

/-! ## Texts of descriptions -/

/-- Where a text ends up in a document. -/
inductive Xml.Role where
  /-- between tags -/
  | content
  /-- in an attribute -/
  | value
  deriving Repr, DecidableEq

namespace Description

mutual

/-- The texts of a description that are drawn, and where they end up. Names of styles and of kinds
of choice are not drawn. -/
def texts : Description → List (Xml.Role × String)
  | text s => [(.content, s)]
  | terminal s href title | nonTerminal s href title =>
    (.content, s) :: (href.toList ++ title.toList).map (Prod.mk .value)
  | comment s href title =>
    (.content, s) :: (href.toList.map (Prod.mk .value) ++ title.toList.map (Prod.mk .content))
  | skip | finish _ => []
  | start _ label => label.toList.map (Prod.mk .content)
  | diagram items _ | sequence items | stack items | optionalSequence items
  | alternatingSequence items | verticalSequence items | horizontalChoice items
  | choice _ items | multipleChoice _ _ items => allTexts items
  | optional item _ => item.texts
  | oneOrMore item separator | zeroOrMore item separator =>
    item.texts ++ separatorTexts separator
  | group item label => item.texts ++ label.toList.map (Prod.mk .content)

/-- The texts of several descriptions. -/
def allTexts : List Description → List (Xml.Role × String)
  | [] => []
  | d :: rest => d.texts ++ allTexts rest

/-- The texts of a separator, if one is described. -/
def separatorTexts : Option Description → List (Xml.Role × String)
  | none => []
  | some d => d.texts

end

/-- A property of nodes that says no more of a described node than what its texts are like. -/
structure Tells (R : Xml.Role → String → Prop) (here : Node α → Prop) : Prop where
  empty : R .content ""
  terminal {s : String} {href title : Option String} :
    here (.terminal s (linkAttributes href title)) ↔
      R .content s ∧ (∀ t ∈ href, R .value t) ∧ ∀ t ∈ title, R .value t
  nonTerminal {s : String} {href title : Option String} :
    here (.nonTerminal s (linkAttributes href title)) ↔
      R .content s ∧ (∀ t ∈ href, R .value t) ∧ ∀ t ∈ title, R .value t
  comment {s : String} {href title : Option String} :
    here (.comment s href title) ↔
      R .content s ∧ (∀ t ∈ href, R .value t) ∧ ∀ t ∈ title, R .content t
  start {style : MarkerStyle} {label : String} : here (.start style label) ↔ R .content label
  other {n : Node α} (h : n.kind.hasText = false) : here n

namespace Tells

variable {R : Xml.Role → String → Prop} {here : Node α → Prop} (h : Tells R here)
include h

theorem contains {n : Node α} {ns : List (Node α)} (hn : n.Contains ns) :
    (∀ m ∈ n.walk, here m) ↔ ∀ c ∈ ns, ∀ m ∈ c.walk, here m := by
  rw [Node.forall_mem_walk, hn.children]
  exact and_iff_right (h.other hn.kind)

/-- A container of a list of described items has their texts. -/
theorem container {items : List Description} {make : List (Node α) → Except Error (Node α)}
    (hmake : ∀ {ns n}, make ns = .ok n → n.Contains ns)
    (hitems : ∀ ns, buildAll items = .ok ns →
      ((∀ c ∈ ns, ∀ m ∈ c.walk, here m) ↔ ∀ u ∈ allTexts items, R u.1 u.2))
    {n : Node α} (hn : (buildAll items >>= make) = .ok n) :
    (∀ m ∈ n.walk, here m) ↔ ∀ u ∈ allTexts items, R u.1 u.2 := by
  obtain ⟨ns, hns, hn⟩ := bind_eq_ok.1 hn
  exact (h.contains (hmake hn)).trans (hitems ns hns)

theorem skip : ∀ m ∈ (Node.skip : Node α).walk, here m :=
  (h.contains ⟨rfl, rfl⟩).2 nofun

theorem marker (style : MarkerStyle) (label : String) :
    (∀ m ∈ (Node.start style label : Node α).walk, here m) ↔ R .content label := by
  rw [Node.forall_mem_walk, h.start]
  exact and_iff_left nofun

theorem finish (style : MarkerStyle) : ∀ m ∈ (Node.finish style : Node α).walk, here m :=
  (h.contains ⟨rfl, rfl⟩).2 nofun

theorem loop (item separator : Node α) :
    (∀ m ∈ (Node.oneOrMore item separator).walk, here m) ↔
      (∀ m ∈ item.walk, here m) ∧ ∀ m ∈ separator.walk, here m := by
  have hcontains : (Node.oneOrMore item separator).Contains [item, separator] := ⟨rfl, rfl⟩
  rw [h.contains hcontains, List.forall_mem_cons, List.forall_mem_singleton]

/-- A label that is empty gives no caption. -/
theorem caption (label : Option String) :
    (∀ t ∈ Node.caption? label, R .content t) ↔ ∀ t ∈ label, R .content t := by
  simp only [Node.caption?, Option.mem_filter_iff]
  refine ⟨fun hall t ht => ?_, fun hall t ht => hall t ht.1⟩
  by_cases hempty : t = ""
  · exact hempty ▸ h.empty
  · exact hall t ⟨ht, by simpa using hempty⟩

theorem group (item : Node α) (label : Option String) :
    (∀ m ∈ (Node.group item label).walk, here m) ↔
      (∀ m ∈ item.walk, here m) ∧ ∀ t ∈ label, R .content t := by
  rw [Node.forall_mem_walk, and_iff_right (h.other rfl), ← h.caption label, Node.children]
  cases Node.caption? label with
  | none => simp
  | some text =>
    have hcomment : (∀ m ∈ (Node.comment text none none : Node α).walk, here m) ↔
        R .content text := by
      rw [Node.forall_mem_walk, h.comment]
      simp [Node.children]
    simp [hcomment]

end Tells

/-! ## What is said of texts -/

theorem get?_linkAttributes (href title : Option String) :
    (linkAttributes href title).get? "href" = href ∧
      (linkAttributes href title).get? "title" = title := by
  cases href <;> cases title <;> exact ⟨rfl, rfl⟩

theorem legal_linkAttributes (href title : Option String) {Q : String → Prop} :
    (linkAttributes href title).Legal Q ↔ (∀ t ∈ href, Q t) ∧ ∀ t ∈ title, Q t := by
  obtain ⟨hhref, htitle⟩ := get?_linkAttributes href title
  refine ⟨fun h => ⟨fun t ht => ?_, fun t ht => ?_⟩, fun ⟨hh, ht⟩ => ?_⟩
  · exact h.get? (hhref.trans ht)
  · exact h.get? (htitle.trans ht)
  · have hlink : (linkAttributes href none).Legal Q := by
      cases href with
      | none => exact Attributes.legal_empty
      | some href => exact Attributes.legal_empty.set (by decide) (hh href rfl)
    cases title with
    | none => exact hlink
    | some title => exact hlink.set (by decide) (ht title rfl)

theorem tells_legalHere (P : Char → Prop) :
    Tells (fun role s => match role with
      | .content => Only (Xml.isChar ·) s
      | .value => Only P s) (Node.LegalHere (α := α) P) where
  empty := Text.only_empty
  terminal := and_congr_right' (legal_linkAttributes _ _)
  nonTerminal := and_congr_right' (legal_linkAttributes _ _)
  comment := .rfl
  start := .rfl
  other {n} h := by
    cases n with
    | terminal | nonTerminal | comment | start => cases h
    | _ => trivial

theorem tells_links (Q : String → Prop) :
    Tells (fun role s => role = .value → Q s) fun m : Node α => ∀ t ∈ m.links, Q t where
  empty := nofun
  terminal {s href title} := by
    obtain ⟨hhref, htitle⟩ := get?_linkAttributes href title
    simp [Node.links, hhref, htitle, or_imp, forall_and]
  nonTerminal {s href title} := by
    obtain ⟨hhref, htitle⟩ := get?_linkAttributes href title
    simp [Node.links, hhref, htitle, or_imp, forall_and]
  comment := by simp [Node.links]
  start := by simp [Node.links]
  other {n} h := by
    cases n with
    | terminal | nonTerminal | comment | start => cases h
    | _ => nofun

/-! ## Described nodes -/

section Build

variable {R : Xml.Role → String → Prop} {here : Node α → Prop}

mutual

/-- **A node that is described has the texts of the description**, all of them and no others. -/
theorem forall_walk_build (h : Tells R here) : (d : Description) → ∀ n : Node α,
    d.build = .ok n → ((∀ m ∈ n.walk, here m) ↔ ∀ u ∈ d.texts, R u.1 u.2)
  | text s, n, hn => by
    cases hn
    have hleaf : here (.terminal s (linkAttributes none none)) ↔ R .content s := by
      rw [h.terminal]
      exact and_iff_left ⟨nofun, nofun⟩
    rw [Node.forall_mem_walk, texts, List.forall_mem_singleton, ← hleaf]
    exact and_iff_left nofun
  | diagram items complex, n, hn => by
    cases hn
  | terminal s href title, n, hn => by
    cases hn
    rw [Node.forall_mem_walk, h.terminal]
    simp [texts, Node.children, or_imp, forall_and]
  | nonTerminal s href title, n, hn => by
    cases hn
    rw [Node.forall_mem_walk, h.nonTerminal]
    simp [texts, Node.children, or_imp, forall_and]
  | comment s href title, n, hn => by
    cases hn
    rw [Node.forall_mem_walk, h.comment]
    simp [texts, Node.children, or_imp, forall_and]
  | skip, n, hn => by
    cases hn
    exact iff_of_true h.skip nofun
  | start style label, n, hn => by
    rw [build, bind_eq_ok] at hn
    obtain ⟨style, -, ⟨⟩⟩ := hn
    have hlabel : R .content (label.getD "") ↔ ∀ t ∈ label, R .content t := by
      cases label <;> simp [h.empty]
    rw [h.marker, hlabel]
    simp [texts]
  | finish style, n, hn => by
    rw [build, bind_eq_ok] at hn
    obtain ⟨style, -, ⟨⟩⟩ := hn
    exact iff_of_true (h.finish style) nofun
  | sequence items, n, hn => by
    rw [build] at hn
    exact h.container Node.contains_sequence (forall_walk_buildAll h items) hn
  | stack items, n, hn => by
    rw [build] at hn
    exact h.container Node.contains_stack? (forall_walk_buildAll h items) hn
  | optionalSequence items, n, hn => by
    rw [build] at hn
    exact h.container Node.contains_optionalSequence? (forall_walk_buildAll h items) hn
  | alternatingSequence items, n, hn => by
    rw [build] at hn
    exact h.container Node.contains_alternatingSequence? (forall_walk_buildAll h items) hn
  | verticalSequence items, n, hn => by
    rw [build] at hn
    exact h.container Node.contains_verticalSequence? (forall_walk_buildAll h items) hn
  | horizontalChoice items, n, hn => by
    rw [build] at hn
    exact h.container Node.contains_horizontalChoice? (forall_walk_buildAll h items) hn
  | choice normal items, n, hn => by
    rw [build, bind_eq_ok] at hn
    obtain ⟨normal, -, hn⟩ := hn
    exact h.container Node.contains_choice? (forall_walk_buildAll h items) hn
  | multipleChoice normal kind items, n, hn => by
    rw [build, bind_eq_ok] at hn
    obtain ⟨normal, -, hn⟩ := hn
    rw [bind_eq_ok] at hn
    obtain ⟨kind, -, hn⟩ := hn
    exact h.container Node.contains_multipleChoice? (forall_walk_buildAll h items) hn
  | optional item bypass, n, hn => by
    rw [build, bind_eq_ok] at hn
    obtain ⟨n, hitem, ⟨⟩⟩ := hn
    have hcontains : (Node.optional n bypass).Contains [.skip, n] := ⟨rfl, rfl⟩
    rw [h.contains hcontains, List.forall_mem_cons, List.forall_mem_singleton,
      and_iff_right h.skip, texts, forall_walk_build h item n hitem]
  | oneOrMore item separator, n, hn => by
    rw [build, bind_eq_ok] at hn
    obtain ⟨n, hitem, hn⟩ := hn
    rw [bind_eq_ok] at hn
    obtain ⟨m, hseparator, ⟨⟩⟩ := hn
    rw [h.loop, texts, List.forall_mem_append, forall_walk_build h item n hitem,
      forall_walk_buildSeparator h separator m hseparator]
  | zeroOrMore item separator, n, hn => by
    rw [build, bind_eq_ok] at hn
    obtain ⟨n, hitem, hn⟩ := hn
    rw [bind_eq_ok] at hn
    obtain ⟨m, hseparator, ⟨⟩⟩ := hn
    have hcontains : (Node.zeroOrMore n m).Contains [.skip, .oneOrMore n m] := ⟨rfl, rfl⟩
    rw [h.contains hcontains, List.forall_mem_cons, List.forall_mem_singleton,
      and_iff_right h.skip, h.loop, texts, List.forall_mem_append,
      forall_walk_build h item n hitem, forall_walk_buildSeparator h separator m hseparator]
  | group item label, n, hn => by
    rw [build, bind_eq_ok] at hn
    obtain ⟨n, hitem, ⟨⟩⟩ := hn
    rw [h.group, texts, List.forall_mem_append, forall_walk_build h item n hitem]
    simp

theorem forall_walk_buildAll (h : Tells R here) : (ds : List Description) →
    ∀ ns : List (Node α), buildAll ds = .ok ns →
      ((∀ n ∈ ns, ∀ m ∈ n.walk, here m) ↔ ∀ u ∈ allTexts ds, R u.1 u.2)
  | [], ns, hns => by
    cases hns
    exact iff_of_true nofun nofun
  | d :: rest, ns, hns => by
    rw [buildAll, bind_eq_ok] at hns
    obtain ⟨n, hn, hns⟩ := hns
    rw [bind_eq_ok] at hns
    obtain ⟨others, hothers, ⟨⟩⟩ := hns
    rw [List.forall_mem_cons, allTexts, List.forall_mem_append, forall_walk_build h d n hn,
      forall_walk_buildAll h rest others hothers]

theorem forall_walk_buildSeparator (h : Tells R here) : (d : Option Description) →
    ∀ n : Node α, buildSeparator d = .ok n →
      ((∀ m ∈ n.walk, here m) ↔ ∀ u ∈ separatorTexts d, R u.1 u.2)
  | none, n, hn => by
    cases hn
    exact iff_of_true h.skip nofun
  | some d, n, hn => forall_walk_build h d n hn

end

end Build

end Description

/-! ## Described diagrams -/

namespace Diagram

variable {q : Node α → Prop} {items : List (Node α)}

/-- Markers are added to what a diagram is made of. -/
theorem forall_simple (hstart : ∀ style, q (.start style "")) (hfinish : ∀ style, q (.finish style))
    (o : Options α) : (∀ n ∈ (simple o items).items, q n) ↔ ∀ n ∈ items, q n := by
  have hwith : (∀ n ∈ withStart items, q n) ↔ ∀ n ∈ items, q n := by
    unfold withStart
    split
    · exact .rfl
    · rw [List.forall_mem_cons, and_iff_right (hstart _)]
  rw [simple, ← hwith, withFinish]
  split
  · exact .rfl
  · rw [List.forall_mem_append, List.forall_mem_singleton, and_iff_left (hfinish _)]

theorem forall_withFragmentFinish (hfinish : ∀ style, q (.finish style)) :
    (∀ n ∈ withFragmentFinish items, q n) ↔ ∀ n ∈ items, q n := by
  unfold withFragmentFinish
  split
  · exact .rfl
  · rename_i hlast
    rw [← List.dropLast_append_getLast? _ hlast]
    simp only [List.dropLast_concat, List.forall_mem_append, List.forall_mem_singleton, hfinish]
  · rw [List.forall_mem_append, List.forall_mem_singleton, and_iff_left (hfinish _)]

/-- The marker of a fragment may take the place of another one. -/
theorem forall_fragment (hstart : ∀ style, q (.start style ""))
    (hfinish : ∀ style, q (.finish style)) (o : Options α) (h : ∀ n ∈ items, q n) :
    ∀ n ∈ (fragment o items).items, q n := by
  refine (forall_withFragmentFinish hfinish).2 ?_
  unfold withFragmentStart
  split
  · exact h
  · exact List.forall_mem_cons.2 ⟨hstart _, (List.forall_mem_cons.1 h).2⟩
  · exact List.forall_mem_cons.2 ⟨hstart _, h⟩

/-- If markers do not matter, it is of no account that one is replaced. -/
theorem forall_of_fragment (hstart : ∀ style label, q (.start style label))
    (hfinish : ∀ style, q (.finish style)) (o : Options α)
    (h : ∀ n ∈ (fragment o items).items, q n) : ∀ n ∈ items, q n := by
  have hwith := (forall_withFragmentFinish hfinish).1 h
  unfold withFragmentStart at hwith
  split at hwith
  · exact hwith
  · exact List.forall_mem_cons.2 ⟨hstart _ _, (List.forall_mem_cons.1 hwith).2⟩
  · exact (List.forall_mem_cons.1 hwith).2

end Diagram

namespace Description

variable {R : Xml.Role → String → Prop} {here : Node α → Prop} {o : Options α}

/-- The texts of a whole text. -/
def TopLevel.texts : TopLevel → List (Xml.Role × String)
  | row items => allTexts items
  | one d => d.texts

namespace TopLevel

variable {top : TopLevel} {d : Diagram α}

theorem allTexts_items (top : TopLevel) : allTexts top.items = top.texts := by
  cases top with
  | row items => rfl
  | one d =>
    cases d with
    | diagram items complex => rfl
    | _ => exact List.append_nil _

/-- A diagram that is described is made of the nodes that are described. -/
theorem exists_nodes (h : Tells R here) (hd : top.toDiagram o = .ok d) :
    ∃ ns, (d = .simple o ns ∨ d = .fragment o ns) ∧
      ((∀ n ∈ ns, ∀ m ∈ n.walk, here m) ↔ ∀ u ∈ top.texts, R u.1 u.2) := by
  obtain ⟨ns, hns, hdiagram⟩ := exists_buildAll_eq hd
  refine ⟨ns, ?_, ?_⟩
  · split at hdiagram
    · exact .inr hdiagram
    · exact .inl hdiagram
  · rw [← top.allTexts_items]
    exact forall_walk_buildAll h top.items ns hns

theorem options_eq (hd : top.toDiagram o = .ok d) : d.options = o := by
  obtain ⟨ns, rfl | rfl, -⟩ := exists_nodes (tells_links fun _ => True) hd
  · rfl
  · rfl

theorem forall_walk_items (h : Tells R here) (hd : top.toDiagram o = .ok d)
    (htexts : ∀ u ∈ top.texts, R u.1 u.2) : ∀ n ∈ d.items, ∀ m ∈ n.walk, here m := by
  have hstart (style : MarkerStyle) : ∀ m ∈ (Node.start style "" : Node α).walk, here m :=
    (h.marker style "").2 h.empty
  obtain ⟨ns, rfl | rfl, hns⟩ := exists_nodes h hd
  · exact (Diagram.forall_simple hstart h.finish o).2 (hns.2 htexts)
  · exact Diagram.forall_fragment hstart h.finish o (hns.2 htexts)

/-- Where nothing is said of labels, it is of no account that a fragment may lose one. -/
theorem forall_texts (h : Tells R here) (hcontent : ∀ s, R .content s)
    (hd : top.toDiagram o = .ok d) (hitems : ∀ n ∈ d.items, ∀ m ∈ n.walk, here m) :
    ∀ u ∈ top.texts, R u.1 u.2 := by
  have hstart (style : MarkerStyle) (label : String) :
      ∀ m ∈ (Node.start style label : Node α).walk, here m := (h.marker style label).2 (hcontent _)
  obtain ⟨ns, rfl | rfl, hns⟩ := exists_nodes h hd
  · exact hns.1 ((Diagram.forall_simple (hstart · "") h.finish o).1 hitems)
  · exact hns.1 (Diagram.forall_of_fragment hstart h.finish o hitems)

end TopLevel

end Description

/-- **Which descriptions render to well-formed XML**: those in which no link target, and no tooltip
of boxed text, has the character that starts a tag. The texts are taken to have only characters that
a document may contain, and so are the stylesheet and the class of the drawing. -/
theorem renderDescription_isDocument_iff {config : Config} {text svg : String}
    {top : Description.TopLevel} (hread : Description.TopLevel.read text = .ok top)
    (htexts : ∀ u ∈ top.texts, Only (Xml.isChar ·) u.2)
    (hclass : Only Xml.IsValueChar config.options.diagramClass)
    (hstyle : ∀ css ∈ config.render.style, Only (Xml.isChar ·) css)
    (h : renderDescription config text = .ok svg) :
    Xml.IsDocument "svg" svg ↔ ∀ u ∈ top.texts, u.1 = .value → '<' ∉ u.2.toList := by
  obtain ⟨d, hd, ⟨⟩⟩ := bind_eq_ok.1 h
  rw [Description.readDiagram, hread] at hd
  have hd' : top.toDiagram config.options = .ok d := hd
  have hoptions := Description.TopLevel.options_eq hd'
  constructor
  · intro hdocument
    have hitems := Description.TopLevel.forall_walk_items
      (Description.tells_legalHere (Xml.isChar ·)) hd' fun u hu => by
        split <;> exact htexts u hu
    have hlegal : d.Legal (Xml.isChar ·) := ⟨hoptions ▸ hclass.imp fun _ hc => hc.1, hitems⟩
    have hlinks := Diagram.only_links_of_isDocument hlegal hstyle hdocument
    have htold := Description.TopLevel.forall_texts (Description.tells_links _) (fun _ => nofun) hd'
      hlinks
    exact fun u hu hvalue hmem => (htold u hu hvalue '<' hmem).2 rfl
  · intro hvalues
    have hitems := Description.TopLevel.forall_walk_items
      (Description.tells_legalHere Xml.IsValueChar) hd' fun u hu => by
        split
        · exact htexts u hu
        · rename_i hvalue
          exact fun c hc => ⟨htexts u hu c hc, fun heq => hvalues u hu hvalue (heq ▸ hc)⟩
    exact Diagram.isDocument_render ⟨hoptions ▸ hclass, hitems⟩ hstyle

/-- A terminal whose link target starts a tag is accepted, but its markup is not a document. -/
theorem renderDescription_not_isDocument :
    ∃ svg, renderDescription {} "\x7b\"type\":\"terminal\",\"text\":\"a\",\"href\":\"<\"\x7d" =
      .ok svg ∧ ¬ Xml.IsDocument "svg" svg := by
  generalize htext : "\x7b\"type\":\"terminal\",\"text\":\"a\",\"href\":\"<\"\x7d" = text
  have hread : ∃ top, Description.TopLevel.read text = .ok top ∧
      top.texts = [(.content, "a"), (.value, "<")] := by
    have hmap : (Description.TopLevel.read text).toOption.map Description.TopLevel.texts =
        some [(.content, "a"), (.value, "<")] := by
      subst htext
      decide +kernel
    cases hread : Description.TopLevel.read text with
    | error e =>
      rw [hread] at hmap
      cases hmap
    | ok top =>
      rw [hread] at hmap
      exact ⟨top, rfl, Option.some.inj hmap⟩
  have hok : (renderDescription {} text).isOk := by
    subst htext
    decide +kernel
  obtain ⟨top, hread, htexts⟩ := hread
  cases hrender : renderDescription {} text with
  | error e =>
    rw [hrender] at hok
    cases hok
  | ok svg =>
    refine ⟨svg, rfl, fun hdocument => ?_⟩
    have hchars : ∀ u ∈ top.texts, Only (Xml.isChar ·) u.2 := by
      rw [htexts]
      simp only [List.forall_mem_cons]
      exact ⟨Text.only_of_all (by decide), Text.only_of_all (by decide), nofun⟩
    have hstyle : ∀ css ∈ ({} : Config).render.style, Only (Xml.isChar ·) css := by
      rintro css ⟨⟩
    have hvalues := (renderDescription_isDocument_iff hread hchars
      (Xml.suits_isValueChar.only_of_all (by decide)) hstyle hrender).1 hdocument
    rw [htexts] at hvalues
    exact hvalues (.value, "<") (by decide) rfl (by decide)

end SyntaxDiagram
