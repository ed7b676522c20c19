import SyntaxDiagram.Proofs.Descriptions.Building
import SyntaxDiagram.Proofs.Layout.Boxes

/-!
# Described diagrams

A diagram is a row of described nodes between two markers. A marker that is missing is added, and in
a fragment a marker that is there may get another style; nothing else comes to what is described.

* `Diagram.Marked`: nodes and the same nodes with markers around them.
* `Description.TopLevel.Shown`: the walk of a diagram is that of what is described, between markers.
* `Description.TopLevel.toDiagram_exactly_legal`: which texts describe a diagram, and what is in it.
-/

namespace SyntaxDiagram

variable {α : Type}

/-- Lists that are related to one list item by item are related to each other. -/
theorem forall₂_comp {β γ δ : Type} {R : β → γ → Prop} {S : γ → δ → Prop} {T : β → δ → Prop}
    {as : List β} {bs : List γ} {cs : List δ} (hab : List.Forall₂ R as bs)
    (hbc : List.Forall₂ S bs cs) (h : ∀ a b c, R a b → S b c → T a c) : List.Forall₂ T as cs := by
  induction hab generalizing cs with
  | nil =>
    cases hbc
    exact .nil
  | cons hab _ ih =>
    cases hbc with
    | cons hbc hrest => exact .cons (h _ _ _ hab hbc) (ih hrest)

/-! ## Markers -/

namespace Node

/-- The same node, or the same marker in another style. -/
def Restyled (n n' : Node α) : Prop :=
  n' = n ∨ (n.kind = .start ∨ n.kind = .finish) ∧ n'.kind = n.kind

theorem Restyled.refl (n : Node α) : n.Restyled n := .inl rfl

theorem Restyled.kind {n n' : Node α} (h : n.Restyled n') : n'.kind = n.kind := by
  rcases h with rfl | ⟨-, hkind⟩
  · rfl
  · exact hkind

theorem Restyled.trans {a b c : Node α} (hab : a.Restyled b) (hbc : b.Restyled c) :
    a.Restyled c := by
  rcases hbc with rfl | ⟨hmarker, hkind⟩
  · exact hab
  · rw [hab.kind] at hmarker hkind
    exact .inr ⟨hmarker, hkind⟩

theorem kind_eq_start {n : Node α} (h : n.kind = .start) :
    ∃ style label, n = .start style label := by
  cases n with
  | start style label => exact ⟨style, label, rfl⟩
  | _ => cases h

theorem kind_eq_finish {n : Node α} (h : n.kind = .finish) : ∃ style, n = .finish style := by
  cases n with
  | finish style => exact ⟨style, rfl⟩
  | _ => cases h

theorem walk_marker {n : Node α} (h : n.kind = .start ∨ n.kind = .finish) : n.walk = [n] := by
  rw [walk_eq]
  rcases h with h | h
  · obtain ⟨style, label, rfl⟩ := kind_eq_start h
    rfl
  · obtain ⟨style, rfl⟩ := kind_eq_finish h
    rfl

end Node

namespace Diagram

open Node (Restyled)

/-- The marker that is missing in front of nodes of some kinds. -/
def missingStart (kinds : List Node.Kind) : List Node.Kind :=
  if kinds.head? = some .start then [] else [.start]

/-- The marker that is missing behind nodes of some kinds. -/
def missingFinish (kinds : List Node.Kind) : List Node.Kind :=
  if kinds.getLast? = some .finish then [] else [.finish]

/-- A marker in front is none behind. -/
theorem missingFinish_append (kinds : List Node.Kind) :
    missingFinish (missingStart kinds ++ kinds) = missingFinish kinds := by
  rw [missingStart]
  split_ifs
  · rfl
  · cases kinds with
    | nil => rfl
    | cons kind rest => rw [List.singleton_append, missingFinish, List.getLast?_cons_cons]; rfl

theorem restyled_refl (ns : List (Node α)) : List.Forall₂ Restyled ns ns :=
  List.forall₂_same.2 fun n _ => .refl n

theorem map_kind_of_restyled {ns ns' : List (Node α)} (h : List.Forall₂ Restyled ns ns') :
    ns'.map Node.kind = ns.map Node.kind := by
  induction h with
  | nil => rfl
  | cons hn _ ih => rw [List.map_cons, List.map_cons, hn.kind, ih]

/-- The marker in front is there, and otherwise no more than a style has changed. -/
def MarkedFront (ns marked : List (Node α)) : Prop :=
  ∃ front ns', marked = front ++ ns' ∧ List.Forall₂ Restyled ns ns' ∧
    front.map Node.kind = missingStart (ns.map Node.kind)

/-- The marker behind is there, and otherwise no more than a style has changed. -/
def MarkedBack (ns marked : List (Node α)) : Prop :=
  ∃ ns' back, marked = ns' ++ back ∧ List.Forall₂ Restyled ns ns' ∧
    back.map Node.kind = missingFinish (ns.map Node.kind)

theorem missingStart_of_ne {ns : List (Node α)}
    (h : ∀ style label rest, ns ≠ .start style label :: rest) :
    missingStart (ns.map Node.kind) = [.start] := by
  rw [missingStart, if_neg]
  cases ns with
  | nil => exact nofun
  | cons n rest =>
    intro hhead
    obtain ⟨style, label, rfl⟩ := Node.kind_eq_start (Option.some.inj hhead)
    exact h style label rest rfl

theorem markedFront_withStart (ns : List (Node α)) : MarkedFront ns (withStart ns) := by
  unfold withStart
  split
  · exact ⟨[], _, rfl, restyled_refl _, rfl⟩
  · rename_i hne
    exact ⟨[.start .simple ""], ns, rfl, restyled_refl ns, (missingStart_of_ne hne).symm⟩

theorem markedFront_withFragmentStart (ns : List (Node α)) :
    MarkedFront ns (withFragmentStart ns) := by
  unfold withFragmentStart
  split
  · exact ⟨[], _, rfl, restyled_refl _, rfl⟩
  · exact ⟨[], _, rfl, .cons (.inr ⟨.inl rfl, rfl⟩) (restyled_refl _), rfl⟩
  · rename_i hcomplex hsimple
    have hne (style : MarkerStyle) (label : String) (rest : List (Node α)) :
        ns ≠ .start style label :: rest := by
      cases style with
      | simple => exact hsimple label rest
      | complex => exact hcomplex label rest
    exact ⟨[.start .complex ""], ns, rfl, restyled_refl ns, (missingStart_of_ne hne).symm⟩

theorem missingFinish_of_ne {ns : List (Node α)}
    (h : ∀ style, ns.getLast? ≠ some (.finish style)) :
    missingFinish (ns.map Node.kind) = [.finish] := by
  rw [missingFinish, if_neg]
  rw [List.getLast?_map, Option.map_eq_some_iff]
  rintro ⟨n, hlast, hkind⟩
  obtain ⟨style, rfl⟩ := Node.kind_eq_finish hkind
  exact h style hlast

theorem missingFinish_of_eq {ns : List (Node α)} {style : MarkerStyle}
    (h : ns.getLast? = some (.finish style)) : missingFinish (ns.map Node.kind) = [] := by
  rw [missingFinish, List.getLast?_map, h]
  rfl

theorem markedBack_withFinish (ns : List (Node α)) : MarkedBack ns (withFinish ns) := by
  unfold withFinish
  split
  · rename_i hlast
    exact ⟨ns, [], (List.append_nil ns).symm, restyled_refl ns, (missingFinish_of_eq hlast).symm⟩
  · rename_i hne
    exact ⟨ns, [.finish .simple], rfl, restyled_refl ns, (missingFinish_of_ne hne).symm⟩

theorem markedBack_withFragmentFinish (ns : List (Node α)) :
    MarkedBack ns (withFragmentFinish ns) := by
  unfold withFragmentFinish
  split
  · rename_i hlast
    exact ⟨ns, [], (List.append_nil ns).symm, restyled_refl ns, (missingFinish_of_eq hlast).symm⟩
  · rename_i hlast
    refine ⟨_, [], (List.append_nil _).symm, ?_, (missingFinish_of_eq hlast).symm⟩
    have hrestyled : List.Forall₂ Restyled [Node.finish (α := α) .simple] [.finish .complex] :=
      .cons (.inr ⟨.inr rfl, rfl⟩) .nil
    have hsplit := List.dropLast_append_getLast? _ hlast
    rw [← hsplit, List.dropLast_concat]
    exact List.rel_append (restyled_refl _) hrestyled
  · rename_i hcomplex hsimple
    have hne (style : MarkerStyle) : ns.getLast? ≠ some (.finish style) := by
      cases style with
      | simple => exact hsimple
      | complex => exact hcomplex
    exact ⟨ns, [.finish .complex], rfl, restyled_refl ns, (missingFinish_of_ne hne).symm⟩

/-- Nodes are marked at both ends, and otherwise no more than a style has changed. -/
def Marked (ns items : List (Node α)) : Prop :=
  ∃ front ns' back, items = front ++ ns' ++ back ∧ List.Forall₂ Restyled ns ns' ∧
    front.map Node.kind = missingStart (ns.map Node.kind) ∧
    back.map Node.kind = missingFinish (ns.map Node.kind)

/-- A diagram is marked in front first, and what comes of that is marked behind. -/
theorem marked_of {ns marked items : List (Node α)} (hfront : MarkedFront ns marked)
    (hback : MarkedBack marked items) : Marked ns items := by
  obtain ⟨front, ns', rfl, hns', hstart⟩ := hfront
  obtain ⟨marked', back, rfl, hmarked', hfinish⟩ := hback
  have hfront : List.Forall₂ Restyled front (marked'.take front.length) :=
    (List.forall₂_take_append marked' front ns' hmarked'.flip).flip
  have hrest : List.Forall₂ Restyled ns' (marked'.drop front.length) :=
    (List.forall₂_drop_append marked' front ns' hmarked'.flip).flip
  have htrans : List.Forall₂ Restyled ns (marked'.drop front.length) :=
    forall₂_comp hns' hrest fun _ _ _ => Restyled.trans
  refine ⟨marked'.take front.length, _, back, ?_, htrans, ?_, ?_⟩
  · rw [List.take_append_drop]
  · rw [map_kind_of_restyled hfront, hstart]
  · rw [hfinish, List.map_append, hstart, map_kind_of_restyled hns', missingFinish_append]

theorem marked_simple (o : Options α) (ns : List (Node α)) : Marked ns (simple o ns).items :=
  marked_of (markedFront_withStart ns) (markedBack_withFinish _)

theorem marked_fragment (o : Options α) (ns : List (Node α)) : Marked ns (fragment o ns).items :=
  marked_of (markedFront_withFragmentStart ns) (markedBack_withFragmentFinish _)

end Diagram

/-! ## Whole texts -/

namespace Description

open Diagram (Marked missingStart missingFinish marked_simple marked_fragment)

/-- A marker in another style still shows what it was there for. -/
theorem Built.restyled {d : Description} {n n' : Node α} (h : d.Built n) (hn' : n.Restyled n') :
    d.Built n' := by
  rcases hn' with rfl | ⟨hmarker, hkind⟩
  · exact h
  · rw [Built, Node.walk_marker hmarker, trace, List.forall₂_cons] at h
    obtain ⟨⟨hd, htext⟩, hinner⟩ := h
    rw [Built, Node.walk_marker (hkind ▸ hmarker), trace]
    refine .cons ⟨hkind ▸ hd, ?_⟩ hinner
    rintro s rfl
    -- bare text is no marker
    rw [htext s rfl] at hmarker
    rcases hmarker with h | h <;> cases h

namespace TopLevel

/-- A diagram shows what a text describes: its walk is that of what is described, between the
markers that are missing there. -/
def Shown (top : TopLevel) (d : Diagram α) : Prop :=
  ∃ front middle back, d.walk = front ++ middle ++ back ∧
    front.map Node.kind = missingStart (top.items.filterMap kind?) ∧
    back.map Node.kind = missingFinish (top.items.filterMap kind?) ∧
    List.Forall₂ Origin.Shows (top.items.flatMap trace) middle

theorem flatMap_walk_markers {ns : List (Node α)}
    (h : ∀ kind ∈ ns.map Node.kind, kind = .start ∨ kind = .finish) :
    ns.flatMap Node.walk = ns := by
  rw [List.forall_mem_map] at h
  rw [List.flatMap_congr fun n hn => Node.walk_marker (h n hn), List.flatMap_singleton']

theorem filterMap_kind? {ds : List Description} {ns : List (Node α)}
    (h : List.Forall₂ Built ds ns) : ds.filterMap kind? = ns.map Node.kind := by
  induction h with
  | nil => rfl
  | cons hn _ ih => rw [List.filterMap_cons_some (kind?_of_built hn), ih, List.map_cons]

theorem shown_of_marked {top : TopLevel} {ns : List (Node α)} {d : Diagram α}
    (h : List.Forall₂ Built top.items ns) (hd : Marked ns d.items) : top.Shown d := by
  obtain ⟨front, ns', back, hitems, hns', hfront, hback⟩ := hd
  have hbuilt : List.Forall₂ Built top.items ns' :=
    forall₂_comp h hns' fun _ _ _ => Built.restyled
  have hstart : front.flatMap Node.walk = front := by
    apply flatMap_walk_markers
    rw [hfront, missingStart]
    split_ifs <;> simp
  have hfinish : back.flatMap Node.walk = back := by
    apply flatMap_walk_markers
    rw [hback, missingFinish]
    split_ifs <;> simp
  rw [← filterMap_kind? h] at hfront hback
  refine ⟨front, ns'.flatMap Node.walk, back, ?_, hfront, hback, shows_flatMap hbuilt⟩
  rw [Diagram.walk_eq, hitems, List.flatMap_append, List.flatMap_append, hstart, hfinish]

theorem buildItems_decides (ds : List Description) :
    Decides (∀ d ∈ ds, d.Legal) (List.Forall₂ Built ds) (buildAll (α := α) ds) :=
  buildAll_decides fun d _ => build_decides d

/-- A row of nodes that is put between markers. -/
theorem decides_marked {top : TopLevel} (mark : List (Node α) → Diagram α)
    (hmark : ∀ ns, Marked ns (mark ns).items) :
    Decides top.Legal top.Shown (buildAll top.items >>= fun ns => pure (mark ns)) := by
  have hrow : Decides ((∀ d ∈ top.items, d.Legal) ∧ True) top.Shown
      (buildAll top.items >>= fun ns => pure (mark ns)) :=
    (buildItems_decides top.items).bind fun ns hns => .pure (shown_of_marked hns (hmark ns))
  apply hrow.congr
  rw [legal_iff, and_true]

/-- A single node that is put between markers. -/
theorem decides_single (o : Options α) {d : Description} (hd : (one d).items = [d]) :
    Decides (one d).Legal (one d).Shown (build d >>= fun n => pure (.simple o [n])) := by
  have hnode : Decides (d.Legal ∧ True) (one d).Shown
      (build d >>= fun n => pure (.simple o [n])) :=
    (build_decides d).bind fun n hn =>
      .pure (shown_of_marked (hd ▸ .cons hn .nil) (marked_simple o [n]))
  apply hnode.congr
  rw [legal_iff, hd, List.forall_mem_singleton, and_true]

theorem toDiagram_decides (o : Options α) (top : TopLevel) :
    Decides top.Legal top.Shown (top.toDiagram o) := by
  rcases top with items | d
  · exact decides_marked (.simple o) (marked_simple o)
  · cases d with
    | diagram items complex =>
      cases complex with
      | true => exact decides_marked (.fragment o) (marked_fragment o)
      | false => exact decides_marked (.simple o) (marked_simple o)
    | _ => exact decides_single o rfl

/-- **A text describes a diagram exactly if what it describes is legal**: there is no diagram below
the top, and all nodes meet their rules. The diagram then has a node for each node that is
described, in the same order, and what else is in it is accounted for. -/
theorem toDiagram_exactly_legal (o : Options α) (top : TopLevel) :
    ((∃ d, top.toDiagram o = .ok d) ↔ top.Legal) ∧
      (top.items.flatMap trace).filterMap Origin.described? = top.items.flatMap nodes ∧
      ∀ d, top.toDiagram o = .ok d → top.Shown d := by
  have hdecides := toDiagram_decides o top
  refine ⟨hdecides.exists_ok_iff, ?_, fun d hd => hdecides.of_ok hd⟩
  rw [List.filterMap_flatMap]
  exact List.flatMap_congr fun d _ => filterMap_trace d

/-- A fragment with a marker of its own, a loop and a group. The label of the group is the comment
behind what is in it. -/
theorem toDiagram_exactly_legal_fragment :
    let top : TopLevel := .one (.diagram
      [.start none none, .zeroOrMore (.text "a") none, .group (.text "b") (some "c")] true)
    ∃ d, top.toDiagram Options.exact = .ok d ∧ top.Shown d ∧
      d.walk = [.start .complex "", .zeroOrMore (.terminal "a" ∅) .skip, .skip,
        .oneOrMore (.terminal "a" ∅) .skip, .terminal "a" ∅, .skip,
        .group (.terminal "b" ∅) (some "c"), .terminal "b" ∅, .comment "c" none none,
        .finish .complex] := by
  refine ⟨_, rfl, (toDiagram_exactly_legal Options.exact _).2.2 _ rfl, ?_⟩
  have hcaption : Node.caption? (some "c") = some "c" := rfl
  rw [Diagram.walk_eq]
  simp [Diagram.fragment, Diagram.withFragmentStart, Diagram.withFragmentFinish, Node.walk_eq,
    Node.children, hcaption, Node.ofText]

/-- A group whose label is empty has no comment in it. -/
theorem no_comment_of_empty_label :
    ∃ d, (TopLevel.one (.group (.text "a") (some ""))).toDiagram Options.exact = .ok d ∧
      d.walk.map Node.kind = [.start, .group, .terminal, .finish] := by
  refine ⟨_, rfl, ?_⟩
  have hcaption : Node.caption? (some "") = none := rfl
  rw [Diagram.walk_eq]
  simp [Diagram.simple, Diagram.withStart, Diagram.withFinish, Node.walk_eq, Node.children,
    hcaption, Node.kind, Node.ofText]

end TopLevel
end Description
end SyntaxDiagram
