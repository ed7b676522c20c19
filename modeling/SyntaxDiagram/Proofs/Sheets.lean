import SyntaxDiagram.Proofs.Xml.Diagrams

/-!
# A diagram is drawn once

The first call that draws settles what is drawn on a sheet, and every later call is answered from
that drawing.

* `Sheet.calls`: calls one after another.
* `Sheet.Call.drawing?`, `Sheet.Call.answer`: what a call draws where there is no drawing yet, and
  its answer where there is one.
* `Sheet.call_of_drawn`, `Sheet.call_of_blank`: one call on a sheet with a drawing, and without.
* `Sheet.calls_of_drawn`, `Sheet.calls_of_blank`: whole runs.
* `Sheet.standalone_picture`: the markup of a file of its own, next to that of the bare drawing.
* `Sheet.drawn_once`: all of this for any calls on any diagram.
* `Sheet.call_of_failed`: a call that fails leaves the sheet as it was, with one exception. A
  request for a live document draws before it can fail, and `Sheet.format_after_failed_dom` shows
  the difference.
-/

namespace SyntaxDiagram

/-! ## More attributes -/

namespace Attributes

theorem text_concat {entries : List (String × String)} (h : entries ≠ []) (e : String × String) :
    text ⟨entries ++ [e]⟩ = text ⟨entries⟩ ++ (" " ++ entryText e) := by
  obtain ⟨first, rest, rfl⟩ := List.exists_cons_of_ne_nil h
  clear h
  induction rest generalizing first with
  | nil => exact (String.intercalate_cons_cons ..).trans (String.append_assoc ..)
  | cons second rest ih =>
    have hrest := ih second
    simp only [text, List.cons_append, List.map_cons, String.intercalate_cons_cons] at hrest ⊢
    rw [hrest]
    simp only [String.append_assoc]

theorem text_set_of_notMem {a : Attributes String} {name : String} (hentries : a.entries ≠ [])
    (h : name ∉ a.names) (value : String) :
    (a.set name value).text = a.text ++ (" " ++ entryText (name, value)) := by
  rw [set_of_notMem h, text_concat hentries]

/-- The namespaces stand behind all other attributes. -/
theorem text_set_namespaces {a : Attributes String} (hentries : a.entries ≠ [])
    (hsvg : "xmlns" ∉ a.names) (hxlink : "xmlns:xlink" ∉ a.names) :
    ((a.set "xmlns" svgNamespace).set "xmlns:xlink" xlinkNamespace).text =
      a.text ++ " xmlns=\"http://www.w3.org/2000/svg\"" ++
        " xmlns:xlink=\"http://www.w3.org/1999/xlink\"" := by
  have hset := set_of_notMem hsvg svgNamespace
  have hentries' : (a.set "xmlns" svgNamespace).entries ≠ [] := by
    rw [hset]
    exact List.append_ne_nil_of_left_ne_nil hentries _
  have hxlink' : "xmlns:xlink" ∉ (a.set "xmlns" svgNamespace).names := by
    rw [hset, names, List.map_append, List.mem_append, not_or]
    exact ⟨hxlink, by decide⟩
  have hfirst : " " ++ entryText ("xmlns", svgNamespace) =
      " xmlns=\"http://www.w3.org/2000/svg\"" := by decide
  have hsecond : " " ++ entryText ("xmlns:xlink", xlinkNamespace) =
      " xmlns:xlink=\"http://www.w3.org/1999/xlink\"" := by decide
  rw [text_set_of_notMem hentries' hxlink', text_set_of_notMem hentries hsvg, hfirst, hsecond]

end Attributes

/-- A sheet on which nothing is drawn yet. -/
def Diagram.sheet (d : Diagram Float) : Sheet := { diagram := d }

namespace Sheet

/-! ## Markup -/

theorem opening_svg {a : Attributes String} (h : a.entries ≠ []) :
    Element.opening "svg" a = "<svg " ++ a.text ++ ">\n" := by
  have hempty : a.isEmpty = false := List.isEmpty_eq_false_iff.2 h
  have hfront : "<svg " = "<" ++ "svg" ++ " " := by decide
  have hback : ">\n" = ">" ++ "\n" := by decide
  rw [Element.opening, hempty, if_neg Bool.false_ne_true, if_pos (by decide), hfront, hback]
  simp only [String.append_assoc]

theorem render_svg {a : Attributes String} (h : a.entries ≠ []) (first : Element)
    (rest : List Element) :
    (Element.parent "svg" a first rest).render =
      "<svg " ++ a.text ++ ">\n" ++ Element.renderAll (first :: rest) ++ "</svg>\n" := by
  rw [Element.render_parent, opening_svg h, Element.renderAll_cons]
  rfl

section Pictures

variable (d : Diagram Float) (x y : Float) (padding : Padding Float)

/-- The root of a picture holds one group, and none of its attributes is a namespace. -/
theorem exists_picture_eq : ∃ width height box group, picture d x y padding =
    .parent "svg" ⟨[("class", d.options.diagramClass), ("width", width), ("height", height),
      ("viewBox", box)]⟩ group [] :=
  ⟨_, _, _, _, rfl⟩

theorem render_picture : (picture d x y padding).render =
    "<svg " ++ (picture d x y padding).attributes.text ++ ">\n" ++
      Element.renderAll (picture d x y padding).children ++ "</svg>\n" := by
  obtain ⟨width, height, box, group, hpicture⟩ := exists_picture_eq d x y padding
  rw [hpicture]
  exact render_svg (List.cons_ne_nil _ _) group []

/-- **A file of its own has the same markup**, but for the namespaces at the end of the root tag and
the stylesheet behind everything else in the root. -/
theorem standalone_picture (css : Option String) : standalone (picture d x y padding) css =
    "<svg " ++ (picture d x y padding).attributes.text ++
      " xmlns=\"http://www.w3.org/2000/svg\"" ++
      " xmlns:xlink=\"http://www.w3.org/1999/xlink\"" ++ ">\n" ++
      Element.renderAll (picture d x y padding).children ++
      "<style>" ++ Text.escapeContent (stylesheet css) ++ "</style>\n" ++ "</svg>\n" := by
  obtain ⟨width, height, box, group, hpicture⟩ := exists_picture_eq d x y padding
  generalize ha : (⟨[("class", d.options.diagramClass), ("width", width), ("height", height),
    ("viewBox", box)]⟩ : Attributes String) = a at hpicture
  have hnames : a.names = ["class", "width", "height", "viewBox"] := by rw [← ha]; rfl
  have hentries : a.entries ≠ [] := by rw [← ha]; exact List.cons_ne_nil _ _
  have hnamespaces := Attributes.text_set_namespaces hentries (by rw [hnames]; decide)
    (by rw [hnames]; decide)
  have hstyle : (Element.text "style" ∅ (stylesheet css)).render =
      "<style>" ++ Text.escapeContent (stylesheet css) ++ "</style>\n" := Element.render_text ..
  have hroot : withStyle (picture d x y padding) (stylesheet css) =
      .parent "svg" ((a.set "xmlns" svgNamespace).set "xmlns:xlink" xlinkNamespace) group
        [.text "style" ∅ (stylesheet css)] := by
    rw [hpicture]
    rfl
  have hset : ((a.set "xmlns" svgNamespace).set "xmlns:xlink" xlinkNamespace).entries ≠ [] := by
    rw [← ha]
    exact List.cons_ne_nil _ _
  rw [standalone_eq, hroot, render_svg hset, hnamespaces, hpicture, Element.renderAll_cons,
    Element.renderAll_cons, hstyle]
  simp only [Element.attributes, Element.children, Element.renderAll_cons, Element.renderAll_nil,
    String.append_assoc, String.append_empty]

end Pictures

/-! ## Calls on a sheet -/

/-- What a call draws of a diagram that is not drawn yet. A call for a width draws nothing. -/
def Call.drawing? (d : Diagram Float) : Call → Option Element
  | .format x y width padding => if width == 0 then some (picture d x y padding) else none
  | .markup | .element | .standalone _ | .dom _ => some (picture d 0 0 {})

/-- The answer to a call from a drawing. -/
def Call.answer (e : Element) : Call → Answer
  | .format _ _ width _ => if width == 0 then .element e else .refused (.fixedWidth width)
  | .markup => .text e.render
  | .element => .element e
  | .standalone css => .text (Sheet.standalone e css)
  | .dom document =>
    match (e.toDom document).run {} with
    | .ok root nodes => .dom (.ok root) nodes
    | .error error nodes => .dom (.error error) nodes

/-- The answers to calls one after another, and the sheet behind them. -/
def calls (s : Sheet) : List Call → List Answer × Sheet
  | [] => ([], s)
  | c :: rest =>
    let (answer, s') := s.call c
    let (answers, s'') := s'.calls rest
    (answer :: answers, s'')

theorem calls_cons (s : Sheet) (c : Call) (rest : List Call) :
    s.calls (c :: rest) =
      ((s.call c).1 :: ((s.call c).2.calls rest).1, ((s.call c).2.calls rest).2) := rfl

theorem calls_append (s : Sheet) (cs rest : List Call) :
    s.calls (cs ++ rest) =
      ((s.calls cs).1 ++ ((s.calls cs).2.calls rest).1, ((s.calls cs).2.calls rest).2) := by
  induction cs generalizing s with
  | nil => rfl
  | cons c cs ih => rw [List.cons_append, calls_cons, calls_cons, ih, List.cons_append]

variable {d : Diagram Float} {e : Element} {c : Call}

theorem call_of_drawn (d : Diagram Float) (e : Element) (c : Call) :
    Sheet.call ⟨d, some e⟩ c = (c.answer e, ⟨d, some e⟩) := by
  cases c with
  | format x y width padding =>
    simp only [call, Call.answer, Option.getD_some]
    split <;> rfl
  | markup | element | standalone css => rfl
  | dom document =>
    simp only [call, Call.answer, drawing, Option.getD_some]
    cases (e.toDom document).run {} <;> rfl

/-- A call that draws settles the drawing, and is the first to be answered from it. -/
theorem call_of_blank (h : c.drawing? d = some e) :
    d.sheet.call c = (c.answer e, ⟨d, some e⟩) := by
  cases c with
  | format x y width padding =>
    simp only [Call.drawing?] at h
    split at h
    · rename_i hwidth
      obtain rfl := Option.some.inj h
      simp only [call, Call.answer, if_pos hwidth]
      rfl
    · cases h
  | markup | element | standalone css =>
    obtain rfl := Option.some.inj h
    rfl
  | dom document =>
    obtain rfl := Option.some.inj h
    simp only [call, Call.answer, drawing, Diagram.sheet, Option.getD_none]
    cases ((picture d 0 0 {}).toDom document).run {} <;> rfl

/-- What is drawn is a picture of the diagram, somewhere and with some room around it. -/
theorem exists_picture_of_drawing? (h : c.drawing? d = some e) :
    ∃ x y padding, e = picture d x y padding := by
  cases c with
  | format x y width padding =>
    simp only [Call.drawing?] at h
    split at h
    · exact ⟨x, y, padding, (Option.some.inj h).symm⟩
    · cases h
  | markup | element | standalone css | dom document =>
    exact ⟨0, 0, {}, (Option.some.inj h).symm⟩

/-- The only calls that do not draw are those for a width. -/
theorem drawing?_eq_none : c.drawing? d = none ↔
    ∃ x y width padding, c = .format x y width padding ∧ (width == 0) = false := by
  constructor
  · intro h
    cases c with
    | format x y width padding =>
      simp only [Call.drawing?] at h
      split at h
      · cases h
      · rename_i hwidth
        exact ⟨x, y, width, padding, rfl, Bool.eq_false_iff.2 hwidth⟩
    | markup | element | standalone css | dom document => cases h
  · rintro ⟨x, y, width, padding, rfl, hwidth⟩
    simp only [Call.drawing?, hwidth, Bool.false_eq_true, if_false]

/-- **A call for a width is refused** and leaves the sheet alone. -/
theorem call_of_width {width : Float} (h : (width == 0) = false) (s : Sheet) (x y : Float)
    (padding : Padding Float) :
    s.call (.format x y width padding) = (.refused (.fixedWidth width), s) := by
  simp only [call, h, Bool.false_eq_true, if_false]

theorem answer_of_width {width : Float} (h : (width == 0) = false) (e : Element) (x y : Float)
    (padding : Padding Float) :
    (Call.format x y width padding).answer e = .refused (.fixedWidth width) := by
  simp only [Call.answer, h, Bool.false_eq_true, if_false]

/-! ## Runs -/

theorem calls_of_drawn (d : Diagram Float) (e : Element) (cs : List Call) :
    calls ⟨d, some e⟩ cs = (cs.map (Call.answer e), ⟨d, some e⟩) := by
  induction cs with
  | nil => rfl
  | cons c rest ih => rw [calls_cons, call_of_drawn, ih, List.map_cons]

/-- Calls are answered from the first drawing that any of them makes. Those in front of it do not
draw, and what they are answered does not depend on a drawing. -/
theorem calls_of_blank {cs : List Call} (h : cs.findSome? (Call.drawing? d) = some e) :
    d.sheet.calls cs = (cs.map (Call.answer e), ⟨d, some e⟩) := by
  induction cs with
  | nil => cases h
  | cons c rest ih =>
    rw [List.findSome?_cons] at h
    cases hdrawing : c.drawing? d with
    | some e' =>
      rw [hdrawing] at h
      obtain rfl := Option.some.inj h
      rw [calls_cons, call_of_blank hdrawing, calls_of_drawn, List.map_cons]
    | none =>
      rw [hdrawing] at h
      obtain ⟨x, y, width, padding, rfl, hwidth⟩ := drawing?_eq_none.1 hdrawing
      rw [calls_cons, call_of_width hwidth, ih h, List.map_cons, answer_of_width hwidth]

/-- Where no call draws the sheet stays blank. -/
theorem calls_of_refused {cs : List Call} (h : cs.findSome? (Call.drawing? d) = none)
    (e : Element) : d.sheet.calls cs = (cs.map (Call.answer e), d.sheet) := by
  induction cs with
  | nil => rfl
  | cons c rest ih =>
    rw [List.findSome?_eq_none_iff, List.forall_mem_cons, ← List.findSome?_eq_none_iff] at h
    obtain ⟨x, y, width, padding, rfl, hwidth⟩ := drawing?_eq_none.1 h.1
    rw [calls_cons, call_of_width hwidth, ih h.2, List.map_cons, answer_of_width hwidth]

/-- **A diagram is drawn once.** All calls are answered from the first drawing that any of them
makes, whatever they pass themselves. So the markup is the same every time, and a file of its own is
that markup with two namespaces and one stylesheet, however often it is asked for. A call for a
width is an error wherever it stands among other calls, and it changes neither their answers nor the
drawing. -/
theorem drawn_once (d : Diagram Float) (cs : List Call) :
    (∀ e, cs.findSome? (Call.drawing? d) = some e →
      d.sheet.calls cs = (cs.map (Call.answer e), ⟨d, some e⟩) ∧
      e.render = "<svg " ++ e.attributes.text ++ ">\n" ++
        Element.renderAll e.children ++ "</svg>\n" ∧
      ∀ css, standalone e css = "<svg " ++ e.attributes.text ++
        " xmlns=\"http://www.w3.org/2000/svg\"" ++
        " xmlns:xlink=\"http://www.w3.org/1999/xlink\"" ++ ">\n" ++
        Element.renderAll e.children ++
        "<style>" ++ Text.escapeContent (stylesheet css) ++ "</style>\n" ++ "</svg>\n") ∧
    ∀ x y width padding more, (width == 0) = false → ∃ later s,
      d.sheet.calls (cs ++ more) = ((d.sheet.calls cs).1 ++ later, s) ∧
      d.sheet.calls (cs ++ .format x y width padding :: more) =
        ((d.sheet.calls cs).1 ++ .refused (.fixedWidth width) :: later, s) := by
  constructor
  · intro e he
    obtain ⟨c, -, hc⟩ := List.exists_of_findSome?_eq_some he
    obtain ⟨x, y, padding, rfl⟩ := exists_picture_of_drawing? hc
    exact ⟨calls_of_blank he, render_picture d x y padding, standalone_picture d x y padding⟩
  · intro x y width padding more hwidth
    refine ⟨((d.sheet.calls cs).2.calls more).1, ((d.sheet.calls cs).2.calls more).2,
      calls_append .., ?_⟩
    rw [calls_append, calls_cons, call_of_width hwidth]

/-- A terminal that is asked for a width first, then drawn, drawn elsewhere and put into files. -/
theorem drawn_once_terminal :
    let d : Diagram Float := .simple .default [.terminal "0" ∅]
    let e := picture d 0 0 {}
    (d.sheet.calls [.format 0 0 100 {}, .markup, .format 5 5 0 { top := some 0 }, .standalone none,
        .standalone none, .markup]).1 =
      [.refused (.fixedWidth 100), .text e.render, .element e, .text (standalone e none),
        .text (standalone e none), .text e.render] := by
  intro d e
  have hfirst : [Call.format 0 0 100 {}, .markup, .format 5 5 0 { top := some 0 },
      .standalone none, .standalone none, .markup].findSome? (Call.drawing? d) = some e := rfl
  rw [((drawn_once d _).1 e hfirst).1]
  rfl

/-! ## Calls that fail -/

/-- Whether an answer is an error. -/
def Answer.isError : Answer → Bool
  | .refused _ | .dom (.error _) _ => true
  | _ => false

/-- **What a failing call leaves behind**: all later calls are answered as if it had not been made.
There is one exception: a call for a live document of a diagram that is not drawn yet is noticed by
later calls just as a call for its markup would be. -/
theorem call_of_failed {s : Sheet} (h : (s.call c).1.isError) :
    (∀ rest, (s.call c).2.calls rest = s.calls rest) ∨
      ∃ document, c = .dom document ∧ s.drawn = none ∧
        ∀ rest, (s.call c).2.calls rest = (s.call .markup).2.calls rest := by
  obtain ⟨d, drawn⟩ := s
  cases drawn with
  | some e =>
    refine .inl fun rest => ?_
    rw [call_of_drawn]
  | none =>
    cases c with
    | format x y width padding =>
      cases hwidth : width == 0 with
      | true =>
        simp only [call, hwidth, if_true] at h
        cases h
      | false =>
        refine .inl fun rest => ?_
        rw [call_of_width hwidth]
    | markup | element | standalone css => cases h
    | dom document => exact .inr ⟨document, rfl, rfl, fun rest => rfl⟩

/-- The exception shows: without the failed call the picture has no room around it, and with it the
room is there. -/
theorem format_after_failed_dom :
    let d : Diagram Float := .simple .default [.terminal "0" ∅]
    let tight : Call := .format 0 0 0 { top := some 0 }
    ∃ e e',
      (d.sheet.calls [.dom none, tight]).1 = [.dom (.error .missingDocument) {}, .element e] ∧
      (d.sheet.calls [tight]).1 = [.element e'] ∧
      e.attributes.get? "width" = some "128.5" ∧ e'.attributes.get? "width" = some "88.5" :=
  ⟨_, _, rfl, rfl, by decide +kernel, by decide +kernel⟩

end Sheet
end SyntaxDiagram
