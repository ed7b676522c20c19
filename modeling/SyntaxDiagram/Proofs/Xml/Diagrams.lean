import SyntaxDiagram.Proofs.Xml.Nodes
import SyntaxDiagram.Proofs.Xml.Zones
import SyntaxDiagram.Render

/-!
# The markup of diagrams is well formed

* `Diagram.Legal`: diagrams whose texts may stand where they are drawn.
* `Diagram.legal_draw`: their pictures are legal.
* `Sheet.legal_withStyle`: what is added for a file of its own is legal.
* `Diagram.isDocument_render`: the markup of a legal diagram is a document with the root `svg`.
* `Diagram.only_links_of_isDocument`: no document has a link with the character that starts a tag.
-/

namespace SyntaxDiagram

open Text (Only)
open Layout

variable {α : Type} {P : Char → Prop}

/-! ## Diagrams -/

namespace Diagram

/-- The texts of a diagram, its class among them. -/
structure Legal (P : Char → Prop) (d : Diagram α) : Prop where
  diagramClass : Only P d.options.diagramClass
  items : ∀ n ∈ d.items, n.Legal P

variable [Scalar α]

/-- What is placed right in a diagram are its items. -/
theorem mem_pieces {d : Diagram α} {x y : α} {padding : Padding α} :
    (∀ q ∈ contents (d.pieces x y padding),
        ∃ n ∈ d.items, ∃ x y slot, n.place d.options x y slot = q) ∧
      ∀ n ∈ d.items, ∃ x' y' slot',
        n.place d.options x' y' slot' ∈ contents (d.pieces x y padding) := by
  rw [pieces, contents_map]
  refine Node.mem_settled d.options (.of_eq ?_)
  rw [contents_rowPieces, Node.figures_eq_map]

/-- What is drawn in the root of a picture is legal if the items are. The class of the diagram is
an attribute of the root alone. -/
theorem exists_draw_eq (hP : Xml.Suits P) {d : Diagram α} (h : ∀ n ∈ d.items, n.Legal P) (x y : α)
    (padding : Padding α) :
    ∃ inner : Drawing α, inner.Legal P ∧ d.draw x y padding =
      .group "svg"
        ⟨[("class", .text d.options.diagramClass), ("width", .number (d.canvasWidth padding)),
          ("height", .number (d.canvasHeight padding)),
          ("viewBox", .numbers [0, 0, d.canvasWidth padding, d.canvasHeight padding])]⟩
        [inner] := by
  have hshift : (if d.options.strokeOddPixelLength then
      ⟨[("transform", .text "translate(.5 .5)")]⟩ else ∅ : Attributes (Value α)).Legal
        (·.Legal P) := by
    have htranslate : Only P "translate(.5 .5)" := hP.only_of_all (by decide)
    split
    · exact .of_names ["transform"] rfl (by decide) (by decide) (by simpa using htranslate)
    · exact Attributes.legal_empty
  have hpieces : AllLegal P (d.pieces x y padding) :=
    (allLegal_map settle _).2 (allLines_rowPieces d.options.arcRadius _ _ _ _ _).allLegal
  refine ⟨.group "g" _ (Placed.drawPieces (d.pieces x y padding)),
    ⟨by decide, hshift, Placed.legal_drawPieces.2 ⟨hpieces, fun q hq => ?_⟩⟩, rfl⟩
  obtain ⟨n, hn, x, y, slot, rfl⟩ := mem_pieces.1 q hq
  exact Node.legal_draw hP d.options (h n hn) x y slot

/-- **The picture of a diagram is legal**, whatever the measures and the room around it. -/
theorem legal_draw (hP : Xml.Suits P) {d : Diagram α} (h : d.Legal P) (x y : α)
    (padding : Padding α) : (d.draw x y padding).Legal P := by
  obtain ⟨inner, hinner, hdraw⟩ := exists_draw_eq hP h.items x y padding
  rw [hdraw]
  refine ⟨by decide, ?_, hinner, trivial⟩
  exact .of_names ["class", "width", "height", "viewBox"] rfl (by decide) (by decide)
    (by simpa using h.diagramClass)

/-- Links get into the picture of a diagram. -/
theorem only_links_of_draw {d : Diagram α} {x y : α} {padding : Padding α}
    (h : Drawing.AllLegal P (Placed.drawPieces (d.pieces x y padding))) :
    ∀ n ∈ d.items, ∀ m ∈ n.walk, ∀ t ∈ m.links, Only P t := by
  intro n hn
  obtain ⟨x', y', slot', hmem⟩ := mem_pieces.2 n hn
  exact Node.only_links_of_draw d.options ((Placed.legal_drawPieces.1 h).2 _ hmem)

end Diagram

/-! ## Markup -/

namespace Element

theorem legal_ofChildren {tag : String} {a : Attributes String} {children : List Element}
    (htag : isAttributeName tag) (ha : a.Legal (Only P)) (hchildren : AllLegal P children) :
    (ofChildren tag a children).Legal P := by
  cases children with
  | nil => exact ⟨htag, ha, Text.only_empty⟩
  | cons first rest => exact ⟨htag, ha, hchildren⟩

theorem allLegal_append {es es' : List Element} (h : AllLegal P es) (h' : AllLegal P es') :
    AllLegal P (es ++ es') := by
  induction es with
  | nil => exact h'
  | cons e rest ih => exact ⟨h.1, ih h.2⟩

theorem legal_appendChild {e child : Element} (he : e.Legal P) (hchild : child.Legal P) :
    (e.appendChild child).Legal P := by
  cases e with
  | text tag a content => exact legal_ofChildren he.1 he.2.1 ⟨hchild, trivial⟩
  | parent tag a first rest =>
    exact legal_ofChildren he.1 he.2.1 (allLegal_append he.2.2 ⟨hchild, trivial⟩)

theorem legal_mapAttributes {f : Attributes String → Attributes String} {e : Element}
    (he : e.Legal P) (hf : ∀ a : Attributes String, a.Legal (Only P) → (f a).Legal (Only P)) :
    (e.mapAttributes f).Legal P := by
  cases e with
  | text tag a content => exact ⟨he.1, hf a he.2.1, he.2.2⟩
  | parent tag a first rest => exact ⟨he.1, hf a he.2.1, he.2.2⟩

/-- The parts of a legal element are legal. -/
theorem allLegal_children {e : Element} (h : e.Legal P) : AllLegal P e.children := by
  cases e with
  | text tag a content => exact trivial
  | parent tag a first rest => exact h.2.2

theorem tag_appendChild (e child : Element) : (e.appendChild child).tag = e.tag :=
  tag_ofChildren ..

theorem children_appendChild (e child : Element) :
    (e.appendChild child).children = e.children ++ [child] :=
  children_ofChildren ..

theorem children_mapAttributes (f : Attributes String → Attributes String) (e : Element) :
    (e.mapAttributes f).children = e.children := by
  cases e <;> rfl

theorem tag_mapAttributes (f : Attributes String → Attributes String) (e : Element) :
    (e.mapAttributes f).tag = e.tag := by
  cases e <;> rfl

end Element

namespace Sheet

theorem legal_picture (hP : Xml.Suits P) {d : Diagram Float} {x y : Float}
    {padding : Padding Float} :
    (picture d x y padding).Legal P ↔ (d.draw x y padding).Legal P :=
  Drawing.legal_toElement hP (fun n => (Decimal.isPlain_write n).imp hP.plain) _

/-- The usual stylesheet may stand in a document. -/
theorem only_defaultStyle : Only (Xml.isChar ·) defaultStyle := by
  have hrules : styleRules.all (fun r => r.selector.toList.all Xml.isChar &&
      r.declarations.all fun d => d.1.toList.all Xml.isChar && d.2.toList.all Xml.isChar) := by
    decide +kernel
  simp only [List.all_eq_true, Bool.and_eq_true] at hrules
  have hfixed {s : String} (hs : s.toList.all Xml.isChar = true) : Only (Xml.isChar ·) s :=
    Text.only_of_all hs
  rw [defaultStyle, Text.only_append]
  refine ⟨hfixed (by decide), (Text.only_join _).2 fun s hs => ?_⟩
  obtain ⟨r, hr, rfl⟩ := List.mem_map.1 hs
  simp only [StyleRule.write, Text.only_append]
  refine ⟨⟨⟨(hrules r hr).1, hfixed (by decide)⟩, (Text.only_join _).2 fun s hs => ?_⟩,
    hfixed (by decide)⟩
  obtain ⟨d, hd, rfl⟩ := List.mem_map.1 hs
  have hd' := (hrules r hr).2 d hd
  simp only [Text.only_append]
  exact ⟨⟨⟨⟨hfixed (by decide), hd'.1⟩, hfixed (by decide)⟩, hd'.2⟩, hfixed (by decide)⟩

/-- The stylesheet that is put into a file. -/
def stylesheet (css : Option String) : String :=
  match css with
  | none | some "" => defaultStyle
  | some css => css

theorem only_stylesheet {css : Option String} (h : ∀ s ∈ css, Only (Xml.isChar ·) s) :
    Only (Xml.isChar ·) (stylesheet css) := by
  unfold stylesheet
  split
  · exact only_defaultStyle
  · exact only_defaultStyle
  · exact h _ rfl

/-- A drawing with a stylesheet and the namespaces. -/
def withStyle (drawing : Element) (css : String) : Element :=
  (drawing.appendChild (.text "style" ∅ css)).mapAttributes fun a =>
    (a.set "xmlns" svgNamespace).set "xmlns:xlink" xlinkNamespace

theorem standalone_eq (drawing : Element) (css : Option String) :
    standalone drawing css = (withStyle drawing (stylesheet css)).render := rfl

theorem tag_withStyle (drawing : Element) (css : String) :
    (withStyle drawing css).tag = drawing.tag := by
  rw [withStyle, Element.tag_mapAttributes, Element.tag_appendChild]

theorem children_withStyle (drawing : Element) (css : String) :
    (withStyle drawing css).children = drawing.children ++ [.text "style" ∅ css] := by
  rw [withStyle, Element.children_mapAttributes, Element.children_appendChild]

/-- **What is added for a file of its own is legal.** -/
theorem legal_withStyle (hP : Xml.Suits P) {drawing : Element} (h : drawing.Legal P) {css : String}
    (hcss : Only (Xml.isChar ·) css) : (withStyle drawing css).Legal P := by
  have hsvg : Only P svgNamespace := hP.only_of_all (by decide)
  have hxlink : Only P xlinkNamespace := hP.only_of_all (by decide)
  have hstyle : (Element.text "style" ∅ css).Legal P :=
    ⟨by decide, Attributes.legal_empty, hcss⟩
  exact Element.legal_mapAttributes (Element.legal_appendChild h hstyle) fun a ha =>
    (ha.set (by decide) hsvg).set (by decide) hxlink

end Sheet

namespace Diagram

/-- The element whose markup is that of a diagram. -/
def root (d : Diagram Float) (config : RenderConfig) : Element :=
  let picture := Sheet.picture d 0 0 config.padding
  if config.standalone then Sheet.withStyle picture (Sheet.stylesheet config.style) else picture

variable {d : Diagram Float} {config : RenderConfig}

theorem render_eq : d.render config = (d.root config).render := by
  rw [render, root]
  split
  · exact Sheet.standalone_eq ..
  · rfl

theorem tag_root : (d.root config).tag = "svg" := by
  rw [root]
  split
  · exact Sheet.tag_withStyle ..
  · rfl

theorem legal_root (hP : Xml.Suits P) (h : d.Legal P)
    (hstyle : ∀ css ∈ config.style, Only (Xml.isChar ·) css) : (d.root config).Legal P := by
  have hpicture := (Sheet.legal_picture hP).2 (legal_draw hP h 0 0 config.padding)
  rw [root]
  split
  · exact Sheet.legal_withStyle hP hpicture (Sheet.only_stylesheet hstyle)
  · exact hpicture

/-- Links get into the root, whatever else is put into it. -/
theorem only_links_of_root (hP : Xml.Suits P) (h : (d.root config).Legal P) :
    ∀ n ∈ d.items, ∀ m ∈ n.walk, ∀ t ∈ m.links, Only P t := by
  have hchildren := Element.allLegal_children h
  have hfirst : Element.AllLegal P (Sheet.picture d 0 0 config.padding).children := by
    rw [root] at hchildren
    split at hchildren
    · rw [Sheet.children_withStyle] at hchildren
      exact ⟨hchildren.1, trivial⟩
    · exact hchildren
  have hgroup := (Drawing.legal_toElement hP
    (fun n => (Decimal.isPlain_write n).imp hP.plain) _).1 hfirst.1
  exact only_links_of_draw hgroup.2.2

/-- **The markup of a diagram is a document**, in a file of its own or as a part of one. -/
theorem isDocument_render (h : d.Legal Xml.IsValueChar)
    (hstyle : ∀ css ∈ config.style, Only (Xml.isChar ·) css) :
    Xml.IsDocument "svg" (d.render config) := by
  have hroot := Xml.isDocument_render (legal_root Xml.suits_isValueChar h hstyle)
  rwa [tag_root, ← render_eq] at hroot

/-- **Links in a document** do not have the character that starts a tag. -/
theorem only_links_of_isDocument (h : d.Legal (Xml.isChar ·))
    (hstyle : ∀ css ∈ config.style, Only (Xml.isChar ·) css)
    (hdocument : Xml.IsDocument "svg" (d.render config)) :
    ∀ n ∈ d.items, ∀ m ∈ n.walk, ∀ t ∈ m.links, Only Xml.IsValueChar t := by
  have hroot := legal_root Xml.suits_isChar h hstyle
  rw [render_eq, ← tag_root] at hdocument
  exact only_links_of_root Xml.suits_isValueChar
    ((Element.isDocument_render_iff hroot).1 hdocument)

end Diagram
end SyntaxDiagram
