import SyntaxDiagram.Proofs.Outline.Rules
import SyntaxDiagram.Proofs.Outline.Tags
import SyntaxDiagram.Proofs.Xml.Rules

/-!
# Texts do not get out of their places

A text in a grammar has no influence on its markup but by its length: whoever reads the tags in the
markup, with all that is in them, cannot tell grammars of the same shape apart.

* `Rule.blank`: a rule of the same shape without reserved characters. Its picture has the names that
  all pictures of rules of its shape have (`Rule.readable_picture`).
* `Grammar.drawnAlike_of_sameShape`: rules of grammars of the same shape have the same pictures and tags.
-/

namespace SyntaxDiagram

open Markup (Readable)

/-! ## A grammar to stand in for all of its shape -/

/-- A text of the same length without reserved characters. -/
def Text.blank (text : String) : String := .ofList (List.replicate text.length 'x')

theorem Text.length_blank (text : String) : (blank text).length = text.length := by
  rw [blank, String.length_ofList, List.length_replicate]

theorem Text.only_blank {P : Char → Prop} (hx : P 'x') (text : String) : Only P (blank text) := by
  rw [blank, only_ofList]
  intro c hc
  rwa [List.eq_of_mem_replicate hc]

/-- The expression with other texts of the same lengths. -/
def Expr.blank : Expr → Expr
  | identifier name => .identifier (Text.blank name)
  | terminal text => .terminal (Text.blank text)
  | special text => .special (Text.blank text)
  | group inner => .group inner.blank
  | repetition inner => .repetition inner.blank
  | optional inner => .optional inner.blank
  | choice left right => .choice left.blank right.blank
  | sequence left right => .sequence left.blank right.blank

theorem Expr.sameShape_blank (e : Expr) : e.SameShape e.blank := by
  induction e with
  | identifier name => exact .identifier (Text.length_blank name).symm
  | terminal text => exact .terminal (Text.length_blank text).symm
  | special text => exact .special (Text.length_blank text).symm
  | group inner ih => exact .group ih
  | repetition inner ih => exact .repetition ih
  | optional inner ih => exact .optional ih
  | choice left right ihl ihr => exact .choice ihl ihr
  | sequence left right ihl ihr => exact .sequence ihl ihr

theorem Expr.only_leaves_blank {P : Char → Prop} (hx : P 'x') (e : Expr) :
    ∀ s ∈ e.blank.leaves, Text.Only P s.text := by
  induction e with
  | identifier text | terminal text | special text =>
    exact List.forall_mem_singleton.2 (Text.only_blank hx text)
  | group inner ih | repetition inner ih | optional inner ih => exact ih
  | choice left right ihl ihr | sequence left right ihl ihr =>
    exact List.forall_mem_append.2 ⟨ihl, ihr⟩

/-- The rule with other texts of the same lengths. -/
def Rule.blank (r : Rule) : Rule := ⟨Text.blank r.name, r.body.blank⟩

theorem Rule.sameShape_blank (r : Rule) : r.SameShape r.blank where
  name := (Text.length_blank r.name).symm
  body := r.body.sameShape_blank

/-! ## Pictures -/

/-- The names in what is drawn of a rule are valid. They are the same for all rules of its shape,
and so a rule with no reserved characters may stand in for it. -/
theorem Rule.readable_picture (r : Rule) (o : Options Float) (style : RuleStyle Float) (x y : Float)
    (padding : Padding Float) :
    (Sheet.picture (r.diagram o style) x y padding).Every Readable := by
  have hblank : (Sheet.picture (r.blank.diagram o style) x y padding).Every Readable := by
    have hitems : ∀ n ∈ (r.blank.diagram o style).items, n.Legal (Xml.isChar ·) :=
      r.blank.forall_walk_items (Description.tells_legalHere (Xml.isChar ·))
        (Text.only_blank (by decide) r.name) (r.body.only_leaves_blank (by decide))
    obtain ⟨inner, hinner, hdraw⟩ := Diagram.exists_draw_eq Xml.suits_isChar hitems x y padding
    have hlegal := (Drawing.legal_toElement Xml.suits_isChar
      (fun n => (Decimal.isPlain_write n).imp Xml.suits_isChar.plain) inner).2 hinner
    have hnames : ∀ name ∈ ["class", "width", "height", "viewBox"], isAttributeName name := by
      decide
    rw [Sheet.picture, hdraw]
    exact ⟨⟨by decide, fun e he => hnames e.1 (List.mem_map_of_mem he)⟩,
      Element.every_readable _ hlegal, trivial⟩
  rw [← Element.every_outline, Sheet.picture, Drawing.outline_toElement] at hblank ⊢
  rwa [Rule.outline_draw r.sameShape_blank]

/-- The same for what is put into a file of its own. -/
theorem Sheet.readable_withStyle {drawing : Element} (h : drawing.Every Readable) (css : String) :
    (withStyle drawing css).Every Readable := by
  have hstyle : (Element.text "style" ∅ css).Every Readable := ⟨by decide, nofun⟩
  refine Element.every_mapAttributes ((Element.every_appendChild _ _).2 ⟨h, hstyle⟩) fun a ha => ?_
  exact Attributes.named_upsert (Attributes.named_upsert ha (by decide) _) (by decide) _

/-- Texts stay in their places in a file as well. -/
theorem Sheet.outline_withStyle (drawing : Element) (css : String) :
    (withStyle drawing css).outline = withStyle drawing.outline "" := by
  rw [withStyle, withStyle, Element.outline_mapAttributes, Element.outline_appendChild]
  rfl

/-- The picture of a rule, before it is written. -/
def Rule.picture (config : Config) (r : Rule) : Element :=
  Sheet.picture (r.diagram config.options config.render.toRuleStyle) 0 0 config.render.padding

/-- Rules that are drawn alike: their pictures are the same but for the texts in text leaves, and
their markup has the same tags, with the same attributes, in the same order. -/
structure Rule.DrawnAlike (config : Config) (r r' : Rule) : Prop where
  picture : (r.picture config).outline = (r'.picture config).outline
  tags : Markup.tags (r.render config).svg = Markup.tags (r'.render config).svg

/-- **Rules of the same shape are drawn alike.** -/
theorem Rule.SameShape.drawnAlike {r r' : Rule} (h : r.SameShape r') (config : Config) :
    r.DrawnAlike config r' := by
  have hpicture : (r.picture config).outline = (r'.picture config).outline := by
    rw [picture, picture, Sheet.picture, Sheet.picture, Drawing.outline_toElement,
      Drawing.outline_toElement, Rule.outline_draw h]
  have hreadable : (r.picture config).Every Readable := r.readable_picture ..
  refine ⟨hpicture, ?_⟩
  rw [Rule.render, Rule.render, Diagram.render_eq, Diagram.render_eq, Diagram.root, Diagram.root]
  split
  · refine Markup.tags_render_congr (Sheet.readable_withStyle hreadable _) ?_
    rw [Sheet.outline_withStyle, Sheet.outline_withStyle]
    exact congrArg (Sheet.withStyle · "") hpicture
  · exact Markup.tags_render_congr hreadable hpicture

/-- **Texts do not get out of their places.** Whatever the configuration is, corresponding rules of
grammars of the same shape are drawn alike: no text has an influence but by its length. -/
theorem Grammar.drawnAlike_of_sameShape {g g' : Grammar} (h : g.SameShape g') (config : Config) :
    List.Forall₂ (Rule.DrawnAlike config) g.rules g'.rules :=
  h.imp fun _ _ hr => hr.drawnAlike config

/-- A literal token that looks like a closing tag and a remark that looks like an attribute are
drawn like harmless ones. -/
theorem Grammar.drawnAlike_of_sameShape_tags :
    let g : Grammar := ⟨[⟨"a", .sequence (.terminal "</g>") (.optional (.special "\" x=\""))⟩]⟩
    let g' : Grammar := ⟨[⟨"b", .sequence (.terminal "text") (.optional (.special "plain"))⟩]⟩
    g.SameShape g' ∧ List.Forall₂ (Rule.DrawnAlike {}) g.rules g'.rules := by
  intro g g'
  have h : g.SameShape g' := by
    refine .cons ⟨?_, .sequence (.terminal ?_) (.optional (.special ?_))⟩ .nil <;> decide
  exact ⟨h, drawnAlike_of_sameShape h {}⟩

end SyntaxDiagram
