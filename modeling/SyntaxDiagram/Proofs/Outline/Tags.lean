import SyntaxDiagram.Proofs.Outline.Drawings
import SyntaxDiagram.Proofs.Xml.Diagrams

/-!
# Tags in markup

* `Markup.tags`: the characters of markup that are in tags, found without regard to how the markup
  was written.
* `Element.tags`, `Markup.tags_render`: in the markup of a tree these are its tags in their order.
* `Element.tags_outline`: the outline of a tree has the same tags, and so do all trees with the same
  outline (`Markup.tags_render_congr`).
-/

namespace SyntaxDiagram

/-! ## Tags -/

namespace Markup

/-- Where a reader of markup stands. -/
inductive Spot where
  | content
  | tag
  /-- in a value of a tag -/
  | quoted (quote : Char)

/-- The characters that are in tags. A quoted value may hold any character but its quote. -/
def tagsFrom : Spot → List Char → List Char
  | _, [] => []
  | .content, c :: cs => if c = '<' then c :: tagsFrom .tag cs else tagsFrom .content cs
  | .tag, c :: cs =>
    c :: if c = '>' then tagsFrom .content cs
      else if c = '"' ∨ c = '\'' then tagsFrom (.quoted c) cs
      else tagsFrom .tag cs
  | .quoted quote, c :: cs => c :: tagsFrom (if c = quote then .tag else .quoted quote) cs

/-- The tags of a text, each with all that is in it. -/
def tags (text : String) : List Char := tagsFrom .content text.toList

theorem tagsFrom_content {cs : List Char} (h : '<' ∉ cs) (rest : List Char) :
    tagsFrom .content (cs ++ rest) = tagsFrom .content rest := by
  induction cs with
  | nil => rfl
  | cons c cs ih =>
    rw [List.mem_cons, not_or] at h
    rw [List.cons_append, tagsFrom, if_neg fun heq => h.1 heq.symm, ih h.2]

theorem tagsFrom_inner {cs : List Char} (h : ∀ c ∈ cs, Xml.Zone.isInner c) (rest : List Char) :
    tagsFrom .tag (cs ++ rest) = cs ++ tagsFrom .tag rest := by
  induction cs with
  | nil => rfl
  | cons c cs ih =>
    rw [List.forall_mem_cons] at h
    obtain ⟨hc, hcs⟩ := h
    simp only [Xml.Zone.isInner, Bool.and_eq_true, decide_eq_true_eq] at hc
    rw [List.cons_append, tagsFrom, if_neg hc.1.1.2, if_neg (not_or.2 ⟨hc.1.2, hc.2⟩), ih hcs,
      List.cons_append]

theorem tagsFrom_quoted {quote : Char} {cs : List Char} (h : quote ∉ cs) (rest : List Char) :
    tagsFrom (.quoted quote) (cs ++ quote :: rest) = cs ++ quote :: tagsFrom .tag rest := by
  induction cs with
  | nil => rw [List.nil_append, tagsFrom, if_pos rfl, List.nil_append]
  | cons c cs ih =>
    rw [List.mem_cons, not_or] at h
    rw [List.cons_append, tagsFrom, if_neg fun heq => h.1 heq.symm, ih h.2, List.cons_append]

theorem tagsFrom_entryChars {e : String × String} (h : isAttributeName e.1) (rest : List Char) :
    tagsFrom .tag (entryChars e ++ rest) = entryChars e ++ tagsFrom .tag rest := by
  have hname := tagsFrom_inner (Xml.isName_of_valid h).isInner
  have hvalue := tagsFrom_quoted (quote_notMem_escape e.2.toList) rest
  rw [entryChars_eq]
  simp [tagsFrom, hname, hvalue]

theorem tagsFrom_entries {es : List (String × String)} (h : ∀ e ∈ es, isAttributeName e.1)
    (rest : List Char) :
    tagsFrom .tag (es.flatMap entryChars ++ rest) =
      es.flatMap entryChars ++ tagsFrom .tag rest := by
  induction es with
  | nil => rfl
  | cons e es ih =>
    rw [List.forall_mem_cons] at h
    rw [List.flatMap_cons, List.append_assoc, tagsFrom_entryChars h.1, ih h.2, List.append_assoc]

end Markup

namespace Element

open Markup

/-- An opening tag, without the line break behind it. -/
def openingTag (tag : String) (a : Attributes String) : List Char :=
  '<' :: (tag.toList ++ (a.entries.flatMap entryChars ++ ['>']))

/-- A closing tag, without the line break behind it. -/
def closingTag (tag : String) : List Char := '<' :: '/' :: (tag.toList ++ ['>'])

mutual

/-- The tags of a tree, with the attributes in them. -/
def tags : Element → List Char
  | text tag attributes _ => openingTag tag attributes ++ closingTag tag
  | parent tag attributes first rest =>
    openingTag tag attributes ++ (first.tags ++ tagsOf rest) ++ closingTag tag

/-- The tags of several trees. -/
def tagsOf : List Element → List Char
  | [] => []
  | e :: rest => e.tags ++ tagsOf rest

end

mutual

/-- Texts have no part in tags. -/
theorem tags_outline : (e : Element) → e.outline.tags = e.tags
  | text tag a content => rfl
  | parent tag a first rest => by
    rw [outline, tags, tags, tags_outline first, tagsOf_outlines rest]

theorem tagsOf_outlines : (es : List Element) → tagsOf (outlines es) = tagsOf es
  | [] => rfl
  | e :: rest => by rw [outlines, tagsOf, tagsOf, tags_outline e, tagsOf_outlines rest]

end

end Element

namespace Markup

theorem tagsFrom_opening {tag : String} {a : Attributes String} (h : Readable tag a)
    (rest : List Char) :
    tagsFrom .content ((Element.opening tag a).toList ++ rest) =
      Element.openingTag tag a ++ tagsFrom .content rest := by
  have hname := tagsFrom_inner (Xml.isName_of_valid h.1).isInner
  have hentries := tagsFrom_entries h.2
  have hbreak : tagsFrom .content (breakChars tag ++ rest) = tagsFrom .content rest := by
    rw [breakChars]
    split <;> rfl
  rw [toList_opening, Element.openingTag]
  simp [tagsFrom, hname, hentries, hbreak]

theorem tagsFrom_closing {tag : String} (h : isAttributeName tag) (rest : List Char) :
    tagsFrom .content ((Element.closing tag).toList ++ rest) =
      Element.closingTag tag ++ tagsFrom .content rest := by
  have hname := tagsFrom_inner (Xml.isName_of_valid h).isInner
  rw [toList_closing, Element.closingTag]
  simp [tagsFrom, hname]

mutual

theorem tagsFrom_render : (e : Element) → e.Every Readable → ∀ rest,
    tagsFrom .content (e.render.toList ++ rest) = e.tags ++ tagsFrom .content rest
  | .text tag a content, h, rest => by
    have hcontent : '<' ∉ (Text.escapeContent content).toList := by
      rw [Text.escapeContent, String.toList_ofList]
      exact lt_notMem_escape _
    rw [Element.render_text, String.toList_append, String.toList_append, List.append_assoc,
      List.append_assoc, tagsFrom_opening h, tagsFrom_content hcontent, tagsFrom_closing h.1,
      Element.tags, List.append_assoc]
  | .parent tag a first rest, ⟨h, hfirst, hrest⟩, behind => by
    rw [Element.render_parent, String.toList_append, String.toList_append, String.toList_append,
      List.append_assoc, List.append_assoc, List.append_assoc, tagsFrom_opening h,
      tagsFrom_render first hfirst, tagsFrom_renderAll rest hrest, tagsFrom_closing h.1,
      Element.tags]
    simp only [List.append_assoc]

theorem tagsFrom_renderAll : (es : List Element) → Element.EveryOf Readable es → ∀ rest,
    tagsFrom .content ((Element.renderAll es).toList ++ rest) =
      Element.tagsOf es ++ tagsFrom .content rest
  | [], _, _ => rfl
  | e :: es, ⟨he, hes⟩, rest => by
    rw [Element.renderAll_cons, String.toList_append, List.append_assoc, tagsFrom_render e he,
      tagsFrom_renderAll es hes, Element.tagsOf, List.append_assoc]

end

/-- **The tags in the markup of a tree** are those of the tree in their order. No text adds one. -/
theorem tags_render {e : Element} (h : e.Every Readable) : tags e.render = e.tags := by
  have hrender := tagsFrom_render e h []
  rwa [List.append_nil, tagsFrom, List.append_nil] at hrender

end Markup

/-! ## Names -/

namespace Element

open Markup (Readable)

variable {P : String → Attributes String → Prop}

mutual

/-- Names and attributes are in the outline as well. -/
theorem every_outline : (e : Element) → (e.outline.Every P ↔ e.Every P)
  | text .. => .rfl
  | parent tag a first rest => by
    rw [outline, Every, Every, every_outline first, everyOf_outlines rest]

theorem everyOf_outlines : (es : List Element) → (EveryOf P (outlines es) ↔ EveryOf P es)
  | [] => .rfl
  | e :: rest => by rw [outlines, EveryOf, EveryOf, every_outline e, everyOf_outlines rest]

end

mutual

theorem every_readable {Q : Char → Prop} : (e : Element) → e.Legal Q → e.Every Readable
  | text .., h => ⟨h.1, h.2.1.named⟩
  | parent _ _ first rest, h =>
    ⟨⟨h.1, h.2.1.named⟩, every_readable first h.2.2.1, everyOf_readable rest h.2.2.2⟩

theorem everyOf_readable {Q : Char → Prop} : (es : List Element) → AllLegal Q es →
    EveryOf Readable es
  | [], _ => trivial
  | e :: rest, h => ⟨every_readable e h.1, everyOf_readable rest h.2⟩

end

theorem every_mapAttributes {f : Attributes String → Attributes String} {e : Element}
    (h : e.Every Readable) (hf : ∀ a : Attributes String, a.Named → (f a).Named) :
    (e.mapAttributes f).Every Readable := by
  cases e with
  | text tag a content => exact ⟨h.1, hf a h.2⟩
  | parent tag a first rest => exact ⟨⟨h.1.1, hf a h.1.2⟩, h.2⟩

theorem outline_mapAttributes (f : Attributes String → Attributes String) (e : Element) :
    (e.mapAttributes f).outline = e.outline.mapAttributes f := by
  cases e <;> rfl

theorem outline_appendChild (e child : Element) :
    (e.appendChild child).outline = e.outline.appendChild child.outline := by
  have hchildren : e.outline.children = e.children.map outline := by
    cases e with
    | text tag a content => rfl
    | parent tag a first rest => rw [outline, children, children, outlines_eq_map, List.map_cons]
  have htag : e.outline.tag = e.tag := by cases e <;> rfl
  have hattributes : e.outline.attributes = e.attributes := by cases e <;> rfl
  rw [appendChild, appendChild, outline_ofChildren, hchildren, htag, hattributes, List.map_append]
  rfl

end Element

/-- **Trees with the same outline have the same tags in their markup.** -/
theorem Markup.tags_render_congr {e e' : Element} (he : e.Every Readable)
    (h : e.outline = e'.outline) : tags e.render = tags e'.render := by
  have he' : e'.Every Readable := by
    rwa [← Element.every_outline, ← h, Element.every_outline]
  rw [tags_render he, tags_render he', ← e.tags_outline, h, e'.tags_outline]

end SyntaxDiagram
