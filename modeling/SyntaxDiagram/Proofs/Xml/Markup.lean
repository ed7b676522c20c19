import SyntaxDiagram.Proofs.Characters
import SyntaxDiagram.Proofs.Markup.RoundTrip
import SyntaxDiagram.Proofs.Xml.Grammar

/-!
# The markup of elements is well formed

* `Attributes.Legal`: valid names, each of them once, and values of some sort.
* `Element.Legal`: a tree with legal attributes throughout, all of whose texts may stand in a
  document. The characters of its values are of a class.
* `Xml.matches_render`: the markup of a legal tree is an element, whatever its texts are, as long as
  no value has the character that starts a tag.
-/

namespace SyntaxDiagram

open Text (Only)

/-! ## Legal trees -/

/-- Attributes with valid names, each of them once, and with values of some sort. -/
structure Attributes.Legal {ν : Type} (Q : ν → Prop) (a : Attributes ν) : Prop where
  named : ∀ e ∈ a.entries, isAttributeName e.1
  nodup : a.names.Nodup
  values : ∀ e ∈ a.entries, Q e.2

namespace Element

mutual

/-- A tree whose names are valid, with no attribute twice in an element. All texts may stand in a
document, and the values of attributes are of a class of characters. -/
def Legal (P : Char → Prop) : Element → Prop
  | text tag attributes content =>
    isAttributeName tag ∧ attributes.Legal (Only P) ∧ Only (Xml.isChar ·) content
  | parent tag attributes first rest =>
    isAttributeName tag ∧ attributes.Legal (Only P) ∧ first.Legal P ∧ AllLegal P rest

/-- The same for several trees. -/
def AllLegal (P : Char → Prop) : List Element → Prop
  | [] => True
  | e :: rest => e.Legal P ∧ AllLegal P rest

end

end Element

namespace Xml

/-- The characters that may stand in an attribute value, once ampersands and quotes are escaped. -/
def IsValueChar (c : Char) : Prop := isChar c ∧ c ≠ '<'

/-! ## Names and escapes -/

theorem isName_of_valid {name : String} (h : isAttributeName name) : IsName name.toList := by
  obtain ⟨c, cs, hname, hc, hall⟩ := Markup.isNamePart_of_valid h
  have halpha {d : Char} (hd : d.isAlpha) : isWithin nameStarts d := by
    have := toNat_of_isAlpha hd
    simp only [isWithin, nameStarts, List.any_cons, List.any_nil, Bool.or_eq_true,
      Bool.and_eq_true, decide_eq_true_eq]
    omega
  refine ⟨c, cs, hname, halpha hc, fun d hd => ?_⟩
  have hpart := hall d (List.mem_cons_of_mem c hd)
  rw [isWithin, List.any_append, Bool.or_eq_true]
  simp only [Markup.isNamePart, Char.isAlphanum, Bool.or_eq_true, decide_eq_true_eq] at hpart
  rcases hpart with ((((hd | hd) | rfl) | rfl) | rfl) | rfl
  · exact .inl (halpha hd)
  · have := toNat_of_isDigit hd
    simp only [nameContinuations, List.any_cons, List.any_nil, Bool.or_eq_true, Bool.and_eq_true,
      decide_eq_true_eq]
    omega
  all_goals decide

/-- An escaped value can stand between two quotes. -/
theorem isValue_escape {cs : List Char} (h : ∀ c ∈ cs, IsValueChar c) :
    IsValue '"' (cs.flatMap Text.valueChar) := by
  induction cs with
  | nil => exact .nil
  | cons c cs ih =>
    have hrest := ih fun d hd => h d (List.mem_cons_of_mem c hd)
    obtain ⟨hchar, hlt⟩ := h c List.mem_cons_self
    rw [List.flatMap_cons, Text.valueChar]
    by_cases hamp : c = '&'
    · rw [if_pos hamp]
      exact .reference (.entity (show "amp" ∈ entities by decide)) hrest
    · rw [if_neg hamp]
      by_cases hquot : c = '"'
      · rw [if_pos hquot]
        exact .reference (.entity (show "quot" ∈ entities by decide)) hrest
      · rw [if_neg hquot]
        exact .char hchar ⟨hlt, hamp, hquot⟩ hrest

theorem isReference_reference {c : Char} (h : isChar c) : IsReference (Text.reference c) := by
  refine .number Nat.toDigits_ne_nil ?_ ?_
  · exact fun d hd => Nat.isDigit_of_mem_toDigits (by decide) (by decide) hd
  · rw [Nat.ofDigitChars_ten_toDigits]
    exact h

theorem isCharData_nil : IsCharData [] := by
  refine ⟨nofun, List.not_mem_nil, List.not_mem_nil, ?_⟩
  simp

/-- A character that is not reserved goes into the text behind it. -/
theorem isCharData_cons {c : Char} {cs : List Char} (hc : isChar c) (hplain : ¬ Text.isReserved c)
    (h : IsCharData cs) : IsCharData (c :: cs) := by
  have hne {d : Char} (hd : Text.isReserved d) : d ≠ c := fun heq => hplain (heq ▸ hd)
  refine ⟨List.forall_mem_cons.2 ⟨hc, h.isChar⟩, ?_, ?_, fun hinfix => ?_⟩
  · exact List.not_mem_cons_of_ne_of_not_mem (hne rfl) h.notMem_lt
  · exact List.not_mem_cons_of_ne_of_not_mem (hne rfl) h.notMem_amp
  · rcases List.infix_cons_iff.1 hinfix with hprefix | hinfix
    · exact hne rfl (List.cons_prefix_cons.1 hprefix).1
    · exact h.not_infix hinfix

theorem matches_content_cons {c : Char} {cs : List Char} (hc : isChar c)
    (hplain : ¬ Text.isReserved c) (h : Matches .content cs) : Matches .content (c :: cs) := by
  cases h with
  | text h => exact .text (isCharData_cons hc hplain h)
  | reference h hr hrest => exact .reference (isCharData_cons hc hplain h) hr hrest
  | child h hchild hrest => exact .child (isCharData_cons hc hplain h) hchild hrest

/-- Escaped text can stand between two tags. -/
theorem matches_content_escape {cs : List Char} (h : ∀ c ∈ cs, isChar c) :
    Matches .content (cs.flatMap Text.contentChar) := by
  induction cs with
  | nil => exact .text isCharData_nil
  | cons c cs ih =>
    have hrest := ih fun d hd => h d (List.mem_cons_of_mem c hd)
    have hc := h c List.mem_cons_self
    rw [List.flatMap_cons, Text.contentChar]
    by_cases hreserved : Text.isReserved c
    · rw [if_pos hreserved]
      exact .reference isCharData_nil (isReference_reference hc) hrest
    · rw [if_neg hreserved]
      exact matches_content_cons hc hreserved hrest

/-- A line break may follow every tag. -/
theorem matches_content_break {cs : List Char} (h : Matches .content cs) :
    Matches .content ('\n' :: cs) :=
  matches_content_cons (by decide) (by decide) h

/-! ## Attributes and tags -/

theorem areAttributes_entryChars {es : List (String × String)}
    (hnames : ∀ e ∈ es, isAttributeName e.1) (hvalues : ∀ e ∈ es, Only IsValueChar e.2) :
    AreAttributes (es.map fun e => e.1.toList) (es.flatMap Markup.entryChars) := by
  induction es with
  | nil => exact .nil
  | cons e es ih =>
    have hrest := ih (fun e he => hnames e (List.mem_cons_of_mem _ he))
      (fun e he => hvalues e (List.mem_cons_of_mem _ he))
    have hblank : ∀ c ∈ [' '], isBlank c := List.forall_mem_singleton.2 (by decide)
    have hall := AreAttributes.cons (List.cons_ne_nil ' ' []) hblank
      (isName_of_valid (hnames e List.mem_cons_self)) (.inl rfl)
      (isValue_escape (hvalues e List.mem_cons_self)) hrest
    rw [List.flatMap_cons, Markup.entryChars_eq]
    simpa using hall

/-- An element is what stands between its tags, with the line breaks that go with them. -/
theorem matches_tags {tag : String} {a : Attributes String} {content : List Char}
    (htag : isAttributeName tag) (ha : a.Legal (Only IsValueChar))
    (hcontent : Matches .content content) :
    ∃ element, (Element.opening tag a).toList ++ (content ++ (Element.closing tag).toList) =
        element ++ ['\n'] ∧ Matches (.element tag.toList) element := by
  have hnodup : (a.entries.map fun e => e.1.toList).Nodup :=
    List.pairwise_map.2 ((List.pairwise_map.1 ha.nodup).imp fun hne h =>
      hne (String.toList_inj.1 h))
  have hinner : Matches .content (Markup.breakChars tag ++ content) := by
    rw [Markup.breakChars]
    split
    · exact matches_content_break hcontent
    · exact hcontent
  have hnone : ∀ c ∈ ([] : List Char), isBlank c := List.forall_mem_nil _
  refine ⟨_, ?_, .element (isName_of_valid htag)
    (areAttributes_entryChars ha.named ha.values) hnodup hnone hinner hnone⟩
  rw [Markup.toList_opening, Markup.toList_closing]
  simp

/-! ## Elements -/

/-- An element with its line break in front of what else is between two tags. -/
theorem matches_content_element {name element rest : List Char}
    (h : Matches (.element name) element) (hrest : Matches .content rest) :
    Matches .content (element ++ ['\n'] ++ rest) := by
  have hall := Matches.child isCharData_nil h (matches_content_break hrest)
  rwa [List.nil_append, ← List.singleton_append, ← List.append_assoc] at hall

mutual

/-- **The markup of a legal tree is an element** with its name, and a line break behind it. -/
theorem matches_render : (e : Element) → e.Legal IsValueChar →
    ∃ element, e.render.toList = element ++ ['\n'] ∧ Matches (.element e.tag.toList) element
  | .text tag a content, h => by
    obtain ⟨htag, ha, hcontent⟩ := h
    rw [Element.render_text, String.append_assoc, String.toList_append, String.toList_append,
      Text.escapeContent, String.toList_ofList]
    exact matches_tags htag ha (matches_content_escape hcontent)
  | .parent tag a first rest, h => by
    obtain ⟨htag, ha, hfirst, hrest⟩ := h
    obtain ⟨element, hrender, helement⟩ := matches_render first hfirst
    rw [Element.render_parent, String.append_assoc, String.toList_append, String.toList_append]
    refine matches_tags htag ha ?_
    rw [String.toList_append, hrender]
    exact matches_content_element helement (matches_renderAll rest hrest)

/-- The markup of several elements can stand between two tags. -/
theorem matches_renderAll : (es : List Element) → Element.AllLegal IsValueChar es →
    Matches .content (Element.renderAll es).toList
  | [], _ => .text isCharData_nil
  | e :: rest, h => by
    obtain ⟨element, hrender, helement⟩ := matches_render e h.1
    rw [Element.renderAll_cons, String.toList_append, hrender]
    exact matches_content_element helement (matches_renderAll rest h.2)

end

/-- **The markup of a legal tree is a document** whose root is that of the tree. -/
theorem isDocument_render {e : Element} (h : e.Legal IsValueChar) : IsDocument e.tag e.render := by
  obtain ⟨element, hrender, helement⟩ := matches_render e h
  exact ⟨[], element, ['\n'], hrender, nofun, helement, List.forall_mem_singleton.2 (by decide)⟩

end Xml
end SyntaxDiagram
