import SyntaxDiagram.Proofs.Markup.Reachable
import SyntaxDiagram.Proofs.Markup.Reader

/-!
# Markup can be read back

* `Markup.decodeValue_escape`, `Markup.decodeContent_escape`: both escapes are undone.
* `Markup.element_render`: the reader takes the markup of an element off the front of a text.
* `Element.read_render`: markup gives back its element, so that no two elements have the same.
-/

namespace SyntaxDiagram

namespace Markup

/-! ## Escapes -/

theorem decodeValue_cons {c : Char} (h : c ≠ '&') (cs : List Char) :
    decodeValue (c :: cs) = (decodeValue cs).map (c :: ·) := by
  rw [decodeValue]
  · exact fun _ hc => absurd hc h
  · exact fun _ hc => absurd hc h
  · exact h

theorem decodeContent_cons {c : Char} (h : c ≠ '&') (cs : List Char) :
    decodeContent (c :: cs) = (decodeContent cs).map (c :: ·) := by
  rw [decodeContent]
  · exact fun _ hc => absurd hc h
  · exact h

/-- A character of a value is read back from what is written for it. -/
theorem decodeValue_valueChar (c : Char) (cs : List Char) :
    decodeValue (Text.valueChar c ++ cs) = (decodeValue cs).map (c :: ·) := by
  rw [Text.valueChar]
  by_cases hamp : c = '&'
  · rw [if_pos hamp, hamp]
    rfl
  · rw [if_neg hamp]
    by_cases hquot : c = '"'
    · rw [if_pos hquot, hquot]
      rfl
    · rw [if_neg hquot]
      exact decodeValue_cons hamp cs

/-- A character of content is read back from what is written for it. -/
theorem decodeContent_contentChar (c : Char) (cs : List Char) :
    decodeContent (Text.contentChar c ++ cs) = (decodeContent cs).map (c :: ·) := by
  rw [Text.contentChar]
  by_cases h : Text.isReserved c
  · rw [if_pos h]
    simp only [Text.isReserved, Bool.or_eq_true, decide_eq_true_eq] at h
    -- the eight characters that are written by number
    rcases h with ((((((h | h) | h) | h) | h) | h) | h) | h <;> rw [h] <;> rfl
  · rw [if_neg h]
    refine decodeContent_cons (fun hc => ?_) cs
    rw [hc] at h
    exact h rfl

theorem decodeValue_escape (cs : List Char) :
    decodeValue (cs.flatMap Text.valueChar) = some cs := by
  induction cs with
  | nil => rfl
  | cons c cs ih => rw [List.flatMap_cons, decodeValue_valueChar, ih, Option.map_some]

theorem decodeContent_escape (cs : List Char) :
    decodeContent (cs.flatMap Text.contentChar) = some cs := by
  induction cs with
  | nil => rfl
  | cons c cs ih => rw [List.flatMap_cons, decodeContent_contentChar, ih, Option.map_some]

/-- No quote is left in a written value. -/
theorem quote_notMem_escape (cs : List Char) : '"' ∉ cs.flatMap Text.valueChar := by
  intro h
  obtain ⟨c, -, hc⟩ := List.mem_flatMap.1 h
  rw [Text.valueChar] at hc
  split at hc
  · revert hc
    decide
  · split at hc
    · revert hc
      decide
    · exact ‹¬ c = '"'› (List.mem_singleton.1 hc).symm

/-- No tag starts in written content. -/
theorem lt_notMem_escape (cs : List Char) : '<' ∉ cs.flatMap Text.contentChar := by
  intro h
  obtain ⟨c, -, hc⟩ := List.mem_flatMap.1 h
  rw [Text.contentChar] at hc
  split at hc
  · rename_i hr
    simp only [Text.isReserved, Bool.or_eq_true, decide_eq_true_eq] at hr
    rcases hr with ((((((hr | hr) | hr) | hr) | hr) | hr) | hr) | hr <;> rw [hr] at hc <;>
      revert hc <;> decide
  · rename_i hr
    rw [← List.mem_singleton.1 hc] at hr
    exact hr rfl

/-! ## Cutting -/

theorem cutAt_append {stop : Char} {cs : List Char} (h : stop ∉ cs) (rest : List Char) :
    cutAt stop (cs ++ stop :: rest) = some (cs, rest) := by
  have hall : ∀ c ∈ cs, decide (c ≠ stop) = true := by
    intro c hc
    exact decide_eq_true fun heq => h (heq ▸ hc)
  rw [cutAt, List.dropWhile_append_of_pos hall, List.takeWhile_append_of_pos hall]
  simp

/-- A valid name is not empty, starts with a letter and holds nothing but parts of names. -/
theorem isNamePart_of_valid {name : String} (h : isAttributeName name) :
    ∃ c cs, name.toList = c :: cs ∧ c.isAlpha ∧ ∀ d ∈ c :: cs, isNamePart d := by
  rw [isAttributeName] at h
  split at h
  · cases h
  · rename_i c cs hname
    rw [Bool.and_eq_true, List.all_eq_true] at h
    refine ⟨c, cs, hname, h.1, fun d hd => ?_⟩
    rcases List.mem_cons.1 hd with rfl | hd
    · simp [isNamePart, Char.isAlphanum, h.1]
    · exact h.2 d hd

/-- Names are cut off where something else starts. -/
theorem cut_name {name : String} (h : isAttributeName name) {c : Char} (hc : isNamePart c = false)
    (rest : List Char) :
    (name.toList ++ c :: rest).takeWhile isNamePart = name.toList ∧
      (name.toList ++ c :: rest).dropWhile isNamePart = c :: rest := by
  obtain ⟨_, _, hname, -, hall⟩ := isNamePart_of_valid h
  rw [← hname] at hall
  rw [List.takeWhile_append_of_pos hall, List.dropWhile_append_of_pos hall,
    List.takeWhile_cons_of_neg (by rw [hc]; decide), List.append_nil,
    List.dropWhile_cons_of_neg (by rw [hc]; decide)]
  exact ⟨rfl, rfl⟩

/-! ## Attributes -/

/-- An attribute as it is written in a tag, with a blank in front. -/
def entryChars (e : String × String) : List Char := ' ' :: (Attributes.entryText e).toList

theorem entryChars_eq (e : String × String) :
    entryChars e =
      ' ' :: (e.1.toList ++ '=' :: '"' :: (e.2.toList.flatMap Text.valueChar ++ ['"'])) := by
  simp [entryChars, Attributes.entryText, Text.escapeValue]

theorem entry_entryChars {e : String × String} (h : isAttributeName e.1) (rest : List Char) :
    entry (entryChars e ++ rest) = some (e, rest) := by
  obtain ⟨htake, hdrop⟩ := cut_name h (c := '=') (by decide)
    ('"' :: (e.2.toList.flatMap Text.valueChar ++ '"' :: rest))
  rw [entryChars_eq]
  simp only [List.cons_append, List.append_assoc, List.nil_append, entry, htake, hdrop,
    cutAt_append (quote_notMem_escape _), Option.bind_eq_bind, Option.bind_some,
    decodeValue_escape, String.ofList_toList]
  rfl

theorem entries_of_entry {bound : Nat} {cs rest : List Char} {e : String × String}
    (h : entry cs = some (e, rest)) :
    entries (bound + 1) cs = (entries bound rest).map fun r => (e :: r.1, r.2) := by
  cases cs with
  | nil => cases h
  | cons c cs =>
    have hc : c ≠ '>' := by
      rintro rfl
      cases h
    rw [entries, h, Option.bind_eq_bind, Option.bind_some]
    · change (entries bound rest >>= fun r => pure (e :: r.1, r.2)) = _
      cases entries bound rest <;> rfl
    · exact fun _ hcs => hc (List.cons.inj hcs).1

/-- Attributes are read up to the end of the tag, if there is room for all of them. -/
theorem entries_entryChars {es : List (String × String)} (h : ∀ e ∈ es, isAttributeName e.1)
    {bound : Nat} (hbound : (es.flatMap entryChars).length < bound) (rest : List Char) :
    entries bound (es.flatMap entryChars ++ '>' :: rest) = some (es, rest) := by
  induction es generalizing bound with
  | nil =>
    cases bound with
    | zero => omega
    | succ bound => rfl
  | cons e es ih =>
    cases bound with
    | zero => omega
    | succ bound =>
      rw [List.flatMap_cons, List.length_append, entryChars, List.length_cons] at hbound
      rw [List.flatMap_cons, List.append_assoc,
        entries_of_entry (entry_entryChars (h e List.mem_cons_self) _),
        ih (fun e he => h e (List.mem_cons_of_mem _ he)) (by omega), Option.map_some]

theorem text_eq_entryChars {a : Attributes String} (h : a.isEmpty = false) :
    (" " ++ a.text).toList = a.entries.flatMap entryChars := by
  obtain ⟨es⟩ := a
  have hjoin : ∀ (es : List (String × String)) (e : String × String),
      (" " ++ " ".intercalate ((e :: es).map Attributes.entryText)).toList =
        (e :: es).flatMap entryChars := by
    intro es
    induction es with
    | nil => intro e; simp [entryChars]
    | cons next es ih =>
      intro e
      rw [List.map_cons, List.map_cons, String.intercalate_cons_cons, ← List.map_cons,
        String.append_assoc, ← String.append_assoc, String.toList_append, ih, List.flatMap_cons]
      simp [entryChars]
  cases es with
  | nil => cases h
  | cons e es => exact hjoin es e

/-! ## Tags -/

/-- The line break behind an opening tag. -/
def breakChars (tag : String) : List Char := if Element.breaksAfterOpening tag then ['\n'] else []

theorem toList_opening (tag : String) (a : Attributes String) :
    (Element.opening tag a).toList =
      '<' :: (tag.toList ++ (a.entries.flatMap entryChars ++ '>' :: breakChars tag)) := by
  have hbreak : (if Element.breaksAfterOpening tag then "\n" else "").toList = breakChars tag := by
    rw [breakChars]
    split <;> rfl
  cases h : a.isEmpty with
  | true =>
    have hentries : a.entries = [] := List.isEmpty_iff.1 h
    simp [Element.opening, h, hentries, hbreak]
  | false =>
    rw [← text_eq_entryChars h]
    simp [Element.opening, h, hbreak]

theorem toList_closing (tag : String) :
    (Element.closing tag).toList = '<' :: '/' :: (tag.toList ++ ['>', '\n']) := by
  simp [Element.closing]

theorem closing_closing {tag : String} (h : isAttributeName tag) (rest : List Char) :
    closing tag ((Element.closing tag).toList ++ rest) = some rest := by
  obtain ⟨htake, hdrop⟩ := cut_name h (c := '>') (by decide) ('\n' :: rest)
  simp [toList_closing, closing, htake, hdrop, dropBreak]

theorem atClosing_closing (tag : String) (rest : List Char) :
    atClosing ((Element.closing tag).toList ++ rest) = true := by
  rw [toList_closing]
  rfl

theorem opening_opening {tag : String} {a : Attributes String} (h : isAttributeName tag)
    (ha : a.Named) {bound : Nat} (hbound : (Element.opening tag a).length ≤ bound + 1)
    (rest : List Char) :
    opening bound ((Element.opening tag a).toList ++ rest) = some (tag, a, rest) := by
  rw [← String.length_toList, toList_opening] at hbound
  simp only [List.length_cons, List.length_append] at hbound
  -- behind the name comes a blank or the end of the tag
  obtain ⟨c, cs, hcs, hc⟩ : ∃ c cs,
      a.entries.flatMap entryChars ++ '>' :: (breakChars tag ++ rest) = c :: cs ∧
        isNamePart c = false := by
    cases a.entries with
    | nil => exact ⟨'>', _, rfl, by decide⟩
    | cons e es => exact ⟨' ', _, rfl, by decide⟩
  obtain ⟨htake, hdrop⟩ := cut_name h hc cs
  have hroom : (a.entries.flatMap entryChars).length < bound := by omega
  have hentries := entries_entryChars ha hroom (breakChars tag ++ rest)
  rw [hcs] at hentries
  have hbreak : (if tag = "g" || tag = "svg" then dropBreak (breakChars tag ++ rest)
      else breakChars tag ++ rest) = rest := by
    rw [breakChars, Element.breaksAfterOpening]
    split <;> rfl
  rw [toList_opening]
  simp only [List.cons_append, List.append_assoc, opening, hcs, htake, hdrop, hentries,
    String.ofList_toList, Option.bind_eq_bind, Option.bind_some, hbreak]
  rfl

/-! ## Elements -/

theorem length_opening_pos (tag : String) (a : Attributes String) :
    0 < (Element.opening tag a).length := by
  rw [← String.length_toList, toList_opening]
  exact Nat.zero_lt_succ _

theorem length_closing_pos (tag : String) : 1 < (Element.closing tag).length := by
  rw [← String.length_toList, toList_closing]
  simp

/-- Element markup starts with an opening tag. -/
theorem render_eq_opening_append (e : Element) :
    ∃ behind, e.render.toList = (Element.opening e.tag e.attributes).toList ++ behind := by
  cases e with
  | text tag a content =>
    rw [Element.render_text, String.append_assoc, String.toList_append]
    exact ⟨_, rfl⟩
  | parent tag a first rest =>
    rw [Element.render_parent, String.append_assoc, String.toList_append]
    exact ⟨_, rfl⟩

/-- No closing tag stands where an element is written. -/
theorem atClosing_render {e : Element} (h : isAttributeName e.tag) (rest : List Char) :
    (e.render.toList ++ rest).head? = some '<' ∧ atClosing (e.render.toList ++ rest) = false := by
  obtain ⟨behind, hbehind⟩ := render_eq_opening_append e
  obtain ⟨c, cs, hname, halpha, -⟩ := isNamePart_of_valid h
  -- a name starts with a letter
  have hc : c ≠ '/' := by
    rintro rfl
    revert halpha
    decide
  rw [hbehind, toList_opening, hname]
  refine ⟨rfl, ?_⟩
  simp only [List.cons_append, atClosing]
  split
  · rename_i heq
    exact absurd (List.cons.inj (List.cons.inj heq).2).1 hc
  · rfl

/-- What a reader of markup relies on: all names in a tree are valid. -/
def Readable (tag : String) (a : Attributes String) : Prop := isAttributeName tag ∧ a.Named

/-- An element with text, once the reader takes the opening tag off. -/
theorem element_text {bound : Nat} {cs behind : List Char} {tag : String} {a : Attributes String}
    (htag : isAttributeName tag) (content : String)
    (hopening : opening bound cs = some (tag, a, (Text.escapeContent content).toList ++
      ((Element.closing tag).toList ++ behind))) :
    element (bound + 1) cs = some (.text tag a content, behind) := by
  -- no tag starts in the content, so it goes up to the closing tag
  have hall : ∀ c ∈ (Text.escapeContent content).toList, decide (c ≠ '<') = true := by
    intro c hc
    rw [Text.escapeContent, String.toList_ofList] at hc
    exact decide_eq_true fun heq => lt_notMem_escape _ (heq ▸ hc)
  have htake : ((Text.escapeContent content).toList ++
      ((Element.closing tag).toList ++ behind)).takeWhile (· ≠ '<') =
        (Text.escapeContent content).toList := by
    rw [List.takeWhile_append_of_pos hall, toList_closing]
    simp
  have hdrop : ((Text.escapeContent content).toList ++
      ((Element.closing tag).toList ++ behind)).dropWhile (· ≠ '<') =
        (Element.closing tag).toList ++ behind := by
    rw [List.dropWhile_append_of_pos hall, toList_closing]
    simp
  -- and no child starts in front of that
  have hnone : ¬ (((Text.escapeContent content).toList ++ ((Element.closing tag).toList ++
      behind)).head? = some '<' && !atClosing ((Text.escapeContent content).toList ++
        ((Element.closing tag).toList ++ behind))) = true := by
    cases hcontent : (Text.escapeContent content).toList with
    | nil => simp [atClosing_closing]
    | cons c cs =>
      have hc := hall c (hcontent ▸ List.mem_cons_self)
      simp [of_decide_eq_true hc]
  rw [element, hopening]
  simp only [Option.bind_eq_bind, Option.bind_some, if_neg hnone, htake, hdrop,
    closing_closing htag]
  rw [Text.escapeContent, String.toList_ofList, decodeContent_escape]
  simp

/-- An element with children, once the reader takes the tags and the children off. -/
theorem element_parent {bound : Nat} {cs rest behind : List Char} {tag : String}
    {a : Attributes String} {first : Element} {children : List Element}
    (htag : isAttributeName tag) (hfirst : isAttributeName first.tag)
    (hopening : opening bound cs = some (tag, a, first.render.toList ++ rest))
    (hread : element bound (first.render.toList ++ rest) = some (first, rest))
    (hchildren : elements bound rest =
      some (children, (Element.closing tag).toList ++ behind)) :
    element (bound + 1) cs = some (.parent tag a first children, behind) := by
  obtain ⟨hhead, hclosing⟩ := atClosing_render hfirst rest
  rw [element, hopening]
  simp only [Option.bind_eq_bind, Option.bind_some]
  rw [if_pos (by rw [hhead, hclosing]; rfl), hread, Option.bind_some, hchildren, Option.bind_some,
    closing_closing htag, Option.bind_some]
  rfl

mutual

/-- **Markup is read back**, with anything behind it: the reader takes off what belongs to the
element and leaves the rest. -/
theorem element_render : (e : Element) → e.Every Readable → {bound : Nat} →
    e.render.length ≤ bound → (rest : List Char) →
    element bound (e.render.toList ++ rest) = some (e, rest)
  | .text tag a content, ⟨htag, ha⟩, bound, hbound, rest => by
    have hpos := length_opening_pos tag a
    rw [Element.render_text] at hbound ⊢
    simp only [String.length_append] at hbound
    obtain ⟨bound, rfl⟩ : ∃ less, bound = less + 1 := ⟨bound - 1, by omega⟩
    refine element_text htag content ?_
    rw [String.toList_append, String.toList_append, List.append_assoc, List.append_assoc]
    exact opening_opening htag ha (by omega) _
  | .parent tag a first children, ⟨⟨htag, ha⟩, hfirst, hchildren⟩, bound, hbound, rest => by
    have hopens := length_opening_pos tag a
    have hcloses := length_closing_pos tag
    rw [Element.render_parent] at hbound ⊢
    simp only [String.length_append] at hbound
    obtain ⟨bound, rfl⟩ : ∃ less, bound = less + 1 := ⟨bound - 1, by omega⟩
    have hname : isAttributeName first.tag := ((Element.every_iff first).1 hfirst).1.1
    refine element_parent htag hname ?_ (element_render first hfirst (by omega) _)
      (elements_renderAll children hchildren (by omega) (atClosing_closing tag rest))
    simp only [String.toList_append, List.append_assoc]
    exact opening_opening htag ha (by omega) _

/-- Elements one after another are read back up to a closing tag. -/
theorem elements_renderAll : (es : List Element) → Element.EveryOf Readable es → {bound : Nat} →
    (Element.renderAll es).length < bound → {rest : List Char} → atClosing rest = true →
    elements bound ((Element.renderAll es).toList ++ rest) = some (es, rest)
  | [], _, bound, hbound, rest, hrest => by
    obtain ⟨bound, rfl⟩ : ∃ less, bound = less + 1 := ⟨bound - 1, by omega⟩
    rw [Element.renderAll_nil, elements]
    exact if_pos hrest
  | e :: es, ⟨he, hes⟩, bound, hbound, rest, hrest => by
    obtain ⟨bound, rfl⟩ : ∃ less, bound = less + 1 := ⟨bound - 1, by omega⟩
    have hname : isAttributeName e.tag := ((Element.every_iff e).1 he).1.1
    have hpos : 0 < e.render.length := by
      obtain ⟨behind, hbehind⟩ := render_eq_opening_append e
      rw [← String.length_toList, hbehind, List.length_append, String.length_toList]
      exact Nat.lt_of_lt_of_le (length_opening_pos _ _) (Nat.le_add_right _ _)
    rw [Element.renderAll_cons, String.length_append] at hbound
    rw [Element.renderAll_cons, String.toList_append, List.append_assoc, elements,
      if_neg (by rw [(atClosing_render hname _).2]; decide), element_render e he (by omega) _]
    simp only [Option.bind_eq_bind, Option.bind_some,
      elements_renderAll es hes (show _ < bound by omega) hrest]
    rfl

end

end Markup

namespace Element

/-- Every name of an element in a tree is valid. -/
def TagsValid (e : Element) : Prop := e.Every fun tag _ => isAttributeName tag

/-- **Serialization can be undone.** The markup of a reachable element whose tags are valid names
gives back the element: tags, attributes in their order, text and children. So no other such element
has the same markup. -/
theorem read_render {e : Element} (he : e.Reachable) (htags : e.TagsValid) :
    Markup.read e.render = some e ∧
      ∀ e' : Element, e'.Reachable → e'.TagsValid → e'.render = e.render → e' = e := by
  have hread : ∀ e : Element, e.Reachable → e.TagsValid → Markup.read e.render = some e := by
    intro e he htags
    have h := Markup.element_render e (Every.and e htags he.every_named) (Nat.le_refl _) []
    rw [List.append_nil] at h
    rw [Markup.read, h]
  refine ⟨hread e he htags, fun e' he' htags' heq => ?_⟩
  have h := hread e' he' htags'
  rw [heq, hread e he htags] at h
  exact (Option.some.inj h).symm

/-- A group around a text, with characters that have a meaning in markup. -/
theorem read_render_group :
    ∃ a : Attributes String, a.entries = [("class", "\"&quot;")] ∧
      Markup.read (Element.parent "g" a (.text "text" ∅ "</g>\n&") []).render =
        some (.parent "g" a (.text "text" ∅ "</g>\n&") []) := by
  refine ⟨⟨[("class", "\"&quot;")]⟩, rfl, (read_render ?_ ?_).1⟩
  · have hadd : (∅ : Attributes String).add "class" "\"&quot;" =
        .ok ⟨[("class", "\"&quot;")]⟩ := rfl
    exact .append (.build "g" "" (.step .empty (.add hadd))) (.build "text" "</g>\n&" .empty)
  · exact ⟨rfl, rfl, trivial⟩

end Element
end SyntaxDiagram
