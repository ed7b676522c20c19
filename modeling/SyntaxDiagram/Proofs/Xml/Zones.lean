import SyntaxDiagram.Proofs.Xml.Markup

/-!
# Where a tag may start

A reader of a document needs to know no more than whether it stands in a tag, and if so, whether it
stands in a quoted value there, to tell that a tag starts where none may start.

* `Xml.Zone.run`: the zone behind some characters, if no tag starts within another one.
* `Xml.Matches.run_content`: in a document none does.
* `Element.legal_of_run`: in the markup of a tree one does if a value has the character that starts
  a tag.
* `Element.isDocument_render_iff`: which trees have markup that is a document.
-/

namespace SyntaxDiagram

open Text (Only)

namespace Xml

/-- Where a reader of a document stands. -/
inductive Zone where
  /-- between tags -/
  | content
  /-- in a tag -/
  | tag
  /-- in a value between double quotes -/
  | double
  /-- in a value between single quotes -/
  | single
  deriving Repr, DecidableEq

namespace Zone

/-- The zone behind a character. No tag starts within another one. -/
def next : Zone → Char → Option Zone
  | content, c => some (if c = '<' then tag else content)
  | tag, c =>
    if c = '<' then none
    else if c = '>' then some content
    else if c = '"' then some double
    else if c = '\'' then some single
    else some tag
  | double, c => if c = '<' then none else some (if c = '"' then tag else double)
  | single, c => if c = '<' then none else some (if c = '\'' then tag else single)

/-- The zone behind several characters. -/
def run (z : Zone) (cs : List Char) : Option Zone := cs.foldlM next z

@[simp] theorem run_nil (z : Zone) : z.run [] = some z := rfl

@[simp] theorem run_cons (z : Zone) (c : Char) (cs : List Char) :
    z.run (c :: cs) = (z.next c).bind (·.run cs) := rfl

@[simp] theorem run_append (z : Zone) (a b : List Char) :
    z.run (a ++ b) = (z.run a).bind (·.run b) := List.foldlM_append

theorem run_stays {z : Zone} {cs : List Char} (h : ∀ c ∈ cs, z.next c = some z) :
    z.run cs = some z := by
  induction cs with
  | nil => rfl
  | cons c cs ih =>
    rw [List.forall_mem_cons] at h
    rw [run_cons, h.1, Option.bind_some, ih h.2]

/-- Characters that lead from no zone to another one. -/
def isInner (c : Char) : Bool := c ≠ '<' && c ≠ '>' && c ≠ '"' && c ≠ '\''

theorem next_of_isInner {c : Char} (h : isInner c) (z : Zone) : z.next c = some z := by
  simp only [isInner, Bool.and_eq_true, decide_eq_true_eq] at h
  obtain ⟨⟨⟨hlt, hgt⟩, hdouble⟩, hsingle⟩ := h
  cases z <;> simp [next, hlt, hgt, hdouble, hsingle]

theorem run_of_isInner {cs : List Char} (h : ∀ c ∈ cs, isInner c) (z : Zone) :
    z.run cs = some z :=
  run_stays fun c hc => next_of_isInner (h c hc) z

end Zone

open Zone (isInner)

/-! ## Documents -/

theorem isInner_of_isBlank {c : Char} (h : isBlank c) : isInner c := by
  simp only [isBlank, Bool.or_eq_true, decide_eq_true_eq] at h
  rcases h with ((rfl | rfl) | rfl) | rfl <;> decide

theorem IsName.isInner {cs : List Char} (h : IsName cs) : ∀ c ∈ cs, isInner c := by
  have hwithin {c : Char} (hc : isWithin (nameStarts ++ nameContinuations) c) : Zone.isInner c := by
    simp only [Zone.isInner, Bool.and_eq_true, decide_eq_true_eq]
    refine ⟨⟨⟨?_, ?_⟩, ?_⟩, ?_⟩ <;> (rintro rfl; revert hc; decide)
  obtain ⟨c, rest, rfl, hc, hrest⟩ := h
  refine List.forall_mem_cons.2 ⟨hwithin ?_, fun d hd => hwithin (hrest d hd)⟩
  rw [isWithin, List.any_append, ← isWithin, hc, Bool.true_or]

theorem IsReference.isInner {cs : List Char} (h : IsReference cs) : ∀ c ∈ cs, isInner c := by
  have hdigit {c : Char} (hc : c.isDigit) : Zone.isInner c := by
    simp only [Zone.isInner, Bool.and_eq_true, decide_eq_true_eq]
    refine ⟨⟨⟨?_, ?_⟩, ?_⟩, ?_⟩ <;> (rintro rfl; revert hc; decide)
  cases h with
  | number hne hdigits hchar =>
    simp only [List.forall_mem_cons, List.forall_mem_append]
    exact ⟨by decide, by decide, fun d hd => hdigit (hdigits d hd), by decide, nofun⟩
  | @entity name h =>
    have hnames : entities.all fun name => name.toList.all Zone.isInner := by decide
    simp only [List.all_eq_true] at hnames
    simp only [List.forall_mem_cons, List.forall_mem_append]
    exact ⟨by decide, hnames name h, by decide, nofun⟩

theorem IsValue.run_quoted {z : Zone} {quote : Char} {cs : List Char} (h : IsValue quote cs)
    (hz : ∀ c, c ≠ '<' → c ≠ quote → z.next c = some z) : z.run cs = some z := by
  induction h with
  | nil => rfl
  | char hchar hc hrest ih => rw [Zone.run_cons, hz _ hc.1 hc.2.2, Option.bind_some, ih]
  | reference h hrest ih =>
    rw [Zone.run_append, Zone.run_of_isInner h.isInner, Option.bind_some, ih]

theorem AreAttributes.run_tag {names : List (List Char)} {cs : List Char}
    (h : AreAttributes names cs) : Zone.tag.run cs = some .tag := by
  induction h with
  | nil => rfl
  | @cons names gap name value rest quote hne hgap hname hquote hvalue hrest ih =>
    have hgap' := Zone.run_of_isInner (fun c hc => isInner_of_isBlank (hgap c hc)) .tag
    have hname' := Zone.run_of_isInner hname.isInner .tag
    rcases hquote with rfl | rfl
    · have hvalue' : Zone.double.run value = some .double :=
        hvalue.run_quoted fun c hlt hc => by simp [Zone.next, hlt, hc]
      simp [hgap', hname', hvalue', ih, Zone.next]
    · have hvalue' : Zone.single.run value = some .single :=
        hvalue.run_quoted fun c hlt hc => by simp [Zone.next, hlt, hc]
      simp [hgap', hname', hvalue', ih, Zone.next]

theorem IsCharData.run_content {cs : List Char} (h : IsCharData cs) :
    Zone.content.run cs = some .content := by
  refine Zone.run_stays fun c hc => ?_
  have hlt : c ≠ '<' := fun heq => h.notMem_lt (heq ▸ hc)
  simp [Zone.next, hlt]

/-- **No tag starts within another one** in an element or between its tags. -/
theorem Matches.run_content {phrase : Phrase} {cs : List Char} (h : Matches phrase cs) :
    Zone.content.run cs = some .content := by
  induction h with
  | element hname hattributes hnames hgap hcontent hgap' ih =>
    have hname' := Zone.run_of_isInner hname.isInner .tag
    have hgap := Zone.run_of_isInner (fun c hc => isInner_of_isBlank (hgap c hc)) .tag
    have hgap' := Zone.run_of_isInner (fun c hc => isInner_of_isBlank (hgap' c hc)) .tag
    simp [hname', hattributes.run_tag, hgap, ih, hgap', Zone.next]
  | text h => exact h.run_content
  | reference h hr hrest ih =>
    simp [h.run_content, Zone.run_of_isInner hr.isInner, ih]
  | child h hchild hrest ihchild ihrest => simp [h.run_content, ihchild, ihrest]

theorem IsDocument.run_content {root text : String} (h : IsDocument root text) :
    Zone.content.run text.toList = some .content := by
  obtain ⟨before, element, after, htext, hbefore, helement, hafter⟩ := h
  have hbefore' := Zone.run_of_isInner (fun c hc => isInner_of_isBlank (hbefore c hc)) .content
  have hafter' := Zone.run_of_isInner (fun c hc => isInner_of_isBlank (hafter c hc)) .content
  simp [htext, hbefore', helement.run_content, hafter']

/-! ## Markup of trees -/

theorem run_valueChar {c : Char} (h : c ≠ '<') :
    Zone.double.run (Text.valueChar c) = some .double := by
  rw [Text.valueChar]
  split
  · exact Zone.run_of_isInner (List.all_eq_true.1 (by decide)) _
  · split
    · exact Zone.run_of_isInner (List.all_eq_true.1 (by decide)) _
    · rename_i hquote
      simp [Zone.next, h, hquote]

/-- An escaped value keeps the character that starts a tag. -/
theorem run_escapedValue {cs : List Char} {z : Zone}
    (h : Zone.double.run (cs.flatMap Text.valueChar) = some z) : z = .double ∧ '<' ∉ cs := by
  induction cs with
  | nil =>
    cases h
    exact ⟨rfl, List.not_mem_nil⟩
  | cons c cs ih =>
    rw [List.flatMap_cons, Zone.run_append] at h
    by_cases hc : c = '<'
    · subst hc
      cases h
    · rw [run_valueChar hc, Option.bind_some] at h
      obtain ⟨hz, hcs⟩ := ih h
      exact ⟨hz, fun hmem => (List.mem_cons.1 hmem).elim (fun heq => hc heq.symm) hcs⟩

theorem run_escapedContent (cs : List Char) :
    Zone.content.run (cs.flatMap Text.contentChar) = some .content := by
  refine Zone.run_stays fun d hd => ?_
  obtain ⟨c, -, hd⟩ := List.mem_flatMap.1 hd
  have hlt : d ≠ '<' := by
    rintro rfl
    rw [Text.contentChar] at hd
    split at hd
    · have hdigit : ∀ d ∈ Nat.toDigits 10 c.toNat, d.isDigit := fun d hd =>
        Nat.isDigit_of_mem_toDigits (by decide) (by decide) hd
      simp only [Text.reference, List.mem_cons, List.mem_append] at hd
      rcases hd with hd | hd | hd | hd | hd
      · exact absurd hd (by decide)
      · exact absurd hd (by decide)
      · exact absurd (hdigit _ hd) (by decide)
      · exact absurd hd (by decide)
      · exact absurd hd List.not_mem_nil
    · rename_i hreserved
      rw [← List.mem_singleton.1 hd] at hreserved
      exact hreserved (by decide)
  simp [Zone.next, hlt]

theorem run_entryChars {e : String × String} (hname : isAttributeName e.1) {z : Zone}
    (h : Zone.tag.run (Markup.entryChars e) = some z) : z = .tag ∧ '<' ∉ e.2.toList := by
  have hchars := Zone.run_of_isInner (isName_of_valid hname).isInner .tag
  have hopen : Zone.tag.run (Markup.entryChars e) =
      (Zone.double.run (e.2.toList.flatMap Text.valueChar)).bind (·.run ['"']) := by
    rw [Markup.entryChars_eq]
    simp [hchars, Zone.next]
  rw [hopen] at h
  obtain ⟨behind, hvalue, hclose⟩ := Option.bind_eq_some_iff.1 h
  obtain ⟨rfl, hlt⟩ := run_escapedValue hvalue
  cases hclose
  exact ⟨rfl, hlt⟩

theorem run_entries {es : List (String × String)} (hnames : ∀ e ∈ es, isAttributeName e.1)
    {z : Zone} (h : Zone.tag.run (es.flatMap Markup.entryChars) = some z) :
    z = .tag ∧ ∀ e ∈ es, '<' ∉ e.2.toList := by
  induction es with
  | nil =>
    cases h
    exact ⟨rfl, nofun⟩
  | cons e es ih =>
    rw [List.forall_mem_cons] at hnames
    rw [List.flatMap_cons, Zone.run_append] at h
    obtain ⟨behind, he, hes⟩ := Option.bind_eq_some_iff.1 h
    obtain ⟨rfl, hlt⟩ := run_entryChars hnames.1 he
    obtain ⟨hz, hrest⟩ := ih hnames.2 hes
    exact ⟨hz, List.forall_mem_cons.2 ⟨hlt, hrest⟩⟩

theorem run_opening {tag : String} (htag : isAttributeName tag) {a : Attributes String}
    (ha : a.Legal (Only (isChar ·))) {z : Zone}
    (h : Zone.content.run (Element.opening tag a).toList = some z) :
    z = .content ∧ a.Legal (Only IsValueChar) := by
  have htag' := Zone.run_of_isInner (isName_of_valid htag).isInner .tag
  have hbreak : Zone.content.run (Markup.breakChars tag) = some .content := by
    rw [Markup.breakChars]
    split <;> rfl
  have hopen : Zone.content.run (Element.opening tag a).toList =
      (Zone.tag.run (a.entries.flatMap Markup.entryChars)).bind
        (·.run ('>' :: Markup.breakChars tag)) := by
    rw [Markup.toList_opening]
    simp [htag', Zone.next]
  rw [hopen] at h
  obtain ⟨behind, hentries, hclose⟩ := Option.bind_eq_some_iff.1 h
  obtain ⟨rfl, hlt⟩ := run_entries ha.named hentries
  have hclosed : Zone.tag.run ('>' :: Markup.breakChars tag) = some .content := by
    simp [Zone.next, hbreak]
  rw [hclosed] at hclose
  cases hclose
  refine ⟨rfl, ha.named, ha.nodup, fun e he c hc => ⟨ha.values e he c hc, ?_⟩⟩
  rintro rfl
  exact hlt e he hc

theorem run_closing {tag : String} (htag : isAttributeName tag) :
    Zone.content.run (Element.closing tag).toList = some .content := by
  have htag' := Zone.run_of_isInner (isName_of_valid htag).isInner .tag
  rw [Markup.toList_closing]
  simp [htag', Zone.next]

end Xml

namespace Element

open Xml

mutual

/-- **Only legal values are read through**: where no tag starts within another one, no value of the
tree has the character that starts a tag. -/
theorem legal_of_run : (e : Element) → e.Legal (isChar ·) → ∀ z,
    Zone.content.run e.render.toList = some z → z = .content ∧ e.Legal IsValueChar
  | text tag a content, ⟨htag, ha, hcontent⟩, z, h => by
    rw [render_text, String.toList_append, String.toList_append, List.append_assoc,
      Zone.run_append] at h
    obtain ⟨behind, hopening, hrest⟩ := Option.bind_eq_some_iff.1 h
    obtain ⟨rfl, ha'⟩ := run_opening htag ha hopening
    rw [Text.escapeContent, String.toList_ofList, Zone.run_append, run_escapedContent,
      Option.bind_some, run_closing htag] at hrest
    cases hrest
    exact ⟨rfl, htag, ha', hcontent⟩
  | parent tag a first rest, ⟨htag, ha, hfirst, hrest⟩, z, h => by
    rw [render_parent, String.toList_append, String.toList_append, String.toList_append,
      List.append_assoc, List.append_assoc, Zone.run_append] at h
    obtain ⟨behind, hopening, h⟩ := Option.bind_eq_some_iff.1 h
    obtain ⟨rfl, ha'⟩ := run_opening htag ha hopening
    rw [Zone.run_append] at h
    obtain ⟨behind, hrender, h⟩ := Option.bind_eq_some_iff.1 h
    obtain ⟨rfl, hfirst'⟩ := legal_of_run first hfirst _ hrender
    rw [Zone.run_append] at h
    obtain ⟨behind, hrenders, h⟩ := Option.bind_eq_some_iff.1 h
    obtain ⟨rfl, hrest'⟩ := allLegal_of_run rest hrest _ hrenders
    rw [run_closing htag] at h
    cases h
    exact ⟨rfl, htag, ha', hfirst', hrest'⟩

/-- The same for several trees. -/
theorem allLegal_of_run : (es : List Element) → AllLegal (isChar ·) es → ∀ z,
    Zone.content.run (renderAll es).toList = some z → z = .content ∧ AllLegal IsValueChar es
  | [], _, z, h => by
    cases h
    exact ⟨rfl, trivial⟩
  | e :: rest, ⟨he, hrest⟩, z, h => by
    rw [renderAll_cons, String.toList_append, Zone.run_append] at h
    obtain ⟨behind, hrender, h⟩ := Option.bind_eq_some_iff.1 h
    obtain ⟨rfl, he'⟩ := legal_of_run e he _ hrender
    obtain ⟨hz, hrest'⟩ := allLegal_of_run rest hrest _ h
    exact ⟨hz, he', hrest'⟩

end

/-- **Which trees have markup that is a document**: those whose values lack the character that
starts a tag, given that names and characters are fine. -/
theorem isDocument_render_iff {e : Element} (h : e.Legal (isChar ·)) :
    IsDocument e.tag e.render ↔ e.Legal IsValueChar :=
  ⟨fun hdocument => (legal_of_run e h _ hdocument.run_content).2, isDocument_render⟩

end Element
end SyntaxDiagram
