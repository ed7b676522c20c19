import SyntaxDiagram.Element

/-!
# Reachable elements

Elements are made step by step: an element with text is built, its attributes are changed, and
other elements become its children.

* `Attributes.Step`, `Attributes.Reachable`: one change, and any number of them from no attributes.
* `Element.Reachable`: elements made from reachable attributes and reachable children.
* `Element.Every`: a property of all elements in a tree.
* `Element.Reachable.every_named`: all attribute names in a reachable element are valid.
-/

namespace SyntaxDiagram

namespace Attributes

/-- One change. A name that is not valid is refused, which changes nothing. -/
inductive Step : Attributes String → Attributes String → Prop
  | add {a b : Attributes String} {name value : String} (h : a.add name value = .ok b) : Step a b
  | concat {a b : Attributes String} {name value : String} (h : a.concat name value = .ok b) :
      Step a b
  | erase (a : Attributes String) (name : String) : Step a (a.erase name)

/-- What comes of any number of changes, starting without attributes. -/
inductive Reachable : Attributes String → Prop
  | empty : Reachable ∅
  | step {a b : Attributes String} (ha : Reachable a) (h : Step a b) : Reachable b

/-- All names are valid. -/
def Named (a : Attributes String) : Prop := ∀ e ∈ a.entries, isAttributeName e.1

theorem named_upsert {a : Attributes String} (ha : a.Named) {name : String}
    (hname : isAttributeName name) (value : Option String → String) :
    (a.upsert name value).Named := by
  obtain ⟨es⟩ := a
  have hupsert : ∀ es : List (String × String), (∀ e ∈ es, isAttributeName e.1) →
      ∀ e ∈ upsertEntries name value es, isAttributeName e.1 := by
    intro es
    induction es with
    | nil =>
      intro _ e he
      rw [upsertEntries, List.mem_singleton] at he
      rw [he]
      exact hname
    | cons first rest ih =>
      intro hes e he
      rw [upsertEntries] at he
      split at he
      · rcases List.mem_cons.1 he with rfl | he
        · exact hname
        · exact hes e (List.mem_cons_of_mem _ he)
      · rcases List.mem_cons.1 he with rfl | he
        · exact hes e List.mem_cons_self
        · exact ih (fun e he => hes e (List.mem_cons_of_mem _ he)) e he
  exact hupsert es ha

/-- A change keeps all names valid. -/
theorem Step.named {a b : Attributes String} (h : Step a b) (ha : a.Named) : b.Named := by
  cases h with
  | add h =>
    rw [Attributes.add] at h
    split at h
    · cases h
      exact named_upsert ha ‹_› _
    · cases h
  | concat h =>
    rw [Attributes.concat] at h
    split at h
    · cases h
      exact named_upsert ha ‹_› _
    · cases h
  | erase name => exact fun e he => ha e (List.mem_of_mem_eraseP he)

theorem Reachable.named {a : Attributes String} (h : Reachable a) : a.Named := by
  induction h with
  | empty => exact fun e he => absurd he List.not_mem_nil
  | step ha h ih => exact h.named ih

end Attributes

namespace Element

variable {P Q : String → Attributes String → Prop}

mutual

/-- A property of the name and the attributes of every element in a tree. -/
def Every (P : String → Attributes String → Prop) : Element → Prop
  | text tag attributes _ => P tag attributes
  | parent tag attributes first rest => P tag attributes ∧ first.Every P ∧ EveryOf P rest

/-- The same for several trees. -/
def EveryOf (P : String → Attributes String → Prop) : List Element → Prop
  | [] => True
  | e :: rest => e.Every P ∧ EveryOf P rest

end

theorem everyOf_append (a b : List Element) : EveryOf P (a ++ b) ↔ EveryOf P a ∧ EveryOf P b := by
  induction a with
  | nil => simp [EveryOf]
  | cons e rest ih => rw [List.cons_append, EveryOf, EveryOf, ih, and_assoc]

theorem every_iff (e : Element) : e.Every P ↔ P e.tag e.attributes ∧ EveryOf P e.children := by
  cases e with
  | text tag a content => simp [Every, Element.tag, attributes, children, EveryOf]
  | parent tag a first rest => rfl

theorem every_appendChild (e child : Element) :
    (e.appendChild child).Every P ↔ e.Every P ∧ child.Every P := by
  rw [every_iff, every_iff e, appendChild, tag_ofChildren, attributes_ofChildren,
    children_ofChildren, everyOf_append, EveryOf, EveryOf, and_true, and_assoc]

mutual

theorem Every.and : (e : Element) → e.Every P → e.Every Q → e.Every fun tag a => P tag a ∧ Q tag a
  | text .., hp, hq => ⟨hp, hq⟩
  | parent _ _ first rest, hp, hq =>
    ⟨⟨hp.1, hq.1⟩, Every.and first hp.2.1 hq.2.1, EveryOf.and rest hp.2.2 hq.2.2⟩

theorem EveryOf.and : (es : List Element) → EveryOf P es → EveryOf Q es →
    EveryOf (fun tag a => P tag a ∧ Q tag a) es
  | [], _, _ => trivial
  | e :: rest, hp, hq => ⟨Every.and e hp.1 hq.1, EveryOf.and rest hp.2 hq.2⟩

end

/-- What can be made by building elements, changing attributes and adding children. -/
inductive Reachable : Element → Prop
  | build (tag content : String) {a : Attributes String} (ha : a.Reachable) :
      Reachable (.text tag a content)
  | change {e : Element} {a : Attributes String} (he : Reachable e) (h : e.attributes.Step a) :
      Reachable (e.mapAttributes fun _ => a)
  | append {e child : Element} (he : Reachable e) (hchild : Reachable child) :
      Reachable (e.appendChild child)

/-- **Attribute names stay valid** in everything that is made step by step. -/
theorem Reachable.every_named {e : Element} (h : Reachable e) : e.Every fun _ a => a.Named := by
  induction h with
  | build tag content ha => exact ha.named
  | @change e a he h ih =>
    rw [every_iff] at ih
    have ha := h.named ih.1
    cases e with
    | text tag _ content => exact ha
    | parent tag _ first rest => exact ⟨ha, ih.2⟩
  | append he hchild ih ihchild => exact (every_appendChild _ _).2 ⟨ih, ihchild⟩

end Element
end SyntaxDiagram
