import SyntaxDiagram.Drawing
import SyntaxDiagram.Decimal.Notation
import SyntaxDiagram.Proofs.Xml.Markup

/-!
# Legal drawings

What the texts in a drawing may be for its element tree to be legal. Numbers and paths are written
with characters that may stand anywhere.

* `Decimal.isPlain_write`: the characters of written numbers.
* `Value.Legal`, `Path.Legal`, `Drawing.Legal`: texts and raw path data are of a class of
  characters.
* `Attributes.Legal.set`: legal attributes stay legal.
* `Drawing.legal_toElement`: the element tree of a drawing is legal exactly if the drawing is.
-/

namespace SyntaxDiagram

open Text (Only isPlain)

/-! ## Numbers -/

namespace Decimal

theorem isPlain_of_isDigit {c : Char} (h : c.isDigit) : isPlain c := by
  have := toNat_of_isDigit h
  simp only [isPlain, Bool.and_eq_true, decide_eq_true_eq]
  refine ⟨by omega, ?_⟩
  rintro rfl
  revert h
  decide

theorem isPlain_toDigits (n : Nat) : ∀ c ∈ Nat.toDigits 10 n, isPlain c := fun _ hc =>
  isPlain_of_isDigit (Nat.isDigit_of_mem_toDigits (by decide) (by decide) hc)

theorem isPlain_scientific {digits : List Char} (h : ∀ c ∈ digits, isPlain c) (order : Int) :
    ∀ c ∈ scientific digits order, isPlain c := by
  have hpointed : ∀ c ∈ pointed digits, isPlain c := by
    unfold pointed
    split
    · exact h
    · exact h
    · simp only [List.forall_mem_cons] at h ⊢
      exact ⟨h.1, by decide, h.2⟩
  have hsign : isPlain (if order < 0 then '-' else '+') := by
    split <;> decide
  rw [scientific]
  simp only [List.forall_mem_append, List.forall_mem_cons]
  exact ⟨hpointed, by decide, hsign, isPlain_toDigits _⟩

theorem isPlain_positional {digits : List Char} (h : ∀ c ∈ digits, isPlain c) (wholePoint : Bool)
    (order : Int) : ∀ c ∈ positional wholePoint digits order, isPlain c := by
  have hzeros (n : Nat) : ∀ c ∈ List.replicate n '0', isPlain c := by
    intro c hc
    rw [List.eq_of_mem_replicate hc]
    decide
  have hpoint : ∀ c ∈ (if wholePoint then ['.', '0'] else []), isPlain c := by
    cases wholePoint <;> exact List.all_eq_true.1 (by decide)
  rw [positional]
  split
  · simp only [List.forall_mem_append, List.forall_mem_cons]
    exact ⟨by decide, by decide, hzeros _, h⟩
  · dsimp only
    split
    · simp only [List.forall_mem_append]
      exact ⟨⟨h, hzeros _⟩, hpoint⟩
    · simp only [List.forall_mem_append, List.forall_mem_cons]
      exact ⟨fun c hc => h c (List.mem_of_mem_take hc), by decide,
        fun c hc => h c (List.mem_of_mem_drop hc)⟩

/-- **Written numbers** have plain characters only, those that are not numbers included. -/
theorem isPlain_write (x : Float) : Only (isPlain ·) (svg.write x) := by
  have hdigits (d : Digits) : Only (isPlain ·) (svg.writeDigits d) := by
    rw [Style.writeDigits, Text.only_ofList]
    generalize (_ || _ : Bool) = withExponent
    cases withExponent with
    | true => exact isPlain_scientific (isPlain_toDigits _) _
    | false => exact isPlain_positional (isPlain_toDigits _) _ _
  have hminus : Only (isPlain ·) "-" := Text.only_of_all (by decide)
  rw [Style.write]
  split
  · exact Text.only_of_all (by decide)
  · split
    · split <;> exact Text.only_of_all (by decide)
    · dsimp only
      split
      · split <;> exact Text.only_of_all (by decide)
      · split
        · exact (Text.only_append _ _).2 ⟨hminus, hdigits _⟩
        · exact hdigits _

end Decimal

/-! ## Paths and values -/

variable {α : Type} {P : Char → Prop}

/-- A class of characters that serves for the values in markup: it has all plain characters, and
none that may not stand in a document. -/
structure Xml.Suits (P : Char → Prop) : Prop where
  plain : ∀ c, isPlain c → P c
  isChar : ∀ c, P c → Xml.isChar c

theorem Xml.Suits.only_of_all (hP : Suits P) {s : String} (h : s.toList.all isPlain = true) :
    Only P s :=
  (Text.only_of_all h).imp hP.plain

theorem Xml.suits_isChar : Suits (isChar ·) where
  plain c hc := by
    simp only [isPlain, Bool.and_eq_true, decide_eq_true_eq] at hc
    simp only [Xml.isChar, isCharCode, Bool.or_eq_true, Bool.and_eq_true, decide_eq_true_eq]
    omega
  isChar _ hc := hc

theorem Xml.suits_isValueChar : Suits IsValueChar where
  plain c hc := by
    refine ⟨suits_isChar.plain c hc, ?_⟩
    rintro rfl
    revert hc
    decide
  isChar _ hc := hc.1

/-- Raw data is of a class of characters. -/
def Command.Legal (P : Char → Prop) : Command α → Prop
  | raw data => Only P data
  | _ => True

/-- All raw data in a path is of a class of characters. -/
def Path.Legal (P : Char → Prop) (p : Path α) : Prop := ∀ c ∈ p.commands.toList, c.Legal P

/-- The texts in a value are of a class of characters. -/
def Value.Legal (P : Char → Prop) : Value α → Prop
  | text t => Only P t
  | number _ | numbers _ => True
  | path lead p => Only P lead ∧ p.Legal P

@[simp] theorem Value.legal_text (t : String) : (text t : Value α).Legal P ↔ Only P t := .rfl

@[simp] theorem Value.legal_number (x : α) : (number x).Legal P := trivial

@[simp] theorem Value.legal_numbers (xs : List α) : (numbers xs).Legal P := trivial

@[simp] theorem Value.legal_path (lead : String) (p : Path α) :
    (path lead p).Legal P ↔ Only P lead ∧ p.Legal P := .rfl

@[simp] theorem Path.legal_push (p : Path α) (c : Command α) :
    (p.push c).Legal P ↔ p.Legal P ∧ c.Legal P := by
  simp [Legal, push, or_imp, forall_and]

section Write

variable [Scalar α] {number : α → String}

/-- Path data has the characters of its numbers, plain ones, and those of its raw data. -/
theorem Command.only_text (hP : Xml.Suits P) (hnumber : ∀ x, Only P (number x)) (c : Command α) :
    Only P (c.text number) ↔ c.Legal P := by
  have hplain {s : String} (hs : s.toList.all isPlain = true) : Only P s := hP.only_of_all hs
  have hflag (clockwise : Bool) : Only P (flag clockwise) := by
    cases clockwise <;> exact hplain (by decide)
  have hreach (radius : α) (r : Reach) : Only P (reachText number radius r) := by
    have hsign : Only P (if r.negative then "-" else "") := by
      cases r.negative <;> exact hplain (by decide)
    exact (Text.only_append _ _).2 ⟨hsign, hnumber _⟩
  have harc (radius : α) (clockwise : Bool) : Only P (arcText number radius clockwise) := by
    simp only [arcText, Text.only_append, hnumber, hflag, and_true]
    and_intros <;> exact hplain (by decide)
  have hblank : Only P " " := hplain (by decide)
  cases c with
  | raw data => exact .rfl
  | nudge =>
    have hnudge : Only P "h.5" := hplain (by decide)
    exact iff_of_true hnudge trivial
  | arc radius source target | eighth radius source spin =>
    refine iff_of_true ?_ trivial
    simp only [text, Text.only_append, harc, hnumber, hreach, hblank, and_self]
  | _ =>
    refine iff_of_true ?_ trivial
    simp only [text, Text.only_append, hnumber, hblank, and_true]
    exact hplain (by decide)

theorem Path.only_text (hP : Xml.Suits P) (hnumber : ∀ x, Only P (number x)) (p : Path α) :
    Only P (p.text number) ↔ p.Legal P := by
  have hmove : Only P "M " := hP.only_of_all (by decide)
  have hblank : Only P " " := hP.only_of_all (by decide)
  simp only [text, Legal, ← Array.foldl_toList, Text.only_append, Text.only_foldl_append,
    Command.only_text hP hnumber, hmove, hblank, hnumber, Text.only_empty, true_and]

/-- A written value has the characters of its numbers, plain ones, and those of its texts. -/
theorem Value.only_write (hP : Xml.Suits P) (hnumber : ∀ x, Only P (number x)) (v : Value α) :
    Only P (v.write number) ↔ v.Legal P := by
  cases v with
  | text t => exact .rfl
  | number x => exact iff_of_true (hnumber x) trivial
  | numbers xs =>
    refine iff_of_true (Text.only_intercalate (hP.only_of_all (by decide)) fun s hs => ?_) trivial
    obtain ⟨x, -, rfl⟩ := List.mem_map.1 hs
    exact hnumber x
  | path lead p => rw [write, Text.only_append, Path.only_text hP hnumber, legal_path]

end Write

/-! ## Attributes -/

namespace Attributes

variable {ν μ : Type} {Q : ν → Prop} {R : μ → Prop}

theorem legal_empty : (∅ : Attributes ν).Legal Q := ⟨nofun, List.nodup_nil, nofun⟩

theorem legal_map {a : Attributes ν} {f : ν → μ} (hf : ∀ v, R (f v) ↔ Q v) :
    (a.map f).Legal R ↔ a.Legal Q := by
  have hnames : (a.map f).names = a.names := by simp [names, Attributes.map]
  constructor
  · intro h
    refine ⟨fun e he => ?_, hnames ▸ h.nodup, fun e he => ?_⟩
    · exact h.named (e.1, f e.2) (List.mem_map_of_mem he)
    · exact (hf e.2).1 (h.values (e.1, f e.2) (List.mem_map_of_mem he))
  · intro h
    refine ⟨fun e he => ?_, hnames.symm ▸ h.nodup, fun e he => ?_⟩
    · obtain ⟨old, hold, rfl⟩ := List.mem_map.1 he
      exact h.named old hold
    · obtain ⟨old, hold, rfl⟩ := List.mem_map.1 he
      exact (hf old.2).2 (h.values old hold)

/-- A changed entry is new, and the others are old ones. -/
theorem mem_upsertEntries {name : String} {value : Option ν → ν} {es : List (String × ν)}
    {e : String × ν} (he : e ∈ upsertEntries name value es) :
    e ∈ es ∨ e.1 = name ∧ ∃ old, e.2 = value old := by
  induction es with
  | nil =>
    rw [upsertEntries, List.mem_singleton] at he
    exact .inr (he ▸ ⟨rfl, none, rfl⟩)
  | cons first rest ih =>
    rw [upsertEntries] at he
    split at he
    · rcases List.mem_cons.1 he with rfl | he
      · exact .inr ⟨rfl, _, rfl⟩
      · exact .inl (List.mem_cons_of_mem _ he)
    · rcases List.mem_cons.1 he with rfl | he
      · exact .inl List.mem_cons_self
      · exact (ih he).imp_left (List.mem_cons_of_mem _)

theorem upsertEntries_of_notMem {name : String} {value : Option ν → ν} {entries : List (String × ν)}
    (h : name ∉ entries.map (·.1)) :
    upsertEntries name value entries = entries ++ [(name, value none)] := by
  induction entries with
  | nil => rfl
  | cons e rest ih =>
    simp only [List.map_cons, List.mem_cons, not_or] at h
    rw [upsertEntries, if_neg (Ne.symm h.1), ih h.2, List.cons_append]

theorem nodup_upsertEntries {name : String} {value : Option ν → ν} {es : List (String × ν)}
    (h : (es.map (·.1)).Nodup) : ((upsertEntries name value es).map (·.1)).Nodup := by
  induction es with
  | nil => simp [upsertEntries]
  | cons first rest ih =>
    rw [List.map_cons, List.nodup_cons] at h
    rw [upsertEntries]
    split
    · rename_i hname
      rw [List.map_cons, List.nodup_cons]
      exact ⟨hname ▸ h.1, h.2⟩
    · rename_i hname
      rw [List.map_cons, List.nodup_cons]
      refine ⟨fun hmem => ?_, ih h.2⟩
      obtain ⟨e, he, heq⟩ := List.mem_map.1 hmem
      rcases mem_upsertEntries he with he | ⟨he, -⟩
      · exact h.1 (heq ▸ List.mem_map_of_mem he)
      · exact hname (heq.symm.trans he)

/-- A new name comes behind the others. -/
theorem set_of_notMem {a : Attributes ν} {name : String} (h : name ∉ a.names) (value : ν) :
    a.set name value = ⟨a.entries ++ [(name, value)]⟩ := by
  rw [set, upsert, upsertEntries_of_notMem h]

/-- Attributes that are listed with their names. -/
theorem Legal.of_names (listed : List String) {es : List (String × ν)}
    (hlisted : es.map (·.1) = listed) (hnamed : ∀ name ∈ listed, isAttributeName name)
    (hnodup : listed.Nodup) (hvalues : ∀ e ∈ es, Q e.2) : (⟨es⟩ : Attributes ν).Legal Q := by
  subst hlisted
  exact ⟨fun _ he => hnamed _ (List.mem_map_of_mem he), hnodup, hvalues⟩

/-- The value of a name is one of the values. -/
theorem Legal.get? {a : Attributes ν} (h : a.Legal Q) {name : String} {value : ν}
    (hget : a.get? name = some value) : Q value := by
  obtain ⟨before, behind, hentries, -⟩ := List.lookup_eq_some_iff.1 hget
  exact h.values (name, value) (by simp [hentries])

theorem get?_map (a : Attributes ν) (f : ν → μ) (name : String) :
    (a.map f).get? name = (a.get? name).map f := by
  obtain ⟨es⟩ := a
  simp only [get?, Attributes.map]
  induction es with
  | nil => rfl
  | cons e es ih =>
    rw [List.map_cons, List.lookup_cons, List.lookup_cons, ih]
    split <;> rfl

theorem get?_upsert_self (a : Attributes ν) (name : String) (value : Option ν → ν) :
    (a.upsert name value).get? name = some (value (a.get? name)) := by
  obtain ⟨es⟩ := a
  change (upsertEntries name value es).lookup name = some (value (es.lookup name))
  induction es with
  | nil => rw [upsertEntries, List.lookup_cons, beq_self_eq_true, List.lookup_nil]
  | cons e es ih =>
    rw [upsertEntries]
    split
    · rename_i hname
      rw [List.lookup_cons, List.lookup_cons, hname, beq_self_eq_true]
    · rename_i hname
      rw [List.lookup_cons, List.lookup_cons, beq_false_of_ne (Ne.symm hname), ih]

/-- A new value leaves the values of other names as they are. -/
theorem get?_upsert_of_ne (a : Attributes ν) {name other : String} (h : other ≠ name)
    (value : Option ν → ν) : (a.upsert name value).get? other = a.get? other := by
  obtain ⟨es⟩ := a
  have hne : (other == name) = false := beq_false_of_ne h
  change (upsertEntries name _ es).lookup other = es.lookup other
  induction es with
  | nil => simp only [upsertEntries, List.lookup_cons, hne, List.lookup_nil]
  | cons e es ih =>
    obtain ⟨first, old⟩ := e
    rw [upsertEntries]
    split
    · rename_i hname
      change first = name at hname
      simp only [List.lookup_cons, hname, hne]
    · rw [List.lookup_cons, List.lookup_cons, ih]

theorem get?_set_self (a : Attributes ν) (name : String) (value : ν) :
    (a.set name value).get? name = some value := a.get?_upsert_self name _

theorem get?_set_of_ne (a : Attributes ν) {name other : String} (h : other ≠ name) (value : ν) :
    (a.set name value).get? other = a.get? other := a.get?_upsert_of_ne h _

/-- **Attributes stay legal**: a name that is set again keeps its place. -/
theorem Legal.set {a : Attributes ν} (h : a.Legal Q) {name : String} (hname : isAttributeName name)
    {value : ν} (hvalue : Q value) : (a.set name value).Legal Q := by
  refine ⟨fun e he => ?_, nodup_upsertEntries h.nodup, fun e he => ?_⟩
  · rcases mem_upsertEntries he with he | ⟨he, -⟩
    · exact h.named e he
    · exact he ▸ hname
  · rcases mem_upsertEntries he with he | ⟨-, -, he⟩
    · exact h.values e he
    · exact he ▸ hvalue

end Attributes

/-! ## Drawings -/

namespace Drawing

mutual

/-- A drawing whose names are valid, with no attribute twice in an element. Its texts may stand in a
document, and the texts in its attributes are of a class of characters. -/
def Legal (P : Char → Prop) : Drawing α → Prop
  | text tag attributes content =>
    isAttributeName tag ∧ attributes.Legal (·.Legal P) ∧ Only (Xml.isChar ·) content
  | group tag attributes children =>
    isAttributeName tag ∧ attributes.Legal (·.Legal P) ∧ AllLegal P children

/-- The same for several drawings. -/
def AllLegal (P : Char → Prop) : List (Drawing α) → Prop
  | [] => True
  | d :: rest => d.Legal P ∧ AllLegal P rest

end

theorem allLegal_iff (ds : List (Drawing α)) : AllLegal P ds ↔ ∀ d ∈ ds, d.Legal P := by
  induction ds with
  | nil => simp [AllLegal]
  | cons d rest ih => rw [AllLegal, ih, List.forall_mem_cons]

variable [Scalar α] {number : α → String}

mutual

/-- **The element tree of a drawing is legal** exactly if the drawing is. -/
theorem legal_toElement (hP : Xml.Suits P) (hnumber : ∀ x, Only P (number x)) :
    (d : Drawing α) → ((d.toElement number).Legal P ↔ d.Legal P)
  | .text tag attributes content => by
    rw [toElement, Element.Legal, Legal, Attributes.legal_map (Value.only_write hP hnumber)]
  | .group tag attributes children => by
    rw [Legal, ← allLegal_toElements hP hnumber children,
      ← Attributes.legal_map (Value.only_write hP hnumber), toElement]
    cases toElements number children with
    | nil => simp [Element.ofChildren, Element.Legal, Element.AllLegal]
    | cons first rest => rfl

theorem allLegal_toElements (hP : Xml.Suits P) (hnumber : ∀ x, Only P (number x)) :
    (ds : List (Drawing α)) → (Element.AllLegal P (toElements number ds) ↔ AllLegal P ds)
  | [] => .rfl
  | d :: rest => and_congr (legal_toElement hP hnumber d) (allLegal_toElements hP hnumber rest)

end

end Drawing
end SyntaxDiagram
