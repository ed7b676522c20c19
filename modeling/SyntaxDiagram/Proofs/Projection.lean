import Mathlib.Data.List.Forall2
import Mathlib.Data.Option.Basic
import SyntaxDiagram.Grammar.Basic

/-!
# Grammars as data

A grammar is shown as a JSON value, in which trees of eight kinds share the names of their members.
Equal values still come from equal grammars.

* `Json.Same`: equality of JSON values. The members of an object are compared by name, whatever
  their order.
* `Json.same_object_iff_of_names`: objects with the same names are equal if their values are.
* `Expr.same_toJson_iff`, `Rule.same_toJson_iff`, `Grammar.same_projection_iff`: nothing is lost on
  the way from an expression, a rule or a grammar to its value.
-/

namespace SyntaxDiagram

/-! ## Equal values -/

namespace Json

/-- Equality of JSON values. An object is what its names stand for, so that the order of its members
does not count. -/
inductive Same : Json → Json → Prop
  | null : Same null null
  | bool (b : Bool) : Same (bool b) (bool b)
  | number {m n : Number} (h : m == n) : Same (number m) (number n)
  | string (s : String) : Same (string s) (string s)
  | array {items items' : List Json} (h : List.Forall₂ Same items items') :
      Same (array items) (array items')
  | object {members members' : List (String × Json)}
      (h : ∀ name, Option.Rel Same (members.lookup name) (members'.lookup name)) :
      Same (object members) (object members')

theorem same_string_iff {s s' : String} : (string s).Same (string s') ↔ s = s' := by
  constructor
  · rintro ⟨⟩
    rfl
  · rintro rfl
    exact .string s

theorem same_array_iff {items items' : List Json} :
    (array items).Same (array items') ↔ List.Forall₂ Same items items' := by
  constructor
  · rintro ⟨⟩
    assumption
  · exact .array

theorem same_object_iff {members members' : List (String × Json)} :
    (object members).Same (object members') ↔
      ∀ name, Option.Rel Same (members.lookup name) (members'.lookup name) := by
  constructor
  · rintro ⟨⟩
    assumption
  · exact .object

theorem rel_some_iff {j j' : Json} : Option.Rel Same (some j) (some j') ↔ j.Same j' := by
  constructor
  · rintro ⟨h⟩
    exact h
  · exact .some

/-- **Objects with the same names** are equal if the values of their members are. -/
theorem same_object_iff_of_names {members members' : List (String × Json)}
    (hnames : members.map (·.1) = members'.map (·.1)) (hnodup : (members.map (·.1)).Nodup) :
    (object members).Same (object members') ↔
      List.Forall₂ Same (members.map (·.2)) (members'.map (·.2)) := by
  rw [same_object_iff]
  induction members generalizing members' with
  | nil =>
    obtain rfl := List.map_eq_nil_iff.1 hnames.symm
    exact iff_of_true (fun _ => .none) .nil
  | cons m rest ih =>
    obtain ⟨name, j⟩ := m
    obtain ⟨⟨name', j'⟩, rest', rfl, hname, hrest⟩ := List.map_eq_cons_iff.1 hnames.symm
    obtain rfl : name = name' := hname.symm
    rw [List.map_cons, List.nodup_cons] at hnodup
    have habsent {ms : List (String × Json)} (h : ms.map (·.1) = rest.map (·.1)) :
        ms.lookup name = none := by
      refine List.lookup_eq_none_iff.2 fun m hm => bne_iff_ne.2 fun heq => hnodup.1 ?_
      change name ∈ rest.map (·.1)
      rw [← h, heq]
      exact List.mem_map_of_mem hm
    rw [List.map_cons, List.map_cons, List.forall₂_cons, ← ih hrest.symm hnodup.2]
    have hfirst : Option.Rel Same (((name, j) :: rest).lookup name)
        (((name, j') :: rest').lookup name) ↔ j.Same j' := by
      rw [List.lookup_cons_self, List.lookup_cons_self, rel_some_iff]
    have hother {other : String} (h : other ≠ name) (j : Json) (ms : List (String × Json)) :
        ((name, j) :: ms).lookup other = ms.lookup other := by
      rw [List.lookup_cons, beq_false_of_ne h]
    constructor
    · refine fun h => ⟨hfirst.1 (h name), fun other => ?_⟩
      by_cases heq : other = name
      · -- the name does not come again
        rw [heq, habsent rfl, habsent hrest]
        exact .none
      · have hbehind := h other
        rwa [hother heq, hother heq] at hbehind
    · rintro ⟨hsame, hbehind⟩ other
      by_cases heq : other = name
      · rw [heq]
        exact hfirst.2 hsame
      · rw [hother heq, hother heq]
        exact hbehind other

/-- The kind of a tree node can be read off its value, whatever its other members are. -/
theorem kind_eq_of_same {kind kind' : String} {members members' : List (String × Json)}
    (h : (ofNode kind members).Same (ofNode kind' members')) : kind = kind' := by
  have htype := same_object_iff.1 h "type"
  rw [List.lookup_cons_self, List.lookup_cons_self, rel_some_iff] at htype
  exact same_string_iff.1 htype

/-- Tree nodes with the same names of members are equal if their kinds and the values of their
members are. -/
theorem same_ofNode_iff {kind kind' : String} {members members' : List (String × Json)}
    (hnames : members.map (·.1) = members'.map (·.1))
    (hnodup : ("type" :: members.map (·.1)).Nodup) :
    (ofNode kind members).Same (ofNode kind' members') ↔
      kind = kind' ∧ List.Forall₂ Same (members.map (·.2)) (members'.map (·.2)) := by
  have htyped : (("type", string kind) :: members).map (·.1) =
      (("type", string kind') :: members').map (·.1) := congrArg ("type" :: ·) hnames
  rw [ofNode, ofNode, same_object_iff_of_names htyped hnodup, List.map_cons, List.map_cons,
    List.forall₂_cons, same_string_iff]

end Json

/-! ## Expressions -/

namespace Expr

/-- What the kind of an expression is called. -/
def kindName : Expr → String
  | identifier _ => "Identifier"
  | terminal _ => "Terminal"
  | special _ => "Special"
  | group _ => "Group"
  | repetition _ => "Repetition"
  | optional _ => "Optional"
  | choice .. => "Choice"
  | sequence .. => "Sequence"

/-- Equal values are of expressions of one kind. -/
theorem kindName_eq_of_same {e e' : Expr} (h : e.toJson.Same e'.toJson) :
    e.kindName = e'.kindName := by
  have hnode (e : Expr) : ∃ members, e.toJson = .ofNode e.kindName members := by
    cases e <;> exact ⟨_, rfl⟩
  obtain ⟨members, hmembers⟩ := hnode e
  obtain ⟨members', hmembers'⟩ := hnode e'
  rw [hmembers, hmembers'] at h
  exact Json.kind_eq_of_same h

/-- Nodes with one value. -/
theorem same_value_iff {kind kind' : String} {j j' : Json} :
    (Json.ofNode kind [("value", j)]).Same (.ofNode kind' [("value", j')]) ↔
      kind = kind' ∧ j.Same j' := by
  simp [Json.same_ofNode_iff]

/-- Nodes with two operands. -/
theorem same_operands_iff {kind kind' : String} {left right left' right' : Json} :
    (Json.ofNode kind [("left", left), ("right", right)]).Same
        (.ofNode kind' [("left", left'), ("right", right')]) ↔
      kind = kind' ∧ left.Same left' ∧ right.Same right' := by
  simp [Json.same_ofNode_iff]

/-- **Equal values are of equal expressions.** The induction is on the first expression. Its kind
settles the constructor of the second one, and with it the members that have to be equal. -/
theorem eq_of_same {e e' : Expr} (h : e.toJson.Same e'.toJson) : e = e' := by
  induction e generalizing e' with
  | identifier name =>
    have hkind := kindName_eq_of_same h
    cases e' with
    | identifier name' => rw [Json.same_string_iff.1 (same_value_iff.1 h).2]
    | _ => simp [kindName] at hkind
  | terminal text =>
    have hkind := kindName_eq_of_same h
    cases e' with
    | terminal text' => rw [Json.same_string_iff.1 (same_value_iff.1 h).2]
    | _ => simp [kindName] at hkind
  | special text =>
    have hkind := kindName_eq_of_same h
    cases e' with
    | special text' => rw [Json.same_string_iff.1 (same_value_iff.1 h).2]
    | _ => simp [kindName] at hkind
  | group inner ih =>
    have hkind := kindName_eq_of_same h
    cases e' with
    | group inner' => rw [ih (same_value_iff.1 h).2]
    | _ => simp [kindName] at hkind
  | repetition inner ih =>
    have hkind := kindName_eq_of_same h
    cases e' with
    | repetition inner' => rw [ih (same_value_iff.1 h).2]
    | _ => simp [kindName] at hkind
  | optional inner ih =>
    have hkind := kindName_eq_of_same h
    cases e' with
    | optional inner' => rw [ih (same_value_iff.1 h).2]
    | _ => simp [kindName] at hkind
  | choice left right ihl ihr =>
    have hkind := kindName_eq_of_same h
    cases e' with
    | choice left' right' =>
      obtain ⟨-, hleft, hright⟩ := same_operands_iff.1 h
      rw [ihl hleft, ihr hright]
    | _ => simp [kindName] at hkind
  | sequence left right ihl ihr =>
    have hkind := kindName_eq_of_same h
    cases e' with
    | sequence left' right' =>
      obtain ⟨-, hleft, hright⟩ := same_operands_iff.1 h
      rw [ihl hleft, ihr hright]
    | _ => simp [kindName] at hkind

theorem same_self (e : Expr) : e.toJson.Same e.toJson := by
  induction e with
  | identifier | terminal | special => exact same_value_iff.2 ⟨rfl, .string _⟩
  | group _ ih | repetition _ ih | optional _ ih => exact same_value_iff.2 ⟨rfl, ih⟩
  | choice _ _ ihl ihr | sequence _ _ ihl ihr => exact same_operands_iff.2 ⟨rfl, ihl, ihr⟩

theorem same_toJson_iff {e e' : Expr} : e.toJson.Same e'.toJson ↔ e = e' := by
  constructor
  · exact eq_of_same
  · rintro rfl
    exact e.same_self

end Expr

/-! ## Rules and grammars -/

theorem Rule.same_toJson_iff {r r' : Rule} : r.toJson.Same r'.toJson ↔ r = r' := by
  obtain ⟨name, body⟩ := r
  obtain ⟨name', body'⟩ := r'
  refine (Json.same_ofNode_iff (by simp) (by simp)).trans ?_
  simp [Expr.same_value_iff, Json.same_string_iff, Expr.same_toJson_iff]

/-- **Nothing is lost in the value of a grammar.** Grammars have equal values exactly if they are
equal: they have the same rules in the same order, and these have the same names and the same right
hand sides. -/
theorem Grammar.same_projection_iff (g g' : Grammar) : g.toJson.Same g'.toJson ↔ g = g' := by
  obtain ⟨rules⟩ := g
  obtain ⟨rules'⟩ := g'
  have hrules : List.Forall₂ Json.Same (rules.map Rule.toJson) (rules'.map Rule.toJson) ↔
      rules = rules' := by
    rw [List.forall₂_map_left_iff, List.forall₂_map_right_iff]
    simp only [Rule.same_toJson_iff, List.forall₂_eq_eq_eq]
  refine (Json.same_ofNode_iff (by simp) (by simp)).trans ?_
  simp [Json.same_array_iff, hrules]

end SyntaxDiagram
