/-!
# Characters of texts

* `toNat_of_isAlpha`, `toNat_of_isDigit`: classes of characters as ranges of numbers.
* `Text.Only`: all characters of a text are of a class. It holds of a text if it holds of its parts.
* `Text.isPlain`: the characters that are used in markup for numbers, names and fixed texts.
-/

namespace SyntaxDiagram

theorem toNat_of_isAlpha {c : Char} (h : c.isAlpha) :
    (65 ≤ c.toNat ∧ c.toNat ≤ 90) ∨ (97 ≤ c.toNat ∧ c.toNat ≤ 122) := by
  rcases Bool.or_eq_true_iff.1 h with h | h
  · exact .inl (of_decide_eq_true h)
  · obtain ⟨hlow, hhigh⟩ := Bool.and_eq_true_iff.1 h
    exact .inr ⟨of_decide_eq_true hlow, of_decide_eq_true hhigh⟩

theorem toNat_of_isDigit {c : Char} (h : c.isDigit) : 48 ≤ c.toNat ∧ c.toNat ≤ 57 := by
  simp only [Char.isDigit, Bool.and_eq_true, decide_eq_true_eq, UInt32.le_iff_toNat_le,
    ge_iff_le] at h
  exact h

namespace Text

variable {P Q : Char → Prop}

/-- A text that has characters of a class only. -/
def Only (P : Char → Prop) (s : String) : Prop := ∀ c ∈ s.toList, P c

theorem Only.imp {s : String} (h : Only P s) (hPQ : ∀ c, P c → Q c) : Only Q s :=
  fun c hc => hPQ c (h c hc)

@[simp] theorem only_empty : Only P "" := by simp [Only]

@[simp] theorem only_append (a b : String) : Only P (a ++ b) ↔ Only P a ∧ Only P b := by
  simp only [Only, String.toList_append, List.mem_append, or_imp, forall_and]

@[simp] theorem only_ofList (cs : List Char) : Only P (String.ofList cs) ↔ ∀ c ∈ cs, P c := by
  rw [Only, String.toList_ofList]

theorem only_foldl_append {β : Type} (f : β → String) (parts : List β) (s : String) :
    Only P (parts.foldl (fun s b => s ++ f b) s) ↔ Only P s ∧ ∀ b ∈ parts, Only P (f b) := by
  induction parts generalizing s with
  | nil => simp
  | cons b parts ih => rw [List.foldl_cons, ih, only_append, List.forall_mem_cons, and_assoc]

theorem only_join (parts : List String) :
    Only P (String.join parts) ↔ ∀ s ∈ parts, Only P s :=
  (only_foldl_append id parts "").trans (and_iff_right only_empty)

theorem only_intercalate {sep : String} {parts : List String} (hsep : Only P sep)
    (h : ∀ s ∈ parts, Only P s) : Only P (sep.intercalate parts) := by
  induction parts with
  | nil => exact only_empty
  | cons s parts ih =>
    have hparts := ih fun s' hs' => h s' (List.mem_cons_of_mem s hs')
    cases parts with
    | nil => simpa using h s List.mem_cons_self
    | cons next parts =>
      rw [String.intercalate_cons_cons, only_append, only_append]
      exact ⟨⟨h s List.mem_cons_self, hsep⟩, hparts⟩

/-- Printable characters that do not start a tag. -/
def isPlain (c : Char) : Bool := 0x20 ≤ c.toNat && c.toNat ≤ 0x7e && c ≠ '<'

/-- A fixed text, checked character by character. -/
theorem only_of_all {p : Char → Bool} {s : String} (h : s.toList.all p = true) :
    Only (p ·) s := List.all_eq_true.1 h

end Text
end SyntaxDiagram
