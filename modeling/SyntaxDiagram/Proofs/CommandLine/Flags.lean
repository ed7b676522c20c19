import Mathlib.Data.List.TakeWhile
import SyntaxDiagram.CommandLine.Arguments
import SyntaxDiagram.Proofs.Attempts

/-!
# Flags on a command line

A flag that has no letter is raised by its name and by nothing else. No option takes such a word for
its value, so the name raises the flag wherever it stands.

* `Flag.IsCalled`: the name of a flag without a letter. `Flag.isCalled` gives those names.
* `Arguments.raised`: whether a flag is up. `raised_setOption`, `raised_raise`, `raised_letters` and
  `raised_long` say what each step of reading a command line does to it.
* `Arguments.raised_parse`: the flags that are up are those whose names are on the command line.
-/

namespace SyntaxDiagram.CommandLine

/-- A flag has a name, and no letter. -/
structure Flag.IsCalled (f : Flag) (name : String) : Prop where
  ofLong? : ∀ n, Switch.ofLong? n = some (.flag f) ↔ n = name
  ofShort? : ∀ c, Switch.ofShort? c ≠ some (.flag f)
  equals_not_mem : '=' ∉ name.toList

theorem Flag.isCalled {f : Flag} {name : String}
    (h : f = .complex ∧ name = "complex" ∨ f = .inline ∧ name = "inline") : f.IsCalled name where
  ofLong? := by
    intro n
    rcases h with ⟨rfl, rfl⟩ | ⟨rfl, rfl⟩ <;> unfold Switch.ofLong? <;> split <;> simp_all
  ofShort? := by
    intro c
    rcases h with ⟨rfl, rfl⟩ | ⟨rfl, rfl⟩ <;> unfold Switch.ofShort? <;> split <;> simp
  equals_not_mem := by
    rcases h with ⟨rfl, rfl⟩ | ⟨rfl, rfl⟩ <;> decide

namespace Arguments

/-- Whether a flag is up. -/
def raised (a : Arguments) : Flag → Bool
  | .complex => a.complex
  | .inline => a.inline
  | .verbose => a.verbose
  | .version | .help => false

variable {a b : Arguments} {f : Flag} {name : String}

/-- Options raise no flags. -/
theorem raised_setOption {value : String} {o : Opt} (h : a.setOption value o = .ok b) :
    b.raised f = a.raised f := by
  cases o with
  | format =>
    rw [setOption.eq_def] at h
    dsimp only at h
    split at h
    · obtain ⟨_, -, ⟨⟩⟩ := bind_eq_ok.1 h
      rfl
    · obtain ⟨_, -, ⟨⟩⟩ := bind_eq_ok.1 h
      rfl
    · cases h
  | _ =>
    obtain ⟨_, -, ⟨⟩⟩ := bind_eq_ok.1 h
    rfl

theorem raised_raise {g : Flag} (h : a.raise g = .ok b) :
    b.raised f = true ↔ a.raised f = true ∨ g = f := by
  cases g with
  | version | help => cases h
  | _ =>
    rw [raise] at h
    split at h
    · cases h
    · cases h
      cases f <;> simp [raised]

/-- No letter raises a flag that has a name alone. -/
theorem raised_letters (hf : f.IsCalled name) {cs : List Char} {p : Pending}
    (h : a.letters cs = .ok (b, p)) : b.raised f = a.raised f := by
  induction cs generalizing a with
  | nil =>
    cases h
    rfl
  | cons c rest ih =>
    rw [letters] at h
    split at h
    · cases h
    · next g hg =>
      obtain ⟨a', ha', h⟩ := bind_eq_ok.1 h
      have hne : g ≠ f := by
        rintro rfl
        exact hf.ofShort? c hg
      rw [ih h, Bool.eq_iff_iff, raised_raise ha', or_iff_left hne]
    · next o ho =>
      split at h
      · cases h
        rfl
      · obtain ⟨a', ha', ⟨⟩⟩ := bind_eq_ok.1 h
        exact raised_setOption ha'
      · obtain ⟨a', ha', ⟨⟩⟩ := bind_eq_ok.1 h
        exact raised_setOption ha'

/-- A long name raises the flag that it is the name of. -/
theorem raised_long (hf : f.IsCalled name) {word : List Char} {p : Pending}
    (h : a.long word = .ok (b, p)) :
    b.raised f = true ↔ a.raised f = true ∨ word = name.toList := by
  unfold long at h
  extract_lets n value at h
  have hsplit : word.takeWhile (· ≠ '=') ++ value = word := List.takeWhile_append_dropWhile
  -- the name is the whole word if no value stands behind it
  have hword : word = name.toList ↔ Switch.ofLong? n = some (.flag f) ∧ value = [] := by
    rw [hf.ofLong?, ← String.toList_inj, String.toList_ofList]
    constructor
    · rintro rfl
      have hwhole : name.toList.takeWhile (· ≠ '=') = name.toList := by
        rw [List.takeWhile_eq_self_iff]
        intro c hc
        simpa using ne_of_mem_of_not_mem hc hf.equals_not_mem
      rw [hwhole] at hsplit
      exact ⟨hwhole, List.append_right_eq_self.1 hsplit⟩
    · rintro ⟨hname, hvalue⟩
      rw [← hsplit, hvalue, List.append_nil, hname]
  rw [hword]
  split at h
  · cases h
  · next g hg hvalue =>
    obtain ⟨a', ha', ⟨⟩⟩ := bind_eq_ok.1 h
    rw [raised_raise ha']
    simp [hg, hvalue]
  · cases h
  · next o ho hvalue =>
    cases h
    simp [ho]
  · next o c rest ho hvalue =>
    obtain ⟨a', ha', ⟨⟩⟩ := bind_eq_ok.1 h
    simp [raised_setOption ha', ho]

/-- What an option takes for its value is no name of a flag. -/
theorem raised_takeValue {o : Opt} {word : String} (h : a.takeValue o word = .ok b) :
    b.raised f = a.raised f ∧ word ≠ "--" ++ name := by
  unfold takeValue at h
  split at h
  · cases h
  · next hword =>
    refine ⟨raised_setOption h, ?_⟩
    rintro rfl
    exact hword '-' name.toList (by simp)

/-- **The words of a command line raise the flags that they name.** -/
theorem raised_words (hf : f.IsCalled name) {line : List String} {p : Pending}
    (h : a.words p line = .ok b) :
    b.raised f = true ↔ a.raised f = true ∨ "--" ++ name ∈ line := by
  induction line generalizing a p with
  | nil =>
    rw [words] at h
    split at h
    · cases h
    · cases h
      simp
  | cons word rest ih =>
    have hname : name ≠ "" := by
      rintro rfl
      have hnone : Switch.ofLong? "" = none := by decide
      rw [(hf.ofLong? "").2 rfl] at hnone
      cases hnone
    have hword : "--" ++ name = word ↔ word.toList = '-' :: '-' :: name.toList := by
      rw [eq_comm, ← String.toList_inj, String.toList_append]
      rfl
    rw [words.eq_def] at h
    dsimp only at h
    rw [List.mem_cons, hword]
    split at h
    · next o =>
      obtain ⟨a', ha', h⟩ := bind_eq_ok.1 h
      obtain ⟨hsame, hne⟩ : a'.raised f = a.raised f ∧ word ≠ "--" ++ name :=
        raised_takeValue ha'
      rw [ih h, hsame, ← hword, or_iff_right hne.symm]
    · split at h
      · next hdashes =>
        split at h
        · next hlast =>
          cases h
          rw [List.isEmpty_iff.1 hlast, hdashes]
          simp [hname]
        · cases h
      · next nm hnm hlong =>
        obtain ⟨⟨a', p'⟩, ha', h⟩ := bind_eq_ok.1 h
        rw [ih h, raised_long hf ha', hlong]
        simp [or_assoc]
      · next c more _ hc hletters =>
        obtain ⟨⟨a', p'⟩, ha', h⟩ := bind_eq_ok.1 h
        have hne : '-' :: c :: more ≠ '-' :: '-' :: name.toList := by
          simpa using fun hdash : c = '-' => absurd hdash hc
        rw [ih h, raised_letters hf ha', hletters, or_iff_right hne]
      · cases h

/-- **The flags that are up are those that are named.** -/
theorem raised_parse (hf : f.IsCalled name) {line : List String} (h : parse line = .ok a) :
    a.raised f = true ↔ "--" ++ name ∈ line := by
  rw [raised_words hf h, or_iff_right]
  cases f <;> simp [raised]

end Arguments
end SyntaxDiagram.CommandLine
