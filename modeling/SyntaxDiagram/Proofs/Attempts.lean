import Mathlib.Data.List.Basic

/-!
# Attempts

What comes of attempts that can fail, made one after another.

* `bind_eq_ok`: an attempt goes through if its first step does and then the rest of it.
* `eq_ok_of_toOption`, `exists_error_of_toOption`: what comes of an attempt, by its result alone.
* `mem_of_mapM`, `exists_of_mapM_error`: the same attempt at each item of a list.
* `mapM_eq_map`: what is done with each result can wait until all of them are there.
-/

namespace SyntaxDiagram

variable {ε ε' β γ δ : Type}

theorem bind_eq_ok {x : Except ε β} {f : β → Except ε γ} {c : γ} :
    (x >>= f) = .ok c ↔ ∃ b, x = .ok b ∧ f b = .ok c := by
  cases x with
  | error e => simp [bind, Except.bind]
  | ok b => simp [bind, Except.bind]

theorem eq_ok_of_toOption {x : Except ε β} {b : β} (h : x.toOption = some b) : x = .ok b := by
  cases x with
  | error e => cases h
  | ok b' =>
    cases h
    rfl

theorem exists_error_of_toOption {x : Except ε β} (h : x.toOption = none) : ∃ e, x = .error e := by
  cases x with
  | error e => exact ⟨e, rfl⟩
  | ok b => cases h

variable {f : β → Except ε γ} {xs : List β}

theorem mem_of_mapM {ys : List γ} (h : xs.mapM f = .ok ys) :
    (∀ x ∈ xs, ∃ y ∈ ys, f x = .ok y) ∧ ∀ y ∈ ys, ∃ x ∈ xs, f x = .ok y := by
  induction xs generalizing ys with
  | nil =>
    cases h
    simp
  | cons x xs ih =>
    rw [List.mapM_cons, bind_eq_ok] at h
    obtain ⟨y, hx, h⟩ := h
    obtain ⟨ys, hxs, ⟨⟩⟩ := bind_eq_ok.1 h
    obtain ⟨hto, hfrom⟩ := ih hxs
    simp only [List.forall_mem_cons]
    refine ⟨⟨⟨y, List.mem_cons_self, hx⟩, ?_⟩, ⟨x, List.mem_cons_self, hx⟩, ?_⟩
    · intro x' hx'
      obtain ⟨y', hy', h'⟩ := hto x' hx'
      exact ⟨y', List.mem_cons_of_mem y hy', h'⟩
    · intro y' hy'
      obtain ⟨x', hx', h'⟩ := hfrom y' hy'
      exact ⟨x', List.mem_cons_of_mem x hx', h'⟩

theorem exists_of_mapM_error {e : ε} (h : xs.mapM f = .error e) : ∃ x ∈ xs, f x = .error e := by
  induction xs with
  | nil => cases h
  | cons x xs ih =>
    rw [List.mapM_cons] at h
    cases hx : f x with
    | error e' =>
      rw [hx] at h
      cases h
      exact ⟨x, List.mem_cons_self, hx⟩
    | ok y =>
      cases hxs : xs.mapM f with
      | error e' =>
        rw [hx, hxs] at h
        cases h
        obtain ⟨x', hx', h'⟩ := ih hxs
        exact ⟨x', List.mem_cons_of_mem x hx', h'⟩
      | ok ys =>
        rw [hx, hxs] at h
        cases h

/-- What is done with each result, and with an error, can wait until all results are there. -/
theorem mapM_eq_map (f : β → Except ε γ) (g : γ → δ) (fail : ε → ε') {k : β → Except ε' δ}
    (hk : ∀ x, k x = ((f x).map g).mapError fail) (xs : List β) :
    xs.mapM k = ((xs.mapM f).map (·.map g)).mapError fail := by
  induction xs with
  | nil => rfl
  | cons x xs ih =>
    rw [List.mapM_cons, List.mapM_cons, ih, hk]
    cases f x with
    | error e => rfl
    | ok y => cases xs.mapM f <;> rfl

end SyntaxDiagram
