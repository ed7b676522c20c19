import Mathlib.Order.Interval.Set.UnorderedInterval
import SyntaxDiagram.Proofs.Connection.Ways

/-!
# Along a path

The commands of a path start one where the other ends. Most of what a picture says about a path is
about its straight stretches: what is joined with a line stands on one of them.

* `Path.strokes`: the commands of a path with the points where they start.
* `Path.OnHorizontal`, `Path.OnVertical`: the points on the straight stretches of a path, with one
  lemma for each way to go on.
* `Path.Steady`: a path that does not go down in one place and up in another.
* `Path.InTurn`: paths that are drawn one behind the other.
* `Linked`: paths each of which leads from one of some things to the next.
-/

namespace SyntaxDiagram

/-- A command and the point where it starts. -/
structure Stroke (α : Type) where
  start : α × α
  command : Command α

namespace Path

section

variable {α : Type} [Scalar α]

/-- The strokes of commands that start at a point. -/
def strokesFrom (a : α × α) : List (Command α) → List (Stroke α)
  | [] => []
  | c :: rest => ⟨a, c⟩ :: strokesFrom (a.1 + c.offset.1, a.2 + c.offset.2) rest

/-- The commands of a path with the points where they start. -/
def strokes (p : Path α) : List (Stroke α) := strokesFrom (p.x, p.y) p.commands.toList

/-- How far down each command of a path leads. -/
def drops (p : Path α) : List α := p.commands.toList.map fun c => c.offset.2

/-- Paths that are drawn one behind the other, from one point to another. -/
def InTurn : List (Path α) → α × α → α × α → Prop
  | [], a, b => a = b
  | p :: rest, a, b => ∃ c, p.Draws a c ∧ InTurn rest c b

theorem strokesFrom_concat (a : α × α) (commands : List (Command α)) (c : Command α) :
    strokesFrom a (commands ++ [c]) =
      strokesFrom a commands ++
        [⟨commands.foldl (fun p c => (p.1 + c.offset.1, p.2 + c.offset.2)) a, c⟩] := by
  induction commands generalizing a with
  | nil => rfl
  | cons first rest ih => exact congrArg (_ :: ·) (ih _)

/-- One more command starts where the path ended. -/
theorem strokes_push (p : Path α) (c : Command α) :
    (p.push c).strokes = p.strokes ++ [⟨p.finish, c⟩] := by
  rw [strokes, push, Array.toList_push, strokesFrom_concat, Array.foldl_toList]
  rfl

theorem drops_push (p : Path α) (c : Command α) : (p.push c).drops = p.drops ++ [c.offset.2] := by
  rw [drops, push, Array.toList_push, List.map_append]
  rfl

@[simp] theorem finish_start (x y : α) : (Layout.start x y).finish = (x, y) := rfl

@[simp] theorem finish_arc (p : Path α) (radius : α) (source target : Cardinal) :
    (p.arc radius source target).finish =
      (p.finish.1 + Command.arcX radius source target,
        p.finish.2 + Command.arcY radius source target) := finish_push p _

@[simp] theorem drops_start (x y : α) : (Layout.start x y).drops = [] := rfl

@[simp] theorem drops_v (p : Path α) (dy : α) : (p.v dy).drops = p.drops ++ [dy] := drops_push p _

@[simp] theorem drops_l (p : Path α) (dx dy : α) : (p.l dx dy).drops = p.drops ++ [dy] :=
  drops_push p _

@[simp] theorem drops_arc (p : Path α) (radius : α) (source target : Cardinal) :
    (p.arc radius source target).drops =
      p.drops ++ [Command.arcY radius source target] := drops_push p _

end

variable {K : Type} [ExactScalar K] {p : Path K} {a b q : K × K}

/-! ## Straight stretches -/

/-- A point on a level stretch of a path. -/
def OnHorizontal (p : Path K) (q : K × K) : Prop :=
  ∃ a dx, ⟨a, .horizontal dx⟩ ∈ p.strokes ∧ q.2 = a.2 ∧ q.1 ∈ Set.uIcc a.1 (a.1 + dx)

/-- A point on an upright stretch of a path. -/
def OnVertical (p : Path K) (q : K × K) : Prop :=
  ∃ a dy, ⟨a, .vertical dy⟩ ∈ p.strokes ∧ q.1 = a.1 ∧ q.2 ∈ Set.uIcc a.2 (a.2 + dy)

/-- A path that goes down or up, but not both. -/
def Steady (p : Path K) : Prop := (∀ d ∈ p.drops, 0 ≤ d) ∨ ∀ d ∈ p.drops, d ≤ 0

theorem onHorizontal_push (p : Path K) (c : Command K) (q : K × K) :
    (p.push c).OnHorizontal q ↔ p.OnHorizontal q ∨ ∃ dx, c = .horizontal dx ∧
      q.2 = p.finish.2 ∧ q.1 ∈ Set.uIcc p.finish.1 (p.finish.1 + dx) := by
  simp only [OnHorizontal, strokes_push, List.mem_append, List.mem_singleton, Stroke.mk.injEq]
  constructor
  · rintro ⟨a, dx, hmem | ⟨rfl, rfl⟩, hq⟩
    · exact .inl ⟨a, dx, hmem, hq⟩
    · exact .inr ⟨dx, rfl, hq⟩
  · rintro (⟨a, dx, hmem, hq⟩ | ⟨dx, rfl, hq⟩)
    · exact ⟨a, dx, .inl hmem, hq⟩
    · exact ⟨_, dx, .inr ⟨rfl, rfl⟩, hq⟩

theorem onVertical_push (p : Path K) (c : Command K) (q : K × K) :
    (p.push c).OnVertical q ↔ p.OnVertical q ∨ ∃ dy, c = .vertical dy ∧
      q.1 = p.finish.1 ∧ q.2 ∈ Set.uIcc p.finish.2 (p.finish.2 + dy) := by
  simp only [OnVertical, strokes_push, List.mem_append, List.mem_singleton, Stroke.mk.injEq]
  constructor
  · rintro ⟨a, dy, hmem | ⟨rfl, rfl⟩, hq⟩
    · exact .inl ⟨a, dy, hmem, hq⟩
    · exact .inr ⟨dy, rfl, hq⟩
  · rintro (⟨a, dy, hmem, hq⟩ | ⟨dy, rfl, hq⟩)
    · exact ⟨a, dy, .inl hmem, hq⟩
    · exact ⟨_, dy, .inr ⟨rfl, rfl⟩, hq⟩

@[simp] theorem onHorizontal_start (x y : K) (q : K × K) :
    ¬(Layout.start x y).OnHorizontal q := by
  rintro ⟨a, dx, hmem, -⟩
  cases hmem

@[simp] theorem onVertical_start (x y : K) (q : K × K) : ¬(Layout.start x y).OnVertical q := by
  rintro ⟨a, dy, hmem, -⟩
  cases hmem

@[simp] theorem onHorizontal_h (p : Path K) (dx : K) (q : K × K) :
    (p.h dx).OnHorizontal q ↔ p.OnHorizontal q ∨
      (q.2 = p.finish.2 ∧ q.1 ∈ Set.uIcc p.finish.1 (p.finish.1 + dx)) := by
  simp [Path.h, onHorizontal_push]

@[simp] theorem onHorizontal_v (p : Path K) (dy : K) (q : K × K) :
    (p.v dy).OnHorizontal q ↔ p.OnHorizontal q := by
  simp [Path.v, onHorizontal_push]

@[simp] theorem onHorizontal_arc (p : Path K) (radius : K) (source target : Cardinal)
    (q : K × K) : (p.arc radius source target).OnHorizontal q ↔ p.OnHorizontal q := by
  simp [Path.arc, onHorizontal_push]

@[simp] theorem onVertical_h (p : Path K) (dx : K) (q : K × K) :
    (p.h dx).OnVertical q ↔ p.OnVertical q := by
  simp [Path.h, onVertical_push]

@[simp] theorem onVertical_v (p : Path K) (dy : K) (q : K × K) :
    (p.v dy).OnVertical q ↔ p.OnVertical q ∨
      (q.1 = p.finish.1 ∧ q.2 ∈ Set.uIcc p.finish.2 (p.finish.2 + dy)) := by
  simp [Path.v, onVertical_push]

@[simp] theorem onVertical_arc (p : Path K) (radius : K) (source target : Cardinal)
    (q : K × K) : (p.arc radius source target).OnVertical q ↔ p.OnVertical q := by
  simp [Path.arc, onVertical_push]

/-! ## Drawing on -/

/-- A clamped line and what it is shortened by, together. -/
theorem max_sub_add (a b : K) : max (a - b) 0 + b = max a b := by
  rw [← max_add_add_right, sub_add_cancel, zero_add]

theorem Draws.toFinish (h : p.Draws a b) : p.Draws a p.finish := ⟨h.unbroken, h.origin, rfl⟩

/-- A line down that is left out if it would lead up. -/
theorem Draws.downTo (h : p.Draws a b) (length : K) :
    (p.down length).Draws a (b.1, b.2 + max length 0) := by
  rw [Path.down, clamp_eq_max]
  exact h.v _

/-- A line to the right that is left out if it would lead to the left. -/
theorem Draws.rightTo (h : p.Draws a b) (length : K) :
    (p.right length).Draws a (b.1 + max length 0, b.2) := by
  rw [Path.right, clamp_eq_max]
  exact h.h _

/-- A line up that is left out if it would lead down. -/
theorem Draws.upTo (h : p.Draws a b) (length : K) :
    (p.up length).Draws a (b.1, b.2 - max length 0) := by
  rw [Path.up, clamp_eq_max]
  exact (h.v _).to rfl (sub_eq_add_neg _ _).symm

theorem Draws.left (h : p.Draws a b) {length : K} (hlength : 0 ≤ length) :
    (p.left length).Draws a (b.1 - length, b.2) := by
  rw [Path.left, clamp_of_nonneg hlength]
  exact (h.h (-length)).to (sub_eq_add_neg _ _).symm rfl

theorem Draws.l (h : p.Draws a b) (dx dy : K) : (p.l dx dy).Draws a (b.1 + dx, b.2 + dy) := by
  have hpush := h.push (c := .line dx dy) rfl
  rw [finish_push, h.finish] at hpush
  exact hpush

end Path

/-! ## From one thing to the next -/

/-- Paths each of which leads from one of some things to the next, in their order. -/
def Linked {α : Type} [Scalar α] (paths : List (Path α)) (ports : List (Ports α)) : Prop :=
  List.Forall₂ (fun path (ends : Ports α × Ports α) => path.Draws ends.1.exit ends.2.entry) paths
    (ports.zip ports.tail)

theorem linked_singleton {α : Type} [Scalar α] (p : Ports α) : Linked [] [p] := .nil

theorem linked_cons {α : Type} [Scalar α] {path : Path α} {paths : List (Path α)} {p q : Ports α}
    {ports : List (Ports α)} (hpath : path.Draws p.exit q.entry) (h : Linked paths (q :: ports)) :
    Linked (path :: paths) (p :: q :: ports) := .cons hpath h

end SyntaxDiagram
