import Mathlib.Logic.Relation
import Mathlib.Tactic.Ring
import SyntaxDiagram.Proofs.Layout.Boxes
import SyntaxDiagram.Proofs.Layout.Contents

/-!
# Ways along lines

* `Path.Draws`: a path draws a line from one point to another, without a gap.
* `Leads`: lines lead from one point to another.
* `Layout.tracks`: the lines among pieces.
* `Ports`: where the track comes into something and where it leaves it.
* `Chained`, `Fanned`: lines through things one behind another, or through any of them.
-/

namespace SyntaxDiagram

variable {α β γ : Type}

/-! ## Lines -/

/-- Whether a command draws. Moves leave a gap, and raw data may do anything. -/
def Command.isStroke : Command α → Bool
  | move .. | raw _ => false
  | _ => true

/-- A path draws a line from one point to another, without a gap. -/
structure Path.Draws [Scalar α] (p : Path α) (a b : α × α) : Prop where
  unbroken : ∀ c ∈ p.commands, c.isStroke
  origin : (p.x, p.y) = a
  finish : p.finish = b

/-- One of the paths draws a line from a point to another. -/
def Line [Scalar α] (paths : List (Path α)) (a b : α × α) : Prop := ∃ p ∈ paths, p.Draws a b

/-- Lines lead from a point to another, each of them in the direction in which it is drawn. -/
def Leads [Scalar α] (paths : List (Path α)) : α × α → α × α → Prop :=
  Relation.ReflTransGen (Line paths)

section Leads

variable [Scalar α] {paths more : List (Path α)} {a b c : α × α}

theorem Leads.refl (paths : List (Path α)) (a : α × α) : Leads paths a a :=
  Relation.ReflTransGen.refl

theorem Leads.trans (h : Leads paths a b) (h' : Leads paths b c) : Leads paths a c :=
  Relation.ReflTransGen.trans h h'

theorem Line.leads (h : Line paths a b) : Leads paths a b := .single h

theorem Line.mono (h : Line paths a b) (hmore : paths ⊆ more) : Line more a b := by
  obtain ⟨p, hp, hdraws⟩ := h
  exact ⟨p, hmore hp, hdraws⟩

/-- More lines lead to more points. -/
theorem Leads.mono (h : Leads paths a b) (hmore : paths ⊆ more) : Leads more a b := by
  induction h with
  | refl => exact .refl more a
  | tail _ hline ih => exact ih.trans (hline.mono hmore).leads

end Leads

/-! ## Ports -/

/-- The points where the track comes into something and where it leaves it. -/
structure Ports (α : Type) where
  entry : α × α
  exit : α × α

/-- Lines that lead from where something is entered to each of some things, and from each of them to
where it is left. -/
def Fanned [Scalar α] (paths : List (Path α)) (outer : Ports α) (parts : List (Ports α)) : Prop :=
  ∀ part ∈ parts, Leads paths outer.entry part.entry ∧ Leads paths part.exit outer.exit

section Fanned

variable [Scalar α] {paths more : List (Path α)} {outer inner : Ports α} {parts : List (Ports α)}

theorem Fanned.mono (h : Fanned paths outer parts) (hmore : paths ⊆ more) :
    Fanned more outer parts :=
  fun part hpart => ⟨(h part hpart).1.mono hmore, (h part hpart).2.mono hmore⟩

theorem Fanned.widen (h : Fanned paths inner parts) (hfront : Leads paths outer.entry inner.entry)
    (hback : Leads paths inner.exit outer.exit) : Fanned paths outer parts :=
  fun part hpart => ⟨hfront.trans (h part hpart).1, (h part hpart).2.trans hback⟩

/-- A fan leads through any of the things in it that there is a way through. -/
theorem Fanned.leads (h : Fanned paths outer parts) (hparts : parts ≠ [])
    (hthrough : ∀ part ∈ parts, Leads paths part.entry part.exit) :
    Leads paths outer.entry outer.exit := by
  obtain ⟨part, hpart⟩ := List.exists_mem_of_ne_nil parts hparts
  exact ((h part hpart).1.trans (hthrough part hpart)).trans (h part hpart).2

end Fanned

/-- Lines that lead from a point into the first of some things, from each into the next one, and
from the last one to a point. -/
def Chained [Scalar α] (paths : List (Path α)) (a : α × α) : List (Ports α) → α × α → Prop
  | [], b => Leads paths a b
  | p :: rest, b => Leads paths a p.entry ∧ Chained paths p.exit rest b

section Chained

variable [Scalar α] {paths more : List (Path α)} {a b c : α × α} {ports : List (Ports α)}

theorem Chained.mono (h : Chained paths a ports b) (hmore : paths ⊆ more) :
    Chained more a ports b := by
  induction ports generalizing a with
  | nil => exact Leads.mono h hmore
  | cons p rest ih => exact ⟨h.1.mono hmore, ih h.2⟩

theorem Chained.head (hab : Leads paths a b) (h : Chained paths b ports c) :
    Chained paths a ports c := by
  cases ports with
  | nil => exact hab.trans h
  | cons p rest => exact ⟨hab.trans h.1, h.2⟩

theorem Chained.tail (h : Chained paths a ports b) (hbc : Leads paths b c) :
    Chained paths a ports c := by
  induction ports generalizing a with
  | nil => exact Leads.trans h hbc
  | cons p rest ih => exact ⟨h.1, ih h.2⟩

/-- **A chain leads through everything in it**, if there are ways through the things themselves. -/
theorem Chained.leads (h : Chained paths a ports b)
    (hthrough : ∀ p ∈ ports, Leads paths p.entry p.exit) :
    Leads paths a b ∧ Fanned paths ⟨a, b⟩ ports := by
  induction ports generalizing a with
  | nil => exact ⟨h, nofun⟩
  | cons p rest ih =>
    obtain ⟨hfirst, hrest⟩ := h
    rw [List.forall_mem_cons] at hthrough
    -- what is behind the first one is reached through it
    obtain ⟨hbehind, hothers⟩ := ih hrest hthrough.2
    have hp : Leads paths a p.exit := hfirst.trans hthrough.1
    refine ⟨hp.trans hbehind, List.forall_mem_cons.2 ⟨⟨hfirst, hbehind⟩, fun q hq => ?_⟩⟩
    exact ⟨hp.trans (hothers q hq).1, (hothers q hq).2⟩

end Chained

/-- The ends of a slot, on the lines where the track comes in and goes out. -/
def Site.ports [Scalar α] (s : Site α β) : Ports α :=
  ⟨(s.x, s.y), (s.x + s.slot, s.y + s.metrics.height)⟩

/-! ## Pieces -/

/-- The line that a piece is, if it is one. -/
def Piece.track? : Piece α γ → Option (Path α)
  | track path => some path
  | _ => none

namespace Layout

/-- The lines among pieces. -/
def tracks (pieces : List (Piece α γ)) : List (Path α) := pieces.filterMap Piece.track?

@[simp] theorem tracks_nil : tracks ([] : List (Piece α γ)) = [] := rfl

@[simp] theorem tracks_track (path : Path α) (rest : List (Piece α γ)) :
    tracks (.track path :: rest) = path :: tracks rest := rfl

@[simp] theorem tracks_piece (s : Sized α β) (x y slot : α) (rest : List (Piece α (Site α β))) :
    tracks (s.piece x y slot :: rest) = tracks rest := rfl

@[simp] theorem tracks_append (a b : List (Piece α γ)) :
    tracks (a ++ b) = tracks a ++ tracks b := List.filterMap_append

theorem tracks_map_shape (drawings : List (Drawing α)) :
    tracks (drawings.map Piece.shape : List (Piece α γ)) = [] := by
  induction drawings with
  | nil => rfl
  | cons d rest ih => exact ih

/-- Other content does not move lines. -/
theorem tracks_map {δ : Type} (f : γ → δ) (pieces : List (Piece α γ)) :
    tracks (pieces.map (Piece.map f)) = tracks pieces := by
  induction pieces with
  | nil => rfl
  | cons p rest ih =>
    cases p with
    | track path => exact congrArg (path :: ·) ih
    | child content => exact ih
    | shape drawing => exact ih

end Layout

/-! ## Drawing lines -/

namespace Path

variable {K : Type} [ExactScalar K] {p : Path K} {a b : K × K}

theorem finish_h (p : Path K) (dx : K) : (p.h dx).finish = (p.finish.1 + dx, p.finish.2) := by
  rw [Path.h, finish_push]
  exact Prod.ext rfl (ExactScalar.add_zero_eq _)

theorem finish_v (p : Path K) (dy : K) : (p.v dy).finish = (p.finish.1, p.finish.2 + dy) := by
  rw [Path.v, finish_push]
  exact Prod.ext (ExactScalar.add_zero_eq _) rfl

theorem finish_m (p : Path K) (dx dy : K) :
    (p.m dx dy).finish = (p.finish.1 + dx, p.finish.2 + dy) := finish_push p _

theorem draws_start (x y : K) : (Layout.start x y).Draws (x, y) (x, y) := ⟨nofun, rfl, rfl⟩

/-- The same line, with its end said in another way. -/
theorem Draws.to {b' : K × K} (h : p.Draws a b) (hx : b.1 = b'.1) (hy : b.2 = b'.2) :
    p.Draws a b' := (Prod.ext hx hy : b = b') ▸ h

theorem Draws.push (h : p.Draws a b) {c : Command K} (hc : c.isStroke) :
    (p.push c).Draws a (p.push c).finish := by
  refine ⟨fun d hd => ?_, h.origin, rfl⟩
  rcases Array.mem_push.1 hd with hd | rfl
  · exact h.unbroken d hd
  · exact hc

theorem Draws.h (h : p.Draws a b) (dx : K) : (p.h dx).Draws a (b.1 + dx, b.2) := by
  rw [← h.finish, ← finish_h]
  exact h.push rfl

theorem Draws.v (h : p.Draws a b) (dy : K) : (p.v dy).Draws a (b.1, b.2 + dy) := by
  rw [← h.finish, ← finish_v]
  exact h.push rfl

theorem clamp_eq_max (length : K) : Scalar.clamp length = max length 0 := by
  rw [Scalar.clamp, ExactScalar.zero_eq]

theorem clamp_of_nonneg {length : K} (h : 0 ≤ length) : Scalar.clamp length = length :=
  (clamp_eq_max length).trans (max_eq_left h)

theorem Draws.right (h : p.Draws a b) {length : K} (hlength : 0 ≤ length) :
    (p.right length).Draws a (b.1 + length, b.2) := by
  rw [Path.right, clamp_of_nonneg hlength]
  exact h.h length

theorem Draws.down (h : p.Draws a b) {length : K} (hlength : 0 ≤ length) :
    (p.down length).Draws a (b.1, b.2 + length) := by
  rw [Path.down, clamp_of_nonneg hlength]
  exact h.v length

theorem Draws.up (h : p.Draws a b) {length : K} (hlength : 0 ≤ length) :
    (p.up length).Draws a (b.1, b.2 - length) := by
  rw [Path.up, clamp_of_nonneg hlength]
  exact (h.v (-length)).to rfl (sub_eq_add_neg _ _).symm

theorem Draws.arc (h : p.Draws a b) (radius : K) (source target : Cardinal) :
    (p.arc radius source target).Draws a
      (b.1 + Command.arcX radius source target, b.2 + Command.arcY radius source target) := by
  have hpush := h.push (c := .arc radius source target) rfl
  rw [finish_push, h.finish] at hpush
  exact hpush

end Path
end SyntaxDiagram
