import Mathlib
import SyntaxDiagram.CommandLine.Run

/-!
# Work on a session

What the steps of a run read, write and print.

* `Session.after`: what comes of some work, and the session behind it; one lemma for each kind of
  step.
* `configOf`, `inputOf`, `inputKind`: the configuration and the input that a command line leads to.
  A run reads them and changes nothing (`after_readConfig`, `after_readInput`).
* `Store.writeAll`: files written one after another. No directory comes or goes with a file
  (`Store.directories_write`), so all paths lead to directories as before
  (`Store.isDirectory_congr`).
* `Emission`, `Session.emit`: texts that are printed, and files that are written.
-/

namespace SyntaxDiagram.CommandLine

namespace Session

variable {β γ : Type}

/-- What comes of some work, and the session behind it. -/
def after (w : Session) (x : ExceptT Failure (StateM Session) β) : Except Failure β × Session :=
  x.run.run w

theorem after_except (w : Session) (x : Except Failure β) : w.after (liftM x) = (x, w) := rfl

theorem after_bind (w : Session) (x : ExceptT Failure (StateM Session) β)
    (f : β → ExceptT Failure (StateM Session) γ) :
    w.after (x >>= f) = match w.after x with
      | (.ok b, w') => w'.after (f b)
      | (.error e, w') => (.error e, w') := by
  unfold after ExceptT.run StateT.run
  simp only [bind, ExceptT.bind, ExceptT.mk, StateT.bind]
  cases x w with
  | mk result w' => cases result <;> rfl

theorem after_liftM (w : Session) (x : StateM Session β) :
    w.after (liftM x) = (.ok (x.run w).1, (x.run w).2) := rfl

theorem after_isDirectory (w : Session) (path : String) :
    w.after (liftM (host.isDirectory path)) = (.ok (w.store.isDirectory path), w) := rfl

/-- An error of the system is a failure of the run. -/
theorem after_orFail (w : Session) (x : StateM Session (Except OsError β)) :
    w.after (orFail x) = ((x.run w).1.mapError .os, (x.run w).2) := by
  unfold orFail
  rw [after_bind, after_liftM]
  rcases x.run w with ⟨result, w'⟩
  cases result <;> rfl

theorem after_read (w : Session) (path : String) :
    w.after (orFail (host.read path)) = ((w.store.read path).mapError .os, w) := after_orFail ..

theorem after_write (w : Session) (path content : String) :
    w.after (orFail (host.write path content)) = match w.store.write path content with
      | .ok store => (.ok (), { w with store })
      | .error e => (.error (.os e), w) := by
  rw [after_orFail]
  have h : (host.write path content).run w = match w.store.write path content with
      | .ok store => (.ok (), { w with store })
      | .error e => (.error e, w) := by
    simp only [host, bind, StateT.bind, StateT.run, get, getThe, MonadStateOf.get, StateT.get,
      pure]
    cases w.store.write path content <;> rfl
  rw [h]
  cases w.store.write path content <;> rfl

end Session

/-! ## What a run reads -/

/-- The configuration of a run, with what its command line asks for. -/
def configOf (store : Store) (a : Arguments) : Except Failure Config :=
  match a.config with
  | none => .ok (override a {})
  | some path =>
    match store.read path with
    | .error e => .error (.os e)
    | .ok text =>
      match Config.parse? text with
      | some c => .ok (override a c)
      | none => .error .malformedConfig

/-- The kind of the input of a run. -/
def inputKind (a : Arguments) : InputKind :=
  match a.input with
  | some path => if isStandardInput path then .grammar else .ofPath path
  | none => .grammar

/-- The input of a run. -/
def inputOf (standardInput : String) (store : Store) (a : Arguments) : Except Failure String :=
  match a.input with
  | some path =>
    if isStandardInput path then .ok standardInput else (store.read path).mapError .os
  | none => .ok standardInput

section

variable (w : Session) (a : Arguments)

theorem after_readConfig : w.after (readConfig Session.host a) = (configOf w.store a, w) := by
  unfold readConfig configOf
  cases a.config with
  | none => rfl
  | some path =>
    dsimp only
    rw [Session.after_bind, Session.after_read]
    cases w.store.read path with
    | error e => rfl
    | ok text => cases h : Config.parse? text <;> simp only [Except.mapError, h] <;> rfl

theorem after_readInput :
    w.after (readInput Session.host a) =
      ((inputOf w.standardInput w.store a).map (inputKind a, ·), w) := by
  unfold readInput inputOf inputKind
  cases a.input with
  | none => rfl
  | some path =>
    dsimp only
    split
    · rfl
    · rw [Session.after_bind, Session.after_read]
      cases w.store.read path <;> rfl

end

/-! ## What a run writes -/

namespace Store

/-- Writes files one after another, up to the first that cannot be written. -/
def writeAll (s : Store) : List (String × String) → Except OsError Unit × Store
  | [] => (.ok (), s)
  | (path, content) :: rest =>
    match s.write path content with
    | .ok s => s.writeAll rest
    | .error e => (.error e, s)

theorem writeAll_append (s : Store) (files files' : List (String × String)) :
    s.writeAll (files ++ files') = match s.writeAll files with
      | (.ok (), s) => s.writeAll files'
      | (.error e, s) => (.error e, s) := by
  induction files generalizing s with
  | nil => rfl
  | cons f rest ih =>
    simp only [List.cons_append, writeAll]
    cases s.write f.1 f.2 with
    | ok s => exact ih s
    | error e => rfl

/-- A name that is no directory's is not walked through, whatever else is there. -/
theorem follow_ne_directory (s : Store) {directory : List String} {part : String}
    (hdot : ¬(part = "" ∨ part = ".")) (hup : part ≠ "..")
    (h : ¬s.hasDirectory (directory ++ [part])) (rest place : List String) :
    s.follow directory (part :: rest) ≠ .ok (.directory place) := by
  rw [follow, if_neg hdot, if_neg hup]
  dsimp only
  rw [if_neg h]
  split
  · simp
  · split <;> simp
  · split <;> simp

/-- The files of a store do not matter to what is a directory. -/
theorem follow_eq_directory {s t : Store} (h : t.directories = s.directories)
    (directory place : List String) (parts : List String) :
    t.follow directory parts = .ok (.directory place) ↔
      s.follow directory parts = .ok (.directory place) := by
  have hasDirectory (place : List String) : t.hasDirectory place = s.hasDirectory place := by
    simp only [Store.hasDirectory, h]
  induction parts generalizing directory with
  | nil => rfl
  | cons part rest ih =>
    by_cases hdot : part = "" ∨ part = "."
    · rw [follow, follow, if_pos hdot, if_pos hdot]
      exact ih directory
    by_cases hup : part = ".."
    · rw [follow, follow, if_neg hdot, if_neg hdot, if_pos hup, if_pos hup]
      exact ih (parent directory)
    by_cases hdir : s.hasDirectory (directory ++ [part])
    · rw [follow, follow, if_neg hdot, if_neg hdot, if_neg hup, if_neg hup]
      dsimp only
      rw [hasDirectory, if_pos hdir, if_pos hdir]
      exact ih (directory ++ [part])
    · have hdir' : ¬t.hasDirectory (directory ++ [part]) := by rwa [hasDirectory]
      exact iff_of_false (t.follow_ne_directory hdot hup hdir' rest place)
        (s.follow_ne_directory hdot hup hdir rest place)

theorem isDirectory_iff (s : Store) (path : String) :
    s.isDirectory path ↔ ∃ place, s.find path = .ok (.directory place) := by
  unfold isDirectory
  split
  · next place h => simp [h]
  · next h => simpa using fun place => h place

theorem isDirectory_congr {s t : Store} (h : t.directories = s.directories) :
    t.isDirectory = s.isDirectory := by
  funext path
  rw [Bool.eq_iff_iff, isDirectory_iff, isDirectory_iff]
  unfold find
  split
  · rfl
  · simp only [follow_eq_directory h]

theorem directories_write {s t : Store} {path content : String}
    (h : s.write path content = .ok t) : t.directories = s.directories := by
  unfold write at h
  split at h
  · cases h
  · cases h
    rfl
  · cases h
    rfl
  · cases h
  · cases h

end Store

/-! ## What a run emits -/

/-- What a run prints, and the files that it writes in their order. -/
structure Emission where
  printed : String := ""
  files : List (String × String) := []
  deriving Repr, DecidableEq

namespace Session

/-- What comes of printing and writing. -/
def emit (w : Session) (e : Emission) : Except Failure Unit × Session :=
  ((w.store.writeAll e.files).1.mapError .os,
    { w with printed := w.printed ++ e.printed, store := (w.store.writeAll e.files).2 })

theorem emit_empty (w : Session) : w.emit {} = (.ok (), w) := by
  simp [emit, Store.writeAll, Except.mapError]

theorem emit_cons (w : Session) (path content : String) (rest : List (String × String)) :
    w.emit { files := (path, content) :: rest } = match w.store.write path content with
      | .ok store => emit { w with store } { files := rest }
      | .error e => (.error (.os e), w) := by
  unfold emit
  dsimp only
  rw [Store.writeAll]
  cases w.store.write path content with
  | ok store => rfl
  | error e => simp [Except.mapError]

theorem emit_eq_ok {w w' : Session} {e : Emission} (h : w.emit e = (.ok (), w')) :
    w.store.writeAll e.files = (.ok (), w'.store) ∧ w'.printed = w.printed ++ e.printed := by
  obtain ⟨hok, rfl⟩ := Prod.mk.inj h
  refine ⟨Prod.ext ?_ rfl, rfl⟩
  cases hfirst : (w.store.writeAll e.files).1 with
  | ok u => rfl
  | error e =>
    rw [hfirst] at hok
    cases hok

/-- A loop that writes a file each time around. -/
theorem after_writeEach {δ : Type} (w : Session) (content : δ → String)
    (files : List (String × δ)) :
    w.after (do for f in files do orFail (host.write f.1 (content f.2))) =
      w.emit { files := files.map fun f => (f.1, content f.2) } := by
  induction files generalizing w with
  | nil =>
    rw [List.map_nil, emit_empty]
    rfl
  | cons f rest ih =>
    rw [List.map_cons, emit_cons]
    simp only [List.forIn_cons, bind_assoc, pure_bind]
    rw [after_bind, after_write]
    cases w.store.write f.1 (content f.2) with
    | ok store => exact ih { w with store }
    | error e => rfl

end Session

end SyntaxDiagram.CommandLine
