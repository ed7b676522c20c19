import SyntaxDiagram.Proofs.Layout.Lines
import SyntaxDiagram.Proofs.PathData.Numbers

/-!
# The path data of paths

A command is written as its letter and its arguments, with a blank in front of each. What the calls
of a path write is therefore path data as soon as all their numbers are finite and the radius of arcs
is a length.

* `PathData.isCommand_spaced`: a letter and as many words as it has arguments.
* `PathData.areCommands_spelled`: raw data is checked word by word.
* `Command.areCommands_text`, `Path.isPathData_text`: commands and paths are written as they should.
-/

namespace SyntaxDiagram

open PathData
open Binary64 (IsLength)

namespace PathData

/-! ## Words -/

/-- Words with a blank in front of each. -/
def spaced (words : List (List Char)) : List Char := words.flatMap (' ' :: ·)

theorem spaced_cons (word : List Char) (words : List (List Char)) :
    spaced (word :: words) = [' '] ++ (word ++ spaced words) := rfl

theorem isBlank_blank : ∀ c ∈ [' '], isBlank c := List.forall_mem_singleton.2 rfl

theorem areArguments_spaced {kind : Kind} {kinds : List Kind} {word : List Char}
    {words : List (List Char)} (h : kind.Allows word) (hrest : List.Forall₂ Kind.Allows kinds words) :
    AreArguments (kind :: kinds) (word ++ spaced words) := by
  induction hrest generalizing kind word with
  | nil =>
    rw [spaced, List.flatMap_nil, List.append_nil]
    exact .last h
  | cons hnext _ ih =>
    rw [spaced_cons]
    exact .cons h (List.cons_ne_nil _ _) isBlank_blank (ih hnext)

/-- A letter is a command with the right words behind it. -/
theorem isCommand_spaced (letter : Char) {kinds : List Kind} {words : List (List Char)}
    (hkinds : argumentKinds letter = some kinds) (h : List.Forall₂ Kind.Allows kinds words) :
    IsCommand letter (letter :: spaced words) := by
  cases h with
  | nil => exact @IsCommand.intro letter [] [] [] hkinds nofun .nil
  | cons hfirst hrest =>
    rw [spaced_cons]
    exact .intro hkinds isBlank_blank (areArguments_spaced hfirst hrest)

theorem areCommands_append {cs cs' : List Char} (h : AreCommands cs) (h' : AreCommands cs') :
    AreCommands (cs ++ cs') := by
  induction h with
  | nil => exact h'
  | cons hgap hcommand _ ih =>
    rw [List.append_assoc, List.append_assoc]
    exact .cons hgap hcommand ih

theorem areCommands_of_isCommand {letter : Char} {cs : List Char} (h : IsCommand letter cs) :
    AreCommands (' ' :: cs) := by
  have hcommands := AreCommands.cons isBlank_blank h .nil
  rwa [List.append_nil] at hcommands

/-! ## Raw data -/

/-- A check for numbers without an exponent. -/
def isDecimal (cs : List Char) : Bool :=
  match cs.dropWhile Char.isDigit with
  | [] => !cs.isEmpty
  | c :: back => c = '.' && !back.isEmpty && back.all Char.isDigit

theorem isDecimal_of_check {cs : List Char} (h : isDecimal cs) : IsDecimal cs := by
  have hfront : ∀ c ∈ cs.takeWhile Char.isDigit, c.isDigit := fun _ hc => List.mem_takeWhile_imp hc
  have hsplit : cs.takeWhile Char.isDigit ++ cs.dropWhile Char.isDigit = cs :=
    List.takeWhile_append_dropWhile
  rw [isDecimal] at h
  rw [← hsplit]
  split at h
  · rename_i hend
    rw [hend, List.append_nil] at hsplit ⊢
    refine .whole ⟨?_, hfront⟩
    rw [hsplit]
    simpa using h
  · rename_i c back hpoint
    simp only [Bool.and_eq_true, decide_eq_true_eq, List.all_eq_true] at h
    obtain ⟨⟨rfl, hne⟩, hback⟩ := h
    rw [hpoint]
    exact .point hfront ⟨by simpa using hne, hback⟩

/-- A check for arguments without an exponent. -/
def Kind.accepts : Kind → List Char → Bool
  | number, '-' :: cs => isDecimal cs
  | number, cs | magnitude, cs => isDecimal cs
  | flag, cs => cs = ['0'] || cs = ['1']

theorem Kind.allows_of_accepts {kind : Kind} {cs : List Char} (h : kind.accepts cs) :
    kind.Allows cs := by
  have hmagnitude {cs : List Char} (hcs : isDecimal cs) : IsMagnitude cs := by
    have hplain := IsMagnitude.intro (isDecimal_of_check hcs) .none
    rwa [List.append_nil] at hplain
  unfold accepts at h
  split at h
  · exact .signed (.inr rfl) (hmagnitude h)
  · exact .plain (hmagnitude h)
  · exact hmagnitude h
  · rwa [Bool.or_eq_true, decide_eq_true_eq, decide_eq_true_eq] at h

/-- Commands, each with its words, as they stand in raw data. -/
def spelled (commands : List (Char × List String)) : List Char :=
  commands.flatMap fun c => ' ' :: c.1 :: spaced (c.2.map String.toList)

/-- A check for a command with its words. -/
def isSpelled (c : Char × List String) : Bool :=
  (argumentKinds c.1).any fun kinds =>
    decide (List.Forall₂ (fun kind word => Kind.accepts kind word) kinds (c.2.map String.toList))

theorem areCommands_spelled {commands : List (Char × List String)} (h : commands.all isSpelled) :
    AreCommands (spelled commands) := by
  induction commands with
  | nil => exact .nil
  | cons c rest ih =>
    rw [List.all_cons, Bool.and_eq_true] at h
    obtain ⟨hfirst, hrest⟩ := h
    obtain ⟨kinds, hkinds, hwords⟩ := (Option.any_eq_true ..).1 hfirst
    have hallows := (of_decide_eq_true hwords).imp fun _ _ => Kind.allows_of_accepts
    exact areCommands_append (areCommands_of_isCommand (isCommand_spaced _ hkinds hallows)) (ih hrest)

end PathData

/-! ## Commands -/

namespace Command

/-- All numbers of a command are finite. -/
def Finite : Command Float → Prop
  | move dx dy | line dx dy => dx.isFinite ∧ dy.isFinite
  | horizontal d | vertical d => d.isFinite
  | arc radius _ _ | eighth radius _ _ => radius.isFinite
  | nudge | raw _ => True

instance : (c : Command Float) → Decidable c.Finite
  | .move dx dy | .line dx dy => inferInstanceAs (Decidable (dx.isFinite ∧ dy.isFinite))
  | .horizontal d | .vertical d | .arc d _ _ | .eighth d _ _ =>
    inferInstanceAs (Decidable (d.isFinite = true))
  | .nudge | .raw _ => inferInstanceAs (Decidable True)

/-- A command of a call, or raw data that is made of commands. -/
def IsSound {α : Type} (radius : α) (c : Command α) : Prop :=
  c.IsCall radius ∨ ∃ data, c = .raw data ∧ AreCommands data.toList

/-- A sign in front of a length gives a number. -/
theorem isNumber_reachText {radius : Float} (h : IsLength radius) (r : Reach) :
    IsNumber (reachText Decimal.svg.write radius r).toList := by
  have hside : IsLength (side radius r) := by
    rw [side]
    split
    · exact Binary64.isLength_longSide h
    · exact Binary64.isLength_shortSide h
  have hmagnitude := Decimal.isMagnitude_write hside
  rw [reachText, String.toList_append]
  split
  · exact .signed (.inr rfl) hmagnitude
  · exact .plain hmagnitude

/-- An arc has two radii, a rotation, two flags and an end. -/
theorem areCommands_arcText {radius : Float} (h : IsLength radius) (clockwise : Bool)
    {dx dy : List Char} (hdx : IsNumber dx) (hdy : IsNumber dy) :
    AreCommands ((arcText Decimal.svg.write radius clockwise).toList ++ spaced [dx, dy]) := by
  have hradius := Decimal.isMagnitude_write h
  have hflag : Kind.flag.Allows (flag clockwise).toList := by
    cases clockwise
    · exact .inl rfl
    · exact .inr rfl
  have hwords := isCommand_spaced 'a' rfl
    (.cons hradius (.cons hradius (.cons (.plain Decimal.isMagnitude_zero)
      (.cons (.inl rfl) (.cons hflag (.cons hdx (.cons hdy .nil)))))))
  simpa [arcText, spaced] using areCommands_of_isCommand hwords

/-- Half a pixel stands right behind its letter. -/
theorem areCommands_nudge : AreCommands "h.5".toList := by
  have hhalf : IsDecimal ['.', '5'] := @IsDecimal.point [] ['5'] nofun (Decimal.areDigits_toDigits 5)
  have hcommand : IsCommand 'h' ['h', '.', '5'] :=
    @IsCommand.intro 'h' _ [] _ rfl nofun (.last (.plain (.intro hhalf .none)))
  exact @AreCommands.cons 'h' [] _ [] nofun hcommand .nil

/-- The reach of a quarter arc is the radius or its negative. -/
theorem isFinite_arc {radius : Float} (h : radius.isFinite) (source target : Cardinal) :
    (arcX radius source target).isFinite ∧ (arcY radius source target).isFinite := by
  have hsigned {p : Prop} [Decidable p] : (if p then -radius else radius).isFinite := by
    split
    · exact Binary64.isFinite_neg h
    · exact h
  exact ⟨hsigned, hsigned⟩

/-- **A call writes a command** with just its arguments. -/
theorem areCommands_text {radius : Float} (hradius : IsLength radius) {c : Command Float}
    (h : c.IsSound radius) (hfinite : c.Finite) :
    AreCommands (c.text Decimal.svg.write).toList := by
  have hnumber {x : Float} (hx : x.isFinite) := Decimal.isNumber_write hx
  obtain hcall | ⟨data, rfl, hdata⟩ := h
  · cases c with
    | move dx dy =>
      have hwords := isCommand_spaced 'm' rfl
        (.cons (hnumber hfinite.1) (.cons (hnumber hfinite.2) .nil))
      simpa [text, spaced] using areCommands_of_isCommand hwords
    | line dx dy =>
      have hwords := isCommand_spaced 'l' rfl
        (.cons (hnumber hfinite.1) (.cons (hnumber hfinite.2) .nil))
      simpa [text, spaced] using areCommands_of_isCommand hwords
    | horizontal dx =>
      have hwords := isCommand_spaced 'h' rfl (.cons (hnumber hfinite) .nil)
      simpa [text, spaced] using areCommands_of_isCommand hwords
    | vertical dy =>
      have hwords := isCommand_spaced 'v' rfl (.cons (hnumber hfinite) .nil)
      simpa [text, spaced] using areCommands_of_isCommand hwords
    | arc r source target =>
      obtain rfl : r = radius := hcall
      obtain ⟨hdx, hdy⟩ := isFinite_arc hfinite source target
      have harc := areCommands_arcText hradius (source.isClockwise target) (hnumber hdx)
        (hnumber hdy)
      simpa [text, spaced] using harc
    | eighth r source spin =>
      obtain rfl : r = radius := hcall
      have harc := areCommands_arcText hradius (spin = .clockwise)
        (isNumber_reachText hradius (source.reach spin).1)
        (isNumber_reachText hradius (source.reach spin).2)
      simpa [text, spaced] using harc
    | nudge => exact areCommands_nudge
    | raw data => exact hcall.elim
  · exact hdata

end Command

/-! ## Paths -/

namespace Path

/-- All numbers of a path are finite. -/
structure Finite (p : Path Float) : Prop where
  x : p.x.isFinite
  y : p.y.isFinite
  commands : ∀ c ∈ p.commands.toList, c.Finite

instance (p : Path Float) : Decidable p.Finite :=
  decidable_of_iff (p.x.isFinite ∧ p.y.isFinite ∧ ∀ c ∈ p.commands.toList, c.Finite)
    ⟨fun h => ⟨h.1, h.2.1, h.2.2⟩, fun h => ⟨h.x, h.y, h.commands⟩⟩

/-- A path of calls and of raw data that is made of commands. -/
def IsSound {α : Type} (radius : α) (p : Path α) : Prop :=
  ∀ c ∈ p.commands.toList, c.IsSound radius

theorem IsCalled.isSound {α : Type} {radius : α} {p : Path α} (h : p.IsCalled radius) :
    p.IsSound radius :=
  fun c hc => .inl (h c hc)

/-- The path data of a path is a move and the path data of its commands. -/
theorem toList_text {α : Type} [Scalar α] (number : α → String) (p : Path α) :
    (p.text number).toList = 'M' :: spaced [(number p.x).toList, (number p.y).toList] ++
      p.commands.toList.flatMap fun c => (c.text number).toList := by
  have hfold (cs : List (Command α)) (s : String) :
      (cs.foldl (fun s c => s ++ c.text number) s).toList =
        s.toList ++ cs.flatMap fun c => (c.text number).toList := by
    induction cs generalizing s with
    | nil => simp
    | cons c rest ih => simp [ih]
  rw [text, ← Array.foldl_toList, String.toList_append, hfold]
  simp [spaced]

/-- **A path writes path data**, whatever blanks stand in front of it. -/
theorem isPathData_text {radius : Float} (hradius : IsLength radius) {p : Path Float}
    (h : p.IsSound radius) (hfinite : p.Finite) {lead : String}
    (hlead : ∀ c ∈ lead.toList, isBlank c) :
    IsPathData (lead ++ p.text Decimal.svg.write) := by
  have hmove := isCommand_spaced 'M' rfl
    (.cons (Decimal.isNumber_write hfinite.x) (.cons (Decimal.isNumber_write hfinite.y) .nil))
  have hcommands {cs : List (Command Float)} (hcs : ∀ c ∈ cs, c ∈ p.commands.toList) :
      AreCommands (cs.flatMap fun c => (c.text Decimal.svg.write).toList) := by
    induction cs with
    | nil => exact .nil
    | cons c rest ih =>
      rw [List.forall_mem_cons] at hcs
      rw [List.flatMap_cons]
      exact areCommands_append
        (Command.areCommands_text hradius (h c hcs.1) (hfinite.commands c hcs.1)) (ih hcs.2)
  refine ⟨lead.toList, 'M', _, _, ?_, hlead, List.mem_cons_self, hmove,
    hcommands fun _ hc => hc⟩
  rw [String.toList_append, toList_text]

/-! ## Calls -/

/-- The calls that go on with a path. -/
inductive Call (α : Type) where
  | m (dx dy : α)
  | l (dx dy : α)
  | h (dx : α)
  | v (dy : α)
  | right (length : α)
  | left (length : α)
  | down (length : α)
  | up (length : α)
  | arc (source target : Cardinal)
  | eighth (source : Compass) (spin : Spin)
  | nudge
  deriving Repr

namespace Call

/-- What a call makes of a path whose arcs have a radius. -/
def run {α : Type} [Scalar α] (radius : α) (p : Path α) : Call α → Path α
  | m dx dy => p.m dx dy
  | l dx dy => p.l dx dy
  | h dx => p.h dx
  | v dy => p.v dy
  | right length => p.right length
  | left length => p.left length
  | down length => p.down length
  | up length => p.up length
  | arc source target => p.arc radius source target
  | eighth source spin => p.eighth radius source spin
  | nudge => p.nudge

/-- All numbers of a call are finite. -/
def Finite : Call Float → Prop
  | m dx dy | l dx dy => dx.isFinite ∧ dy.isFinite
  | h d | v d | right d | left d | down d | up d => d.isFinite
  | arc .. | eighth .. | nudge => True

theorem isCalled_run {α : Type} [Scalar α] {radius : α} {p : Path α} (hp : p.IsCalled radius)
    (c : Call α) : (c.run radius p).IsCalled radius := by
  cases c <;> simpa [run] using hp

end Call

theorem Finite.push {p : Path Float} (h : p.Finite) {c : Command Float} (hc : c.Finite) :
    (p.push c).Finite := by
  refine ⟨h.x, h.y, fun c' hc' => ?_⟩
  rw [Path.push, Array.toList_push, List.mem_append, List.mem_singleton] at hc'
  rcases hc' with hold | rfl
  · exact h.commands c' hold
  · exact hc

theorem Finite.run {radius : Float} (hradius : radius.isFinite) {p : Path Float} (h : p.Finite)
    {c : Call Float} (hc : c.Finite) : (c.run radius p).Finite := by
  cases c with
  | m dx dy | l dx dy | h dx | v dy => exact h.push hc
  | right d | down d => exact h.push (Binary64.isFinite_clamp hc)
  | left d | up d => exact h.push (Binary64.isFinite_neg (Binary64.isFinite_clamp hc))
  | arc source target | eighth source spin => exact h.push hradius
  | nudge => exact h.push trivial

/-- **Calls keep** that all commands come of calls and that all numbers are finite. -/
theorem run_calls {radius : Float} (hradius : radius.isFinite) {p : Path Float}
    (hp : p.IsCalled radius) (hfinite : p.Finite) {calls : List (Call Float)}
    (hcalls : ∀ c ∈ calls, c.Finite) :
    (calls.foldl (fun p c => c.run radius p) p).IsCalled radius ∧
      (calls.foldl (fun p c => c.run radius p) p).Finite := by
  induction calls generalizing p with
  | nil => exact ⟨hp, hfinite⟩
  | cons c rest ih =>
    rw [List.forall_mem_cons] at hcalls
    obtain ⟨hc, hrest⟩ := hcalls
    exact ih (c.isCalled_run hp) (hfinite.run hradius hc) hrest

/-- **What calls make is path data**, whichever calls and in whichever order. -/
theorem isPathData_calls {radius x y : Float} (hradius : IsLength radius) (hx : x.isFinite)
    (hy : y.isFinite) {calls : List (Call Float)} (hcalls : ∀ c ∈ calls, c.Finite) :
    IsPathData ((calls.foldl (fun p c => c.run radius p) (Layout.start x y)).text
      Decimal.svg.write) := by
  obtain ⟨hcalled, hfinite⟩ :=
    run_calls hradius.isFinite (isCalled_start x y) ⟨hx, hy, nofun⟩ hcalls
  have hlead : ∀ c ∈ "".toList, isBlank c := by simp
  have hdata := isPathData_text hradius hcalled.isSound hfinite hlead
  rwa [String.empty_append] at hdata

end Path
end SyntaxDiagram
