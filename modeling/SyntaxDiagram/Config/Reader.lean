import SyntaxDiagram.Config
import SyntaxDiagram.Json.Fields
import SyntaxDiagram.Json.Relaxed
import SyntaxDiagram.Json.Strict

/-!
# Configurations in JSON

* `Options.ofWritten?`: the measures that are written.
* `Config.ofWritten?`: the configuration that is written.
* `Config.parse?`: the configuration that a text is. A text that does not fit in strict notation is
  read again in the relaxed one.

In relaxed notation a list of fields may go on longer than its record, but the value of a name that
is not known has to stand for something.
-/

namespace SyntaxDiagram

/-- The two notations of a configuration. -/
inductive Config.Notation where
  | strict
  | relaxed
  deriving Repr, DecidableEq

open Config (Notation)
open Json (Fields Written)
open Json.Written (nullable text? float? bool?)

/-- Whether fields may be read as those of a record with known names. -/
def Config.Notation.admits (n : Notation) (f : Fields Written) (known : List String) : Bool :=
  match n with
  | .strict => f.fit known.length
  | .relaxed => f.allUnknown known Written.isSound

/-- The single float that is written. Relaxed notation rounds it to a float first. -/
def Config.Notation.float32? (n : Notation) (w : Written) : Option Float32 :=
  match n with
  | .strict => w.number?.map Json.Number.toFloat32
  | .relaxed => w.float?.map Float.toFloat32

/-- The alignment of a name. -/
def Alignment.ofName? : String → Option Alignment
  | "left" => some .left
  | "center" => some .center
  | "right" => some .right
  | _ => none

/-- An alignment, which is a name or an object with that name for null. Relaxed notation looks no
further than the first name of an object. -/
def Alignment.ofWritten? (n : Notation) : Written → Option Alignment
  | .string (some name) => ofName? name
  | .object ((some name, w) :: more) =>
    match n, w, more with
    | .strict, .null, [] => ofName? name
    | .strict, _, _ => none
    | .relaxed, _, _ => ofName? name
  | _ => none

/-- Measures, which may all be left out. -/
def Options.ofWritten? (n : Notation) (w : Written) : Option (Options Float) := do
  let f ← Fields.ofWritten? w
  guard (n.admits f ["debug", "verticalSeparation", "arcRadius", "diagramClass",
    "strokeOddPixelLength", "internalAlignment", "defaultCharWidth", "commentCharWidth"])
  let usual := Options.default
  return {
    debug := ← f.defaulted 0 "debug" usual.debug bool?
    verticalSeparation := ← f.defaulted 1 "verticalSeparation" usual.verticalSeparation float?
    arcRadius := ← f.defaulted 2 "arcRadius" usual.arcRadius float?
    diagramClass := ← f.defaulted 3 "diagramClass" usual.diagramClass text?
    strokeOddPixelLength :=
      ← f.defaulted 4 "strokeOddPixelLength" usual.strokeOddPixelLength bool?
    internalAlignment :=
      ← f.defaulted 5 "internalAlignment" usual.internalAlignment (Alignment.ofWritten? n)
    defaultCharWidth := ← f.defaulted 6 "defaultCharWidth" usual.defaultCharWidth float?
    commentCharWidth := ← f.defaulted 7 "commentCharWidth" usual.commentCharWidth float? }

/-- Padding, of which every side may be left out. -/
def Padding.ofWritten? (n : Notation) (w : Written) : Option (Padding Float) := do
  let f ← Fields.ofWritten? w
  guard (n.admits f ["top", "right", "bottom", "left"])
  return {
    top := ← f.defaulted 0 "top" none (nullable float?)
    right := ← f.defaulted 1 "right" none (nullable float?)
    bottom := ← f.defaulted 2 "bottom" none (nullable float?)
    left := ← f.defaulted 3 "left" none (nullable float?) }

/-- What is made of a diagram. Members may be left out, but a list has to go up to the last. -/
def RenderConfig.ofWritten? (n : Notation) (w : Written) : Option RenderConfig := do
  let f ← Fields.ofWritten? w
  guard (n.admits f ["padding", "standalone", "style", "complex", "labelRules", "wrapWidth",
    "width", "height", "background"])
  let usual : RenderConfig := {}
  return {
    padding := (← f.optional 0 "padding" (nullable (Padding.ofWritten? n))).getD usual.padding
    standalone := (← f.optional 1 "standalone" (nullable bool?)).getD usual.standalone
    style := ← f.optional 2 "style" (nullable text?)
    complex := (← f.optional 3 "complex" (nullable bool?)).getD usual.complex
    labelRules := (← f.optional 4 "labelRules" (nullable bool?)).getD usual.labelRules
    wrapWidth := ← f.optional 5 "wrapWidth" (nullable float?)
    width := (← f.optional 6 "width" (nullable n.float32?)).getD usual.width
    height := (← f.optional 7 "height" (nullable n.float32?)).getD usual.height
    background := (← f.optional 8 "background" (nullable text?)).getD usual.background }

namespace Config

/-- A whole configuration. -/
def ofWritten? (n : Notation) (w : Written) : Option Config := do
  let f ← Fields.ofWritten? w
  guard (n.admits f ["options", "render"])
  return {
    options := (← f.optional 0 "options" (nullable (Options.ofWritten? n))).getD .default
    render := (← f.optional 1 "render" (nullable (RenderConfig.ofWritten? n))).getD {} }

/-- The configuration that a text is. -/
def parse? (text : String) : Option Config :=
  match (Json.parseAll? text).bind (ofWritten? .strict) with
  | some config => some config
  | none => (Json.parseRelaxed? text).bind (ofWritten? .relaxed)

end Config
end SyntaxDiagram
