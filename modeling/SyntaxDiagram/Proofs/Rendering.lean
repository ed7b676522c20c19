import SyntaxDiagram.Proofs.Translation
import SyntaxDiagram.Render

/-!
# Rendering refuses nothing but syntax

Every step from a grammar to its markup is one that may refuse: there are no choices without
branches, no stacks without rows and no drawings of a width that somebody asks for.

* `Rule.diagram?`, `Diagram.render?`, `Rule.render?`: the steps with their refusals, and
  `Rule.render?_eq`: none of them is ever refused.
* `renderAll?`, `renderNamed?`: the ways to render a grammar and one rule of it, step by step.
* `renderAll?_eq`, `renderNamed?_eq`: they are `render` and `renderRule`.
* `renderings_agree`: they fail where parsing fails, and agree otherwise.
-/

namespace SyntaxDiagram

/-! ## Steps that may refuse -/

/-- A body as a rule is shown, between its markers. -/
def RuleStyle.frame (style : RuleStyle Float) (o : Options Float) (name : String)
    (body : Node Float) : Diagram Float :=
  let label := if style.labelRules then name else ""
  if style.complex then .fragment o [.start .complex label, body]
  else .simple o [.start .simple label, body]

/-- The diagram of a rule, built by operations that may refuse. -/
def Rule.diagram? (o : Options Float) (style : RuleStyle Float) (r : Rule) :
    Except Error (Diagram Float) := do
  return style.frame o r.name (← r.body.build? o style.wrapWidth)

/-- The markup of a diagram, for which a sheet is asked to draw it in no width of its own. -/
def Diagram.render? (config : RenderConfig) (d : Diagram Float) : Except Error String :=
  match Sheet.call ⟨d, none⟩ (.format 0 0 0 config.padding) with
  | (.refused error, _) => .error error
  | (_, sheet) => .ok <|
    if config.standalone then Sheet.standalone sheet.drawing config.style
    else sheet.drawing.render

/-- The markup of a rule. -/
def Rule.render? (config : Config) (r : Rule) : Except Error Rendered := do
  let d ← r.diagram? config.options config.render.toRuleStyle
  return ⟨r.name, ← d.render? config.render⟩

/-- The rules of a grammar, one after another. The first one that is refused stops them all. -/
def renderAll? (config : Config) (source : String) : Except Error (List Rendered) := do
  let g ← (Grammar.parse source).mapError .grammar
  g.rules.mapM (Rule.render? config)

/-- The first rule of a name. -/
def renderNamed? (config : Config) (source name : String) : Except Error (Option Rendered) := do
  let g ← (Grammar.parse source).mapError .grammar
  match g.rule? name with
  | none => return none
  | some r => return some (← r.render? config)

/-! ## Nothing is refused -/

theorem Rule.diagram?_eq (o : Options Float) (style : RuleStyle Float) (r : Rule) :
    r.diagram? o style = .ok (r.diagram o style) := by
  rw [Rule.diagram?, Expr.build?_eq]
  rfl

/-- A sheet is never asked for a width, and so it draws. -/
theorem Diagram.render?_eq (config : RenderConfig) (d : Diagram Float) :
    d.render? config = .ok (d.render config) := by
  have hwidth : ((0 : Float) == 0) = true := rfl
  rw [Diagram.render?, Sheet.call, if_pos hwidth]
  rfl

/-- **No rule is refused.** -/
theorem Rule.render?_eq (config : Config) (r : Rule) :
    r.render? config = .ok (r.render config) := by
  rw [Rule.render?, Rule.diagram?_eq, ok_bind, Diagram.render?_eq]
  rfl

theorem renderAll?_eq (config : Config) (source : String) :
    renderAll? config source = (render config source).mapError .grammar := by
  rw [renderAll?, render]
  cases Grammar.parse source with
  | error cause => rfl
  | ok g =>
    have hrules : Rule.render? config = fun r => .ok (r.render config) :=
      funext (Rule.render?_eq config)
    rw [hrules]
    exact List.mapM_pure

theorem renderNamed?_eq (config : Config) (source name : String) :
    renderNamed? config source name = (renderRule config source name).mapError .grammar := by
  rw [renderNamed?, renderRule]
  cases Grammar.parse source with
  | error cause => rfl
  | ok g =>
    change (match g.rule? name with
      | none => pure none
      | some r => r.render? config >>= fun m => pure (some m)) =
        Except.ok ((g.rule? name).map (Rule.render config))
    cases g.rule? name with
    | none => rfl
    | some r =>
      dsimp only
      rw [Rule.render?_eq]
      rfl

/-! ## Grammars and their rules -/

/-- The first rule of a name has the first markup of that name. -/
theorem Grammar.find?_render (config : Config) (g : Grammar) (name : String) :
    (g.rules.map (Rule.render config)).find? (fun m => m.name = name) =
      (g.rule? name).map (Rule.render config) := by
  rw [List.find?_map]
  rfl

/-- **Rendering fails on syntax alone, and all ways to render agree.** Rendering a grammar step by
step gives an error just where parsing does, the same one, and otherwise the markup of all rules in
their order under their names. Rendering the rule of a name gives the first markup of that name. -/
theorem renderings_agree (config : Config) (source : String) :
    renderAll? config source = (render config source).mapError .grammar ∧
      (∀ e, renderAll? config source = .error e ↔
        ∃ cause, Grammar.parse source = .error cause ∧ e = .grammar cause) ∧
      (renderAll? config source).map (List.map (·.name)) =
        ((Grammar.parse source).map fun g => g.rules.map (·.name)).mapError .grammar ∧
      ∀ name,
        renderNamed? config source name = (renderRule config source name).mapError .grammar ∧
        renderNamed? config source name =
          (renderAll? config source).map (List.find? fun m => m.name = name) := by
  have hall := renderAll?_eq config source
  refine ⟨hall, ?_⟩
  cases hparse : Grammar.parse source with
  | error cause =>
    have hrender : renderAll? config source = .error (.grammar cause) := by
      rw [hall, render, hparse]
      rfl
    rw [hrender]
    refine ⟨fun e => ⟨?_, ?_⟩, rfl, fun name => ⟨renderNamed?_eq config source name, ?_⟩⟩
    · rintro ⟨⟩
      exact ⟨cause, rfl, rfl⟩
    · rintro ⟨cause', ⟨⟩, rfl⟩
      rfl
    · rw [renderNamed?_eq, renderRule, hparse]
      rfl
  | ok g =>
    have hrender : renderAll? config source = .ok (g.rules.map (Rule.render config)) := by
      rw [hall, render, hparse]
      rfl
    rw [hrender]
    refine ⟨fun e => ⟨nofun, nofun⟩, ?_, fun name => ⟨renderNamed?_eq config source name, ?_⟩⟩
    · have hnames : (g.rules.map (Rule.render config)).map (·.name) = g.rules.map (·.name) := by
        rw [List.map_map]
        rfl
      exact congrArg Except.ok hnames
    · rw [renderNamed?_eq, renderRule, hparse]
      exact congrArg Except.ok (g.find?_render config name).symm

end SyntaxDiagram
