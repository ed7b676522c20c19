import SyntaxDiagram.Diagram
import SyntaxDiagram.Json.Printer

/-!
# Layout reports

The sizes of all nodes of diagrams as data.

* `Report.entries`: the nodes of a tree with their depth and size, a node before what is in it
  (`Report.entries_cons`).
* `Report.ofDiagrams`: the report on named diagrams.
-/

namespace SyntaxDiagram

/-- What is reported of a node. -/
structure Report.Entry (α : Type) where
  kind : Node.Kind
  depth : Nat
  metrics : Metrics α
  deriving Repr

/-- What is reported of a diagram. -/
structure Report (α : Type) where
  name : String
  metrics : Metrics α
  nodes : List (Report.Entry α)
  deriving Repr

namespace Report

variable {α : Type}

/-- The nodes of figures whose roots are at a depth, behind other entries. -/
def addEntries (depth : Nat) (sofar : Array (Entry α)) : List (Figure α) → Array (Entry α)
  | [] => sofar
  | ⟨metrics, ⟨kind, inside, _⟩⟩ :: rest =>
    addEntries depth (addEntries (depth + 1) (sofar.push ⟨kind, depth, metrics⟩) inside) rest

/-- Other entries stay in front as they are. -/
theorem addEntries_eq : ∀ (figures : List (Figure α)) (depth : Nat) (sofar : Array (Entry α)),
    addEntries depth sofar figures = sofar ++ addEntries depth #[] figures
  | [], depth, sofar => by simp only [addEntries, Array.append_empty]
  | ⟨metrics, ⟨kind, inside, place⟩⟩ :: rest, depth, sofar => by
    simp only [addEntries]
    rw [addEntries_eq rest depth (addEntries _ (sofar.push _) inside),
      addEntries_eq inside (depth + 1) (sofar.push _),
      addEntries_eq rest depth (addEntries _ (#[].push _) inside),
      addEntries_eq inside (depth + 1) (#[].push _)]
    simp only [Array.push_eq_append, Array.append_assoc, Array.empty_append]

variable [Scalar α]

/-- The nodes of several trees whose roots are at a depth. -/
def entries (o : Options α) (depth : Nat) (nodes : List (Node α)) : List (Entry α) :=
  (addEntries depth #[] (Node.figures o nodes)).toList

theorem entries_nil (o : Options α) (depth : Nat) : entries o depth [] = [] := by
  simp only [entries, Node.figures, addEntries]

/-- A node comes first, then what is in it, then the nodes behind it. -/
theorem entries_cons (o : Options α) (depth : Nat) (n : Node α) (rest : List (Node α)) :
    entries o depth (n :: rest) =
      ⟨n.kind, depth, n.metrics o⟩ ::
        (entries o (depth + 1) n.children ++ entries o depth rest) := by
  have inside : (n.figure o).item.inside = Node.figures o n.children := by
    rw [Node.inside_figure, Node.figures_eq_map]
  simp only [entries, Node.figures, ← inside, ← Node.kind_figure o n, Node.metrics]
  obtain ⟨metrics, kind, inside, place⟩ := n.figure o
  rw [addEntries, addEntries_eq (Node.figures o rest), addEntries_eq inside]
  simp only [Array.push_eq_append, Array.append_assoc, Array.empty_append, Array.toList_append,
    List.singleton_append]

/-- The report on a diagram. -/
def ofDiagram (name : String) (d : Diagram α) : Report α :=
  ⟨name, d.metrics, entries d.options 0 d.items⟩

/-- An entry as data. -/
def Entry.toJson (e : Entry Float) : Json :=
  .object
    [("kind", .string e.kind.name), ("depth", .number (.integer e.depth)),
     ("width", .number (.float e.metrics.width)), ("height", .number (.float e.metrics.height)),
     ("up", .number (.float e.metrics.up)), ("down", .number (.float e.metrics.down)),
     ("needsSpace", .bool e.metrics.needsSpace)]

/-- A report as data. -/
def toJson (r : Report Float) : Json :=
  .object
    [("name", .string r.name), ("width", .number (.float r.metrics.width)),
     ("height", .number (.float r.metrics.height)), ("up", .number (.float r.metrics.up)),
     ("down", .number (.float r.metrics.down)), ("nodes", .array (r.nodes.map Entry.toJson))]

/-- The text of the report on named diagrams. -/
def text (diagrams : List (String × Diagram Float)) : String :=
  (Json.object
    [("rules", .array (diagrams.map fun (name, d) => (ofDiagram name d).toJson))]).pretty

end Report
end SyntaxDiagram
