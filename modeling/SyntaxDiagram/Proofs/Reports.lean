import Mathlib.Data.List.Lex
import SyntaxDiagram.Proofs.Walk
import SyntaxDiagram.Report

/-!
# Walks, reports and trees

A walk takes nodes off a list of pending ones, and a report is made by recursion. Both list the
nodes of a diagram in tree order.

* `Node.preorder`: the nodes of a forest in tree order, by recursion. A walk comes to the same nodes
  (`Walk.toList_eq_preorder`).
* `Node.at?`: the node at an address, which is the number of a tree of the forest, then that of a
  child, and so on.
* `Node.addresses`: the addresses of all nodes in tree order. They are sorted, each node has one of
  them, and a report has an entry for each.
* `KindTree.outline`: a forest of kinds as a list of kinds and depths. No other forest has the same
  list (`KindTree.outline_injective`).
* `Diagram.walk_reported`: all of this for diagrams.
-/

namespace SyntaxDiagram

variable {α β : Type}

/-! ## Tree order -/

namespace Node

/-- What is in the first tree of a forest and what is behind it are smaller than the forest. -/
theorem sizes_children_lt (n : Node α) (rest : List (Node α)) :
    sizes n.children < sizes (n :: rest) ∧ sizes rest < sizes (n :: rest) := by
  rw [sizes, size_eq]
  omega

/-- The nodes of a forest: each tree in turn, a node before what is in it. -/
def preorder : List (Node α) → List (Node α)
  | [] => []
  | n :: rest => n :: (preorder n.children ++ preorder rest)
termination_by ns => sizes ns
decreasing_by
  · exact (sizes_children_lt n rest).1
  · exact (sizes_children_lt n rest).2

end Node

/-- **A walk is in tree order**, whatever is pending. -/
theorem Walk.toList_eq_preorder (pending : List (Node α)) :
    toList ⟨pending⟩ = Node.preorder pending := by
  induction pending using Node.preorder.induct with
  | case1 => rw [toList_nil, Node.preorder]
  | case2 n rest ihchildren ihrest =>
    rw [toList_cons, toList_append, ihchildren, ihrest, Node.preorder]

/-! ## Addresses -/

namespace Node

/-- The node at an address in a forest. -/
def at? (ns : List (Node α)) : List Nat → Option (Node α)
  | [] => none
  | [i] => ns[i]?
  | i :: j :: path => ns[i]?.bind fun n => at? n.children (j :: path)

/-- The same address in a forest with one more tree in front. -/
def shift : List Nat → List Nat
  | [] => []
  | i :: path => (i + 1) :: path

/-- The addresses of the nodes of a forest, in tree order. -/
def addresses : List (Node α) → List (List Nat)
  | [] => []
  | n :: rest => [0] :: ((addresses n.children).map (0 :: ·) ++ (addresses rest).map shift)
termination_by ns => sizes ns
decreasing_by
  · exact (sizes_children_lt n rest).1
  · exact (sizes_children_lt n rest).2

theorem at?_nil (path : List Nat) : at? ([] : List (Node α)) path = none := by
  match path with
  | [] => rfl
  | [i] => rfl
  | i :: j :: path => rfl

theorem at?_inside (n : Node α) (rest : List (Node α)) {path : List Nat} (h : path ≠ []) :
    at? (n :: rest) (0 :: path) = at? n.children path := by
  cases path with
  | nil => exact absurd rfl h
  | cons j path => rfl

theorem at?_shift (n : Node α) (rest : List (Node α)) (path : List Nat) :
    at? (n :: rest) (shift path) = at? rest path := by
  match path with
  | [] => rfl
  | [i] => rfl
  | i :: j :: path => rfl

@[simp] theorem length_shift (path : List Nat) : (shift path).length = path.length := by
  cases path <;> rfl

theorem shift_injective : Function.Injective shift := by
  intro path path' h
  cases path <;> cases path' <;> simp_all [shift]

theorem zero_notMem_shift (path : List Nat) (paths : List (List Nat)) :
    0 :: path ∉ paths.map shift := by
  rw [List.mem_map]
  rintro ⟨_ | ⟨i, rest⟩, -, h⟩ <;> cases h

/-- **Every node has an address**, and every address that leads to a node is one of them. -/
theorem mem_addresses (ns : List (Node α)) (path : List Nat) :
    path ∈ addresses ns ↔ (at? ns path).isSome := by
  induction ns using addresses.induct generalizing path with
  | case1 => simp [addresses, at?_nil]
  | case2 n rest ihchildren ihrest =>
    rw [addresses, List.mem_cons, List.mem_append]
    match path with
    | [] =>
      have hrest := ihrest []
      rw [← List.mem_map_of_injective shift_injective] at hrest
      simpa [shift, at?] using hrest
    | [0] => exact iff_of_true (.inl rfl) rfl
    | 0 :: j :: path =>
      rw [at?_inside n rest (List.cons_ne_nil j path), ← ihchildren]
      simp [zero_notMem_shift]
    | (i + 1) :: path =>
      have hinside : (i + 1) :: path ∉ (addresses n.children).map (0 :: ·) := by simp
      have hbehind : (i + 1) :: path ∈ (addresses rest).map shift ↔ i :: path ∈ addresses rest :=
        List.mem_map_of_injective (a := i :: path) shift_injective
      have hat : at? (n :: rest) ((i + 1) :: path) = at? rest (i :: path) :=
        at?_shift n rest (i :: path)
      rw [hat, ← ihrest, ← hbehind]
      simp [hinside]

theorem ne_nil_of_mem_addresses {ns : List (Node α)} {path : List Nat} (h : path ∈ addresses ns) :
    path ≠ [] := by
  rintro rfl
  cases (mem_addresses ns []).1 h

/-- The nodes at the addresses, in tree order. -/
theorem map_at?_addresses (ns : List (Node α)) :
    (addresses ns).map (at? ns) = (preorder ns).map some := by
  induction ns using addresses.induct with
  | case1 => simp [addresses, preorder]
  | case2 n rest ihchildren ihrest =>
    rw [addresses, preorder, List.map_cons, List.map_cons, List.map_append, List.map_append,
      ← ihchildren, ← ihrest, List.map_map, List.map_map]
    refine congrArg₂ _ rfl (congrArg₂ _ (List.map_congr_left fun path hpath => ?_) ?_)
    · exact at?_inside n rest (ne_nil_of_mem_addresses hpath)
    · exact List.map_congr_left fun path _ => at?_shift n rest path

theorem length_addresses (ns : List (Node α)) : (addresses ns).length = (preorder ns).length := by
  rw [← List.length_map, map_at?_addresses, List.length_map]

theorem shift_lt_shift {path path' : List Nat} (h : path < path') : shift path < shift path' := by
  cases h with
  | nil => exact .nil
  | cons h => exact .cons h
  | rel h => exact .rel (Nat.succ_lt_succ h)

/-- The first tree of a forest comes before the others. -/
theorem zero_cons_lt_shift (path : List Nat) {path' : List Nat} (h : path' ≠ []) :
    0 :: path < shift path' := by
  cases path' with
  | nil => exact absurd rfl h
  | cons i path' => exact .rel (Nat.succ_pos i)

/-- **Tree order is the order of the addresses.** -/
theorem pairwise_addresses (ns : List (Node α)) : (addresses ns).Pairwise (· < ·) := by
  induction ns using addresses.induct with
  | case1 => simp [addresses]
  | case2 n rest ihchildren ihrest =>
    rw [addresses, List.pairwise_cons, List.pairwise_append, List.pairwise_map, List.pairwise_map]
    refine ⟨fun path hpath => ?_, ihchildren.imp .cons, ihrest.imp shift_lt_shift, ?_⟩
    · rcases List.mem_append.1 hpath with hpath | hpath
      · obtain ⟨inside, hinside, rfl⟩ := List.mem_map.1 hpath
        obtain ⟨i, path, rfl⟩ := List.exists_cons_of_ne_nil (ne_nil_of_mem_addresses hinside)
        exact .cons .nil
      · obtain ⟨behind, hbehind, rfl⟩ := List.mem_map.1 hpath
        exact zero_cons_lt_shift [] (ne_nil_of_mem_addresses hbehind)
    · intro path hpath path' hpath'
      obtain ⟨inside, -, rfl⟩ := List.mem_map.1 hpath
      obtain ⟨behind, hbehind, rfl⟩ := List.mem_map.1 hpath'
      exact zero_cons_lt_shift inside (ne_nil_of_mem_addresses hbehind)

end Node

/-! ## Reports -/

section

variable [Scalar α] (o : Options α)

/-- **A report has an entry for each node**, in tree order, with the depth of its address. -/
theorem Report.entries_eq (depth : Nat) (ns : List (Node α)) :
    entries o depth ns = List.zipWith
      (fun path n => ⟨n.kind, depth + path.length - 1, n.metrics o⟩) (Node.addresses ns)
      (Node.preorder ns) := by
  induction ns using Node.preorder.induct generalizing depth with
  | case1 => simp [Node.addresses, Node.preorder, entries_nil]
  | case2 n rest ihchildren ihrest =>
    rw [entries_cons, ihchildren, ihrest, Node.addresses, Node.preorder, List.zipWith_cons_cons,
      List.zipWith_append (by rw [List.length_map, Node.length_addresses]), List.zipWith_map_left,
      List.zipWith_map_left]
    -- a child is a step further from the root than its parent
    have hinside (path : List Nat) :
        depth + 1 + path.length - 1 = depth + (0 :: path).length - 1 := by
      rw [List.length_cons]
      omega
    simp only [hinside, Node.length_shift]
    rfl

end

/-! ## Trees of kinds -/

/-- The kinds of the nodes of a tree. -/
inductive KindTree where
  | node (kind : Node.Kind) (children : List KindTree)

/-- The kinds of the nodes of a forest. -/
def Node.kinds : List (Node α) → List KindTree
  | [] => []
  | n :: rest => .node n.kind (kinds n.children) :: kinds rest
termination_by ns => sizes ns
decreasing_by
  · exact (sizes_children_lt n rest).1
  · exact (sizes_children_lt n rest).2

/-- The kinds in a forest with their depths, in tree order. -/
def KindTree.outline (depth : Nat) : List KindTree → List (Node.Kind × Nat)
  | [] => []
  | .node kind children :: rest =>
    (kind, depth) :: (outline (depth + 1) children ++ outline depth rest)

/-- A list of kinds and depths that does not go on with what is at a depth or deeper. -/
def KindTree.EndsBefore (depth : Nat) (rest : List (Node.Kind × Nat)) : Prop :=
  ∀ e ∈ rest.head?, e.2 < depth

namespace KindTree

theorem outline_nil (depth : Nat) : outline depth [] = [] := by
  rw [outline]

theorem outline_cons (depth : Nat) (kind : Node.Kind) (children rest : List KindTree) :
    outline depth (.node kind children :: rest) =
      (kind, depth) :: (outline (depth + 1) children ++ outline depth rest) := by
  rw [outline]

/-- A forest is followed by less deep nodes if what comes behind it is. -/
theorem endsBefore_outline_append {depth : Nat} {more : List (Node.Kind × Nat)}
    (h : EndsBefore depth more) (forest : List KindTree) :
    EndsBefore (depth + 1) (outline depth forest ++ more) := by
  intro e he
  cases forest with
  | nil =>
    rw [outline_nil] at he
    exact (h e he).trans (Nat.lt_succ_self depth)
  | cons t rest =>
    obtain ⟨kind, children⟩ := t
    rw [outline_cons] at he
    obtain rfl := Option.some.inj he
    exact Nat.lt_succ_self depth

/-- **Kinds and depths make up only one forest**, whatever they are followed by. -/
theorem outline_append_inj (depth : Nat) {more more' : List (Node.Kind × Nat)}
    (hmore : EndsBefore depth more) (hmore' : EndsBefore depth more') :
    ∀ forest forest' : List KindTree,
      outline depth forest ++ more = outline depth forest' ++ more' →
        forest = forest' ∧ more = more'
  | [], [], h => by
    rw [outline_nil] at h
    exact ⟨rfl, h⟩
  | [], .node kind children :: rest, h => by
    -- what comes behind the empty forest would be as deep as a root
    rw [outline_nil, outline_cons] at h
    rw [List.nil_append] at h
    exact absurd (hmore (kind, depth) (h ▸ rfl)) (lt_irrefl depth)
  | .node kind children :: rest, [], h => by
    rw [outline_nil, outline_cons] at h
    rw [List.nil_append] at h
    exact absurd (hmore' (kind, depth) (h ▸ rfl)) (lt_irrefl depth)
  | .node kind children :: rest, .node kind' children' :: rest', h => by
    rw [outline_cons, outline_cons, List.cons_append, List.cons_append, List.append_assoc,
      List.append_assoc] at h
    obtain ⟨hroot, hbelow⟩ := List.cons.inj h
    obtain ⟨rfl, -⟩ := Prod.mk.inj hroot
    obtain ⟨rfl, hbehind⟩ := outline_append_inj (depth + 1) (endsBefore_outline_append hmore rest)
      (endsBefore_outline_append hmore' rest') children children' hbelow
    obtain ⟨rfl, hend⟩ := outline_append_inj depth hmore hmore' rest rest' hbehind
    exact ⟨rfl, hend⟩

theorem outline_injective (depth : Nat) : Function.Injective (outline depth) := by
  intro forest forest' h
  have hend : EndsBefore depth [] := nofun
  refine (outline_append_inj depth hend hend forest forest' ?_).1
  rw [h]

end KindTree

/-- The kinds and depths in a report are those of the forest. -/
theorem Report.outline_entries [Scalar α] (o : Options α) (depth : Nat) (ns : List (Node α)) :
    (entries o depth ns).map (fun e => (e.kind, e.depth)) =
      KindTree.outline depth (Node.kinds ns) := by
  induction ns using Node.preorder.induct generalizing depth with
  | case1 => simp only [entries_nil, Node.kinds, KindTree.outline_nil, List.map_nil]
  | case2 n rest ihchildren ihrest =>
    rw [entries_cons, Node.kinds, KindTree.outline_cons, List.map_cons, List.map_append, ihchildren,
      ihrest]

/-! ## Diagrams -/

/-- The kinds and depths that a report lists. -/
def Report.outline (r : Report α) : List (Node.Kind × Nat) := r.nodes.map fun e => (e.kind, e.depth)

/-- **Walk, report and tree agree.** A walk of a diagram comes to its nodes in tree order, which is
the order of their addresses: every node has one address, and every address that leads to a node is
one of them. The report has an entry for each node in the same order, with its kind and size and
with the number of steps that lead to it from an item of the diagram. Reports with the same kinds and
depths are on diagrams with the same tree of kinds. -/
theorem Diagram.walk_reported [Scalar α] [Scalar β] (name : String) (d : Diagram α) :
    d.walk = Node.preorder d.items ∧
    (∃ addresses : List (List Nat), addresses.Pairwise (· < ·) ∧
      (∀ path, path ∈ addresses ↔ (Node.at? d.items path).isSome) ∧
      addresses.map (Node.at? d.items) = d.walk.map some ∧
      (Report.ofDiagram name d).nodes = List.zipWith
        (fun path n => ⟨n.kind, path.length - 1, n.metrics d.options⟩) addresses d.walk) ∧
    ∀ (name' : String) (d' : Diagram β),
      (Report.ofDiagram name d).outline = (Report.ofDiagram name' d').outline ↔
        Node.kinds d.items = Node.kinds d'.items := by
  have hwalk : d.walk = Node.preorder d.items := Walk.toList_eq_preorder d.items
  refine ⟨hwalk, ⟨Node.addresses d.items, Node.pairwise_addresses d.items,
    Node.mem_addresses d.items, ?_, ?_⟩, fun name' d' => ?_⟩
  · rw [hwalk, Node.map_at?_addresses]
  · rw [hwalk, Report.ofDiagram, Report.entries_eq]
    simp only [Nat.zero_add]
  · rw [Report.outline, Report.outline, Report.ofDiagram, Report.ofDiagram, Report.outline_entries,
      Report.outline_entries]
    exact (KindTree.outline_injective 0).eq_iff

end SyntaxDiagram
