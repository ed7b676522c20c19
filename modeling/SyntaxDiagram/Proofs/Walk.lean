import SyntaxDiagram.Diagram

/-!
# Walks in tree order

A walk keeps the nodes that it has still to come to in a list and takes the nodes in a node before
the rest of that list. What it comes to is the same as reading the tree by recursion: a node, then
the walks of its children one after another.

* `Walk.toList_append`: what is pending is walked part by part.
* `Node.walk_eq`: the walk of a node from the walks of its children. `Node.forall_mem_walk` says the
  same of what holds of all nodes, and `Diagram.walk_eq` of the items of a diagram.
* `Node.induction`: what holds of a node once it holds of its children holds of all nodes.
-/

namespace SyntaxDiagram

variable {α : Type}

namespace Walk

theorem toList_nil : toList (⟨[]⟩ : Walk α) = [] := by
  rw [toList]
  rfl

theorem toList_cons (n : Node α) (rest : List (Node α)) :
    toList ⟨n :: rest⟩ = n :: toList ⟨n.children ++ rest⟩ := by
  rw [toList]
  rfl

/-- **A walk does not mix what is pending.** The walk comes to the end of everything in the first
nodes before it takes the others. The induction is on the number of nodes in the first ones, since
a step puts children in the place of their parent. -/
theorem toList_append (first others : List (Node α)) :
    toList ⟨first ++ others⟩ = toList ⟨first⟩ ++ toList ⟨others⟩ := by
  induction h : Node.sizes first using Nat.strongRecOn generalizing first with
  | _ count ih =>
    cases first with
    | nil => rw [List.nil_append, toList_nil, List.nil_append]
    | cons n rest =>
      have hlt : Node.sizes (n.children ++ rest) < count := by
        rw [← h, Node.sizes, Node.sizes_append, Node.size_eq n]
        omega
      rw [List.cons_append, toList_cons, toList_cons, ← List.append_assoc, ih _ hlt _ rfl,
        List.cons_append]

/-- A walk of several nodes is made of the walks of each. -/
theorem toList_eq_flatMap (ns : List (Node α)) : toList ⟨ns⟩ = ns.flatMap Node.walk := by
  induction ns with
  | nil => rw [toList_nil, List.flatMap_nil]
  | cons n rest ih =>
    rw [← List.singleton_append, toList_append, ih]
    rfl

end Walk

/-- **A walk is the tree in order**: a node before the walks of its children. -/
theorem Node.walk_eq (n : Node α) : n.walk = n :: n.children.flatMap Node.walk := by
  rw [walk, Walk.toList_cons, List.append_nil, Walk.toList_eq_flatMap]

/-- The walk of a diagram is made of those of its items. -/
theorem Diagram.walk_eq (d : Diagram α) : d.walk = d.items.flatMap Node.walk :=
  Walk.toList_eq_flatMap d.items

theorem Node.self_mem_walk (n : Node α) : n ∈ n.walk := by
  rw [walk_eq]
  exact List.mem_cons_self

/-- What holds of all nodes of a tree holds of its root and of all nodes below. -/
theorem Node.forall_mem_walk {p : Node α → Prop} {n : Node α} :
    (∀ m ∈ n.walk, p m) ↔ p n ∧ ∀ c ∈ n.children, ∀ m ∈ c.walk, p m := by
  simp only [n.walk_eq, List.forall_mem_cons, List.mem_flatMap]
  exact and_congr_right' ⟨fun h c hc m hm => h m ⟨c, hc, hm⟩, fun h m ⟨c, hc, hm⟩ => h c hc m hm⟩

/-- **Induction over trees**, whatever the kinds of their nodes. -/
theorem Node.induction {motive : Node α → Prop}
    (h : ∀ n : Node α, (∀ c ∈ n.children, motive c) → motive n) (n : Node α) : motive n := by
  have hle : ∀ (ns : List (Node α)), ∀ c ∈ ns, c.size ≤ sizes ns := by
    intro ns
    induction ns with
    | nil => exact fun c hc => absurd hc List.not_mem_nil
    | cons first rest ih =>
      intro c hc
      rw [sizes]
      rcases List.mem_cons.1 hc with rfl | hc
      · exact Nat.le_add_right _ _
      · have := ih c hc
        omega
  induction hsize : n.size using Nat.strongRecOn generalizing n with
  | _ count ih =>
    refine h n fun c hc => ih c.size ?_ c rfl
    have := hle n.children c hc
    rw [← hsize, size_eq n]
    omega

end SyntaxDiagram
