import Mathlib.Data.List.Basic
import SyntaxDiagram.Proofs.Dom.Requests
import SyntaxDiagram.Proofs.Markup.RoundTrip

/-!
# Live trees

What a document holds once a tree was handed to it, or a part of it.

* `Dom.Node.live`: the live node of an element, and `Dom.Mirrors`: a node that is an element with
  everything in it.
* `Dom.Complete`: a run of nodes that are the elements of trees, in order.
* `Element.complete_performAll`: all requests for a tree make it complete.
* `Element.exists_block`: an element is appended right behind all requests for it, and no request
  behind that is about anything in it.
* `Element.toDom_mirrors`: the live tree is that of the markup, and what a refusal leaves behind are
  complete trees and nodes that are appended nowhere.
-/

namespace SyntaxDiagram

variable {d : Dom}

/-! ## Single requests -/

namespace Request

/-- The nodes that a request names. -/
def mentions : Request → List Nat
  | create .. => []
  | setAttribute node _ | setText node _ => [node]
  | append parent child => [parent, child]

/-- The node that a request changes, if there was one before. -/
def changed? : Request → Option Nat
  | create .. => none
  | setAttribute node _ | setText node _ | append node _ => some node

/-- The node that a request is about: one to be created, changed or appended. -/
def subject (d : Dom) : Request → Nat
  | create .. => d.nodes.size
  | setAttribute node _ | setText node _ => node
  | append _ child => child

theorem mem_mentions_of_changed? {r : Request} {i : Nat} (h : r.changed? = some i) :
    i ∈ r.mentions := by
  cases r with
  | create space tag => cases h
  | setAttribute node entry => exact List.mem_singleton.2 (Option.some.inj h).symm
  | setText node text => exact List.mem_singleton.2 (Option.some.inj h).symm
  | append parent child => exact List.mem_cons.2 (.inl (Option.some.inj h).symm)

/-- A request that creates nothing is about a node that it names. -/
theorem subject_mem_mentions {r : Request} (h : ¬ r.isCreation) : r.subject d ∈ r.mentions := by
  cases r with
  | create space tag => exact absurd rfl h
  | setAttribute node entry => exact List.mem_singleton_self node
  | setText node text => exact List.mem_singleton_self node
  | append parent child => exact List.mem_cons_of_mem _ (List.mem_singleton_self child)

end Request

namespace Dom

/-- All nodes stay as they are but for the one that is changed. -/
theorem getElem?_perform {r : Request} {i : Nat} (hi : i < d.nodes.size)
    (h : r.changed? ≠ some i) : (d.perform r).nodes[i]? = d.nodes[i]? := by
  cases r with
  | create space tag => exact Array.getElem?_push_lt hi |>.trans (Array.getElem?_eq_getElem hi).symm
  | setAttribute node entry =>
    exact Array.getElem?_modify.trans (if_neg fun he => h (congrArg some he))
  | setText node text =>
    exact Array.getElem?_modify.trans (if_neg fun he => h (congrArg some he))
  | append parent child =>
    exact Array.getElem?_modify.trans (if_neg fun he => h (congrArg some he))

theorem getElem?_performAll {rs : List Request} {i : Nat} (hi : i < d.nodes.size)
    (h : ∀ r ∈ rs, i ∉ r.mentions) : (d.performAll rs).nodes[i]? = d.nodes[i]? := by
  induction rs generalizing d with
  | nil => rfl
  | cons r rest ih =>
    have hstep : (d.perform r).nodes[i]? = d.nodes[i]? := getElem?_perform hi fun hr =>
      h r List.mem_cons_self (Request.mem_mentions_of_changed? hr)
    have hsize : i < (d.perform r).nodes.size := by
      rw [size_perform]
      exact Nat.lt_add_right _ hi
    rw [performAll_cons, ih hsize fun r hr => h r (List.mem_cons_of_mem _ hr), hstep]

/-- A node in a changed array comes from one in the array. -/
theorem exists_of_modify {nodes : Array Node} {i j : Nat} {f : Node → Node} {node : Node}
    (h : (nodes.modify i f)[j]? = some node) :
    ∃ before, nodes[j]? = some before ∧ (node = before ∨ i = j ∧ node = f before) := by
  rw [Array.getElem?_modify] at h
  split at h
  · rename_i hij
    obtain ⟨before, hbefore, rfl⟩ := Option.map_eq_some_iff.1 h
    exact ⟨before, hbefore, .inr ⟨hij, rfl⟩⟩
  · exact ⟨node, h, .inl rfl⟩

/-- A node gets a child only if the child is appended to it. -/
theorem mem_children_perform {r : Request} {j c : Nat} {node : Node}
    (h : (d.perform r).nodes[j]? = some node) (hc : c ∈ node.children) :
    (∃ before, d.nodes[j]? = some before ∧ c ∈ before.children) ∨ r = .append j c := by
  cases r with
  | create space tag =>
    rw [perform, Array.getElem?_push] at h
    split at h
    · obtain rfl := Option.some.inj h
      exact absurd hc (Array.not_mem_empty c)
    · exact .inl ⟨node, h, hc⟩
  | setAttribute i entry =>
    obtain ⟨before, hbefore, rfl | ⟨-, rfl⟩⟩ := exists_of_modify h
    · exact .inl ⟨_, hbefore, hc⟩
    · exact .inl ⟨_, hbefore, hc⟩
  | setText i text =>
    obtain ⟨before, hbefore, rfl | ⟨-, rfl⟩⟩ := exists_of_modify h
    · exact .inl ⟨_, hbefore, hc⟩
    · exact .inl ⟨_, hbefore, hc⟩
  | append parent child =>
    obtain ⟨before, hbefore, rfl | ⟨rfl, rfl⟩⟩ := exists_of_modify h
    · exact .inl ⟨_, hbefore, hc⟩
    · rcases Array.mem_push.1 hc with hc | rfl
      · exact .inl ⟨before, hbefore, hc⟩
      · exact .inr rfl

theorem mem_children_performAll {rs : List Request} {j c : Nat} {node : Node}
    (h : (d.performAll rs).nodes[j]? = some node) (hc : c ∈ node.children) :
    (∃ before, d.nodes[j]? = some before ∧ c ∈ before.children) ∨ .append j c ∈ rs := by
  induction rs generalizing d with
  | nil => exact .inl ⟨node, h, hc⟩
  | cons r rest ih =>
    rcases ih h with ⟨before, hbefore, hmem⟩ | hmem
    · rcases mem_children_perform hbefore hmem with hold | rfl
      · exact .inl hold
      · exact .inr List.mem_cons_self
    · exact .inr (List.mem_cons_of_mem _ hmem)

end Dom

/-! ## Nodes of elements -/

/-- The live node of an element whose children have the given numbers: it is in the namespace of
pictures, has the tag, the attributes in their order and the text if there is one. -/
def Dom.Node.live (e : Element) (children : List Nat) : Dom.Node where
  space := "http://www.w3.org/2000/svg"
  tag := e.tag
  attributes := (e.attributes.entries.map Dom.Attribute.live).toArray
  text := e.text?
  children := children.toArray

namespace Element

/-- The numbers of trees that are created one after another. -/
def rootNumbers (next : Nat) : List Element → List Nat
  | [] => []
  | e :: rest => next :: rootNumbers (next + e.size) rest

/-- The live node of an element with the number `node`, in front of those for what is in it. -/
def liveNode (node : Nat) (e : Element) : Dom.Node := .live e (rootNumbers (node + 1) e.children)

end Element

namespace Dom

/-- From a number on the nodes are those of elements, in order. -/
def Complete (d : Dom) (next : Nat) (es : List Element) : Prop :=
  ∀ i e, es[i]? = some e → d.nodes[next + i]? = some (e.liveNode (next + i))

/-- A node is an element with everything in it: it is the live node of the element, and its children
are nodes for the children of the element, in their order. -/
inductive Mirrors (d : Dom) : Nat → Element → Prop
  | intro {node : Nat} {e : Element} {numbers : List Nat}
      (h : d.nodes[node]? = some (.live e numbers))
      (hchildren : List.Forall₂ (Mirrors d) numbers e.children) : Mirrors d node e

theorem complete_nil (next : Nat) : d.Complete next [] := fun _ _ h => nomatch h

theorem complete_append {next : Nat} {a b : List Element} :
    d.Complete next (a ++ b) ↔ d.Complete next a ∧ d.Complete (next + a.length) b := by
  constructor
  · intro h
    constructor
    · intro i e he
      have hi : i < a.length := (List.getElem?_eq_some_iff.1 he).1
      exact h i e ((List.getElem?_append_left hi).trans he)
    · intro i e he
      have hi := h (a.length + i) e ((List.getElem?_append_right (Nat.le_add_right _ _)).trans
        (by rw [Nat.add_sub_cancel_left, he]))
      rwa [← Nat.add_assoc] at hi
  · rintro ⟨ha, hb⟩ i e he
    rcases Nat.lt_or_ge i a.length with hi | hi
    · exact ha i e ((List.getElem?_append_left hi).symm.trans he)
    · obtain ⟨k, rfl⟩ := Nat.exists_eq_add_of_le hi
      rw [List.getElem?_append_right hi, Nat.add_sub_cancel_left] at he
      have hk := hb k e he
      rwa [Nat.add_assoc] at hk

theorem complete_cons {next : Nat} {e : Element} {rest : List Element} :
    d.Complete next (e :: rest) ↔
      d.nodes[next]? = some (e.liveNode next) ∧ d.Complete (next + 1) rest := by
  rw [← List.singleton_append, complete_append]
  refine and_congr_left fun _ => ⟨fun h => h 0 e rfl, fun h i c hc => ?_⟩
  cases i with
  | zero =>
    obtain rfl := Option.some.inj hc
    exact h
  | succ i => cases hc

/-- What is not changed stays complete. -/
theorem Complete.of_getElem?_eq {d' : Dom} {next : Nat} {es : List Element}
    (h : d.Complete next es)
    (heq : ∀ i, next ≤ i → i < next + es.length → d'.nodes[i]? = d.nodes[i]?) :
    d'.Complete next es := by
  intro i e he
  have hi : i < es.length := (List.getElem?_eq_some_iff.1 he).1
  rw [heq _ (Nat.le_add_right _ _) (Nat.add_lt_add_left hi _)]
  exact h i e he

/-- Complete trees are mirrored. -/
theorem Complete.mirrors {next : Nat} {e : Element} (h : d.Complete next e.walk) :
    d.Mirrors next e := by
  induction e using Element.induction generalizing next with
  | h e ih =>
    have hbelow : ∀ es : List Element,
        (∀ c ∈ es, ∀ {next : Nat}, d.Complete next c.walk → d.Mirrors next c) →
        ∀ next, d.Complete next (Element.walks es) →
          List.Forall₂ d.Mirrors (Element.rootNumbers next es) es := by
      intro es
      induction es with
      | nil => exact fun _ _ _ => .nil
      | cons c rest ihrest =>
        intro hes next hcomplete
        rw [Element.walks, complete_append] at hcomplete
        exact .cons (hes c List.mem_cons_self hcomplete.1)
          (ihrest (fun c hc => hes c (List.mem_cons_of_mem _ hc)) _ hcomplete.2)
    rw [Element.walk_eq, complete_cons] at h
    exact .intro h.1 (hbelow e.children ih _ h.2)

end Dom

/-! ## All requests for a tree -/

namespace Element

theorem mentions_creation {node : Nat} {tag : String} {attributes : Attributes String} {r : Request}
    (h : r ∈ creation node tag attributes) : ∀ m ∈ r.mentions, m = node := by
  rcases List.mem_cons.1 h with rfl | h
  · exact fun m hm => nomatch hm
  · obtain ⟨e, -, rfl⟩ := List.mem_map.1 h
    exact fun m hm => List.mem_singleton.1 hm

theorem mentions_textRequest {node : Nat} {text? : Option String} {r : Request}
    (h : r ∈ textRequest node text?) : ∀ m ∈ r.mentions, m = node := by
  obtain ⟨text, -, rfl⟩ := List.mem_map.1 h
  exact fun m hm => List.mem_singleton.1 hm

/-- The requests for trees below a node name that node and the nodes of the trees, if those for each
of the trees name the nodes of that tree. -/
theorem mentions_below {node : Nat} {es : List Element}
    (h : ∀ c ∈ es, ∀ n, ∀ r ∈ c.requests n, ∀ m ∈ r.mentions, n ≤ m ∧ m < n + c.size) (next : Nat) :
    ∀ r ∈ requestsBelow node next es, ∀ m ∈ r.mentions,
      m = node ∨ next ≤ m ∧ m < next + sizes es := by
  induction es generalizing next with
  | nil => exact fun r hr => absurd hr List.not_mem_nil
  | cons c rest ih =>
    intro r hr m hm
    have hpos : 0 < c.size := by
      rw [size_eq]
      omega
    rw [requestsBelow, List.mem_append, List.mem_cons] at hr
    rw [sizes_cons]
    rcases hr with hr | rfl | hr
    · have hm := h c List.mem_cons_self next r hr m hm
      omega
    · rcases List.mem_pair.1 hm with rfl | rfl
      · exact .inl rfl
      · omega
    · have hm := ih (fun c hc => h c (List.mem_cons_of_mem _ hc)) (next + c.size) r hr m hm
      omega

/-- The requests for a tree name its nodes only. -/
theorem mentions_requests (e : Element) :
    ∀ n, ∀ r ∈ e.requests n, ∀ m ∈ r.mentions, n ≤ m ∧ m < n + e.size := by
  induction e using Element.induction with
  | h e ih =>
    intro n r hr m hm
    rw [requests_eq, List.mem_append, List.mem_append] at hr
    rw [size_eq]
    rcases hr with hr | hr | hr
    · have hm := mentions_creation hr m hm
      omega
    · have hm := mentions_textRequest hr m hm
      omega
    · have hm := mentions_below ih (n + 1) r hr m hm
      omega

/-- The nodes that were there before a tree stay as they are. -/
theorem getElem?_requests (e : Element) {i : Nat} (hi : i < d.nodes.size) :
    (d.performAll (e.requests d.nodes.size)).nodes[i]? = d.nodes[i]? :=
  Dom.getElem?_performAll hi fun r hr hm =>
    Nat.not_le.2 hi (mentions_requests e _ r hr i hm).1

/-- A node that was created has the attributes that were set one after another. -/
theorem getElem?_creation (tag : String) (attributes : Attributes String) :
    (d.performAll (creation d.nodes.size tag attributes)).nodes[d.nodes.size]? =
      some { space := "http://www.w3.org/2000/svg"
             tag
             attributes := (attributes.entries.map Dom.Attribute.live).toArray } := by
  have hentries : ∀ (entries : List (String × String)) (n : Nat) (d : Dom) (node : Dom.Node),
      d.nodes[n]? = some node →
      (d.performAll (entries.map fun e => .setAttribute n (Dom.Attribute.live e))).nodes[n]? =
        some { node with
          attributes := node.attributes ++ (entries.map Dom.Attribute.live).toArray } := by
    intro entries
    induction entries with
    | nil =>
      intro n d node h
      rw [List.map_nil, List.map_nil, Dom.performAll_nil, h, Array.append_empty]
    | cons e rest ih =>
      intro n d node h
      have hstep : (d.perform (.setAttribute n (Dom.Attribute.live e))).nodes[n]? =
          some { node with attributes := node.attributes.push (Dom.Attribute.live e) } := by
        rw [Dom.perform, Array.getElem?_modify, if_pos rfl, h]
        rfl
      rw [List.map_cons, Dom.performAll_cons, ih n _ _ hstep, List.map_cons,
        List.push_append_toArray]
  have hcreated : (d.perform (.create "http://www.w3.org/2000/svg" tag)).nodes[d.nodes.size]? =
      some { space := "http://www.w3.org/2000/svg", tag } := Array.getElem?_push_size
  rw [creation, Dom.performAll_cons, hentries attributes.entries _ _ _ hcreated, Array.empty_append]

/-- Text is set in its place. -/
theorem getElem?_textRequest {n : Nat} {node : Dom.Node} (h : d.nodes[n]? = some node)
    (hnode : node.text = none) (text? : Option String) :
    (d.performAll (textRequest n text?)).nodes[n]? = some { node with text := text? } := by
  cases text? with
  | none =>
    change d.nodes[n]? = _
    rw [h, ← hnode]
  | some text =>
    change (d.perform (.setText n text)).nodes[n]? = _
    rw [Dom.perform, Array.getElem?_modify, if_pos rfl, h]
    rfl

/-- Trees below a node are complete, and children of the node, if each of the trees gets complete by
the requests for it. -/
theorem complete_below {node : Nat} {es : List Element}
    (h : ∀ c ∈ es, ∀ d : Dom, (d.performAll (c.requests d.nodes.size)).Complete d.nodes.size c.walk)
    {live : Dom.Node} (hlive : d.nodes[node]? = some live) :
    let after := d.performAll (requestsBelow node d.nodes.size es)
    after.nodes[node]? = some { live with
        children := live.children ++ (rootNumbers d.nodes.size es).toArray } ∧
      after.Complete d.nodes.size (walks es) := by
  induction es generalizing d live with
  | nil =>
    intro after
    refine ⟨?_, Dom.complete_nil _⟩
    rw [rootNumbers, Array.append_empty]
    exact hlive
  | cons c rest ih =>
    intro after
    have hnode : node < d.nodes.size := (Array.getElem?_eq_some_iff.1 hlive).1
    -- the first tree, then its root as a child of the node, then the other trees
    have hfirst := h c List.mem_cons_self d
    have hlive₁ := (getElem?_requests c hnode).trans hlive
    have hsize₁ := Dom.size_performAll (d := d) (c.requests d.nodes.size)
    rw [creations_requests] at hsize₁
    have hafter : after = ((d.performAll (c.requests d.nodes.size)).perform
        (.append node d.nodes.size)).performAll (requestsBelow node (d.nodes.size + c.size) rest) :=
      Dom.performAll_append _ _
    generalize d.performAll (c.requests d.nodes.size) = d₁ at hfirst hlive₁ hsize₁ hafter
    have hlive₂ : (d₁.perform (.append node d.nodes.size)).nodes[node]? =
        some { live with children := live.children.push d.nodes.size } := by
      rw [Dom.perform, Array.getElem?_modify, if_pos rfl, hlive₁]
      rfl
    have hsize₂ := (Dom.size_perform (d := d₁) (.append node d.nodes.size)).trans hsize₁
    have hfirst₂ : (d₁.perform (.append node d.nodes.size)).Complete d.nodes.size c.walk := by
      refine hfirst.of_getElem?_eq fun i hle hlt => Dom.getElem?_perform (hsize₁ ▸ hlt) fun hi => ?_
      exact Nat.ne_of_lt (Nat.lt_of_lt_of_le hnode hle) (Option.some.inj hi)
    generalize d₁.perform (.append node d.nodes.size) = d₂ at hlive₂ hsize₂ hfirst₂ hafter
    have hothers : ∀ c ∈ rest, ∀ d : Dom,
        (d.performAll (c.requests d.nodes.size)).Complete d.nodes.size c.walk :=
      fun c hc => h c (List.mem_cons_of_mem _ hc)
    obtain ⟨hchildren, hrest⟩ := ih hothers hlive₂
    rw [hsize₂, ← hafter] at hchildren hrest
    refine ⟨?_, Dom.complete_append.2 ⟨?_, hrest⟩⟩
    · rw [hchildren, List.push_append_toArray, rootNumbers]
    · refine hfirst₂.of_getElem?_eq fun i hle hlt => ?_
      rw [hafter]
      refine Dom.getElem?_performAll (hsize₂ ▸ hlt) fun r hr hi => ?_
      have hlen : c.walk.length = c.size := rfl
      have hmention := mentions_below (fun c _ => mentions_requests c) _ r hr i hi
      omega

/-- **All requests for a tree make it complete.** -/
theorem complete_performAll (e : Element) (d : Dom) :
    (d.performAll (e.requests d.nodes.size)).Complete d.nodes.size e.walk := by
  induction e using Element.induction generalizing d with
  | h e ih =>
    have hcreated := getElem?_creation (d := d) e.tag e.attributes
    have hsize := Dom.size_performAll (d := d) (creation d.nodes.size e.tag e.attributes)
    rw [creations_creation] at hsize
    rw [requests_eq, Dom.performAll_append, Dom.performAll_append]
    generalize d.performAll (creation d.nodes.size e.tag e.attributes) = d₁ at hcreated hsize
    have htext := getElem?_textRequest hcreated rfl e.text?
    have hsize₂ := Dom.size_performAll (d := d₁) (textRequest d.nodes.size e.text?)
    rw [creations_textRequest, hsize] at hsize₂
    generalize d₁.performAll (textRequest d.nodes.size e.text?) = d₂ at htext hsize₂
    obtain ⟨hroot, hbelow⟩ := complete_below ih htext
    rw [hsize₂] at hroot hbelow
    rw [walk_eq, Dom.complete_cons]
    refine ⟨?_, hbelow⟩
    rw [hroot, Array.empty_append]
    rfl

/-! ## Appending -/

/-- An element of some trees, the first of which has the number `next`, is appended to a node: it
is the one at `index`, the requests for it come right before, and no request that comes later is
about anything in it. -/
structure Block (next : Nat) (es : List Element) (made : List Request) (node number : Nat)
    (later : List Request) (index : Nat) (e : Element) (before : List Request) : Prop where
  number_eq : number = next + index
  node_lt : node < number
  getElem? : es[index]? = some e
  le : index + e.size ≤ es.length
  made_eq : made = before ++ e.requests number
  creations_eq : Request.creations before = index
  later : ∀ r ∈ later, ∀ m ∈ r.mentions, m < number ∨ number + e.size ≤ m

namespace Block

variable {next p k index : Nat} {es : List Element} {made later before : List Request} {g : Element}

/-- A block stays one if more trees come behind it, and requests that are about nothing in it. -/
theorem in_front (h : Block next es made p k later index g before) {others : List Element}
    {more : List Request}
    (hmore : ∀ r ∈ more, ∀ m ∈ r.mentions, m < k ∨ next + es.length ≤ m) :
    Block next (es ++ others) made p k (later ++ more) index g before where
  number_eq := h.number_eq
  node_lt := h.node_lt
  getElem? := by
    rw [List.getElem?_append_left (List.getElem?_eq_some_iff.1 h.getElem?).1]
    exact h.getElem?
  le := by
    rw [List.length_append]
    exact Nat.le_trans h.le (Nat.le_add_right _ _)
  made_eq := h.made_eq
  creations_eq := h.creations_eq
  later := by
    have hnumber := h.number_eq
    have hle := h.le
    intro r hr m hm
    rcases List.mem_append.1 hr with hr | hr
    · exact h.later r hr m hm
    · have hm := hmore r hr m hm
      omega

/-- A block stays one behind other elements and the requests that create them. -/
theorem behind {first : List Element} (h : Block (next + first.length) es made p k later index g before)
    {front : List Request} (hfront : Request.creations front = first.length) :
    Block next (first ++ es) (front ++ made) p k later (first.length + index) g
      (front ++ before) where
  number_eq := h.number_eq.trans (Nat.add_assoc ..)
  node_lt := h.node_lt
  getElem? := by
    rw [List.getElem?_append_right (Nat.le_add_right _ _), Nat.add_sub_cancel_left]
    exact h.getElem?
  le := by
    rw [List.length_append, Nat.add_assoc]
    exact Nat.add_le_add_left h.le _
  made_eq := by rw [h.made_eq, List.append_assoc]
  creations_eq := by rw [creations_append, hfront, h.creations_eq]
  later := h.later

end Block

/-- Where a request stands in two lists of them. -/
theorem split_of_append {α : Type} {a b made later : List α} {r : α}
    (h : a ++ b = made ++ r :: later) :
    (∃ more, a = made ++ r :: more ∧ later = more ++ b) ∨
      ∃ more, made = a ++ more ∧ b = more ++ r :: later := by
  rcases List.append_eq_append_iff.1 h with ⟨more, hmade, hb⟩ | ⟨more, ha, hr⟩
  · exact .inr ⟨more, hmade, hb⟩
  · rcases List.cons_eq_append_iff.1 hr with ⟨rfl, hb⟩ | ⟨more, rfl, hlater⟩
    · exact .inr ⟨[], by rw [ha, List.append_nil, List.append_nil], hb⟩
    · exact .inl ⟨more, ha, hlater⟩

/-- Nothing is appended while a node is created. -/
theorem append_notMem (node : Nat) (e : Element) (p c : Nat) :
    Request.append p c ∉ creation node e.tag e.attributes ++ textRequest node e.text? := by
  intro h
  rcases List.mem_append.1 h with h | h
  · rcases List.mem_cons.1 h with h | h
    · cases h
    · obtain ⟨entry, -, h⟩ := List.mem_map.1 h
      cases h
  · obtain ⟨text, -, h⟩ := List.mem_map.1 h
    cases h

/-- Whatever is appended in or with some trees is a block, if it is one in each of the trees. -/
theorem exists_block_below {node : Nat} {es : List Element}
    (h : ∀ c ∈ es, ∀ {next p k : Nat} {made later : List Request},
      c.requests next = made ++ .append p k :: later →
      ∃ index g before, Block next c.walk made p k later index g before)
    {next p k : Nat} {made later : List Request} (hnode : node < next)
    (hsplit : requestsBelow node next es = made ++ .append p k :: later) :
    ∃ index g before, Block next (walks es) made p k later index g before := by
  induction es generalizing next made with
  | nil => exact absurd hsplit.symm (List.append_ne_nil_of_right_ne_nil _ (List.cons_ne_nil _ _))
  | cons c rest ih =>
    have hbelow : ∀ r ∈ requestsBelow node (next + c.size) rest, ∀ m ∈ r.mentions,
        m = node ∨ next + c.size ≤ m ∧ m < next + c.size + sizes rest :=
      mentions_below (fun c _ => mentions_requests c) (next + c.size)
    have hlength : (walks (c :: rest)).length = c.size + (walks rest).length := sizes_cons c rest
    rw [requestsBelow] at hsplit
    rcases split_of_append hsplit with ⟨more, hmade, rfl⟩ | ⟨more, rfl, hmore⟩
    · -- in the first tree
      obtain ⟨index, g, before, hblock⟩ := h c List.mem_cons_self hmade
      have hp : next ≤ p := by
        refine (mentions_requests c next (.append p k) ?_ p List.mem_cons_self).1
        rw [hmade]
        exact List.mem_append_right _ List.mem_cons_self
      have hlt := hblock.node_lt
      refine ⟨index, g, before, hblock.in_front fun r hr m hm => ?_⟩
      change m < k ∨ next + c.size ≤ m
      rcases List.mem_cons.1 hr with rfl | hr
      · rcases List.mem_pair.1 hm with rfl | rfl <;> omega
      · have hm := hbelow r hr m hm
        omega
    · rcases List.cons_eq_append_iff.1 hmore with ⟨rfl, hhere⟩ | ⟨more, rfl, hrest⟩
      · -- the root of the first tree
        obtain ⟨happend, rfl⟩ := List.cons.inj hhere
        cases happend
        refine ⟨0, c, [], rfl, hnode, ?_, by omega, by rw [List.append_nil, List.nil_append], rfl, ?_⟩
        · rw [walks, walk_eq]
          rfl
        · intro r hr m hm
          have hm := hbelow r hr m hm
          omega
      · -- in the other trees, or one of them
        obtain ⟨index, g, before, hblock⟩ := ih (fun c hc => h c (List.mem_cons_of_mem _ hc))
          (Nat.lt_add_right _ hnode) hrest
        have hcreations : Request.creations (c.requests next ++ [.append node next]) =
            c.walk.length := by
          rw [creations_append, creations_requests]
          rfl
        rw [List.append_cons]
        exact ⟨_, g, _, hblock.behind hcreations⟩

/-- **An element is appended right behind all requests for it.** No later request is about anything
in it. -/
theorem exists_block (e : Element) {next p k : Nat} {made later : List Request}
    (h : e.requests next = made ++ .append p k :: later) :
    ∃ index g before, Block next e.walk made p k later index g before := by
  induction e using Element.induction generalizing next p k made later with
  | h e ih =>
    rw [requests_eq, ← List.append_assoc] at h
    rcases split_of_append h with ⟨more, hmade, -⟩ | ⟨more, rfl, hmore⟩
    · refine absurd ?_ (append_notMem next e p k)
      rw [hmade]
      exact List.mem_append_right _ List.mem_cons_self
    · obtain ⟨index, g, before, hblock⟩ := exists_block_below ih (Nat.lt_succ_self next) hmore
      have hcreations : Request.creations (creation next e.tag e.attributes ++
          textRequest next e.text?) = [e].length := by
        rw [creations_append, creations_creation, creations_textRequest]
        rfl
      rw [walk_eq]
      exact ⟨_, g, _, hblock.behind hcreations⟩

/-- What was appended stays complete, whatever is requested after that. -/
theorem Block.complete {es : List Element} {made more later : List Request} {p k index : Nat}
    {g : Element} {before : List Request}
    (h : Block d.nodes.size es made p k (more ++ later) index g before) :
    (d.performAll (made ++ .append p k :: more)).Complete k g.walk := by
  have hsize := Dom.size_performAll (d := d) before
  rw [h.creations_eq, ← h.number_eq] at hsize
  have hcomplete := complete_performAll g (d.performAll before)
  have hsize' := Dom.size_performAll (d := d.performAll before) (g.requests k)
  rw [creations_requests, hsize] at hsize'
  rw [hsize, ← Dom.performAll_append, ← h.made_eq] at hcomplete
  rw [← Dom.performAll_append, ← h.made_eq] at hsize'
  rw [Dom.performAll_append, Dom.performAll_cons]
  refine hcomplete.of_getElem?_eq fun i hle hlt => ?_
  have hlt' : i < (d.performAll made).nodes.size := hsize' ▸ hlt
  have hstep : ((d.performAll made).perform (.append p k)).nodes[i]? =
      (d.performAll made).nodes[i]? := by
    refine Dom.getElem?_perform hlt' fun hi => ?_
    exact Nat.ne_of_lt (Nat.lt_of_lt_of_le h.node_lt hle) (Option.some.inj hi)
  rw [← hstep]
  refine Dom.getElem?_performAll ?_ fun r hr hi => ?_
  · rw [Dom.size_perform]
    exact Nat.lt_add_right _ hlt'
  · have hlength : g.walk.length = g.size := rfl
    have hmention := h.later r (List.mem_append_left _ hr) i hi
    omega

/-- A new node gets a child only by a block. -/
theorem exists_block_of_child {e : Element} {made later : List Request}
    (h : e.requests d.nodes.size = made ++ later) {j k : Nat} {node : Dom.Node}
    (hj : d.nodes.size ≤ j) (hnode : (d.performAll made).nodes[j]? = some node)
    (hk : k ∈ node.children) :
    ∃ front more index g before, made = front ++ .append j k :: more ∧
      Block d.nodes.size e.walk front j k (more ++ later) index g before := by
  rcases Dom.mem_children_performAll hnode hk with ⟨old, hold, -⟩ | hmem
  · rw [Array.getElem?_eq_none hj] at hold
    cases hold
  · obtain ⟨front, more, rfl⟩ := List.append_of_mem hmem
    rw [List.append_assoc, List.cons_append] at h
    obtain ⟨index, g, before, hblock⟩ := exists_block e h
    exact ⟨front, more, index, g, before, rfl, hblock⟩

/-- In the order of a tree, an element is another one or has it in it. -/
def Encloses (e : Element) (i k : Nat) : Prop :=
  ∃ g, e.walk[i]? = some g ∧ i ≤ k ∧ k < i + g.size

/-- A request for a tree is about an element of the tree. -/
theorem exists_subject {e : Element} {made rest : List Request} {r : Request}
    (h : e.requests d.nodes.size = made ++ r :: rest) :
    ∃ k, r.subject (d.performAll made) = d.nodes.size + k ∧ k < e.size := by
  by_cases hr : r.isCreation
  · refine ⟨Request.creations made, ?_, ?_⟩
    · cases r with
      | create space tag => exact Dom.size_performAll made
      | _ => cases hr
    · rw [← creations_requests d.nodes.size, h, creations_append, Request.creations,
        Request.creations, List.countP_cons_of_pos hr]
      omega
  · have hmem : r ∈ e.requests d.nodes.size := h ▸ List.mem_append_right _ List.mem_cons_self
    obtain ⟨hle, hlt⟩ := mentions_requests e _ r hmem _
      (Request.subject_mem_mentions (d := d.performAll made) hr)
    exact ⟨_, (Nat.add_sub_cancel' hle).symm, by omega⟩

/-- What a request is about is in nothing that was appended before. -/
theorem subject_not_in_block {es : List Element} {front more rest : List Request}
    {p c index : Nat} {g : Element} {before : List Request} {r : Request}
    (h : Block d.nodes.size es front p c (more ++ r :: rest) index g before) :
    let k := r.subject (d.performAll (front ++ .append p c :: more))
    k < c ∨ c + g.size ≤ k := by
  intro k
  by_cases hr : r.isCreation
  · refine .inr ?_
    have hk : k = d.nodes.size + Request.creations (front ++ .append p c :: more) := by
      cases r with
      | create space tag => exact Dom.size_performAll _
      | _ => cases hr
    have hcount : Request.creations front = index + g.size := by
      rw [h.made_eq, creations_append, h.creations_eq, creations_requests]
    rw [hk, creations_append, hcount, h.number_eq]
    omega
  · exact h.later r (List.mem_append_right _ List.mem_cons_self) k (Request.subject_mem_mentions hr)

/-- There is one new node for each element, and no other. -/
theorem toList_performAll (e : Element) (d : Dom) :
    (d.performAll (e.requests d.nodes.size)).nodes.toList =
      d.nodes.toList ++ e.walk.mapIdx fun i g => g.liveNode (d.nodes.size + i) := by
  have hsize := Dom.size_performAll (d := d) (e.requests d.nodes.size)
  rw [creations_requests] at hsize
  refine List.ext_getElem? fun i => ?_
  rw [Array.getElem?_toList, List.getElem?_append, Array.length_toList]
  split
  · rename_i hi
    rw [getElem?_requests e hi, Array.getElem?_toList]
  · rename_i hi
    obtain ⟨k, rfl⟩ := Nat.exists_eq_add_of_le (Nat.not_lt.1 hi)
    rw [Nat.add_sub_cancel_left, List.getElem?_mapIdx]
    rcases Nat.lt_or_ge k e.size with hk | hk
    · have hg : e.walk[k]? = some e.walk[k] := List.getElem?_eq_getElem hk
      rw [hg, complete_performAll e d k _ hg]
      rfl
    · have hnone : e.walk[k]? = none := List.getElem?_eq_none hk
      rw [hnone, Array.getElem?_eq_none (hsize ▸ Nat.add_le_add_left hk _)]
      rfl

/-- What the requests before one for a tree leave behind. Whatever was appended is complete, and
what that one is about is appended nowhere, like all elements around it. -/
theorem appended_of_split {e : Element} {made rest : List Request} {r : Request}
    (h : e.requests d.nodes.size = made ++ r :: rest) :
    let after := d.performAll made
    (∀ i < d.nodes.size, after.nodes[i]? = d.nodes[i]?) ∧
      ∃ k, r.subject after = d.nodes.size + k ∧ k < e.size ∧
        ∀ j node, d.nodes.size ≤ j → after.nodes[j]? = some node →
          (∀ c ∈ node.children, ∃ i g, c = d.nodes.size + i ∧ e.walk[i]? = some g ∧
            after.Mirrors c g) ∧
          ∀ i, e.Encloses i k → d.nodes.size + i ∉ node.children := by
  intro after
  obtain ⟨k, hk, hlt⟩ := exists_subject h
  refine ⟨fun i hi => ?_, k, hk, hlt, fun j node hj hnode => ⟨fun c hc => ?_, fun i hi hmem => ?_⟩⟩
  · refine Dom.getElem?_performAll hi fun r hr hmem => Nat.not_le.2 hi ?_
    refine (mentions_requests e _ r ?_ i hmem).1
    rw [h]
    exact List.mem_append_left _ hr
  · obtain ⟨front, more, index, g, before, rfl, hblock⟩ := exists_block_of_child h hj hnode hc
    exact ⟨index, g, hblock.number_eq, hblock.getElem?, hblock.complete.mirrors⟩
  · obtain ⟨front, more, index, g, before, rfl, hblock⟩ := exists_block_of_child h hj hnode hmem
    obtain ⟨g', hg', hle, hlt⟩ := hi
    have hindex : i = index := Nat.add_left_cancel hblock.number_eq
    rw [hindex, hblock.getElem?] at hg'
    obtain rfl := Option.some.inj hg'
    -- the request comes behind the block
    have hsubject : r.subject after < _ ∨ _ ≤ r.subject after := subject_not_in_block hblock
    rw [hk] at hsubject
    omega

/-- **The live tree is the tree of the markup.** If no request is refused, there is one new node for
each element, in the order of the tree, and the answer is the number of a node that mirrors the tree
which the markup is read as. Otherwise the answer is the error of the first request that is refused.
Then only the requests before it are made: whatever was appended mirrors an element of the tree, and
the element that the refused request is about is appended nowhere, like all elements around it. -/
theorem toDom_mirrors (doc : Document) (e : Element) (d : Dom) :
    (doc.Accepts d (e.requests d.nodes.size) → ∃ after : Dom,
      (e.toDom (some doc)).run d = .ok d.nodes.size after ∧
        after.nodes.toList = d.nodes.toList ++
          (e.walk.mapIdx fun i g => g.liveNode (d.nodes.size + i)) ∧
        after.Mirrors d.nodes.size e ∧
        (e.Every Markup.Readable →
          ∃ read, Markup.read e.render = some read ∧ after.Mirrors d.nodes.size read)) ∧
    ∀ made r rest error, e.requests d.nodes.size = made ++ r :: rest → doc.Accepts d made →
      doc.refusal (d.performAll made) r = some error →
      ∃ after : Dom, (e.toDom (some doc)).run d = .error error after ∧ after = d.performAll made ∧
        (∀ i < d.nodes.size, after.nodes[i]? = d.nodes[i]?) ∧
        ∃ k, r.subject after = d.nodes.size + k ∧ k < e.size ∧
          ∀ j node, d.nodes.size ≤ j → after.nodes[j]? = some node →
            (∀ c ∈ node.children, ∃ i g, c = d.nodes.size + i ∧ e.walk[i]? = some g ∧
              after.Mirrors c g) ∧
            ∀ i, e.Encloses i k → d.nodes.size + i ∉ node.children := by
  constructor
  · intro haccepts
    have hmirrors := (complete_performAll e d).mirrors
    refine ⟨_, buildDom_of_accepts haccepts, toList_performAll e d, hmirrors, fun hreadable => ?_⟩
    have hread := Markup.element_render e hreadable (Nat.le_refl _) []
    rw [List.append_nil] at hread
    exact ⟨e, by rw [Markup.read, hread], hmirrors⟩
  · intro made r rest error hsplit haccepts hr
    exact ⟨_, buildDom_of_refused hsplit haccepts hr, rfl, appended_of_split hsplit⟩

/-- A link around a text. A document that refuses nothing gets to hold the link, whose target is in a
namespace of its own, and the text, whose class is in none. One that does not know the attribute of
the text has both of them appended nowhere. -/
theorem toDom_mirrors_link :
    let link := Element.parent "a" ⟨[("xlink:href", "#rule")]⟩
      (.text "text" ⟨[("class", "comment")]⟩ "see") []
    let strict : Document :=
      { refusesAttribute := fun _ _ entry =>
          if entry.name = "class" then some (.refusedByDocument "class") else none }
    (∃ after : Dom, (link.toDom (some {})).run {} = .ok 0 after ∧
      after.nodes.toList =
        [{ space := "http://www.w3.org/2000/svg"
           tag := "a"
           attributes := #[⟨some "http://www.w3.org/1999/xlink", "href", "#rule"⟩]
           children := #[1] },
         { space := "http://www.w3.org/2000/svg"
           tag := "text"
           attributes := #[⟨none, "class", "comment"⟩]
           text := some "see" }] ∧
      after.Mirrors 0 link ∧ ∃ read, Markup.read link.render = some read ∧ after.Mirrors 0 read) ∧
    ∃ after : Dom, (link.toDom (some strict)).run {} = .error (.refusedByDocument "class") after ∧
      ∀ (j : Nat) (node : Dom.Node), after.nodes[j]? = some node →
        0 ∉ node.children ∧ 1 ∉ node.children := by
  intro link strict
  constructor
  · have haccepts : Document.Accepts {} {} (link.requests 0) := by
      simp [Document.Accepts, link, requests, creation, requestsBelow, Document.refusal]
    have hreadable : link.Every Markup.Readable := by
      simp only [link, Every, EveryOf, Markup.Readable, Attributes.Named]
      decide
    obtain ⟨after, hrun, hnodes, hmirrors, hread⟩ := (toDom_mirrors {} link {}).1 haccepts
    exact ⟨after, hrun, hnodes, hmirrors, hread hreadable⟩
  · obtain ⟨after, hrun, hafter, -, k, hk, -, hnodes⟩ := (toDom_mirrors strict link {}).2
      [.create "http://www.w3.org/2000/svg" "a",
        .setAttribute 0 ⟨some "http://www.w3.org/1999/xlink", "href", "#rule"⟩,
        .create "http://www.w3.org/2000/svg" "text"]
      (.setAttribute 1 ⟨none, "class", "comment"⟩)
      [.setText 1 "see", .append 0 1] (.refusedByDocument "class") rfl ⟨rfl, rfl, rfl, trivial⟩ rfl
    refine ⟨after, hrun, fun j node hnode => ?_⟩
    have hone : k = 1 := (hk.trans (Nat.zero_add k)).symm
    obtain ⟨-, hnowhere⟩ := hnodes j node (Nat.zero_le j) hnode
    rw [hone] at hnowhere
    exact ⟨hnowhere 0 ⟨link, rfl, by decide, by decide⟩, hnowhere 1 ⟨_, rfl, by decide, by decide⟩⟩

end Element
end SyntaxDiagram
