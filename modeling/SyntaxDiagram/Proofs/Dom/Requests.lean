import Mathlib.Data.List.Count
import SyntaxDiagram.Element.Document

/-!
# The requests for a tree

What a document is asked for a whole tree is known beforehand, but for the first refusal.

* `Element.walk`: the elements of a tree, each before those in it.
* `Dom.Attribute.live`: what an attribute of an element is on a live node.
* `Element.requests`: the requests for a tree whose root gets a given number, in order.
* `Document.Accepts`: none of some requests is refused.
* `Element.buildDom_eq`: handing over a tree is making its requests one after another.
* `Element.buildDom_of_accepts`, `Element.buildDom_of_refused`, `Document.accepts_or_refused`: either
  all of them are made, or those in front of the first one that is refused.
-/

namespace SyntaxDiagram

variable {doc : Document} {d : Dom}

/-! ## Making requests -/

/-- What requests change, one after another. -/
def Dom.performAll (d : Dom) (rs : List Request) : Dom := rs.foldl perform d

@[simp] theorem Dom.performAll_nil : d.performAll [] = d := rfl

@[simp] theorem Dom.performAll_cons (r : Request) (rest : List Request) :
    d.performAll (r :: rest) = (d.perform r).performAll rest := rfl

theorem Dom.performAll_append (a b : List Request) :
    d.performAll (a ++ b) = (d.performAll a).performAll b := List.foldl_append

/-- Whether a request creates a node. -/
def Request.isCreation : Request → Bool
  | create .. => true
  | _ => false

/-- The number of nodes that requests create. -/
def Request.creations (rs : List Request) : Nat := rs.countP isCreation

theorem Dom.size_perform (r : Request) :
    (d.perform r).nodes.size = d.nodes.size + Request.creations [r] := by
  cases r with
  | create space tag => exact Array.size_push _
  | setAttribute node entry => exact Array.size_modify
  | setText node text => exact Array.size_modify
  | append parent child => exact Array.size_modify

theorem Dom.size_performAll (rs : List Request) :
    (d.performAll rs).nodes.size = d.nodes.size + Request.creations rs := by
  induction rs generalizing d with
  | nil => rfl
  | cons r rest ih =>
    rw [performAll_cons, ih, size_perform, Nat.add_assoc]
    exact congrArg (d.nodes.size + ·) List.countP_append.symm

namespace Document

/-- None of some requests is refused, each being made after those before it. -/
def Accepts (doc : Document) : Dom → List Request → Prop
  | _, [] => True
  | d, r :: rest => doc.refusal d r = none ∧ doc.Accepts (d.perform r) rest

/-- **Either no request is refused, or there is a first one that is.** -/
theorem accepts_or_refused (doc : Document) (d : Dom) (rs : List Request) :
    doc.Accepts d rs ∨ ∃ made r rest error, rs = made ++ r :: rest ∧ doc.Accepts d made ∧
      doc.refusal (d.performAll made) r = some error := by
  induction rs generalizing d with
  | nil => exact .inl trivial
  | cons r rest ih =>
    cases hr : doc.refusal d r with
    | some error => exact .inr ⟨[], r, rest, error, rfl, trivial, hr⟩
    | none =>
      rcases ih (d.perform r) with h | ⟨made, r', rest', error, rfl, hmade, herror⟩
      · exact .inl ⟨hr, h⟩
      · exact .inr ⟨r :: made, r', rest', error, rfl, ⟨hr, hmade⟩, herror⟩

/-- Makes requests one after another. -/
def submit (doc : Document) : List Request → DomM Unit
  | [] => pure ()
  | r :: rest => do
    doc.request r
    doc.submit rest

theorem bind_of_ok {α β : Type} {x : DomM α} (f : α → DomM β) {a : α} {d' : Dom}
    (h : x d = .ok a d') : (x >>= f) d = f a d' := by
  change EStateM.bind x f d = _
  rw [EStateM.bind, h]

theorem bind_of_error {α β : Type} {x : DomM α} (f : α → DomM β) {error : Error} {d' : Dom}
    (h : x d = .error error d') : (x >>= f) d = .error error d' := by
  change EStateM.bind x f d = _
  rw [EStateM.bind, h]

theorem request_of_none {r : Request} (h : doc.refusal d r = none) :
    doc.request r d = .ok () (d.perform r) := by
  refine (bind_of_ok _ (rfl : (get : DomM Dom) d = .ok d d)).trans ?_
  simp only [h]
  rfl

theorem request_of_some {r : Request} {error : Error} (h : doc.refusal d r = some error) :
    doc.request r d = .error error d := by
  refine (bind_of_ok _ (rfl : (get : DomM Dom) d = .ok d d)).trans ?_
  simp only [h]
  rfl

theorem submit_of_accepts {rs : List Request} (h : doc.Accepts d rs) :
    doc.submit rs d = .ok () (d.performAll rs) := by
  induction rs generalizing d with
  | nil => rfl
  | cons r rest ih =>
    obtain ⟨hr, hrest⟩ := h
    rw [submit, bind_of_ok _ (request_of_none hr)]
    exact ih hrest

/-- Nothing is done behind the first request that is refused. -/
theorem submit_of_refused {made rest : List Request} {r : Request} {error : Error}
    (h : doc.Accepts d made) (hr : doc.refusal (d.performAll made) r = some error) :
    doc.submit (made ++ r :: rest) d = .error error (d.performAll made) := by
  induction made generalizing d with
  | nil => exact bind_of_error _ (request_of_some hr)
  | cons r' made ih =>
    obtain ⟨hr', hmade⟩ := h
    rw [List.cons_append, submit, bind_of_ok _ (request_of_none hr')]
    exact ih hmade hr

/-- What comes after requests only matters where they end: with as many more nodes as they create. -/
theorem submit_bind_congr {α : Type} {rs : List Request} {x y : DomM α}
    (h : ∀ d' : Dom, d'.nodes.size = d.nodes.size + Request.creations rs → x d' = y d') :
    (doc.submit rs >>= fun _ => x) d = (doc.submit rs >>= fun _ => y) d := by
  rcases doc.accepts_or_refused d rs with hrs | ⟨made, r, rest, error, rfl, hmade, hr⟩
  · rw [bind_of_ok _ (submit_of_accepts hrs), bind_of_ok _ (submit_of_accepts hrs)]
    exact h _ (Dom.size_performAll rs)
  · rw [bind_of_error _ (submit_of_refused hmade hr), bind_of_error _ (submit_of_refused hmade hr)]

theorem submit_append (a b : List Request) :
    doc.submit (a ++ b) = doc.submit a >>= fun _ => doc.submit b := by
  induction a with
  | nil => exact (pure_bind () fun _ => doc.submit b).symm
  | cons r rest ih => rw [List.cons_append, submit, submit, ih, bind_assoc]

theorem submit_singleton (r : Request) : doc.submit [r] = doc.request r := bind_pure_unit

/-- What comes after a step only matters where the step ends. -/
theorem bind_congr_left {α β : Type} {x y : DomM α} (h : x d = y d) (f : α → DomM β) :
    (x >>= f) d = (y >>= f) d := by
  change EStateM.bind x f d = EStateM.bind y f d
  rw [EStateM.bind, EStateM.bind, h]

/-- A step that does what some requests do, in front of others. -/
theorem bind_of_eq_submit {α β : Type} {x : DomM α} {rs : List Request} {a : α}
    (h : x d = (doc.submit rs >>= fun _ => pure a) d) (f : α → DomM β) :
    (x >>= f) d = (doc.submit rs >>= fun _ => f a) d := by
  rw [bind_congr_left h, bind_assoc]
  simp only [pure_bind]

end Document

/-! ## The requests for a tree -/

/-- What an attribute of an element is on a live node. The target of a link is called `href` there
and is in the namespace of links. Every other attribute keeps its name, and has no namespace. -/
def Dom.Attribute.live : String × String → Dom.Attribute
  | ("xlink:href", target) => ⟨some "http://www.w3.org/1999/xlink", "href", target⟩
  | (name, value) => ⟨none, name, value⟩

theorem Dom.Attribute.ofEntry_eq_live (e : String × String) : ofEntry e = live e := by
  obtain ⟨name, value⟩ := e
  by_cases hname : name = "xlink:href"
  · subst hname
    rfl
  · rw [ofEntry, if_neg hname, live]
    simpa using hname

namespace Element

/-- What holds of an element if it holds of the elements in it holds of all elements. -/
theorem induction {P : Element → Prop} (h : ∀ e : Element, (∀ c ∈ e.children, P c) → P e)
    (e : Element) : P e := by
  refine h e fun c hc => ?_
  have hsize : sizeOf c < sizeOf e := by
    cases e with
    | text tag attributes content => exact absurd hc List.not_mem_nil
    | parent tag attributes first rest =>
      have hmem := List.sizeOf_lt_of_mem (show c ∈ first :: rest from hc)
      simp only [List.cons.sizeOf_spec] at hmem
      simp only [parent.sizeOf_spec]
      omega
  exact induction h c
termination_by sizeOf e

mutual

/-- All elements of a tree, each before those in it. -/
def walk : Element → List Element
  | text tag attributes content => [text tag attributes content]
  | parent tag attributes first rest =>
    parent tag attributes first rest :: (first.walk ++ walks rest)

/-- All elements of several trees. -/
def walks : List Element → List Element
  | [] => []
  | e :: rest => e.walk ++ walks rest

end

/-- An element comes before those in it. -/
theorem walk_eq (e : Element) : e.walk = e :: walks e.children := by
  cases e <;> rfl

/-- The number of elements in a tree. -/
def size (e : Element) : Nat := e.walk.length

/-- The number of elements in several trees. -/
def sizes (es : List Element) : Nat := (walks es).length

theorem size_eq (e : Element) : e.size = 1 + sizes e.children := by
  rw [size, walk_eq, List.length_cons, Nat.add_comm, sizes]

theorem sizes_cons (e : Element) (rest : List Element) : sizes (e :: rest) = e.size + sizes rest :=
  List.length_append

/-- The requests that create a node and set its attributes. -/
def creation (node : Nat) (tag : String) (attributes : Attributes String) : List Request :=
  .create "http://www.w3.org/2000/svg" tag ::
    attributes.entries.map fun e => .setAttribute node (Dom.Attribute.live e)

mutual

/-- The requests for a tree whose root gets the number `node`. -/
def requests (node : Nat) : Element → List Request
  | text tag attributes content => creation node tag attributes ++ [.setText node content]
  | parent tag attributes first rest =>
    creation node tag attributes ++ (first.requests (node + 1) ++
      .append node (node + 1) :: requestsBelow node (node + 1 + first.size) rest)

/-- The requests for trees that are appended to a node, the first of which gets the number
`next`. -/
def requestsBelow (node next : Nat) : List Element → List Request
  | [] => []
  | e :: rest =>
    e.requests next ++ .append node next :: requestsBelow node (next + e.size) rest

end

/-- The request for the text of a node, if it holds text. -/
def textRequest (node : Nat) (text? : Option String) : List Request :=
  text?.toList.map (Request.setText node ·)

/-- The node itself comes before what is in it. -/
theorem requests_eq (node : Nat) (e : Element) :
    e.requests node = creation node e.tag e.attributes ++ (textRequest node e.text? ++
      requestsBelow node (node + 1) e.children) := by
  cases e <;> rfl

theorem creations_creation (node : Nat) (tag : String) (attributes : Attributes String) :
    Request.creations (creation node tag attributes) = 1 := by
  rw [creation, Request.creations, List.countP_cons_of_pos rfl, Nat.add_eq_right,
    List.countP_eq_zero]
  intro r hr
  obtain ⟨e, -, rfl⟩ := List.mem_map.1 hr
  exact Bool.false_ne_true

theorem creations_textRequest (node : Nat) (text? : Option String) :
    Request.creations (textRequest node text?) = 0 := by
  cases text? <;> rfl

theorem creations_append (a b : List Request) :
    Request.creations (a ++ b) = Request.creations a + Request.creations b := List.countP_append

/-- One node is created for each element. -/
theorem creations_requests (node : Nat) (e : Element) :
    Request.creations (e.requests node) = e.size := by
  induction e using Element.induction generalizing node with
  | h e ih =>
    have hbelow : ∀ es : List Element, (∀ c ∈ es, ∀ n, Request.creations (c.requests n) = c.size) →
        ∀ next, Request.creations (requestsBelow node next es) = sizes es := by
      intro es
      induction es with
      | nil => exact fun _ _ => rfl
      | cons c rest ihrest =>
        intro h next
        rw [requestsBelow, creations_append, h c List.mem_cons_self, sizes_cons]
        refine congrArg (c.size + ·) ?_
        rw [Request.creations, List.countP_cons_of_neg Bool.false_ne_true]
        exact ihrest (fun c hc => h c (List.mem_cons_of_mem _ hc)) _
    rw [requests_eq, creations_append, creations_append, creations_creation, creations_textRequest,
      hbelow e.children ih, size_eq, Nat.zero_add]

/-! ## Handing over a tree -/

theorem setAttributes_eq (node : Nat) (entries : List (String × String)) :
    (entries.forM fun e => doc.request (.setAttribute node (.ofEntry e))) =
      doc.submit (entries.map fun e => .setAttribute node (Dom.Attribute.live e)) := by
  induction entries with
  | nil => rfl
  | cons e rest ih =>
    rw [List.map_cons, Document.submit, ← ih, ← Dom.Attribute.ofEntry_eq_live]
    rfl

theorem createNode_eq (tag : String) (attributes : Attributes String) :
    createNode doc tag attributes d =
      (doc.submit (creation d.nodes.size tag attributes) >>= fun _ => pure d.nodes.size) d := by
  rw [createNode, creation, Document.submit, svgNamespace]
  generalize hcreate : Request.create "http://www.w3.org/2000/svg" tag = create
  cases hr : doc.refusal d create with
  | some error =>
    rw [Document.bind_of_error _ (Document.request_of_some hr), bind_assoc,
      Document.bind_of_error _ (Document.request_of_some hr)]
  | none =>
    rw [Document.bind_of_ok _ (Document.request_of_none hr), bind_assoc,
      Document.bind_of_ok _ (Document.request_of_none hr)]
    have hsize : (d.perform create).nodes.size - 1 = d.nodes.size := by
      rw [Dom.size_perform, ← hcreate]
      rfl
    change ((attributes.entries.forM fun e => doc.request
      (.setAttribute ((d.perform create).nodes.size - 1) (.ofEntry e))) >>=
        fun _ => pure ((d.perform create).nodes.size - 1)) (d.perform create) = _
    rw [hsize, setAttributes_eq]

/-- What is done for an element, whether it holds text or elements. -/
theorem buildDom_cases (doc : Document) (e : Element) :
    e.buildDom doc = do
      let node ← createNode doc e.tag e.attributes
      doc.submit (textRequest node e.text?)
      appendAll doc node e.children
      return node := by
  cases e with
  | text tag attributes content =>
    rw [buildDom]
    refine bind_congr fun node => ?_
    rw [text?, textRequest, Option.toList, List.map_singleton, Document.submit_singleton]
    rfl
  | parent tag attributes first rest =>
    rw [buildDom]
    refine bind_congr fun node => ?_
    rw [children, appendAll, bind_assoc]
    simp only [bind_assoc]
    rfl

/-- **Handing over a tree is making its requests one after another.** The answer is the number of
the root. -/
theorem buildDom_eq (doc : Document) (e : Element) (d : Dom) :
    e.buildDom doc d =
      (doc.submit (e.requests d.nodes.size) >>= fun _ => pure d.nodes.size) d := by
  induction e using Element.induction generalizing d with
  | h e ih =>
    have hbelow : ∀ es : List Element,
        (∀ c ∈ es, ∀ d : Dom, c.buildDom doc d =
          (doc.submit (c.requests d.nodes.size) >>= fun _ => pure d.nodes.size) d) →
        ∀ (node : Nat) (d : Dom),
          appendAll doc node es d = doc.submit (requestsBelow node d.nodes.size es) d := by
      intro es
      induction es with
      | nil => exact fun _ _ _ => rfl
      | cons c rest ihrest =>
        intro h node d
        rw [appendAll, requestsBelow, Document.submit_append,
          Document.bind_of_eq_submit (h c List.mem_cons_self d)]
        refine Document.submit_bind_congr fun d₁ hd₁ => ?_
        rw [creations_requests] at hd₁
        rw [Document.submit, ← Document.submit_singleton]
        refine Document.submit_bind_congr fun d₂ hd₂ => ?_
        rw [hd₁] at hd₂
        rw [ihrest (fun c hc => h c (List.mem_cons_of_mem _ hc)) node d₂, hd₂]
        rfl
    rw [buildDom_cases, Document.bind_of_eq_submit (createNode_eq e.tag e.attributes), requests_eq,
      Document.submit_append, bind_assoc]
    refine Document.submit_bind_congr fun d₁ hd₁ => ?_
    rw [creations_creation] at hd₁
    rw [Document.submit_append, bind_assoc]
    refine Document.submit_bind_congr fun d₂ hd₂ => ?_
    rw [creations_textRequest, hd₁] at hd₂
    have happend := hbelow e.children ih d.nodes.size d₂
    rw [hd₂] at happend
    exact Document.bind_congr_left happend _

/-- If no request is refused, the document has all that the requests change. -/
theorem buildDom_of_accepts {e : Element} (h : doc.Accepts d (e.requests d.nodes.size)) :
    e.buildDom doc d = .ok d.nodes.size (d.performAll (e.requests d.nodes.size)) := by
  rw [buildDom_eq, Document.bind_of_ok _ (Document.submit_of_accepts h)]
  rfl

/-- If a request is refused, that is the answer, and the document has what the requests before the
first of that kind change. -/
theorem buildDom_of_refused {e : Element} {made rest : List Request} {r : Request} {error : Error}
    (hsplit : e.requests d.nodes.size = made ++ r :: rest) (h : doc.Accepts d made)
    (hr : doc.refusal (d.performAll made) r = some error) :
    e.buildDom doc d = .error error (d.performAll made) := by
  rw [buildDom_eq, hsplit, Document.bind_of_error _ (Document.submit_of_refused h hr)]

end Element
end SyntaxDiagram
