import SyntaxDiagram.Element

/-!
# Live documents

An element tree is handed to a document one request at a time.

* `Request`: what a document is asked to do.
* `Document`: whether a request is refused, which may depend on what the document holds.
* `Dom`: the nodes that a document holds, in order of creation.
* `Element.toDom`: the requests for a whole tree.
-/

namespace SyntaxDiagram

/-- The namespace of all elements. -/
def svgNamespace : String := "http://www.w3.org/2000/svg"

/-- The namespace of link targets. -/
def xlinkNamespace : String := "http://www.w3.org/1999/xlink"

/-- An attribute of a live node. -/
structure Dom.Attribute where
  space : Option String
  name : String
  value : String
  deriving Repr, DecidableEq

/-- A live node; children are named by their number. -/
structure Dom.Node where
  space : String
  tag : String
  attributes : Array Dom.Attribute := #[]
  text : Option String := none
  children : Array Nat := #[]
  deriving Repr, DecidableEq

/-- The nodes of a document, numbered in order of creation. -/
structure Dom where
  nodes : Array Dom.Node := #[]
  deriving Repr, DecidableEq

/-- What a document can be asked. -/
inductive Request where
  | create (space tag : String)
  | setAttribute (node : Nat) (entry : Dom.Attribute)
  | setText (node : Nat) (text : String)
  | append (parent child : Nat)
  deriving Repr, DecidableEq

/-- A document, given by the requests it refuses. Text is never refused. -/
structure Document where
  refusesTag : Dom → (space tag : String) → Option Error := fun _ _ _ => none
  refusesAttribute : Dom → (node : Nat) → Dom.Attribute → Option Error := fun _ _ _ => none
  refusesChild : Dom → (parent child : Nat) → Option Error := fun _ _ _ => none

namespace Dom

/-- What a request changes. -/
def perform (d : Dom) : Request → Dom
  | .create space tag => ⟨d.nodes.push { space, tag }⟩
  | .setAttribute node entry =>
    ⟨d.nodes.modify node fun n => { n with attributes := n.attributes.push entry }⟩
  | .setText node text => ⟨d.nodes.modify node fun n => { n with text := some text }⟩
  | .append parent child =>
    ⟨d.nodes.modify parent fun n => { n with children := n.children.push child }⟩

end Dom

/-- Whether a document refuses a request. -/
def Document.refusal (doc : Document) (d : Dom) : Request → Option Error
  | .create space tag => doc.refusesTag d space tag
  | .setAttribute node entry => doc.refusesAttribute d node entry
  | .append parent child => doc.refusesChild d parent child
  | .setText .. => none

/-- Work on a document, which keeps what was done before an error. -/
abbrev DomM := EStateM Error Dom

/-- Makes one request. -/
def Document.request (doc : Document) (r : Request) : DomM Unit := do
  let d ← get
  match doc.refusal d r with
  | some error => throw error
  | none => set (d.perform r)

/-- The attribute that a document gets to see: link targets are in a namespace of their own. -/
def Dom.Attribute.ofEntry (e : String × String) : Dom.Attribute :=
  if e.1 = "xlink:href" then ⟨some xlinkNamespace, "href", e.2⟩ else ⟨none, e.1, e.2⟩

namespace Element

/-- Creates a node and sets its attributes; the answer is its number, that of the last node when it
was created. -/
def createNode (doc : Document) (tag : String) (attributes : Attributes String) : DomM Nat := do
  doc.request (.create svgNamespace tag)
  let node := (← get).nodes.size - 1
  attributes.entries.forM fun e => doc.request (.setAttribute node (.ofEntry e))
  return node

mutual

/-- Creates the nodes of a tree; the answer is the number of its root. -/
def buildDom (doc : Document) : Element → DomM Nat
  | text tag attributes content => do
    let node ← createNode doc tag attributes
    doc.request (.setText node content)
    return node
  | parent tag attributes first rest => do
    let node ← createNode doc tag attributes
    let child ← buildDom doc first
    doc.request (.append node child)
    appendAll doc node rest
    return node

/-- Creates trees and appends each, once complete, to a node. -/
def appendAll (doc : Document) (node : Nat) : List Element → DomM Unit
  | [] => return
  | e :: rest => do
    let child ← buildDom doc e
    doc.request (.append node child)
    appendAll doc node rest

end

/-- Hands a tree to a document, if there is one. -/
def toDom (document : Option Document) (e : Element) : DomM Nat :=
  match document with
  | none => throw .missingDocument
  | some doc => e.buildDom doc

end Element
end SyntaxDiagram
