import PegMatcher.Cursor.Basic
/-
Cursors over elements pulled from a source on demand.

Every position of a stream is backed by a node.  A node holds the element pulled for
it and, once a cursor has advanced past it, a link to its successor.  A link is set
once and then followed by every cursor, so no position is pulled twice and all cursors
at a position share its node.  A source may answer again after it has answered
nothing; it is not asked again then, because a cursor without an element does not
advance.
-/
namespace PegMatcher

/-- A source of elements: its answer to each request in turn, and the number of
requests made so far. -/
structure Source (ε : Type) where
  answer : Nat → Option ε
  requests : Nat

/-- A position of a stream.  The element and the position of a node never change, so
the cursor carries them; the link to the successor is in the store. -/
structure StreamCursor (ε : Type) where
  node : Nat
  source : Nat
  position : Nat
  current : Option ε

/-- The sources of all streams and the link of each node to its successor. -/
structure Streams (ε : Type) where
  sources : Array (Source ε)
  links : Array (Option (StreamCursor ε))

namespace Streams

variable {ε : Type}

def empty : Streams ε := ⟨#[], #[]⟩

/-- Asks source number `source` for an element and makes a node of the answer. -/
def pull (streams : Streams ε) (source position : Nat) : StreamCursor ε × Streams ε :=
  match streams.sources[source]? with
  | none => (⟨streams.links.size, source, position, none⟩,
      ⟨streams.sources, streams.links.push none⟩)
  | some s => (⟨streams.links.size, source, position, s.answer s.requests⟩,
      ⟨streams.sources.setIfInBounds source ⟨s.answer, s.requests + 1⟩,
        streams.links.push none⟩)

/-- A new stream over a source that has not been asked yet, with the cursor at its
start.  The first element is pulled at once. -/
def start (streams : Streams ε) (answer : Nat → Option ε) : StreamCursor ε × Streams ε :=
  pull ⟨streams.sources.push ⟨answer, 0⟩, streams.links⟩ streams.sources.size 0

def requests (streams : Streams ε) (source : Nat) : Nat :=
  match streams.sources[source]? with
  | some s => s.requests
  | none => 0

end Streams

namespace StreamCursor

variable {ε : Type}

/-- Follows the link of the node, setting it first when no cursor has advanced past
this node before. -/
def next (c : StreamCursor ε) (streams : Streams ε) : StreamCursor ε × Streams ε :=
  match c.current with
  | none => (c, streams)
  | some _ =>
    match streams.links[c.node]? with
    | some (some successor) => (successor, streams)
    | _ =>
      let (successor, streams) := streams.pull c.source (c.position + 1)
      (successor, ⟨streams.sources, streams.links.setIfInBounds c.node (some successor)⟩)

def sameNode (c d : StreamCursor ε) : Bool := c.node = d.node

def form [Element ε] (c : StreamCursor ε) : String :=
  Text.recordForm "StreamCursor"
    [("position", Decimal.ofNat c.position),
      ("current", Text.optionForm (c.current.map Element.form))]

end StreamCursor

instance {ε : Type} : Cursor (StreamCursor ε) ε (Streams ε) where
  peek := StreamCursor.current
  position := StreamCursor.position
  next := StreamCursor.next

end PegMatcher
