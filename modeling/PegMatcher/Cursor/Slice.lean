import PegMatcher.Cursor.Basic
/-
Cursors over elements held in memory, such as a buffer of tokens.
-/
namespace PegMatcher

structure SliceCursor (ε : Type) where
  items : Array ε
  position : Nat

namespace SliceCursor

variable {ε : Type}

def start (items : Array ε) : SliceCursor ε := ⟨items, 0⟩

def peek (c : SliceCursor ε) : Option ε := c.items[c.position]?

def next (c : SliceCursor ε) : SliceCursor ε :=
  if c.position < c.items.size then ⟨c.items, c.position + 1⟩ else c

def rest (c : SliceCursor ε) : List ε := c.items.toList.drop c.position

variable [Element ε]

/-- Cursors are the same when they stand at the same position of inputs whose elements
are the same in order. -/
def same (c d : SliceCursor ε) : Bool :=
  c.position = d.position && c.items.size = d.items.size &&
    (c.items.toList.zip d.items.toList).all fun (a, b) => Element.same a b

/-- A cursor at the end shows no position. -/
def form (c : SliceCursor ε) : String :=
  let data := ("data", Text.listForm (c.items.toList.map Element.form))
  if c.position < c.items.size then
    Text.recordForm "Valid" [data, ("position", Decimal.ofNat c.position)]
  else Text.recordForm "EndOfInput" [data]

end SliceCursor

instance {ε : Type} : Cursor (SliceCursor ε) ε Unit where
  peek := SliceCursor.peek
  position := SliceCursor.position
  next c s := (c.next, s)

end PegMatcher
