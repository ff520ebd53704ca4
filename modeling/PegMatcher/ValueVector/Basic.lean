import PegMatcher.Value.Basic
import PegMatcher.Decimal
/-
Reading vectors: their elements, length, indexing, and what follows the last cell of
an improper chain.  All walks along a chain keep the result in an accumulator, so
that a long chain needs no stack.
-/
namespace PegMatcher

variable {π : Type}

namespace Value

/-- The heads of the cells starting at this value, appended to `acc`. -/
def spineItems (acc : Array (Value π)) : Value π → Array (Value π)
  | .vector (.cons head tail) => tail.spineItems (acc.push head)
  | _ => acc

/-- The number of cells starting at this value, added to `count`. -/
def spineLength (count : Nat) : Value π → Nat
  | .vector (.cons _ tail) => tail.spineLength (count + 1)
  | _ => count

/-- The head of cell number `i` of those starting at this value. -/
def spineGet? : Value π → Nat → Option (Value π)
  | .vector (.cons head _), 0 => some head
  | .vector (.cons _ tail), i + 1 => tail.spineGet? i
  | _, _ => none

/-- What stands in place of the empty list after the cells starting at this value. -/
def spineEnd? : Value π → Option (Value π)
  | .vector .nil => none
  | .vector (.cons _ tail) => tail.spineEnd?
  | other => some other

/-- The cells starting at this value as pairs of head and tail, appended to `acc`. -/
def spineCells (acc : Array (Value π × Value π)) : Value π → Array (Value π × Value π)
  | .vector (.cons head tail) => tail.spineCells (acc.push (head, tail))
  | _ => acc

/-- Whether this value, as a tail, continues a chain of cells. -/
def isCell : Value π → Bool
  | .vector (.cons _ _) => true
  | _ => false

end Value

namespace ValueVector

/-- The elements in order.  What follows an improper chain is not an element. -/
def toList : ValueVector π → List (Value π)
  | .array items => items
  | .nil => []
  | .cons head tail => (tail.spineItems #[head]).toList

def length : ValueVector π → Nat
  | .array items => items.length
  | .nil => 0
  | .cons _ tail => tail.spineLength 1

def isEmpty (v : ValueVector π) : Bool := v.length = 0

def get? : ValueVector π → Nat → Option (Value π)
  | .array items, i => items[i]?
  | .nil, _ => none
  | .cons head _, 0 => some head
  | .cons _ tail, i + 1 => tail.spineGet? i

/-- The tail of the last cell when it is not the empty list; an array has none. -/
def improperTail : ValueVector π → Option (Value π)
  | .array _ => none
  | .nil => none
  | .cons _ tail => tail.spineEnd?

/-- The cells of a chain as pairs of head and tail; an array has none. -/
def cells : ValueVector π → List (Value π × Value π)
  | .array _ => []
  | .nil => []
  | .cons head tail => (tail.spineCells #[(head, tail)]).toList

end ValueVector

/-- An index with no element. -/
structure OutOfRange where
  index : Nat
  length : Nat

def OutOfRange.message (e : OutOfRange) : String :=
  "index " ++ Decimal.ofNat e.index ++ " out of range for vector of length " ++
    Decimal.ofNat e.length

namespace ValueVector

/-- The element at an index that is expected to be there. -/
def index (v : ValueVector π) (i : Nat) : Except OutOfRange (Value π) :=
  match v.get? i with
  | some x => .ok x
  | none => .error ⟨i, v.length⟩

end ValueVector

namespace Value

/-- Element `i` of a vector; other values have no elements. -/
def get? (v : Value π) (i : Nat) : Option (Value π) := v.vector?.bind fun w => w.get? i

end Value
end PegMatcher
