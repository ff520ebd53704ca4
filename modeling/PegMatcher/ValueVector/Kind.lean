import PegMatcher.ValueVector.Basic
/-
The two representations of vectors and the operations that build vectors of either.
Every operation takes vectors of both representations and answers one of its own.
-/
namespace PegMatcher

inductive Kind
  | array
  | cons
  deriving DecidableEq

namespace Kind

variable {π : Type}

/-- The name of the representation in a configuration. -/
def name : Kind → String
  | .array => "array"
  | .cons => "cons"

def ofName? (s : String) : Option Kind :=
  if s = "array" then some .array else if s = "cons" then some .cons else none

/-- A chain of cells over `items` that ends in `tail`. -/
def chain (items : List (Value π)) (tail : Value π) : Value π :=
  items.foldr (fun head rest => .vector (.cons head rest)) tail

/-- The structural form of the operations of a representation, which hold no data. -/
def form : Kind → String
  | .array => "ArrayVectorFactory"
  | .cons => "ConsVectorFactory"

def empty : Kind → ValueVector π
  | .array => .array []
  | .cons => .nil

/-- The vector with the given elements. -/
def create : Kind → List (Value π) → ValueVector π
  | .array, items => .array items
  | .cons, items => items.foldr (fun head rest => .cons head (.vector rest)) .nil

/-- The value that holds the given elements in a vector. -/
def collect (kind : Kind) (items : List (Value π)) : Value π := .vector (kind.create items)

/-- The vector with one element more in front.  A chain is shared as the tail of the
new cell, improper or not; an array takes over the elements only. -/
def insertBefore : Kind → Value π → ValueVector π → ValueVector π
  | .array, x, v => .array (x :: v.toList)
  | .cons, x, .array items => create .cons (x :: items)
  | .cons, x, v => .cons x (.vector v)

/-- The elements in reverse order; what follows an improper chain is left out.  An array with
nothing to exchange is kept as it is. -/
def reverse : Kind → ValueVector π → ValueVector π
  | .array, .array items =>
    if items.length ≤ 1 then .array items else .array items.reverse
  | .array, v => .array v.toList.reverse
  | .cons, v => v.toList.foldl (fun rest head => .cons head (.vector rest)) .nil

end Kind

/-- The representation a vector is in. -/
def ValueVector.kind {π : Type} : ValueVector π → Kind
  | .array _ => .array
  | .nil => .cons
  | .cons _ _ => .cons

end PegMatcher
