import PegMatcher.Binary64
/-
The untyped tree a match produces, and the vectors inside it.

A vector is an array of values or a chain of cells.  The tail of a cell may be any
value: a tail that is itself a cell continues the chain, the empty list ends it, and
anything else makes the chain improper.
-/
namespace PegMatcher

mutual
/-- A value over payloads of type `π`. -/
inductive Value (π : Type)
  | null
  | char (c : Char)
  | str (s : String)
  | int (n : Int64)
  | float (x : Binary64)
  | vector (v : ValueVector π)
  | custom (payload : π)

/-- A vector in one of its two representations. -/
inductive ValueVector (π : Type)
  | array (items : List (Value π))
  | nil
  | cons (head tail : Value π)
end

instance {π : Type} : Inhabited (Value π) := ⟨.null⟩

instance {π : Type} : Inhabited (ValueVector π) := ⟨.nil⟩

/-! ## Looking for one kind of value -/

namespace Value

variable {π : Type}

def isNull : Value π → Bool
  | .null => true
  | _ => false

def char? : Value π → Option Char
  | .char c => some c
  | _ => none

def str? : Value π → Option String
  | .str s => some s
  | _ => none

def int? : Value π → Option Int64
  | .int n => some n
  | _ => none

def float? : Value π → Option Binary64
  | .float x => some x
  | _ => none

def vector? : Value π → Option (ValueVector π)
  | .vector v => some v
  | _ => none

/-- The payload as one of the types that payloads may have. -/
def downcast? {τ : Type} (cast : π → Option τ) : Value π → Option τ
  | .custom payload => cast payload
  | _ => none

end Value

/-! ## Payloads -/

/-- What the value tree asks of the payloads it carries: when two are the same, what
their type is called, and how one reads as text and as a structural form. -/
class Payload (π : Type) where
  same : π → π → Bool
  typeName : π → String
  display : π → String
  form : π → String

end PegMatcher
