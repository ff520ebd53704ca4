import PegMatcher.ValueVector.Basic
/-
Equality of values.  Vectors are the same when their elements are the same in order
and the same value, or none, follows an improper chain; the representation does not
matter.  Floats compare as numbers, so one that is not a number differs from itself.
-/
namespace PegMatcher

variable {π : Type} [Payload π]

/-- Equality of values that are not both vectors. -/
def Value.sameScalar : Value π → Value π → Bool
  | .null, .null => true
  | .char a, .char b => a = b
  | .str a, .str b => a = b
  | .int a, .int b => a = b
  | .float a, .float b => a.same b
  | .custom a, .custom b => Payload.same a b
  | _, _ => false

mutual
def Value.same : Value π → Value π → Bool
  | .vector v, .vector w => ValueVector.same v w.toList w.improperTail
  | .vector _, _ => false
  | .null, y => Value.sameScalar .null y
  | .char c, y => Value.sameScalar (.char c) y
  | .str s, y => Value.sameScalar (.str s) y
  | .int n, y => Value.sameScalar (.int n) y
  | .float x, y => Value.sameScalar (.float x) y
  | .custom p, y => Value.sameScalar (.custom p) y

/-- Whether a vector has the elements `items` and is followed by `last`. -/
def ValueVector.same (v : ValueVector π) (items : List (Value π)) (last : Option (Value π)) : Bool :=
  match v with
  | .array own => ValueVector.itemsSame own items && last.isNone
  | .nil => items.isEmpty && last.isNone
  | .cons head tail =>
    match items with
    | [] => false
    | item :: items => head.same item && tail.spineSame items last

/-- Whether the cells starting at a value have the heads `items` and are followed by
`last`. -/
def Value.spineSame (v : Value π) (items : List (Value π)) (last : Option (Value π)) : Bool :=
  match v with
  | .vector .nil => items.isEmpty && last.isNone
  | .vector (.cons head tail) =>
    match items with
    | [] => false
    | item :: items => head.same item && tail.spineSame items last
  | .vector (.array own) =>
    match items, last with
    | [], some (.vector w) => ValueVector.itemsSame own w.toList && w.improperTail.isNone
    | _, _ => false
  | scalar =>
    match items, last with
    | [], some y => scalar.sameScalar y
    | _, _ => false

def ValueVector.itemsSame : List (Value π) → List (Value π) → Bool
  | [], [] => true
  | x :: xs, y :: ys => x.same y && ValueVector.itemsSame xs ys
  | _, _ => false
end

end PegMatcher
