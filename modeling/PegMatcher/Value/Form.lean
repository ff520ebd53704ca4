import PegMatcher.Value.Basic
import PegMatcher.Decimal
import PegMatcher.Text
/-
The structural form of values, which names every constructor.  A form is written after
what stands before it, so that nested forms are not copied.
-/
namespace PegMatcher

open Text

variable {π : Type} [Payload π]

mutual
/-- The structural form of a value after `out`. -/
def Value.formOnto (out : String) : Value π → String
  | .null => out ++ "None"
  | .char c => out ++ tupleForm "Char" [charLiteral c]
  | .str s => out ++ tupleForm "Str" [stringLiteral s]
  | .int n => out ++ tupleForm "Int" [Decimal.ofInt n.toInt]
  | .float x => out ++ tupleForm "Float" [Decimal.ofBinary64 .structural x]
  | .vector v => v.formOnto (out ++ "Seq(") ++ ")"
  | .custom payload => out ++ tupleForm "Custom" [Payload.form payload]

def ValueVector.formOnto (out : String) : ValueVector π → String
  | .array items => ValueVector.itemFormsOnto (out ++ "Array([") items ++ "])"
  | .nil => out ++ "Cons(Nil)"
  | .cons head tail =>
    tail.formOnto (head.formOnto (out ++ "Cons(Node(ConsNode \x7b head: ") ++ ", tail: ") ++
      " \x7d))"

/-- The forms of the items of an array with commas between them, after `out`. -/
def ValueVector.itemFormsOnto (out : String) : List (Value π) → String
  | [] => out
  | item :: items => ValueVector.moreFormsOnto (item.formOnto out) items

def ValueVector.moreFormsOnto (out : String) : List (Value π) → String
  | [] => out
  | item :: items => ValueVector.moreFormsOnto (item.formOnto (out ++ ", ")) items
end

def Value.form (v : Value π) : String := v.formOnto ""

def ValueVector.form (v : ValueVector π) : String := v.formOnto ""

end PegMatcher
