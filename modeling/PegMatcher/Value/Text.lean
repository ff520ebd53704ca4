import PegMatcher.Value.Basic
import PegMatcher.Decimal
/-
The plain text of a value: scalars as written, vectors as the texts of their elements
one after the other, the null value as nothing.
-/
namespace PegMatcher

variable {π : Type} [Payload π]

mutual
/-- The text of a value after `out`. -/
def Value.textOnto (out : String) : Value π → String
  | .null => out
  | .char c => out.push c
  | .str s => out ++ s
  | .int n => out ++ Decimal.ofInt n.toInt
  | .float x => out ++ Decimal.ofBinary64 .plain x
  | .vector v => v.textOnto out
  | .custom payload => out ++ Payload.display payload

/-- The text of the cells that continue a chain, after `out`. -/
def Value.spineTextOnto (out : String) : Value π → String
  | .vector (.cons head tail) => tail.spineTextOnto (head.textOnto out)
  | _ => out

def ValueVector.textOnto (out : String) : ValueVector π → String
  | .array items => ValueVector.itemsTextOnto out items
  | .nil => out
  | .cons head tail => tail.spineTextOnto (head.textOnto out)

def ValueVector.itemsTextOnto (out : String) : List (Value π) → String
  | [] => out
  | item :: items => ValueVector.itemsTextOnto (item.textOnto out) items
end

def Value.text (v : Value π) : String := v.textOnto ""

end PegMatcher
