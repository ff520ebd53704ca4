import PegMatcher.Value.Basic
import PegMatcher.Decimal
import PegMatcher.Text
/-
The canonical written form of values.

Null is `#NULL`, a character stands between single quotes and a string between double
quotes with its quotes escaped.  A chain of cells is `(a b c)`, `()` when empty, with
` . ` before the value that follows an improper chain; an array is `#(a b c)`.
Anything else is `#type(text)`.
-/
namespace PegMatcher

/-- Arrays may also be written as lists, without their mark, so that both
representations read alike. -/
structure Printer where
  arraysAsLists : Bool

/-- The default printer keeps the representations apart. -/
def Printer.canonical : Printer := ⟨false⟩

def Printer.openArray (p : Printer) : String := if p.arraysAsLists then "(" else "#("

variable {π : Type} [Payload π]

/-- The written form of a value that is not a vector. -/
def Value.printScalar : Value π → String
  | .null => "#NULL"
  | .char c => String.ofList ['\'', c, '\'']
  | .str s => Text.quoted s
  | .int n => "#i64(" ++ Decimal.ofInt n.toInt ++ ")"
  | .float x => "#f64(" ++ Decimal.ofBinary64 .plain x ++ ")"
  | .vector _ => ""
  | .custom payload => "#" ++ Payload.typeName payload ++ "(" ++ Payload.display payload ++ ")"

mutual
/-- The written form of a value after `out`. -/
def Value.printOnto (p : Printer) (out : String) : Value π → String
  | .vector v => v.printOnto p out
  | scalar => out ++ scalar.printScalar

/-- What a chain of cells continues with after a head, up to and with the closing
parenthesis, after `out`. -/
def Value.printSpineOnto (p : Printer) (out : String) : Value π → String
  | .vector .nil => out ++ ")"
  | .vector (.cons head tail) => tail.printSpineOnto p (head.printOnto p (out ++ " "))
  | .vector (.array items) => ValueVector.printItemsOnto p (out ++ " . " ++ p.openArray) items ++ ")"
  | scalar => out ++ " . " ++ scalar.printScalar ++ ")"

def ValueVector.printOnto (p : Printer) (out : String) : ValueVector π → String
  | .nil => out ++ "()"
  | .cons head tail => tail.printSpineOnto p (head.printOnto p (out ++ "("))
  | .array items => ValueVector.printItemsOnto p (out ++ p.openArray) items

/-- The items of an array with blanks between them and the closing parenthesis, after
`out`. -/
def ValueVector.printItemsOnto (p : Printer) (out : String) : List (Value π) → String
  | [] => out ++ ")"
  | item :: items => ValueVector.printMoreOnto p (item.printOnto p out) items

def ValueVector.printMoreOnto (p : Printer) (out : String) : List (Value π) → String
  | [] => out ++ ")"
  | item :: items => ValueVector.printMoreOnto p (item.printOnto p (out ++ " ")) items
end

def Printer.print (p : Printer) (v : Value π) : String := v.printOnto p ""

/-- The canonical form. -/
def Value.display (v : Value π) : String := Printer.canonical.print v

end PegMatcher
