import PegMatcher.Value.Equality
import PegMatcher.Value.Printer
import PegMatcher.Value.Form
/-
What the items of an input have to offer.  Rules compare elements, diagnostics show
them, and matched elements become values.
-/
namespace PegMatcher

class Element (ε : Type) where
  same : ε → ε → Bool
  display : ε → String
  form : ε → String

/-- The value a matched element becomes, over payloads of type `π`. -/
class ElementValue (ε π : Type) where
  value : ε → Value π

variable {π : Type}

instance : Element Char := ⟨fun a b => a = b, fun c => String.ofList [c], Text.charLiteral⟩

instance : ElementValue Char π := ⟨.char⟩

instance : Element UInt8 :=
  ⟨fun a b => a = b, fun n => Decimal.ofNat n.toNat, fun n => Decimal.ofNat n.toNat⟩

instance : ElementValue UInt8 π := ⟨fun n => .int (Int64.ofNat n.toNat)⟩

instance : Element UInt32 :=
  ⟨fun a b => a = b, fun n => Decimal.ofNat n.toNat, fun n => Decimal.ofNat n.toNat⟩

instance : ElementValue UInt32 π := ⟨fun n => .int (Int64.ofNat n.toNat)⟩

instance : Element Int32 :=
  ⟨fun a b => a = b, fun n => Decimal.ofInt n.toInt, fun n => Decimal.ofInt n.toInt⟩

instance : ElementValue Int32 π := ⟨fun n => .int (Int64.ofInt n.toInt)⟩

instance : Element Int64 :=
  ⟨fun a b => a = b, fun n => Decimal.ofInt n.toInt, fun n => Decimal.ofInt n.toInt⟩

instance : ElementValue Int64 π := ⟨.int⟩

instance : Element Binary64 :=
  ⟨Binary64.same, Decimal.ofBinary64 .plain, Decimal.ofBinary64 .structural⟩

instance : ElementValue Binary64 π := ⟨.float⟩

instance : Element String := ⟨fun a b => a = b, fun s => s, Text.stringLiteral⟩

instance : ElementValue String π := ⟨.str⟩

instance [Payload π] : Element (Value π) := ⟨Value.same, Value.display, Value.form⟩

instance : ElementValue (Value π) π := ⟨fun v => v⟩

end PegMatcher
