import PegMatcher.Element
/-
Cursors: immutable views of a position in a sequence of elements.

Advancing makes a new cursor and leaves the old one as it was, so a rule backtracks by
holding on to an earlier cursor.  Reading an element from a lazy source changes the
source, therefore advancing takes the state of the input and gives the next one; for
inputs in memory that state is trivial.
-/
namespace PegMatcher

/-- A type `γ` of cursors over elements `ε`, whose inputs have a state of type `σ`. -/
class Cursor (γ : Type) (ε σ : outParam Type) where
  /-- The element at the cursor, none at the end of the input. -/
  peek : γ → Option ε
  /-- The number of elements before the cursor. -/
  position : γ → Nat
  /-- The cursor one element further; at the end of the input, the same cursor. -/
  next : γ → σ → γ × σ

namespace Cursor

variable {γ ε σ : Type} [Cursor γ ε σ]

def atEnd (c : γ) : Bool := (peek c).isNone

def canAdvance (c : γ) : Bool := !atEnd c

/-- The cursor `n` elements further, stopping at the end of the input. -/
def advance : Nat → γ → σ → γ × σ
  | 0, c, s => (c, s)
  | n + 1, c, s =>
    let (c, s) := next c s
    advance n c s

end Cursor

/-- What a diagnostic shows in place of an element at the end of the input. -/
def endMarker : String := "\x7bEOI\x7d"

def seenText {ε : Type} [Element ε] : Option ε → String
  | some item => Element.display item
  | none => endMarker

def seenForm {ε : Type} [Element ε] : Option ε → String
  | some item => Text.tupleForm "Item" [Element.form item]
  | none => "EndOfInput"

end PegMatcher
