import PegMatcher.Cursor.Basic
/-
Cursors over the characters of a string.  Positions count characters, so that they
agree with what a reader sees; the byte offset of the current character is kept beside
the position, so that looking at it takes constant time.
-/
namespace PegMatcher

structure TextCursor where
  text : String
  /-- Byte offset of the current character. -/
  offset : Nat
  /-- The number of characters before the cursor. -/
  position : Nat
  deriving DecidableEq

namespace TextCursor

def start (text : String) : TextCursor := ⟨text, 0, 0⟩

def peek (c : TextCursor) : Option Char := String.Pos.Raw.get? c.text ⟨c.offset⟩

def next (c : TextCursor) : TextCursor :=
  match c.peek with
  | some ch => ⟨c.text, c.offset + ch.utf8Size, c.position + 1⟩
  | none => c

def rest (c : TextCursor) : String :=
  String.Pos.Raw.extract c.text ⟨c.offset⟩ c.text.rawEndPos

def form (c : TextCursor) : String :=
  Text.recordForm "TextCursor"
    [("text", Text.stringLiteral c.text), ("offset", Decimal.ofNat c.offset),
      ("position", Decimal.ofNat c.position)]

end TextCursor

instance : Cursor TextCursor Char Unit where
  peek := TextCursor.peek
  position := TextCursor.position
  next c s := (c.next, s)

end PegMatcher
