import PegMatcher.Grammar.Basic
import PegMatcher.Cursor.Basic
/-
Diagnostics: the furthest point a run got to, and its report over the source text with
up to two lines around the line at fault and a pointer under the offending character.

A line feed separates two lines of the source, so there is one line more than there are line
feeds; carriage returns at the end of a line are not shown.
-/
namespace PegMatcher

/-! ## Lines of a source -/

namespace Text

def lines (source : String) : List (List Char) := source.toList.splitOn '\n'

/-- The line without the carriage returns at its end. -/
def trimReturns (line : List Char) : List Char :=
  (line.reverse.dropWhile (· = '\r')).reverse

/-- A line number, counted from one, and the number of characters before a place on
its line. -/
structure Place where
  line : Nat
  offset : Nat
  deriving DecidableEq

/-- Looks for the place of a position among the characters from number `index` on, where `line`
starts at number `start`, and stops at the position. -/
def locateFrom (position line start index : Nat) : List Char → Place
  | [] => ⟨line, position - start⟩
  | c :: chars =>
    if position ≤ index then ⟨line, position - start⟩
    else if c = '\n' then locateFrom position (line + 1) (index + 1) (index + 1) chars
    else locateFrom position line start (index + 1) chars

/-- The place of the character with `position` characters before it.  A position
beyond the end counts on from the start of the last line. -/
def locate (source : String) (position : Nat) : Place :=
  locateFrom position 1 0 0 source.toList

end Text

/-! ## Reports -/

structure Diagnostic where
  position : Nat
  /-- The offending element, none at the end of the input. -/
  found : Option String
  /-- The rule that failed there. -/
  rule : RuleId
  /-- What that rule accepts. -/
  expected : String

namespace Diagnostic

def text (d : Diagnostic) : String :=
  "Syntax error at " ++ Decimal.ofNat d.position ++ " (unexpected '" ++
    d.found.getD endMarker ++ "')"

def atEnd (d : Diagnostic) : Bool := d.found.isNone

/-- The number of a line before its text; the line at fault is marked. -/
def gutter (number faulty : Nat) : String :=
  (if number = faulty then "  > " else "    ") ++ Decimal.ofNat number ++ " | "

/-- The row that points at a place, for the line above it. -/
def pointer (place : Text.Place) : String :=
  String.ofList (List.replicate ((gutter place.line place.line).length + place.offset) ' ') ++
    "^--- here"

/-- Line `number` as it is shown, with the pointer below when it is at fault, and
nothing when it is more than two lines away. -/
def lineRows (place : Text.Place) (number : Nat) (line : List Char) : List String :=
  if number < place.line - 2 ∨ place.line + 2 < number then []
  else
    let row := gutter number place.line ++ String.ofList (Text.trimReturns line)
    if number = place.line then [row, pointer place] else [row]

/-- The rows for `lines`, the first of which has the given number. -/
def rowsFrom (place : Text.Place) (number : Nat) : List (List Char) → List String
  | [] => []
  | line :: lines => lineRows place number line ++ rowsFrom place (number + 1) lines

/-- The lines around a place. -/
def contextRows (source : String) (place : Text.Place) : List String :=
  rowsFrom place 1 (Text.lines source)

/-- The report over several lines. -/
def render (d : Diagnostic) (source : String) : String :=
  let place := Text.locate source d.position
  d.text ++ "\n  expected " ++ d.expected ++ " at line " ++ Decimal.ofNat place.line ++
    ", offset " ++ Decimal.ofNat place.offset ++ "\n\n" ++
    String.join ((contextRows source place).map (· ++ "\n"))

end Diagnostic
end PegMatcher
