import PegMatcher.Grammar.Rule
import PegMatcher.Unicode
/-
Rules for grammars over characters: single characters by the set or the class they are in, and
fixed strings.  Of the classes, digits and punctuation are those of ASCII; the other classes are
Unicode properties.
-/
namespace PegMatcher

/-! ## Classes of characters -/

inductive CharClass
  | letter
  | lowercase
  | uppercase
  | digit
  | numeric
  | alphanumeric
  | whitespace
  | punctuation
  | control
  deriving DecidableEq

/-- The visible characters of ASCII that are neither letters nor digits nor blank. -/
def isAsciiPunctuation (c : Char) : Bool :=
  Unicode.inSpans [(0x21, 0x2f), (0x3a, 0x40), (0x5b, 0x60), (0x7b, 0x7e)] c

namespace CharClass

def contains : CharClass → Char → Bool
  | .letter, c => Unicode.isAlphabetic c
  | .lowercase, c => Unicode.isLowercase c
  | .uppercase, c => Unicode.isUppercase c
  | .digit, c => Unicode.inSpans [(0x30, 0x39)] c
  | .numeric, c => Unicode.isNumeric c
  | .alphanumeric, c => Unicode.isAlphabetic c || Unicode.isNumeric c
  | .whitespace, c => Unicode.isWhiteSpace c
  | .punctuation, c => isAsciiPunctuation c
  | .control, c => Unicode.isControl c

/-- What a diagnostic calls a character of the class. -/
def label : CharClass → String
  | .letter => "letter"
  | .lowercase => "lowercase letter"
  | .uppercase => "uppercase letter"
  | .digit => "digit"
  | .numeric => "numeric character"
  | .alphanumeric => "letter or digit"
  | .whitespace => "whitespace"
  | .punctuation => "punctuation"
  | .control => "control character"

end CharClass

/-! ## Rules -/

namespace Rule

variable {π : Type}

def anyOf (chars : String) : Rule Char π :=
  .test ("one of \"" ++ chars ++ "\"") fun c => chars.toList.contains c

def noneOf (chars : String) : Rule Char π :=
  .test ("none of \"" ++ chars ++ "\"") fun c => !chars.toList.contains c

/-- Any character from `low` to `high`, both included. -/
def range (low high : Char) : Rule Char π :=
  .test (String.ofList (['\'', low, '\''] ++ "..=".toList ++ ['\'', high, '\'']))
    fun c => low ≤ c && c ≤ high

def ofClass (cls : CharClass) : Rule Char π := .test cls.label cls.contains

/-- The characters of `text` in order, produced as a string. -/
def string (text : String) : Rule Char π := .word text.toList (some (.str text))

end Rule

end PegMatcher
