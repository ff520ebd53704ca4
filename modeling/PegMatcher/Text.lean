/-
How texts are written out: between quotes in the printed form of values, and as literals
and parts of constructors, records, lists and maps in structural forms.
-/
namespace PegMatcher
namespace Text

/-! ## Between double quotes

A quote inside is written as a backslash and a quote; a backslash stands for itself. -/

def escapeQuotes : List Char → List Char
  | [] => []
  | '"' :: rest => '\\' :: '"' :: escapeQuotes rest
  | c :: rest => c :: escapeQuotes rest

def escape (s : String) : String := String.ofList (escapeQuotes s.toList)

def quoted (s : String) : String := "\"" ++ escape s ++ "\""

/-! ## Literals

Control characters of ASCII are written by their short escape or by code point, the delimiter
and the backslash are escaped, and any other character stands for itself. -/

def codePointEscape (c : Char) : List Char :=
  "\\u\x7b".toList ++ Nat.toDigits 16 c.toNat ++ ['\x7d']

/-- One character of a literal that ends at `delimiter`. -/
def escapedChar (delimiter : Char) (c : Char) : List Char :=
  if c = '\x00' then ['\\', '0']
  else if c = '\t' then ['\\', 't']
  else if c = '\n' then ['\\', 'n']
  else if c = '\r' then ['\\', 'r']
  else if c = delimiter ∨ c = '\\' then ['\\', c]
  else if c.toNat < 0x20 ∨ c.toNat = 0x7f then codePointEscape c
  else [c]

def charLiteral (c : Char) : String :=
  String.ofList (['\''] ++ escapedChar '\'' c ++ ['\''])

def stringLiteral (s : String) : String :=
  String.ofList (['"'] ++ s.toList.flatMap (escapedChar '"') ++ ['"'])

/-! ## Structural forms -/

/-- A constructor with unnamed parts. -/
def tupleForm (name : String) (parts : List String) : String :=
  name ++ "(" ++ ", ".intercalate parts ++ ")"

/-- A constructor with named parts. -/
def recordForm (name : String) (fields : List (String × String)) : String :=
  name ++ " \x7b " ++
    ", ".intercalate (fields.map fun (field, part) => field ++ ": " ++ part) ++ " \x7d"

def listForm (items : List String) : String := "[" ++ ", ".intercalate items ++ "]"

def mapForm (entries : List (String × String)) : String :=
  "\x7b" ++ ", ".intercalate (entries.map fun (key, part) => key ++ ": " ++ part) ++ "\x7d"

def optionForm : Option String → String
  | none => "None"
  | some part => tupleForm "Some" [part]

def boolForm (b : Bool) : String := if b then "true" else "false"

end Text
end PegMatcher
