import PegMatcher.Action
import PegMatcher.Element
/-
The rules of a grammar.  A rule refers to its children by number, so recursive
grammars need no cyclic data.
-/
namespace PegMatcher

open Text

/-- The number of a rule inside one grammar. -/
structure RuleId where
  index : Nat
  deriving DecidableEq

def RuleId.display (id : RuleId) : String := "#" ++ Decimal.ofNat id.index

def RuleId.form (id : RuleId) : String := tupleForm "RuleId" [Decimal.ofNat id.index]

/-- A rule over elements `ε` that produces values over payloads `π`. -/
inductive Rule (ε π : Type)
  /-- Matches without consuming and produces the value. -/
  | empty (value : Value π)
  /-- Matches without consuming and produces an empty vector. -/
  | emptyVector
  /-- Matches at the end of the input only. -/
  | endOfInput
  /-- Any one element. -/
  | any
  /-- One element that is the same as `item`. -/
  | literal (item : ε)
  /-- One element that passes a test; diagnostics show the label. -/
  | test (label : String) (accepts : ε → Bool)
  /-- A fixed run of elements, produced as a vector unless a value is given. -/
  | word (items : List ε) (value : Option (Value π))
  /-- All children in order, produced as a vector. -/
  | sequence (items : List RuleId)
  /-- The first child that matches. -/
  | firstOf (items : List RuleId)
  /-- As many matches of the child as there are, within the bounds, as a vector. -/
  | repetition (item : RuleId) (min : Nat) (max : Option Nat)
  /-- Looks whether the child matches here, and consumes nothing. -/
  | lookahead (item : RuleId) (negated : Bool)
  /-- Stands for another rule. -/
  | placeholder (target : RuleId)
  /-- The child, with its value reshaped. -/
  | handler (item : RuleId) (action : Action π)

namespace Rule

variable {ε π : Type}

def children : Rule ε π → List RuleId
  | .sequence items | .firstOf items => items
  | .repetition item _ _ | .lookahead item _ | .placeholder item | .handler item _ => [item]
  | _ => []

def zeroOrMore (item : RuleId) : Rule ε π := .repetition item 0 none

def oneOrMore (item : RuleId) : Rule ε π := .repetition item 1 none

def optional (item : RuleId) : Rule ε π := .repetition item 0 (some 1)

variable [Element ε]

/-- What the rule accepts, in a few words. -/
def describe : Rule ε π → String
  | .empty _ | .emptyVector => "nothing"
  | .endOfInput => "end of input"
  | .any => "any element"
  | .literal item => "'" ++ Element.display item ++ "'"
  | .test label _ => label
  | .word items _ => "\"" ++ String.join (items.map Element.display) ++ "\""
  | .sequence items => "sequence of " ++ Decimal.ofNat items.length
  | .firstOf items => "one of " ++ Decimal.ofNat items.length ++ " alternatives"
  | .repetition item min (some max) =>
    Decimal.ofNat min ++ ".." ++ Decimal.ofNat max ++ " of " ++ item.display
  | .repetition item min none => Decimal.ofNat min ++ " or more of " ++ item.display
  | .lookahead item negated => (if negated then "not " else "and ") ++ item.display
  | .placeholder target => "reference to " ++ target.display
  | .handler item _ => "handler over " ++ item.display

def form [Payload π] : Rule ε π → String
  | .empty value => tupleForm "Empty" [value.form]
  | .emptyVector => "EmptyVector"
  | .endOfInput => "Eoi"
  | .any => "Any"
  | .literal item => tupleForm "Literal" [Element.form item]
  | .test label _ => recordForm "Test" [("label", stringLiteral label)]
  | .word items value => recordForm "Word"
      [("items", listForm (items.map Element.form)), ("value", optionForm (value.map Value.form))]
  | .sequence items => tupleForm "Sequence" [listForm (items.map RuleId.form)]
  | .firstOf items => tupleForm "FirstOf" [listForm (items.map RuleId.form)]
  | .repetition item min max => recordForm "Repeat"
      [("item", item.form), ("min", Decimal.ofNat min),
        ("max", optionForm (max.map Decimal.ofNat))]
  | .lookahead item negated => recordForm "Lookahead"
      [("item", item.form), ("negate", boolForm negated)]
  | .placeholder target => tupleForm "Placeholder" [target.form]
  | .handler item action => recordForm "Handler" [("item", item.form), ("action", action.form)]

end Rule
end PegMatcher
