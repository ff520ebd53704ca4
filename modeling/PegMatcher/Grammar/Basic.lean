import PegMatcher.Grammar.Rule
/-
Grammars: numbered rules, some of them with names.
-/
namespace PegMatcher

structure Grammar (ε π : Type) where
  rules : Array (Rule ε π)
  names : List (RuleId × String)

/-- The name last given to a rule. -/
def lookupName (names : List (RuleId × String)) (id : RuleId) : Option String :=
  (names.find? fun entry => entry.1 = id).map (·.2)

namespace Grammar

variable {ε π : Type}

def size (g : Grammar ε π) : Nat := g.rules.size

def isEmpty (g : Grammar ε π) : Bool := g.size = 0

def contains (g : Grammar ε π) (id : RuleId) : Bool := id.index < g.size

def rule? (g : Grammar ε π) (id : RuleId) : Option (Rule ε π) := g.rules[id.index]?

def name? (g : Grammar ε π) (id : RuleId) : Option String := lookupName g.names id

variable [Element ε]

/-- The name of a rule if it has one, a description of its shape if not. -/
def describe (g : Grammar ε π) (id : RuleId) : String :=
  match g.name? id, g.rule? id with
  | some name, _ => name
  | none, some rule => rule.describe
  | none, none => "unknown rule " ++ id.display

def form [Payload π] (g : Grammar ε π) : String :=
  Text.recordForm "Grammar"
    [("rules", Text.listForm (g.rules.toList.map Rule.form)),
      ("names", Text.mapForm (g.names.map fun (id, name) => (id.form, Text.stringLiteral name)))]

end Grammar
end PegMatcher
