import PegMatcher.Grammar.Basic
/-
Putting a grammar together.

Rules are added one after the other and numbered in that order.  A placeholder takes a
number before its rule exists and is bound to a rule once, later; this is how rules
become recursive.  Building checks the whole collection: first that every slot is
filled and refers to existing rules only, then that bounds and extracted elements make
sense.  Within each check the rule with the least number is at fault.
-/
namespace PegMatcher

/-- What is wrong with a grammar, or with the binding of a placeholder. -/
inductive Fault
  | undefinedPlaceholder (placeholder : RuleId)
  | alreadyDefined (placeholder : RuleId)
  | notPlaceholder (rule : RuleId)
  | selfReference (placeholder : RuleId)
  | unknownRule (rule : RuleId)
  | invertedBounds (rule : RuleId) (min max : Nat)
  | extractBeyond (rule : RuleId) (index length : Nat)
  deriving DecidableEq

def Fault.message : Fault → String
  | .undefinedPlaceholder p => "placeholder " ++ p.display ++ " was never defined"
  | .alreadyDefined p => "placeholder " ++ p.display ++ " is already defined"
  | .notPlaceholder r => "rule " ++ r.display ++ " is not a placeholder"
  | .selfReference p => "placeholder " ++ p.display ++ " cannot be defined as itself"
  | .unknownRule r => "rule " ++ r.display ++ " is not part of this grammar"
  | .invertedBounds r min max =>
    "repetition " ++ r.display ++ " has a minimum of " ++ Decimal.ofNat min ++
      " above its maximum of " ++ Decimal.ofNat max
  | .extractBeyond r index length =>
    "handler " ++ r.display ++ " extracts element " ++ Decimal.ofNat index ++
      " from a sequence of " ++ Decimal.ofNat length

/-- The rules collected so far.  An empty slot is a placeholder without a rule. -/
structure Builder (ε π : Type) where
  slots : Array (Option (Rule ε π))
  names : List (RuleId × String)

namespace Builder

variable {ε π : Type}

def empty : Builder ε π := ⟨#[], []⟩

def size (b : Builder ε π) : Nat := b.slots.size

def isEmpty (b : Builder ε π) : Bool := b.size = 0

def add (b : Builder ε π) (rule : Rule ε π) : RuleId × Builder ε π :=
  (⟨b.size⟩, ⟨b.slots.push (some rule), b.names⟩)

def addPlaceholder (b : Builder ε π) : RuleId × Builder ε π :=
  (⟨b.size⟩, ⟨b.slots.push none, b.names⟩)

/-- Gives a number a name, in place of any name it had, and returns the number as it is. -/
def name (b : Builder ε π) (id : RuleId) (text : String) : RuleId × Builder ε π :=
  (id, ⟨b.slots, (id, text) :: b.names.filter fun entry => entry.1 ≠ id⟩)

/-- Binds a placeholder to its rule.  Whether it succeeds or not, there is a builder after it. -/
def define (b : Builder ε π) (placeholder target : RuleId) : Except Fault Unit × Builder ε π :=
  if placeholder = target then (.error (.selfReference placeholder), b)
  else if b.size ≤ target.index then (.error (.unknownRule target), b)
  else
    match b.slots[placeholder.index]? with
    | none => (.error (.unknownRule placeholder), b)
    | some (some (.placeholder _)) => (.error (.alreadyDefined placeholder), b)
    | some (some _) => (.error (.notPlaceholder placeholder), b)
    | some none =>
      (.ok (), ⟨b.slots.setIfInBounds placeholder.index (some (.placeholder target)), b.names⟩)

/-- The rules in the slots from number `index` on, when all are filled and refer to
none of the numbers from `size` on. -/
def filledSlots (size : Nat) (index : Nat) :
    List (Option (Rule ε π)) → Except Fault (List (Rule ε π))
  | [] => .ok []
  | none :: _ => .error (.undefinedPlaceholder ⟨index⟩)
  | some rule :: slots =>
    match rule.children.find? fun child => size ≤ child.index with
    | some child => .error (.unknownRule child)
    | none =>
      match filledSlots size (index + 1) slots with
      | .ok rules => .ok (rule :: rules)
      | .error fault => .error fault

/-- What is wrong with a rule all of whose references exist. -/
def ruleFault? (rules : Array (Rule ε π)) (id : RuleId) : Rule ε π → Option Fault
  | .repetition _ min (some max) =>
    if max < min then some (.invertedBounds id min max) else none
  | .handler item (.extract index) =>
    match rules[item.index]? with
    | some (.sequence items) =>
      if items.length ≤ index then some (.extractBeyond id index items.length) else none
    | _ => none
  | _ => none

/-- The first fault among the rules from number `index` on. -/
def firstFault? (rules : Array (Rule ε π)) (index : Nat) : List (Rule ε π) → Option Fault
  | [] => none
  | rule :: rest =>
    match ruleFault? rules ⟨index⟩ rule with
    | some fault => some fault
    | none => firstFault? rules (index + 1) rest

def build (b : Builder ε π) : Except Fault (Grammar ε π) :=
  match filledSlots b.size 0 b.slots.toList with
  | .error fault => .error fault
  | .ok rules =>
    match firstFault? rules.toArray 0 rules with
    | some fault => .error fault
    | none => .ok ⟨rules.toArray, b.names⟩

end Builder
end PegMatcher
