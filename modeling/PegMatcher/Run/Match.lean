import PegMatcher.Run.State
import PegMatcher.Grammar.Basic
import PegMatcher.Config
/-
Matching a rule at a cursor.

Each form of rule has a function that is given how the children of the rule are
matched; `Grammar.eval` ties the knot.  A grammar may call itself without consuming
anything, so the knot is tied with fuel: an attempt that spends its fuel gives no
answer at all, and an answer does not depend on how much fuel was left.  Match,
mismatch and abort are answers; an abort passes through every rule around it.
-/
namespace PegMatcher

/-- How an attempt to match ends. -/
inductive Outcome (γ α : Type)
  /-- Matched up to the cursor with a result. -/
  | matched (cursor : γ) (result : α)
  | mismatch
  | aborted (cause : Abort)

/-- An outcome and the state after it, or nothing when the fuel is spent. -/
abbrev Attempt (γ σ π α : Type) := Option (Outcome γ α × RunState γ σ π)

/-- A way to match rules by their number. -/
abbrev Matcher (γ σ π : Type) := RuleId → γ → RunState γ σ π → Attempt γ σ π (Value π)

variable {γ ε σ π : Type} [Cursor γ ε σ]

/-- Collects the results of a match in a vector. -/
def Attempt.collect (kind : Kind) : Attempt γ σ π (List (Value π)) → Attempt γ σ π (Value π)
  | some (.matched c items, s) => some (.matched c (kind.collect items), s)
  | some (.mismatch, s) => some (.mismatch, s)
  | some (.aborted cause, s) => some (.aborted cause, s)
  | none => none

/-- The cursor behind a run of elements, if the input has them all. -/
def skipItems [Element ε] : List ε → γ → σ → Option γ × σ
  | [], c, input => (some c, input)
  | expected :: items, c, input =>
    match Cursor.peek c with
    | some item =>
      if Element.same item expected then
        let (c, input) := Cursor.next c input
        skipItems items c input
      else (none, input)
    | none => (none, input)

namespace RunState

/-- Runs `body` one level deeper, or aborts when that exceeds the limit. -/
def descend {α : Type} (limit : Option Nat) (c : γ)
    (body : RunState γ σ π → Attempt γ σ π α) (s : RunState γ σ π) : Attempt γ σ π α :=
  match limit.filter (· ≤ s.depth) with
  | some limit =>
    let here := Cursor.position c
    some (.aborted (.tooDeep limit here), s.note (.limitReached limit here))
  | none =>
    match body s.enter with
    | some (outcome, s) => some (outcome, s.leave)
    | none => none

def matchEnd (id : RuleId) (c : γ) (s : RunState γ σ π) :
    Outcome γ (Value π) × RunState γ σ π :=
  if Cursor.atEnd c then (.matched c .null, s) else (.mismatch, s.recordFailure c id)

def matchElement [ElementValue ε π] (id : RuleId) (accepts : ε → Bool) (c : γ)
    (s : RunState γ σ π) : Outcome γ (Value π) × RunState γ σ π :=
  match Cursor.peek c with
  | some item =>
    if accepts item then
      let (d, s) := s.read (Cursor.next c)
      (.matched d (ElementValue.value item), s)
    else (.mismatch, s.recordFailure c id)
  | none => (.mismatch, s.recordFailure c id)

/-- A run of elements; when one of them is missing, the whole run failed where it
started. -/
def matchWord [Element ε] (id : RuleId) (items : List ε) (value : Value π) (c : γ)
    (s : RunState γ σ π) : Outcome γ (Value π) × RunState γ σ π :=
  match s.read (skipItems items c) with
  | (some d, s) => (.matched d value, s)
  | (none, s) => (.mismatch, s.recordFailure c id)

end RunState

namespace Matcher

/-- The children in order; `results` holds those of the children before, the latest
first. -/
def sequence (child : Matcher γ σ π) (results : List (Value π)) :
    List RuleId → γ → RunState γ σ π → Attempt γ σ π (List (Value π))
  | [], c, s => some (.matched c results.reverse, s)
  | item :: items, c, s =>
    match child item c s with
    | some (.matched c value, s) => sequence child (value :: results) items c s
    | some (.mismatch, s) => some (.mismatch, s)
    | some (.aborted cause, s) => some (.aborted cause, s)
    | none => none

/-- The first child that matches, each tried at the same cursor. -/
def firstOf (child : Matcher γ σ π) :
    List RuleId → γ → RunState γ σ π → Attempt γ σ π (Value π)
  | [], _, s => some (.mismatch, s)
  | item :: items, c, s =>
    match child item c s with
    | some (.mismatch, s) => firstOf child items c s
    | answer => answer

/-- The child again and again, while `room` allows more results; `need` counts the
results still required.  Without an upper bound, a result that consumed nothing is the
last one as soon as enough are there, since all further ones would repeat it. -/
def repetition (child : Matcher γ σ π) (id item : RuleId) (results : List (Value π))
    (need : Nat) (room : Option Nat) :
    (fuel : Nat) → γ → RunState γ σ π → Attempt γ σ π (List (Value π))
  | 0, _, _ => none
  | fuel + 1, c, s =>
    if room = some 0 then
      some (if need = 0 then .matched c results.reverse else .mismatch, s)
    else
      match child item c s with
      | some (.matched d value, s) =>
        if room = none ∧ need ≤ 1 ∧ Cursor.position d ≤ Cursor.position c then
          some (.matched d (value :: results).reverse, s)
        else
          repetition child id item (value :: results) (need - 1) (room.map (· - 1)) fuel d s
      | some (.mismatch, s) =>
        if need = 0 then some (.matched c results.reverse, s)
        else some (.mismatch, s.recordFailure c id)
      | some (.aborted cause, s) => some (.aborted cause, s)
      | none => none

/-- Whether the child matches here, or does not when negated; nothing is consumed. -/
def lookahead (child : Matcher γ σ π) (item : RuleId) (negated : Bool) (c : γ)
    (s : RunState γ σ π) : Attempt γ σ π (Value π) :=
  match child item c s with
  | some (.matched _ _, s) => some (if negated then .mismatch else .matched c .null, s)
  | some (.mismatch, s) => some (if negated then .matched c .null else .mismatch, s)
  | some (.aborted cause, s) => some (.aborted cause, s)
  | none => none

/-- The child, with its value reshaped by an action. -/
def handler [Payload π] (child : Matcher γ σ π) (kind : Kind) (item : RuleId)
    (action : Action π) (c : γ) (s : RunState γ σ π) : Attempt γ σ π (Value π) :=
  match child item c s with
  | some (.matched d value, s) =>
    let (value, warning) := action.apply kind value
    some (.matched d value, s.noteAny (warning.map .reshaping))
  | answer => answer

end Matcher

/-- The value of a run of elements: the given one, or the elements in a vector. -/
def Kind.wordValue [ElementValue ε π] (kind : Kind) (items : List ε) :
    Option (Value π) → Value π
  | some value => value
  | none => kind.collect (items.map ElementValue.value)

namespace Grammar

variable [Element ε] [ElementValue ε π] [Payload π]

/-- One rule, given how its children are matched.  Sequences, choices, repetitions,
placeholders and handlers nest one level deeper; lookaheads and the rules without
children do not. -/
def step (g : Grammar ε π) (config : Config) (child : Matcher γ σ π) (fuel : Nat)
    (id : RuleId) (c : γ) (s : RunState γ σ π) : Attempt γ σ π (Value π) :=
  match g.rule? id with
  | none => some (.aborted (.unknownRule id), s)
  | some (.empty value) => some (.matched c value, s)
  | some .emptyVector => some (.matched c (.vector config.kind.empty), s)
  | some .endOfInput => some (s.matchEnd id c)
  | some .any => some (s.matchElement id (fun _ => true) c)
  | some (.literal expected) =>
    some (s.matchElement id (fun item => Element.same item expected) c)
  | some (.test _ accepts) => some (s.matchElement id accepts c)
  | some (.word items value) =>
    some (s.matchWord id items (config.kind.wordValue items value) c)
  | some (.sequence items) =>
    s.descend config.maxDepth c fun s => (child.sequence [] items c s).collect config.kind
  | some (.firstOf items) => s.descend config.maxDepth c fun s => child.firstOf items c s
  | some (.repetition item min max) =>
    s.descend config.maxDepth c fun s =>
      (child.repetition id item [] min max fuel c s).collect config.kind
  | some (.lookahead item negated) => child.lookahead item negated c s
  | some (.placeholder target) => s.descend config.maxDepth c fun s => child target c s
  | some (.handler item action) =>
    s.descend config.maxDepth c fun s => child.handler config.kind item action c s

/-- The rule with a number at a cursor, with fuel for nesting and for the rounds of
each repetition. -/
def eval (g : Grammar ε π) (config : Config) : (fuel : Nat) → Matcher γ σ π
  | 0 => fun _ _ _ => none
  | fuel + 1 => fun id c s => g.step config (eval g config fuel) fuel id c s

end Grammar
end PegMatcher
