import PegMatcher.Run.Message
import PegMatcher.Cursor.Basic
/-
What changes while matching: the nesting depth, the deepest nesting so far, the
furthest failure, the messages, and the state of the input.
-/
namespace PegMatcher

/-- A rule that did not match at a cursor, and how deep it was nested. -/
structure Failure (γ : Type) where
  cursor : γ
  rule : RuleId
  depth : Nat

structure RunState (γ σ π : Type) where
  depth : Nat
  maxDepth : Nat
  failure : Option (Failure γ)
  /-- The messages so far, the latest first. -/
  log : List (Message π)
  /-- The state of the input, which advancing a cursor may change. -/
  input : σ

namespace RunState

variable {γ σ π : Type}

def fresh (input : σ) : RunState γ σ π := ⟨0, 0, none, [], input⟩

/-- Forgets depth and failure; what was said and what was read stays. -/
def reset (s : RunState γ σ π) : RunState γ σ π := ⟨0, 0, none, s.log, s.input⟩

def note (s : RunState γ σ π) (message : Message π) : RunState γ σ π :=
  { s with log := message :: s.log }

def noteAny (s : RunState γ σ π) : Option (Message π) → RunState γ σ π
  | some message => s.note message
  | none => s

/-- Lets something read from the input. -/
def read {α : Type} (s : RunState γ σ π) (f : σ → α × σ) : α × RunState γ σ π :=
  match s with
  | ⟨depth, maxDepth, failure, log, input⟩ =>
    let (result, input) := f input
    (result, ⟨depth, maxDepth, failure, log, input⟩)

def enter (s : RunState γ σ π) : RunState γ σ π :=
  { s with depth := s.depth + 1, maxDepth := max s.maxDepth (s.depth + 1) }

def leave (s : RunState γ σ π) : RunState γ σ π := { s with depth := s.depth - 1 }

/-- Remembers that a rule failed at a cursor, unless something already failed further
along; of failures at one position the latest is kept. -/
def recordFailure {ε : Type} [Cursor γ ε σ] (s : RunState γ σ π) (c : γ) (rule : RuleId) :
    RunState γ σ π :=
  let here := Cursor.position c
  let kept := { s with failure := some ⟨c, rule, s.depth⟩ }
  match s.failure with
  | none => kept.note (.failureMoved here rule)
  | some furthest =>
    if here < Cursor.position furthest.cursor then s
    else if Cursor.position furthest.cursor < here then kept.note (.failureMoved here rule)
    else kept

end RunState
end PegMatcher
