import PegMatcher.Run.Match
import PegMatcher.Diagnostic
/-
A grammar, a root rule, a start and the settings, put together for runs over one
input.
-/
namespace PegMatcher

structure Parser (γ ε π : Type) where
  grammar : Grammar ε π
  root : RuleId
  start : γ
  config : Config

namespace Parser

variable {γ ε σ π : Type} [Cursor γ ε σ] [Element ε]

/-- The furthest failure so far, if anything failed. -/
def error? (p : Parser γ ε π) (s : RunState γ σ π) : Option Diagnostic :=
  s.failure.map fun f =>
    ⟨Cursor.position f.cursor, (Cursor.peek f.cursor).map Element.display, f.rule,
      p.grammar.describe f.rule⟩

/-- The error in one line, empty when nothing failed. -/
def errorText (p : Parser γ ε π) (s : RunState γ σ π) : String :=
  match p.error? s with
  | some d => d.text
  | none => ""

def closing (p : Parser γ ε π) (s : RunState γ σ π) : Outcome γ (Value π) → Message π
  | .matched c _ => .matched (Cursor.position c) s.maxDepth
  | .mismatch => .failed (p.errorText s) s.maxDepth
  | .aborted cause => .aborted cause

variable [ElementValue ε π] [Payload π]

/-- Any rule at any cursor, going on from the state of the run. -/
def matchRule (p : Parser γ ε π) (fuel : Nat) (id : RuleId) (c : γ) (s : RunState γ σ π) :
    Attempt γ σ π (Value π) :=
  p.grammar.eval p.config fuel id c s

/-- The root at the start, from a reset state. -/
def run (p : Parser γ ε π) (fuel : Nat) (s : RunState γ σ π) : Attempt γ σ π (Value π) :=
  let opening := Message.started p.root (p.grammar.describe p.root) (Cursor.position p.start)
  match p.matchRule fuel p.root p.start (s.reset.note opening) with
  | some (outcome, s) => some (outcome, s.note (p.closing s outcome))
  | none => none

/-- Fuel beyond what any input in memory can spend before memory itself is spent. -/
def ampleFuel : Nat := 0x4000000000000000

end Parser
end PegMatcher
