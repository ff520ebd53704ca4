import PegMatcher.Grammar.Rule
/-
What a run says about itself while it goes on.
-/
namespace PegMatcher

/-- Why a run ends without an answer.  A mismatch is an answer. -/
inductive Abort
  | tooDeep (limit position : Nat)
  | unknownRule (rule : RuleId)
  deriving DecidableEq

def Abort.message : Abort → String
  | .tooDeep limit position =>
    "recursion limit of " ++ Decimal.ofNat limit ++ " exceeded at position " ++
      Decimal.ofNat position
  | .unknownRule rule => "rule " ++ rule.display ++ " is not part of this grammar"

inductive Level
  | debug
  | trace
  | warn
  deriving DecidableEq

def Level.name : Level → String
  | .debug => "DEBUG"
  | .trace => "TRACE"
  | .warn => "WARN"

inductive Message (π : Type)
  | started (root : RuleId) (description : String) (position : Nat)
  | matched (position maxDepth : Nat)
  | failed (error : String) (maxDepth : Nat)
  | aborted (cause : Abort)
  | limitReached (limit position : Nat)
  | failureMoved (position : Nat) (rule : RuleId)
  | reshaping (warning : Warning π)

namespace Message

variable {π : Type}

def level : Message π → Level
  | .started _ _ _ | .matched _ _ | .failed _ _ | .aborted _ => .debug
  | .failureMoved _ _ => .trace
  | .limitReached _ _ | .reshaping _ => .warn

def maxDepthNote (maxDepth : Nat) : String := " (max depth " ++ Decimal.ofNat maxDepth ++ ")"

def text [Payload π] : Message π → String
  | .started root description position =>
    "parse started: root " ++ root.display ++ " (" ++ description ++ ") at position " ++
      Decimal.ofNat position
  | .matched position maxDepth =>
    "parse matched up to position " ++ Decimal.ofNat position ++ maxDepthNote maxDepth
  | .failed error maxDepth => "parse failed: " ++ error ++ maxDepthNote maxDepth
  | .aborted cause => "parse aborted: " ++ cause.message
  | .limitReached limit position =>
    "recursion limit of " ++ Decimal.ofNat limit ++ " reached at position " ++
      Decimal.ofNat position
  | .failureMoved position rule =>
    "furthest failure moved to position " ++ Decimal.ofNat position ++ " by rule " ++ rule.display
  | .reshaping warning => warning.message

end Message
end PegMatcher
