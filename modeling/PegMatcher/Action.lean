import PegMatcher.Value.Text
import PegMatcher.Value.Printer
import PegMatcher.ValueVector.Kind
import PegMatcher.Text
/-
Actions reshape the value of a match and never touch what was consumed.

An action of the fixed kinds that meets a value of the wrong shape leaves the value as
it is and says so in a warning.
-/
namespace PegMatcher

inductive Action (π : Type)
  /-- One element of a vector. -/
  | extract (index : Nat)
  /-- The first element of a vector, or the vector itself when it has none. -/
  | firstOrSelf
  /-- A head and the rest of its repetition as one vector, or as one string when the
  rest is text already. -/
  | collapse
  /-- The text of a vector as a string. -/
  | concat
  /-- Any function of the value and the representation in use. -/
  | map (f : Value π → Kind → Value π)

/-- A value of the wrong shape for an action. -/
inductive Warning (π : Type)
  | extract (index : Nat) (value : Value π)
  | firstOrSelf (value : Value π)
  | collapse (value : Value π)
  | concat (value : Value π)

variable {π : Type}

/-- The two elements of a vector of length two. -/
def Value.pair? : Value π → Option (Value π × Value π)
  | .vector v =>
    if v.length = 2 then
      match v.get? 0, v.get? 1 with
      | some head, some rest => some (head, rest)
      | _, _ => none
    else none
  | _ => none

def Action.form : Action π → String
  | .extract index => Text.tupleForm "Extract" [Decimal.ofNat index]
  | .firstOrSelf => "FirstOrSelf"
  | .collapse => "Collapse"
  | .concat => "Concat"
  | .map _ => "Map(..)"

variable [Payload π]

def Warning.message : Warning π → String
  | .extract index value =>
    "extract: no element " ++ Decimal.ofNat index ++ " in " ++ value.display
  | .firstOrSelf value => "first_or_self: expected a vector, got " ++ value.display
  | .collapse value => "collapse: expected an (element, rest) pair, got " ++ value.display
  | .concat value => "concat: expected a vector, got " ++ value.display

namespace Action

/-- One vector, or one string, of a head and the rest that follows it. -/
def join (kind : Kind) (head rest : Value π) : Value π :=
  match rest with
  | .null => kind.collect [head]
  | .vector v => .vector (kind.insertBefore head v)
  | .str s => .str (head.text ++ s)
  | other => kind.collect [head, other]

/-- The reshaped value, and the warning if there is cause for one. -/
def apply (kind : Kind) (action : Action π) (v : Value π) : Value π × Option (Warning π) :=
  match action with
  | .extract index =>
    match v.get? index with
    | some item => (item, none)
    | none => (v, some (.extract index v))
  | .firstOrSelf =>
    match v with
    | .vector w => ((w.get? 0).getD v, none)
    | _ => (v, some (.firstOrSelf v))
  | .collapse =>
    match v.pair? with
    | some (head, rest) => (join kind head rest, none)
    | none => (v, some (.collapse v))
  | .concat =>
    match v with
    | .vector _ | .str _ => (.str v.text, none)
    | _ => (v, some (.concat v))
  | .map f => (f v kind, none)

end Action
end PegMatcher
