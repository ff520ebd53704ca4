import PegMatcher.Proofs.Evaluation
import PegMatcher.Proofs.Reading.Basic
/-
Grammars read as parsing expression grammars.

`Peg g kind goal xs answer` is the textbook relation: it speaks of lists of elements, and
knows no cursors, no nesting depth, no failures and no fuel.  Like evaluation it is about
goals, so that what is left of a rule is told by the same relation as a rule.
-/
namespace PegMatcher

variable {ε π : Type} [Element ε] [ElementValue ε π] [Payload π]

/-- What a goal makes of a list of elements: the elements left and a value, or nothing for
a mismatch. -/
abbrev PegAnswer (ε π : Type) := Option (List ε × Value π)

/-- A lookahead turns the answer of its child into an answer that consumes nothing. -/
def PegAnswer.look (negated : Bool) (xs : List ε) (answer : PegAnswer ε π) : PegAnswer ε π :=
  if answer.isSome = negated then none else some (xs, .null)

/-- The answer of a goal before a list of elements. -/
inductive Peg (g : Grammar ε π) (kind : Kind) : Goal π → List ε → PegAnswer ε π → Prop
  /-- The rules `empty` and `emptyVector`. -/
  | constant {id rule value xs} (h : g.rule? id = some rule)
      (hv : rule.constant? kind = some value) : Peg g kind (.rule id) xs (some (xs, value))
  | endReached {id} (h : g.rule? id = some .endOfInput) :
      Peg g kind (.rule id) [] (some ([], .null))
  | endMissed {id x xs} (h : g.rule? id = some .endOfInput) : Peg g kind (.rule id) (x :: xs) none
  /-- The rules `any`, `literal` and `test`. -/
  | element {id rule accepts x xs} (h : g.rule? id = some rule)
      (ha : rule.accepts? = some accepts) (hx : accepts x = true) :
      Peg g kind (.rule id) (x :: xs) (some (xs, ElementValue.value x))
  | elementMissed {id rule accepts xs} (h : g.rule? id = some rule)
      (ha : rule.accepts? = some accepts) (hx : ∀ x, xs.head? = some x → accepts x = false) :
      Peg g kind (.rule id) xs none
  | word {id items value xs rest} (h : g.rule? id = some (.word items value))
      (hw : Spells items xs rest) :
      Peg g kind (.rule id) xs (some (rest, kind.wordValue items value))
  | wordMissed {id items value xs} (h : g.rule? id = some (.word items value))
      (hw : ∀ rest, ¬Spells items xs rest) : Peg g kind (.rule id) xs none
  | lookahead {id item negated xs answer} (h : g.rule? id = some (.lookahead item negated))
      (child : Peg g kind (.rule item) xs answer) :
      Peg g kind (.rule id) xs (answer.look negated xs)
  /-- The rules `sequence`, `firstOf`, `repetition`, `placeholder` and `handler`. -/
  | nested {id rule goal xs answer} (h : g.rule? id = some rule)
      (hg : rule.inside? id = some goal) (body : Peg g kind goal xs answer) :
      Peg g kind (.rule id) xs answer
  | sequenceDone {results xs} :
      Peg g kind (.sequence results []) xs (some (xs, kind.collect results.reverse))
  | sequenceNext {results item items xs ys value answer}
      (first : Peg g kind (.rule item) xs (some (ys, value)))
      (rest : Peg g kind (.sequence (value :: results) items) ys answer) :
      Peg g kind (.sequence results (item :: items)) xs answer
  | sequenceStop {results item items xs} (first : Peg g kind (.rule item) xs none) :
      Peg g kind (.sequence results (item :: items)) xs none
  | choiceNone {xs} : Peg g kind (.choice []) xs none
  | choiceTaken {item items xs ys value} (first : Peg g kind (.rule item) xs (some (ys, value))) :
      Peg g kind (.choice (item :: items)) xs (some (ys, value))
  | choiceNext {item items xs answer} (first : Peg g kind (.rule item) xs none)
      (rest : Peg g kind (.choice items) xs answer) :
      Peg g kind (.choice (item :: items)) xs answer
  | roundsFull {id item min max results n xs} (hm : max = some n) (hn : n ≤ results.length) :
      Peg g kind (.rounds id item min max results) xs
        (if min ≤ results.length then some (xs, kind.collect results.reverse) else none)
  | roundsNext {id item min max results xs ys value answer}
      (hm : ∀ n, max = some n → results.length < n)
      (first : Peg g kind (.rule item) xs (some (ys, value)))
      (more : max = none → min ≤ results.length + 1 → ys.length < xs.length)
      (rest : Peg g kind (.rounds id item min max (value :: results)) ys answer) :
      Peg g kind (.rounds id item min max results) xs answer
  /-- The zero-width stop: enough results without a maximum, the last of which consumed
  nothing. -/
  | roundsLast {id item min results xs ys value}
      (first : Peg g kind (.rule item) xs (some (ys, value))) (hn : min ≤ results.length + 1)
      (still : xs.length ≤ ys.length) :
      Peg g kind (.rounds id item min none results) xs
        (some (ys, kind.collect (value :: results).reverse))
  | roundsEnough {id item min max results xs} (hm : ∀ n, max = some n → results.length < n)
      (first : Peg g kind (.rule item) xs none) (hn : min ≤ results.length) :
      Peg g kind (.rounds id item min max results) xs
        (some (xs, kind.collect results.reverse))
  | roundsShort {id item min max results xs} (hm : ∀ n, max = some n → results.length < n)
      (first : Peg g kind (.rule item) xs none) (hn : results.length < min) :
      Peg g kind (.rounds id item min max results) xs none
  | handledMatched {item action xs ys value}
      (child : Peg g kind (.rule item) xs (some (ys, value))) :
      Peg g kind (.handled item action) xs (some (ys, (action.apply kind value).1))
  | handledMissed {item action xs} (child : Peg g kind (.rule item) xs none) :
      Peg g kind (.handled item action) xs none

namespace Grammar

/-- A rule consumes the elements of `xs` up to `ys` and produces a value. -/
def Yields (g : Grammar ε π) (kind : Kind) (id : RuleId) (xs ys : List ε) (value : Value π) :
    Prop := Peg g kind (.rule id) xs (some (ys, value))

/-- A rule does not match before `xs`. -/
def Refuses (g : Grammar ε π) (kind : Kind) (id : RuleId) (xs : List ε) : Prop :=
  Peg g kind (.rule id) xs none

end Grammar

end PegMatcher
