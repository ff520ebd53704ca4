import PegMatcher.Run.Match
/-
Evaluation as a relation.

`Grammar.eval` threads one state through a run.  `Evaluates` keeps apart what decides
an attempt and what the attempt leaves behind.  It reads the nesting depth, the cursor
and the state of the input, and nothing of what earlier attempts recorded; it lists in
order the marks that the attempt leaves on the state of a run.  It knows no fuel: an
attempt that never ends has no derivation.

A derivation is about a goal, which is a rule or what is left to do for one.  With one
relation over goals, instead of a relation for each form of rule, an induction over
derivations is an ordinary induction.
-/
namespace PegMatcher

/-- What is evaluated: a rule, or what is left of the children of a rule. -/
inductive Goal (π : Type)
  | rule (id : RuleId)
  /-- The items left of a sequence, after items with these results, the latest first. -/
  | sequence (results : List (Value π)) (items : List RuleId)
  /-- The alternatives left of a choice. -/
  | choice (items : List RuleId)
  /-- The rounds left of repetition number `id`, after rounds with these results, the
  latest first. -/
  | rounds (id item : RuleId) (min : Nat) (max : Option Nat) (results : List (Value π))
  /-- A rule whose value an action reshapes. -/
  | handled (item : RuleId) (action : Action π)

/-- A mark that an attempt leaves on the state of a run. -/
inductive Mark (γ π : Type)
  /-- A rule was entered that nests this deep. -/
  | entered (depth : Nat)
  | failed (failure : Failure γ)
  | said (message : Message π)

variable {γ ε σ π : Type}

namespace Rule

/-- The value of a rule that looks at nothing. -/
def constant? (kind : Kind) : Rule ε π → Option (Value π)
  | .empty value => some value
  | .emptyVector => some (.vector kind.empty)
  | _ => none

/-- What a rule that takes one element asks of it. -/
def accepts? [Element ε] : Rule ε π → Option (ε → Bool)
  | .any => some fun _ => true
  | .literal expected => some fun item => Element.same item expected
  | .test _ accepts => some accepts
  | _ => none

/-- What a rule evaluates one level deeper.  Lookaheads and the rules without children
do not nest. -/
def inside? (id : RuleId) : Rule ε π → Option (Goal π)
  | .sequence items => some (.sequence [] items)
  | .firstOf items => some (.choice items)
  | .repetition item min max => some (.rounds id item min max [])
  | .placeholder target => some (.rule target)
  | .handler item action => some (.handled item action)
  | _ => none

/-- Every rule looks at nothing, takes elements, looks ahead or nests. -/
theorem form_cases [Element ε] (rule : Rule ε π) (kind : Kind) (id : RuleId) :
    (∃ value, rule.constant? kind = some value) ∨ rule = .endOfInput ∨
      (∃ accepts, rule.accepts? = some accepts) ∨ (∃ items value, rule = .word items value) ∨
      (∃ item negated, rule = .lookahead item negated) ∨ ∃ goal, rule.inside? id = some goal := by
  cases rule with
  | empty | emptyVector => exact .inl ⟨_, rfl⟩
  | endOfInput => exact .inr (.inl rfl)
  | any | literal | test => exact .inr (.inr (.inl ⟨_, rfl⟩))
  | word items value => exact .inr (.inr (.inr (.inl ⟨items, value, rfl⟩)))
  | lookahead item negated => exact .inr (.inr (.inr (.inr (.inl ⟨item, negated, rfl⟩))))
  | _ => exact .inr (.inr (.inr (.inr (.inr ⟨_, rfl⟩))))

end Rule

/-- What a lookahead at a cursor makes of the outcome of its child. -/
def Outcome.look (negated : Bool) (c : γ) : Outcome γ (Value π) → Outcome γ (Value π)
  | .matched _ _ => if negated then .mismatch else .matched c .null
  | .mismatch => if negated then .matched c .null else .mismatch
  | .aborted cause => .aborted cause

/-- A lookahead aborts exactly when its child does, and for the same cause. -/
theorem Outcome.look_eq_aborted {negated : Bool} {c : γ} {o : Outcome γ (Value π)}
    {cause : Abort} : o.look negated c = .aborted cause ↔ o = .aborted cause := by
  cases o with
  | aborted => exact Iff.rfl
  | matched | mismatch => cases negated <;> exact ⟨nofun, nofun⟩

theorem Outcome.of_look_matched {negated : Bool} {c c' : γ} {o : Outcome γ (Value π)}
    {v : Value π} (h : o.look negated c = .matched c' v) : c' = c ∧ v = .null := by
  cases o with
  | aborted => cases h
  | matched | mismatch =>
    cases negated <;> cases h
    exact ⟨rfl, rfl⟩

variable [Cursor γ ε σ] [Element ε] [ElementValue ε π] [Payload π]

/-- A goal at a nesting depth, a cursor and a state of the input; the outcome, the state
of the input after it, and the marks left. -/
inductive Evaluates (g : Grammar ε π) (config : Config) :
    Goal π → Nat → γ → σ → Outcome γ (Value π) → σ → List (Mark γ π) → Prop
  | unknown {id d c i} (h : g.rule? id = none) :
      Evaluates g config (.rule id) d c i (.aborted (.unknownRule id)) i []
  | constant {id rule value d c i} (h : g.rule? id = some rule)
      (hv : rule.constant? config.kind = some value) :
      Evaluates g config (.rule id) d c i (.matched c value) i []
  | endReached {id d c i} (h : g.rule? id = some .endOfInput) (hc : Cursor.peek c = none) :
      Evaluates g config (.rule id) d c i (.matched c .null) i []
  | endMissed {id d c i item} (h : g.rule? id = some .endOfInput)
      (hc : Cursor.peek c = some item) :
      Evaluates g config (.rule id) d c i .mismatch i [.failed ⟨c, id, d⟩]
  | element {id rule accepts d c i item} (h : g.rule? id = some rule)
      (ha : rule.accepts? = some accepts) (hc : Cursor.peek c = some item)
      (hi : accepts item = true) :
      Evaluates g config (.rule id) d c i
        (.matched (Cursor.next c i).1 (ElementValue.value item)) (Cursor.next c i).2 []
  | elementMissed {id rule accepts d c i} (h : g.rule? id = some rule)
      (ha : rule.accepts? = some accepts)
      (hc : ∀ item, Cursor.peek c = some item → accepts item = false) :
      Evaluates g config (.rule id) d c i .mismatch i [.failed ⟨c, id, d⟩]
  | word {id items value d c i c' i'} (h : g.rule? id = some (.word items value))
      (hw : skipItems items c i = (some c', i')) :
      Evaluates g config (.rule id) d c i
        (.matched c' (config.kind.wordValue items value)) i' []
  | wordMissed {id items value d c i i'} (h : g.rule? id = some (.word items value))
      (hw : skipItems items c i = (none, i')) :
      Evaluates g config (.rule id) d c i .mismatch i' [.failed ⟨c, id, d⟩]
  | lookahead {id item negated d c i o i' marks}
      (h : g.rule? id = some (.lookahead item negated))
      (child : Evaluates g config (.rule item) d c i o i' marks) :
      Evaluates g config (.rule id) d c i (o.look negated c) i' marks
  | tooDeep {id rule goal limit d c i} (h : g.rule? id = some rule)
      (hg : rule.inside? id = some goal) (hl : config.maxDepth = some limit) (hd : limit ≤ d) :
      Evaluates g config (.rule id) d c i (.aborted (.tooDeep limit (Cursor.position c))) i
        [.said (.limitReached limit (Cursor.position c))]
  | nested {id rule goal d c i o i' marks} (h : g.rule? id = some rule)
      (hg : rule.inside? id = some goal) (hl : ∀ limit, config.maxDepth = some limit → d < limit)
      (body : Evaluates g config goal (d + 1) c i o i' marks) :
      Evaluates g config (.rule id) d c i o i' (.entered (d + 1) :: marks)
  | sequenceDone {results d c i} :
      Evaluates g config (.sequence results []) d c i
        (.matched c (config.kind.collect results.reverse)) i []
  | sequenceNext {results item items d c i c₁ value i₁ marks₁ o i' marks₂}
      (first : Evaluates g config (.rule item) d c i (.matched c₁ value) i₁ marks₁)
      (rest : Evaluates g config (.sequence (value :: results) items) d c₁ i₁ o i' marks₂) :
      Evaluates g config (.sequence results (item :: items)) d c i o i' (marks₁ ++ marks₂)
  | sequenceStop {results item items d c i o i' marks}
      (first : Evaluates g config (.rule item) d c i o i' marks)
      (ho : ∀ c₁ value, o ≠ .matched c₁ value) :
      Evaluates g config (.sequence results (item :: items)) d c i o i' marks
  | choiceNone {d c i} : Evaluates g config (.choice []) d c i .mismatch i []
  | choiceNext {item items d c i i₁ marks₁ o i' marks₂}
      (first : Evaluates g config (.rule item) d c i .mismatch i₁ marks₁)
      (rest : Evaluates g config (.choice items) d c i₁ o i' marks₂) :
      Evaluates g config (.choice (item :: items)) d c i o i' (marks₁ ++ marks₂)
  | choiceStop {item items d c i o i' marks}
      (first : Evaluates g config (.rule item) d c i o i' marks) (ho : o ≠ .mismatch) :
      Evaluates g config (.choice (item :: items)) d c i o i' marks
  | roundsFull {id item min max results n d c i} (hm : max = some n) (hn : n ≤ results.length) :
      Evaluates g config (.rounds id item min max results) d c i
        (if min ≤ results.length then .matched c (config.kind.collect results.reverse)
          else .mismatch) i []
  | roundsNext {id item min max results d c i c₁ value i₁ marks₁ o i' marks₂}
      (hm : ∀ n, max = some n → results.length < n)
      (first : Evaluates g config (.rule item) d c i (.matched c₁ value) i₁ marks₁)
      (more : max = none → min ≤ results.length + 1 → Cursor.position c < Cursor.position c₁)
      (rest : Evaluates g config (.rounds id item min max (value :: results)) d c₁ i₁ o i'
        marks₂) :
      Evaluates g config (.rounds id item min max results) d c i o i' (marks₁ ++ marks₂)
  /-- A result that consumed nothing is the last one of an unbounded repetition. -/
  | roundsLast {id item min results d c i c₁ value i₁ marks}
      (first : Evaluates g config (.rule item) d c i (.matched c₁ value) i₁ marks)
      (hn : min ≤ results.length + 1) (still : Cursor.position c₁ ≤ Cursor.position c) :
      Evaluates g config (.rounds id item min none results) d c i
        (.matched c₁ (config.kind.collect (value :: results).reverse)) i₁ marks
  | roundsEnough {id item min max results d c i i₁ marks}
      (hm : ∀ n, max = some n → results.length < n)
      (first : Evaluates g config (.rule item) d c i .mismatch i₁ marks)
      (hn : min ≤ results.length) :
      Evaluates g config (.rounds id item min max results) d c i
        (.matched c (config.kind.collect results.reverse)) i₁ marks
  | roundsShort {id item min max results d c i i₁ marks}
      (hm : ∀ n, max = some n → results.length < n)
      (first : Evaluates g config (.rule item) d c i .mismatch i₁ marks)
      (hn : results.length < min) :
      Evaluates g config (.rounds id item min max results) d c i .mismatch i₁
        (marks ++ [.failed ⟨c, id, d⟩])
  | roundsAborted {id item min max results d c i cause i₁ marks}
      (hm : ∀ n, max = some n → results.length < n)
      (first : Evaluates g config (.rule item) d c i (.aborted cause) i₁ marks) :
      Evaluates g config (.rounds id item min max results) d c i (.aborted cause) i₁ marks
  | handledMatched {item action d c i c' value i' marks}
      (child : Evaluates g config (.rule item) d c i (.matched c' value) i' marks) :
      Evaluates g config (.handled item action) d c i
        (.matched c' (action.apply config.kind value).1) i'
        (marks ++ (action.apply config.kind value).2.toList.map (.said ∘ .reshaping))
  | handledStop {item action d c i o i' marks}
      (child : Evaluates g config (.rule item) d c i o i' marks)
      (ho : ∀ c₁ value, o ≠ .matched c₁ value) :
      Evaluates g config (.handled item action) d c i o i' marks

end PegMatcher
