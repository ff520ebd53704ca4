import PegMatcher.Proofs.Marks
import PegMatcher.Run.Fuel
import PegMatcher.Run.Parser
/-
The evaluator and the relation say the same, `Grammar.eval_iff_evaluates`: an attempt
answers, with some fuel, exactly when the relation has a derivation, and the state after
it is the state before with the marks of the derivation on it.

What an attempt decides therefore does not depend on the failure, the deepest nesting or
the messages recorded before it.
-/
namespace PegMatcher

variable {γ ε σ π : Type} [Cursor γ ε σ] [Payload π]

/-! ## The evaluator on goals -/

namespace Goal

/-- How the evaluator goes about a goal, given how rules are matched and the fuel for the
rounds of a repetition. -/
def attempt (child : Matcher γ σ π) (kind : Kind) (fuel : Nat) :
    Goal π → γ → RunState γ σ π → Attempt γ σ π (Value π)
  | .rule id, c, s => child id c s
  | .sequence results items, c, s => (child.sequence results items c s).collect kind
  | .choice items, c, s => child.firstOf items c s
  | .rounds id item min max results, c, s =>
    (child.repetition id item results (min - results.length) (max.map (· - results.length))
      fuel c s).collect kind
  | .handled item action, c, s => child.handler kind item action c s

theorem attempt_le {child other : Matcher γ σ π} (h : child.Le other) (kind : Kind)
    {fuel more : Nat} (hf : fuel ≤ more) (goal : Goal π) (c : γ) (s : RunState γ σ π) :
    Attempt.Le (goal.attempt child kind fuel c s) (goal.attempt other kind more c s) := by
  cases goal with
  | rule id => exact h id c s
  | sequence results items => exact Attempt.collect_le (Matcher.sequence_le h _ _ _ s) _
  | choice items => exact Matcher.firstOf_le h _ _ s
  | rounds id item min max results =>
    exact Attempt.collect_le (Matcher.repetition_le h _ _ _ _ _ hf _ s) _
  | handled item action => exact Matcher.handler_le h _ _ _ _ s

variable (child : Matcher γ σ π) (kind : Kind) (fuel : Nat)

theorem attempt_sequence_cons (results : List (Value π)) (item : RuleId)
    (items : List RuleId) (c : γ) (s : RunState γ σ π) :
    (sequence results (item :: items)).attempt child kind fuel c s =
      match child item c s with
      | some (.matched c₁ value, s₁) =>
        (sequence (value :: results) items).attempt child kind fuel c₁ s₁
      | answer => answer := by
  show (child.sequence results (item :: items) c s).collect kind = _
  rw [Matcher.sequence]
  rcases child item c s with _ | ⟨_ | _ | _, _⟩ <;> rfl

theorem attempt_choice_cons (item : RuleId) (items : List RuleId) (c : γ)
    (s : RunState γ σ π) :
    (choice (item :: items)).attempt child kind fuel c s =
      match child item c s with
      | some (.mismatch, s₁) => (choice items).attempt child kind fuel c s₁
      | answer => answer := by
  show child.firstOf (item :: items) c s = _
  rw [Matcher.firstOf]
  rcases child item c s with _ | ⟨_ | _ | _, _⟩ <;> rfl

theorem attempt_handled (item : RuleId) (action : Action π) (c : γ) (s : RunState γ σ π) :
    (handled item action).attempt child kind fuel c s =
      match child item c s with
      | some (.matched c₁ value, s₁) =>
        some (.matched c₁ (action.apply kind value).1,
          s₁.noteAny ((action.apply kind value).2.map .reshaping))
      | answer => answer := rfl

/-- One round.  The evaluator counts down what is still needed and what there is room
for; here both are said in terms of the results so far. -/
theorem attempt_rounds_succ (id item : RuleId) (min : Nat) (max : Option Nat)
    (results : List (Value π)) (c : γ) (s : RunState γ σ π) :
    (rounds id item min max results).attempt child kind (fuel + 1) c s =
      if max.any (· ≤ results.length) then
        some (if min ≤ results.length then .matched c (kind.collect results.reverse)
          else .mismatch, s)
      else
        match child item c s with
        | some (.matched c₁ value, s₁) =>
          if max = none ∧ min ≤ results.length + 1 ∧ Cursor.position c₁ ≤ Cursor.position c then
            some (.matched c₁ (kind.collect (value :: results).reverse), s₁)
          else (rounds id item min max (value :: results)).attempt child kind fuel c₁ s₁
        | some (.mismatch, s₁) =>
          if min ≤ results.length then some (.matched c (kind.collect results.reverse), s₁)
          else some (.mismatch, s₁.recordFailure c id)
        | answer => answer := by
  have hneed : min - results.length = 0 ↔ min ≤ results.length := by omega
  have hnext : min - results.length - 1 = min - (results.length + 1) := by omega
  have hlast : min - results.length ≤ 1 ↔ min ≤ results.length + 1 := by omega
  have hroom : (max.map (· - results.length)).map (· - 1) =
      max.map (· - (results.length + 1)) := by
    cases max with
    | none => rfl
    | some n => rfl
  have hfull : max.map (· - results.length) = some 0 ↔
      max.any (· ≤ results.length) = true := by
    cases max with
    | none => simp
    | some n => simp; omega
  show (child.repetition id item results _ _ (fuel + 1) c s).collect kind = _
  rw [Matcher.repetition]
  simp only [hfull, hneed, hnext, hlast, hroom, Option.map_eq_none_iff]
  split
  · split <;> rfl
  · rcases child item c s with _ | ⟨_ | _ | _, _⟩
    · rfl
    · dsimp only
      split <;> rfl
    · dsimp only
      split <;> rfl
    · rfl

end Goal

/-- There is no room for another round when the results reach the maximum. -/
theorem full_iff {max : Option Nat} {count : Nat} :
    max.any (· ≤ count) = true ↔ ¬∀ n, max = some n → count < n := by
  cases max <;> simp

theorem exists_le_of_not_lt {bound : Option Nat} {count : Nat}
    (h : ¬∀ n, bound = some n → count < n) : ∃ n, bound = some n ∧ n ≤ count := by
  cases bound <;> simp_all

variable [Element ε] [ElementValue ε π]

namespace Grammar

variable {g : Grammar ε π} {config : Config} {id : RuleId} {rule : Rule ε π}
  (child : Matcher γ σ π) (fuel : Nat) (c : γ) (s : RunState γ σ π)

theorem step_unknown (h : g.rule? id = none) :
    g.step config child fuel id c s = some (.aborted (.unknownRule id), s) := by
  unfold step
  rw [h]

theorem step_constant {value : Value π} (h : g.rule? id = some rule)
    (hv : rule.constant? config.kind = some value) :
    g.step config child fuel id c s = some (.matched c value, s) := by
  unfold step
  rw [h]
  cases rule with
  | empty | emptyVector => cases hv; rfl
  | _ => cases hv

theorem step_end (h : g.rule? id = some .endOfInput) :
    g.step config child fuel id c s = some (s.matchEnd id c) := by
  unfold step
  rw [h]

theorem step_element {accepts : ε → Bool} (h : g.rule? id = some rule)
    (ha : rule.accepts? = some accepts) :
    g.step config child fuel id c s = some (s.matchElement id accepts c) := by
  unfold step
  rw [h]
  cases rule with
  | any | literal | test => cases ha; rfl
  | _ => cases ha

theorem step_word {items : List ε} {value : Option (Value π)}
    (h : g.rule? id = some (.word items value)) :
    g.step config child fuel id c s =
      some (s.matchWord id items (config.kind.wordValue items value) c) := by
  unfold step
  rw [h]

theorem step_lookahead {item : RuleId} {negated : Bool}
    (h : g.rule? id = some (.lookahead item negated)) :
    g.step config child fuel id c s =
      (child item c s).map fun answer => (answer.1.look negated c, answer.2) := by
  unfold step
  rw [h]
  show child.lookahead item negated c s = _
  unfold Matcher.lookahead
  rcases child item c s with _ | ⟨_ | _ | _, _⟩ <;> rfl

/-- A rule that nests attempts its goal one level deeper. -/
theorem step_nested {goal : Goal π} (h : g.rule? id = some rule)
    (hg : rule.inside? id = some goal) :
    g.step config child fuel id c s =
      s.descend config.maxDepth c (goal.attempt child config.kind fuel c) := by
  unfold step
  rw [h]
  cases rule with
  | sequence | firstOf | placeholder | handler => cases hg; rfl
  | repetition item min max => cases hg; cases max <;> rfl
  | _ => cases hg

end Grammar

/-! ## From the evaluator to the relation -/

/-- Every answer of the attempt has a derivation. -/
def Attempt.Derived (g : Grammar ε π) (config : Config) (goal : Goal π) (c : γ)
    (s : RunState γ σ π) (attempt : Attempt γ σ π (Value π)) : Prop :=
  ∀ o s', attempt = some (o, s') →
    ∃ i' marks, Evaluates g config goal s.depth c s.input o i' marks ∧ s' = s.after marks i'

section
variable {g : Grammar ε π} {config : Config} {child : Matcher γ σ π}
  (hchild : ∀ id c s, (child id c s).Derived g config (.rule id) c s)
include hchild

theorem Goal.sequence_derived (fuel : Nat) (results : List (Value π)) (items : List RuleId)
    (c : γ) (s : RunState γ σ π) :
    ((Goal.sequence results items).attempt child config.kind fuel c s).Derived g config
      (.sequence results items) c s := by
  induction items generalizing results c s with
  | nil =>
    intro o s' ho
    cases ho
    exact ⟨_, [], .sequenceDone, rfl⟩
  | cons item items ih =>
    intro o s' ho
    rw [attempt_sequence_cons] at ho
    rcases ha : child item c s with _ | ⟨o₁, s₁⟩ <;> rw [ha] at ho
    · cases ho
    obtain ⟨i₁, marks₁, first, rfl⟩ := hchild item c s _ _ ha
    cases o₁ with
    | matched c₁ value =>
      obtain ⟨i', marks₂, rest, rfl⟩ := ih (value :: results) c₁ _ o s' ho
      rw [RunState.depth_after] at rest
      exact ⟨i', marks₁ ++ marks₂, .sequenceNext first rest, RunState.after_after ..⟩
    | mismatch | aborted =>
      cases ho
      exact ⟨i₁, marks₁, .sequenceStop first nofun, rfl⟩

theorem Goal.choice_derived (fuel : Nat) (items : List RuleId) (c : γ) (s : RunState γ σ π) :
    ((Goal.choice items).attempt child config.kind fuel c s).Derived g config
      (.choice items) c s := by
  induction items generalizing s with
  | nil =>
    intro o s' ho
    cases ho
    exact ⟨_, [], .choiceNone, rfl⟩
  | cons item items ih =>
    intro o s' ho
    rw [attempt_choice_cons] at ho
    rcases ha : child item c s with _ | ⟨o₁, s₁⟩ <;> rw [ha] at ho
    · cases ho
    obtain ⟨i₁, marks₁, first, rfl⟩ := hchild item c s _ _ ha
    cases o₁ with
    | mismatch =>
      obtain ⟨i', marks₂, rest, rfl⟩ := ih _ o s' ho
      rw [RunState.depth_after] at rest
      exact ⟨i', marks₁ ++ marks₂, .choiceNext first rest, RunState.after_after ..⟩
    | matched | aborted =>
      cases ho
      exact ⟨i₁, marks₁, .choiceStop first nofun, rfl⟩

theorem Goal.rounds_derived (fuel : Nat) (id item : RuleId) (min : Nat) (max : Option Nat)
    (results : List (Value π)) (c : γ) (s : RunState γ σ π) :
    ((Goal.rounds id item min max results).attempt child config.kind fuel c s).Derived g config
      (.rounds id item min max results) c s := by
  induction fuel generalizing results c s with
  | zero => exact fun o s' ho => nomatch ho
  | succ fuel ih =>
    intro o s' ho
    rw [attempt_rounds_succ] at ho
    by_cases hm : ∀ n, max = some n → results.length < n
    · rw [if_neg (fun hfull => full_iff.1 hfull hm)] at ho
      rcases ha : child item c s with _ | ⟨o₁, s₁⟩ <;> rw [ha] at ho
      · cases ho
      obtain ⟨i₁, marks₁, first, rfl⟩ := hchild item c s _ _ ha
      cases o₁ with
      | matched c₁ value =>
        dsimp only at ho
        split at ho
        case isTrue hlast =>
          obtain ⟨rfl, hn, still⟩ := hlast
          cases ho
          exact ⟨i₁, marks₁, .roundsLast first hn still, rfl⟩
        case isFalse hmore =>
          obtain ⟨i', marks₂, rest, rfl⟩ := ih (value :: results) c₁ _ o s' ho
          rw [RunState.depth_after] at rest
          refine ⟨i', marks₁ ++ marks₂, .roundsNext hm first (fun hx hn => ?_) rest,
            RunState.after_after ..⟩
          exact Nat.lt_of_not_le fun hp => hmore ⟨hx, hn, hp⟩
      | mismatch =>
        dsimp only at ho
        split at ho
        case isTrue hn =>
          cases ho
          exact ⟨i₁, marks₁, .roundsEnough hm first hn, rfl⟩
        case isFalse hn =>
          cases ho
          exact ⟨i₁, _, .roundsShort hm first (Nat.lt_of_not_le hn),
            RunState.recordFailure_after ..⟩
      | aborted cause =>
        cases ho
        exact ⟨i₁, marks₁, .roundsAborted hm first, rfl⟩
    · rw [if_pos (full_iff.2 hm)] at ho
      cases ho
      obtain ⟨n, hx, hn⟩ := exists_le_of_not_lt hm
      exact ⟨_, [], .roundsFull hx hn, rfl⟩

theorem Goal.handled_derived (fuel : Nat) (item : RuleId) (action : Action π) (c : γ)
    (s : RunState γ σ π) :
    ((Goal.handled item action).attempt child config.kind fuel c s).Derived g config
      (.handled item action) c s := by
  intro o s' ho
  rw [attempt_handled] at ho
  rcases ha : child item c s with _ | ⟨o₁, s₁⟩ <;> rw [ha] at ho
  · cases ho
  obtain ⟨i₁, marks₁, run, rfl⟩ := hchild item c s _ _ ha
  cases o₁ with
  | matched c₁ value =>
    cases ho
    exact ⟨i₁, _, .handledMatched run, RunState.noteAny_after ..⟩
  | mismatch | aborted =>
    cases ho
    exact ⟨i₁, marks₁, .handledStop run nofun, rfl⟩

theorem Goal.attempt_derived (fuel : Nat) (goal : Goal π) (c : γ) (s : RunState γ σ π) :
    (goal.attempt child config.kind fuel c s).Derived g config goal c s := by
  cases goal with
  | rule id => exact hchild id c s
  | sequence results items => exact sequence_derived hchild fuel results items c s
  | choice items => exact choice_derived hchild fuel items c s
  | rounds id item min max results =>
    exact rounds_derived hchild fuel id item min max results c s
  | handled item action => exact handled_derived hchild fuel item action c s

theorem Grammar.step_derived (fuel : Nat) (id : RuleId) (c : γ) (s : RunState γ σ π) :
    Attempt.Derived g config (.rule id) c s (g.step config child fuel id c s) := by
  intro o s' ho
  rcases h : g.rule? id with _ | rule
  · rw [step_unknown child fuel c s h] at ho
    cases ho
    exact ⟨_, [], .unknown h, rfl⟩
  rcases rule.form_cases config.kind id with ⟨value, hv⟩ | rfl | ⟨accepts, ha⟩ |
    ⟨items, value, rfl⟩ | ⟨item, negated, rfl⟩ | ⟨goal, hg⟩
  · rw [step_constant child fuel c s h hv] at ho
    cases ho
    exact ⟨_, [], .constant h hv, rfl⟩
  · rw [step_end child fuel c s h] at ho
    cases hc : Cursor.peek c with
    | none =>
      rw [RunState.matchEnd_reached hc] at ho
      cases ho
      exact ⟨_, [], .endReached h hc, rfl⟩
    | some item =>
      rw [RunState.matchEnd_missed hc] at ho
      cases ho
      exact ⟨_, _, .endMissed h hc, rfl⟩
  · rw [step_element child fuel c s h ha] at ho
    by_cases hc : ∀ item, Cursor.peek c = some item → accepts item = false
    · rw [RunState.matchElement_missed hc] at ho
      cases ho
      exact ⟨_, _, .elementMissed h ha hc, rfl⟩
    · obtain ⟨item, hc⟩ := Classical.not_forall.1 hc
      obtain ⟨hc, hi⟩ := Classical.not_imp.1 hc
      rw [Bool.not_eq_false] at hi
      rw [RunState.matchElement_taken hc hi] at ho
      cases ho
      exact ⟨_, [], .element h ha hc hi, rfl⟩
  · rw [step_word child fuel c s h] at ho
    rcases hw : skipItems items c s.input with ⟨_ | c', i'⟩
    · rw [RunState.matchWord_missed hw] at ho
      cases ho
      exact ⟨i', _, .wordMissed h hw, rfl⟩
    · rw [RunState.matchWord_taken hw] at ho
      cases ho
      exact ⟨i', [], .word h hw, rfl⟩
  · rw [step_lookahead child fuel c s h] at ho
    obtain ⟨⟨o₁, s₁⟩, ha, ho⟩ := Option.map_eq_some_iff.1 ho
    cases ho
    obtain ⟨i₁, marks₁, run, rfl⟩ := hchild item c s _ _ ha
    exact ⟨i₁, marks₁, .lookahead h run, rfl⟩
  · rw [step_nested child fuel c s h hg] at ho
    by_cases hl : ∀ limit, config.maxDepth = some limit → s.depth < limit
    · rw [RunState.descend_within hl] at ho
      obtain ⟨⟨o₁, s₁⟩, ha, ho⟩ := Option.map_eq_some_iff.1 ho
      cases ho
      obtain ⟨i₁, marks, body, rfl⟩ := Goal.attempt_derived hchild fuel goal c s.enter _ _ ha
      exact ⟨i₁, _, .nested h hg hl body, RunState.leave_after_enter ..⟩
    · obtain ⟨limit, hl, hd⟩ := exists_le_of_not_lt hl
      rw [RunState.descend_tooDeep hl hd] at ho
      cases ho
      exact ⟨_, _, .tooDeep h hg hl hd, rfl⟩

end

theorem Grammar.eval_derived (g : Grammar ε π) (config : Config) (fuel : Nat) (id : RuleId)
    (c : γ) (s : RunState γ σ π) :
    (g.eval config fuel id c s).Derived g config (.rule id) c s := by
  induction fuel generalizing id c s with
  | zero => exact fun o s' ho => nomatch ho
  | succ fuel ih => exact step_derived ih fuel id c s

/-! ## From the relation to the evaluator

Each derivation says how much fuel is enough.  Where it has two parts, the larger of
their amounts serves both, because more fuel keeps an answer. -/

/-- With this fuel a goal is attempted to this end from every state at this depth and
with this state of the input. -/
def Goal.Ends (g : Grammar ε π) (config : Config) (fuel : Nat) (goal : Goal π) (d : Nat)
    (c : γ) (i : σ) (o : Outcome γ (Value π)) (i' : σ) (marks : List (Mark γ π)) : Prop :=
  ∀ s : RunState γ σ π, s.depth = d → s.input = i →
    goal.attempt (g.eval config fuel) config.kind fuel c s = some (o, s.after marks i')

namespace Goal.Ends

variable {g : Grammar ε π} {config : Config} {fuel more : Nat} {id item : RuleId}
  {rule : Rule ε π} {items : List RuleId} {results : List (Value π)} {min : Nat}
  {max : Option Nat} {action : Action π} {value : Value π} {goal : Goal π} {d : Nat}
  {c c₁ : γ} {i i₁ i' : σ} {o : Outcome γ (Value π)} {marks marks₁ marks₂ : List (Mark γ π)}

theorem mono (hf : fuel ≤ more) (h : Ends g config fuel goal d c i o i' marks) :
    Ends g config more goal d c i o i' marks := fun s hd hi =>
  attempt_le (g.eval_le config hf) config.kind hf goal c s _ (h s hd hi)

/-- Two parts end with the larger of their amounts of fuel. -/
theorem both {goal₂ : Goal π} {d₂ : Nat} {c₂ : γ} {i₂ i₂' : σ} {o₂ : Outcome γ (Value π)}
    (h₁ : ∃ fuel, Ends g config fuel goal d c i o i' marks)
    (h₂ : ∃ fuel, Ends g config fuel goal₂ d₂ c₂ i₂ o₂ i₂' marks₂) :
    ∃ fuel, Ends g config fuel goal d c i o i' marks ∧
      Ends g config fuel goal₂ d₂ c₂ i₂ o₂ i₂' marks₂ := by
  obtain ⟨fuel₁, h₁⟩ := h₁
  obtain ⟨fuel₂, h₂⟩ := h₂
  exact ⟨fuel₁ + fuel₂, h₁.mono (Nat.le_add_right ..), h₂.mono (Nat.le_add_left ..)⟩

theorem lookahead {negated : Bool} (h : g.rule? id = some (.lookahead item negated))
    (child : Ends g config fuel (.rule item) d c i o i' marks) :
    Ends g config (fuel + 1) (.rule id) d c i (o.look negated c) i' marks := by
  intro s hd hi
  have ha : g.eval config fuel item c s = _ := child s hd hi
  refine (Grammar.step_lookahead _ fuel c s h).trans ?_
  rw [ha]
  rfl

theorem nested (h : g.rule? id = some rule) (hg : rule.inside? id = some goal)
    (hl : ∀ limit, config.maxDepth = some limit → d < limit)
    (body : Ends g config fuel goal (d + 1) c i o i' marks) :
    Ends g config (fuel + 1) (.rule id) d c i o i' (.entered (d + 1) :: marks) := by
  intro s heq hi
  subst heq
  refine (Grammar.step_nested _ fuel c s h hg).trans ?_
  rw [RunState.descend_within hl, body s.enter rfl hi]
  exact congrArg (fun t => some (o, t)) (RunState.leave_after_enter ..)

theorem sequenceNext (first : Ends g config fuel (.rule item) d c i (.matched c₁ value) i₁ marks₁)
    (rest : Ends g config fuel (.sequence (value :: results) items) d c₁ i₁ o i' marks₂) :
    Ends g config fuel (.sequence results (item :: items)) d c i o i' (marks₁ ++ marks₂) := by
  intro s hd hi
  have ha : g.eval config fuel item c s = _ := first s hd hi
  rw [attempt_sequence_cons, ha, ← RunState.after_after s marks₁ marks₂ i₁ i']
  exact rest _ ((RunState.depth_after ..).trans hd) rfl

theorem sequenceStop (first : Ends g config fuel (.rule item) d c i o i' marks)
    (ho : ∀ c₁ value, o ≠ .matched c₁ value) :
    Ends g config fuel (.sequence results (item :: items)) d c i o i' marks := by
  intro s hd hi
  have ha : g.eval config fuel item c s = _ := first s hd hi
  rw [attempt_sequence_cons, ha]
  cases o with
  | matched c₁ value => exact absurd rfl (ho c₁ value)
  | mismatch | aborted => rfl

theorem choiceNext (first : Ends g config fuel (.rule item) d c i .mismatch i₁ marks₁)
    (rest : Ends g config fuel (.choice items) d c i₁ o i' marks₂) :
    Ends g config fuel (.choice (item :: items)) d c i o i' (marks₁ ++ marks₂) := by
  intro s hd hi
  have ha : g.eval config fuel item c s = _ := first s hd hi
  rw [attempt_choice_cons, ha, ← RunState.after_after s marks₁ marks₂ i₁ i']
  exact rest _ ((RunState.depth_after ..).trans hd) rfl

theorem choiceStop (first : Ends g config fuel (.rule item) d c i o i' marks)
    (ho : o ≠ .mismatch) :
    Ends g config fuel (.choice (item :: items)) d c i o i' marks := by
  intro s hd hi
  have ha : g.eval config fuel item c s = _ := first s hd hi
  rw [attempt_choice_cons, ha]
  cases o with
  | mismatch => exact absurd rfl ho
  | matched | aborted => rfl

theorem roundsFull {n : Nat} (hm : max = some n) (hn : n ≤ results.length) :
    Ends g config 1 (.rounds id item min max results) d c i
      (if min ≤ results.length then .matched c (config.kind.collect results.reverse)
        else .mismatch) i [] := by
  intro s hd hi
  subst hi
  rw [attempt_rounds_succ, if_pos (full_iff.2 fun h => absurd (h n hm) (Nat.not_lt_of_le hn))]
  rfl

section
variable (hm : ∀ n, max = some n → results.length < n)
include hm

theorem roundsNext (first : Ends g config fuel (.rule item) d c i (.matched c₁ value) i₁ marks₁)
    (more : max = none → min ≤ results.length + 1 → Cursor.position c < Cursor.position c₁)
    (rest : Ends g config fuel (.rounds id item min max (value :: results)) d c₁ i₁ o i' marks₂) :
    Ends g config (fuel + 1) (.rounds id item min max results) d c i o i' (marks₁ ++ marks₂) := by
  intro s hd hi
  have ha : g.eval config (fuel + 1) item c s = _ := first.mono (Nat.le_succ fuel) s hd hi
  rw [attempt_rounds_succ, if_neg (fun hfull => full_iff.1 hfull hm), ha,
    ← RunState.after_after s marks₁ marks₂ i₁ i']
  refine (if_neg fun h => Nat.not_lt_of_le h.2.2 (more h.1 h.2.1)).trans ?_
  exact attempt_le (g.eval_le config (Nat.le_succ fuel)) config.kind (Nat.le_refl fuel) _ c₁ _ _
    (rest _ ((RunState.depth_after ..).trans hd) rfl)

theorem roundsEnough (first : Ends g config fuel (.rule item) d c i .mismatch i₁ marks)
    (hn : min ≤ results.length) :
    Ends g config (fuel + 1) (.rounds id item min max results) d c i
      (.matched c (config.kind.collect results.reverse)) i₁ marks := by
  intro s hd hi
  have ha : g.eval config (fuel + 1) item c s = _ := first.mono (Nat.le_succ fuel) s hd hi
  rw [attempt_rounds_succ, if_neg (fun hfull => full_iff.1 hfull hm), ha]
  exact if_pos hn

theorem roundsShort (first : Ends g config fuel (.rule item) d c i .mismatch i₁ marks)
    (hn : results.length < min) :
    Ends g config (fuel + 1) (.rounds id item min max results) d c i .mismatch i₁
      (marks ++ [.failed ⟨c, id, d⟩]) := by
  intro s heq hi
  subst heq
  have ha : g.eval config (fuel + 1) item c s = _ := first.mono (Nat.le_succ fuel) s rfl hi
  rw [attempt_rounds_succ, if_neg (fun hfull => full_iff.1 hfull hm), ha,
    ← RunState.recordFailure_after]
  exact if_neg (Nat.not_le_of_lt hn)

theorem roundsAborted {cause : Abort}
    (first : Ends g config fuel (.rule item) d c i (.aborted cause) i₁ marks) :
    Ends g config (fuel + 1) (.rounds id item min max results) d c i (.aborted cause) i₁
      marks := by
  intro s hd hi
  have ha : g.eval config (fuel + 1) item c s = _ := first.mono (Nat.le_succ fuel) s hd hi
  rw [attempt_rounds_succ, if_neg (fun hfull => full_iff.1 hfull hm), ha]

end

theorem roundsLast (first : Ends g config fuel (.rule item) d c i (.matched c₁ value) i₁ marks)
    (hn : min ≤ results.length + 1) (still : Cursor.position c₁ ≤ Cursor.position c) :
    Ends g config (fuel + 1) (.rounds id item min none results) d c i
      (.matched c₁ (config.kind.collect (value :: results).reverse)) i₁ marks := by
  intro s hd hi
  have hm : ∀ n, (none : Option Nat) = some n → results.length < n := nofun
  have ha : g.eval config (fuel + 1) item c s = _ := first.mono (Nat.le_succ fuel) s hd hi
  rw [attempt_rounds_succ, if_neg (fun hfull => full_iff.1 hfull hm), ha]
  exact if_pos ⟨rfl, hn, still⟩

theorem handledMatched
    (child : Ends g config fuel (.rule item) d c i (.matched c₁ value) i' marks) :
    Ends g config fuel (.handled item action) d c i
      (.matched c₁ (action.apply config.kind value).1) i'
      (marks ++ (action.apply config.kind value).2.toList.map (.said ∘ .reshaping)) := by
  intro s hd hi
  have ha : g.eval config fuel item c s = _ := child s hd hi
  rw [attempt_handled, ha, ← RunState.noteAny_after]

theorem handledStop (child : Ends g config fuel (.rule item) d c i o i' marks)
    (ho : ∀ c₁ value, o ≠ .matched c₁ value) :
    Ends g config fuel (.handled item action) d c i o i' marks := by
  intro s hd hi
  have ha : g.eval config fuel item c s = _ := child s hd hi
  rw [attempt_handled, ha]
  cases o with
  | matched c₁ value => exact absurd rfl (ho c₁ value)
  | mismatch | aborted => rfl

end Goal.Ends

theorem Evaluates.ends {g : Grammar ε π} {config : Config} {goal : Goal π} {d : Nat}
    {c : γ} {i : σ} {o : Outcome γ (Value π)} {i' : σ} {marks : List (Mark γ π)}
    (e : Evaluates g config goal d c i o i' marks) :
    ∃ fuel, goal.Ends g config fuel d c i o i' marks := by
  induction e with
  | unknown h => exact ⟨1, fun s _ hi => hi ▸ Grammar.step_unknown _ 0 _ s h⟩
  | constant h hv => exact ⟨1, fun s _ hi => hi ▸ Grammar.step_constant _ 0 _ s h hv⟩
  | endReached h hc =>
    exact ⟨1, fun s _ hi => hi ▸
      (Grammar.step_end _ 0 _ s h).trans (congrArg some (RunState.matchEnd_reached hc s _))⟩
  | endMissed h hc =>
    exact ⟨1, fun s hd hi => hd ▸ hi ▸
      (Grammar.step_end _ 0 _ s h).trans (congrArg some (RunState.matchEnd_missed hc s _))⟩
  | element h ha hc hi =>
    exact ⟨1, fun s _ hs => hs ▸ (Grammar.step_element _ 0 _ s h ha).trans
      (congrArg some (RunState.matchElement_taken hc hi s _))⟩
  | elementMissed h ha hc =>
    exact ⟨1, fun s hd hs => hd ▸ hs ▸ (Grammar.step_element _ 0 _ s h ha).trans
      (congrArg some (RunState.matchElement_missed hc s _))⟩
  | word h hw =>
    exact ⟨1, fun s _ hi => (Grammar.step_word _ 0 _ s h).trans
      (congrArg some (RunState.matchWord_taken (hi ▸ hw) _ _))⟩
  | wordMissed h hw =>
    exact ⟨1, fun s hd hi => hd ▸ (Grammar.step_word _ 0 _ s h).trans
      (congrArg some (RunState.matchWord_missed (hi ▸ hw) _ _))⟩
  | lookahead h _ ih => exact ih.imp' (· + 1) fun _ child => child.lookahead h
  | tooDeep h hg hl hd =>
    exact ⟨1, fun s hs hi => hi ▸ (Grammar.step_nested _ 0 _ s h hg).trans
      (RunState.descend_tooDeep hl (hs ▸ hd) _)⟩
  | nested h hg hl _ ih => exact ih.imp' (· + 1) fun _ body => body.nested h hg hl
  | sequenceDone => exact ⟨0, fun s _ hi => hi ▸ rfl⟩
  | sequenceNext _ _ ih₁ ih₂ =>
    exact (Goal.Ends.both ih₁ ih₂).imp fun _ h => h.1.sequenceNext h.2
  | sequenceStop _ ho ih => exact ih.imp fun _ first => first.sequenceStop ho
  | choiceNone => exact ⟨0, fun s _ hi => hi ▸ rfl⟩
  | choiceNext _ _ ih₁ ih₂ => exact (Goal.Ends.both ih₁ ih₂).imp fun _ h => h.1.choiceNext h.2
  | choiceStop _ ho ih => exact ih.imp fun _ first => first.choiceStop ho
  | roundsFull hm hn => exact ⟨1, Goal.Ends.roundsFull hm hn⟩
  | roundsNext hm _ more _ ih₁ ih₂ =>
    exact (Goal.Ends.both ih₁ ih₂).imp' (· + 1) fun _ h => Goal.Ends.roundsNext hm h.1 more h.2
  | roundsLast _ hn still ih => exact ih.imp' (· + 1) fun _ first => first.roundsLast hn still
  | roundsEnough hm _ hn ih =>
    exact ih.imp' (· + 1) fun _ first => Goal.Ends.roundsEnough hm first hn
  | roundsShort hm _ hn ih =>
    exact ih.imp' (· + 1) fun _ first => Goal.Ends.roundsShort hm first hn
  | roundsAborted hm _ ih => exact ih.imp' (· + 1) fun _ first => Goal.Ends.roundsAborted hm first
  | handledMatched _ ih => exact ih.imp fun _ child => child.handledMatched
  | handledStop _ ho ih => exact ih.imp fun _ child => child.handledStop ho

/-- Evaluation answers, with some fuel, exactly what the relation says, and leaves the
state before with the marks of the derivation on it. -/
theorem Grammar.eval_iff_evaluates {g : Grammar ε π} {config : Config} {id : RuleId} {c : γ}
    {s : RunState γ σ π} {o : Outcome γ (Value π)} {s' : RunState γ σ π} :
    (∃ fuel, g.eval config fuel id c s = some (o, s')) ↔
      ∃ i' marks, Evaluates g config (.rule id) s.depth c s.input o i' marks ∧
        s' = s.after marks i' := by
  constructor
  · intro hanswer
    obtain ⟨fuel, h⟩ := hanswer
    exact g.eval_derived config fuel id c s o s' h
  · intro hderived
    obtain ⟨i', marks, e, rfl⟩ := hderived
    obtain ⟨fuel, h⟩ := e.ends
    exact ⟨fuel, h s rfl rfl⟩

namespace Parser

/-- Matching a rule at a cursor comes to an end, with an outcome and a state. -/
def Returns (p : Parser γ ε π) (id : RuleId) (c : γ) (s : RunState γ σ π)
    (o : Outcome γ (Value π)) (s' : RunState γ σ π) : Prop :=
  ∃ fuel, p.matchRule fuel id c s = some (o, s')

theorem returns_iff {p : Parser γ ε π} {id : RuleId} {c : γ} {s : RunState γ σ π}
    {o : Outcome γ (Value π)} {s' : RunState γ σ π} :
    p.Returns id c s o s' ↔ ∃ i' marks,
      Evaluates p.grammar p.config (.rule id) s.depth c s.input o i' marks ∧
        s' = s.after marks i' :=
  Grammar.eval_iff_evaluates

/-- There is one end only, however much fuel it takes. -/
theorem Returns.unique {p : Parser γ ε π} {id : RuleId} {c : γ} {s s₁ s₂ : RunState γ σ π}
    {o₁ o₂ : Outcome γ (Value π)} (h₁ : p.Returns id c s o₁ s₁) (h₂ : p.Returns id c s o₂ s₂) :
    o₁ = o₂ ∧ s₁ = s₂ := by
  obtain ⟨fuel₁, h₁⟩ := h₁
  obtain ⟨fuel₂, h₂⟩ := h₂
  have e₁ := p.grammar.eval_le p.config (Nat.le_add_right fuel₁ fuel₂) id c s _ h₁
  have e₂ := p.grammar.eval_le p.config (Nat.le_add_left fuel₂ fuel₁) id c s _ h₂
  exact Prod.mk.inj (Option.some.inj (e₁.symm.trans e₂))

end Parser
end PegMatcher
