import Mathlib.Logic.Relation
import PegMatcher.Proofs.Adequacy
/-
The moments of a run.

A match is in the middle of attempts inside attempts.  A moment says what is attempted at
present, or how the last attempt ended, what goes on when it has ended, and the state of the
run.  Each step to the next moment enters or leaves a depth, records one thing, or none of
these, so that what holds at every moment holds all the time.  Every moment but the end has
a next one, also in a match that never ends.

A match comes to an end through these moments exactly when the evaluator answers, with the same
outcome and in the same state, `returns_iff_moments`.
-/
namespace PegMatcher

variable {γ ε σ π : Type}

/-- What goes on when an attempt has ended. -/
inductive Frame (γ π : Type)
  /-- The depth that was entered is left. -/
  | nested
  | look (negated : Bool) (c : γ)
  | sequence (results : List (Value π)) (items : List RuleId)
  | choice (items : List RuleId) (c : γ)
  | rounds (id item : RuleId) (min : Nat) (max : Option Nat) (results : List (Value π)) (c : γ)
  | handled (action : Action π)

/-- Outcomes that what goes on passes on as they are. -/
def Frame.Passes : Frame γ π → Outcome γ (Value π) → Prop
  | .sequence _ _, o | .handled _, o => ∀ c value, o ≠ .matched c value
  | .choice _ _, o => o ≠ .mismatch
  | .rounds _ _ _ _ _ _, o => ∃ cause, o = .aborted cause
  | .nested, _ | .look _ _, _ => False

/-- A goal to be attempted at a cursor, or how the last attempt ended. -/
inductive Control (γ π : Type)
  | attempt (goal : Goal π) (c : γ)
  | ended (o : Outcome γ (Value π))

structure Moment (γ σ π : Type) where
  control : Control γ π
  frames : List (Frame γ π)
  state : RunState γ σ π

namespace Rule

/-- Rules that neither nest nor look ahead try no other rule. -/
def Alone (id : RuleId) (rule : Rule ε π) : Prop :=
  rule.inside? id = none ∧ ∀ item negated, rule ≠ .lookahead item negated

theorem alone_of_constant {rule : Rule ε π} {kind : Kind} {value : Value π}
    (h : rule.constant? kind = some value) (id : RuleId) : rule.Alone id := by
  cases rule with
  | empty | emptyVector => exact ⟨rfl, nofun⟩
  | _ => cases h

theorem alone_of_accepts [Element ε] {rule : Rule ε π} {accepts : ε → Bool}
    (h : rule.accepts? = some accepts) (id : RuleId) : rule.Alone id := by
  cases rule with
  | any | literal | test => exact ⟨rfl, nofun⟩
  | _ => cases h

theorem Alone.known {g : Grammar ε π} {id : RuleId} {rule : Rule ε π} (ha : rule.Alone id)
    (h : g.rule? id = some rule) : ∀ r, g.rule? id = some r → r.Alone id :=
  fun _ hr => Option.some.inj (h.symm.trans hr) ▸ ha

end Rule

variable [Cursor γ ε σ] [Element ε] [ElementValue ε π] [Payload π]

/-- From one moment to the next. -/
inductive Moment.Step (g : Grammar ε π) (config : Config) :
    Moment γ σ π → Moment γ σ π → Prop
  /-- A rule that tries no other needs no more than the least fuel. -/
  | alone {id c frames s o s'} (h : ∀ rule, g.rule? id = some rule → rule.Alone id)
      (hs : g.eval config 1 id c s = some (o, s')) :
      Step g config ⟨.attempt (.rule id) c, frames, s⟩ ⟨.ended o, frames, s'⟩
  | lookahead {id item negated c frames s} (h : g.rule? id = some (.lookahead item negated)) :
      Step g config ⟨.attempt (.rule id) c, frames, s⟩
        ⟨.attempt (.rule item) c, .look negated c :: frames, s⟩
  | tooDeep {id rule goal limit c frames s} (h : g.rule? id = some rule)
      (hg : rule.inside? id = some goal) (hl : config.maxDepth = some limit)
      (hd : limit ≤ s.depth) :
      Step g config ⟨.attempt (.rule id) c, frames, s⟩
        ⟨.ended (.aborted (.tooDeep limit (Cursor.position c))), frames,
          s.note (.limitReached limit (Cursor.position c))⟩
  | enter {id rule goal c frames s} (h : g.rule? id = some rule)
      (hg : rule.inside? id = some goal)
      (hl : ∀ limit, config.maxDepth = some limit → s.depth < limit) :
      Step g config ⟨.attempt (.rule id) c, frames, s⟩
        ⟨.attempt goal c, .nested :: frames, s.enter⟩
  | sequenceDone {results c frames s} :
      Step g config ⟨.attempt (.sequence results []) c, frames, s⟩
        ⟨.ended (.matched c (config.kind.collect results.reverse)), frames, s⟩
  | sequenceItem {results item items c frames s} :
      Step g config ⟨.attempt (.sequence results (item :: items)) c, frames, s⟩
        ⟨.attempt (.rule item) c, .sequence results items :: frames, s⟩
  | choiceNone {c frames s} :
      Step g config ⟨.attempt (.choice []) c, frames, s⟩ ⟨.ended .mismatch, frames, s⟩
  | choiceItem {item items c frames s} :
      Step g config ⟨.attempt (.choice (item :: items)) c, frames, s⟩
        ⟨.attempt (.rule item) c, .choice items c :: frames, s⟩
  | roundsFull {id item min max results n c frames s} (hm : max = some n)
      (hn : n ≤ results.length) :
      Step g config ⟨.attempt (.rounds id item min max results) c, frames, s⟩
        ⟨.ended (if min ≤ results.length then .matched c (config.kind.collect results.reverse)
          else .mismatch), frames, s⟩
  | roundsItem {id item min max results c frames s}
      (hm : ∀ n, max = some n → results.length < n) :
      Step g config ⟨.attempt (.rounds id item min max results) c, frames, s⟩
        ⟨.attempt (.rule item) c, .rounds id item min max results c :: frames, s⟩
  | handledItem {item action c frames s} :
      Step g config ⟨.attempt (.handled item action) c, frames, s⟩
        ⟨.attempt (.rule item) c, .handled action :: frames, s⟩
  | leave {o frames s} :
      Step g config ⟨.ended o, .nested :: frames, s⟩ ⟨.ended o, frames, s.leave⟩
  | look {o negated c frames s} :
      Step g config ⟨.ended o, .look negated c :: frames, s⟩ ⟨.ended (o.look negated c), frames, s⟩
  | sequenceNext {results items c value frames s} :
      Step g config ⟨.ended (.matched c value), .sequence results items :: frames, s⟩
        ⟨.attempt (.sequence (value :: results) items) c, frames, s⟩
  | choiceNext {items c frames s} :
      Step g config ⟨.ended .mismatch, .choice items c :: frames, s⟩
        ⟨.attempt (.choice items) c, frames, s⟩
  | roundsNext {id item min max results c c₁ value frames s}
      (more : max = none → min ≤ results.length + 1 → Cursor.position c < Cursor.position c₁) :
      Step g config ⟨.ended (.matched c₁ value), .rounds id item min max results c :: frames, s⟩
        ⟨.attempt (.rounds id item min max (value :: results)) c₁, frames, s⟩
  | roundsLast {id item min results c c₁ value frames s} (hn : min ≤ results.length + 1)
      (still : Cursor.position c₁ ≤ Cursor.position c) :
      Step g config ⟨.ended (.matched c₁ value), .rounds id item min none results c :: frames, s⟩
        ⟨.ended (.matched c₁ (config.kind.collect (value :: results).reverse)), frames, s⟩
  | roundsEnough {id item min max results c frames s} (hn : min ≤ results.length) :
      Step g config ⟨.ended .mismatch, .rounds id item min max results c :: frames, s⟩
        ⟨.ended (.matched c (config.kind.collect results.reverse)), frames, s⟩
  | roundsShort {id item min max results c frames s} (hn : results.length < min) :
      Step g config ⟨.ended .mismatch, .rounds id item min max results c :: frames, s⟩
        ⟨.ended .mismatch, frames, s.recordFailure c id⟩
  | handledMatched {action c value frames s} :
      Step g config ⟨.ended (.matched c value), .handled action :: frames, s⟩
        ⟨.ended (.matched c (action.apply config.kind value).1), frames,
          s.noteAny ((action.apply config.kind value).2.map .reshaping)⟩
  | pass {frame : Frame γ π} {o frames s} (h : frame.Passes o) :
      Step g config ⟨.ended o, frame :: frames, s⟩ ⟨.ended o, frames, s⟩

/-- Any number of steps. -/
def Moment.Steps (g : Grammar ε π) (config : Config) : Moment γ σ π → Moment γ σ π → Prop :=
  Relation.ReflTransGen (Moment.Step g config)

variable {g : Grammar ε π} {config : Config}

/-! ## Rules that try no other -/

theorem Grammar.step_alone {id : RuleId} (h : ∀ rule, g.rule? id = some rule → rule.Alone id)
    (child other : Matcher γ σ π) (fuel more : Nat) (c : γ) (s : RunState γ σ π) :
    g.step config child fuel id c s = g.step config other more id c s := by
  unfold step
  cases hrule : g.rule? id with
  | none => rfl
  | some rule =>
    obtain ⟨hnested, hlook⟩ := h rule hrule
    cases rule with
    | lookahead item negated => exact absurd rfl (hlook item negated)
    | sequence | firstOf | repetition | placeholder | handler => cases hnested
    | _ => rfl

/-- What evaluates without another rule is answered with the least fuel. -/
theorem Evaluates.eval_one {id : RuleId} {d : Nat} {c : γ} {i i' : σ} {o : Outcome γ (Value π)}
    {marks : List (Mark γ π)} (e : Evaluates g config (.rule id) d c i o i' marks)
    (h : ∀ rule, g.rule? id = some rule → rule.Alone id) {s : RunState γ σ π} (hd : s.depth = d)
    (hi : s.input = i) : g.eval config 1 id c s = some (o, s.after marks i') := by
  obtain ⟨fuel, hends⟩ := e.ends
  have hanswer : g.eval config fuel id c s = some (o, s.after marks i') := hends s hd hi
  cases fuel with
  | zero => cases hanswer
  | succ fuel => exact (Grammar.step_alone h _ _ 0 fuel c s).trans hanswer

/-! ## Every moment but the end goes on -/

namespace Moment

theorem exists_step_attempt (g : Grammar ε π) (config : Config) (goal : Goal π) (c : γ)
    (frames : List (Frame γ π)) (s : RunState γ σ π) :
    ∃ m, Step g config ⟨.attempt goal c, frames, s⟩ m := by
  cases goal with
  | rule id =>
    cases h : g.rule? id with
    | none => exact ⟨_, .alone (by simp [h]) (Grammar.step_unknown _ 0 c s h)⟩
    | some rule =>
      rcases rule.form_cases config.kind id with ⟨value, hv⟩ | rfl | ⟨accepts, ha⟩ |
        ⟨items, value, rfl⟩ | ⟨item, negated, rfl⟩ | ⟨goal, hg⟩
      · have halone := Rule.alone_of_constant hv id
        exact ⟨_, .alone (halone.known h) (Grammar.step_constant _ 0 c s h hv)⟩
      · have halone : Rule.Alone id (.endOfInput : Rule ε π) := ⟨rfl, nofun⟩
        exact ⟨_, .alone (halone.known h) (Grammar.step_end _ 0 c s h)⟩
      · have halone := Rule.alone_of_accepts ha id
        exact ⟨_, .alone (halone.known h) (Grammar.step_element _ 0 c s h ha)⟩
      · have halone : Rule.Alone id (.word items value) := ⟨rfl, nofun⟩
        exact ⟨_, .alone (halone.known h) (Grammar.step_word _ 0 c s h)⟩
      · exact ⟨_, .lookahead h⟩
      · by_cases hl : ∀ limit, config.maxDepth = some limit → s.depth < limit
        · exact ⟨_, .enter h hg hl⟩
        · obtain ⟨limit, hl, hd⟩ := exists_le_of_not_lt hl
          exact ⟨_, .tooDeep h hg hl hd⟩
  | sequence results items =>
    cases items with
    | nil => exact ⟨_, .sequenceDone⟩
    | cons item items => exact ⟨_, .sequenceItem⟩
  | choice items =>
    cases items with
    | nil => exact ⟨_, .choiceNone⟩
    | cons item items => exact ⟨_, .choiceItem⟩
  | rounds id item min max results =>
    by_cases hm : ∀ n, max = some n → results.length < n
    · exact ⟨_, .roundsItem hm⟩
    · obtain ⟨n, hm, hn⟩ := exists_le_of_not_lt hm
      exact ⟨_, .roundsFull hm hn⟩
  | handled item action => exact ⟨_, .handledItem⟩

theorem exists_step_ended (g : Grammar ε π) (config : Config) (o : Outcome γ (Value π))
    (frame : Frame γ π) (frames : List (Frame γ π)) (s : RunState γ σ π) :
    ∃ m, Step g config ⟨.ended o, frame :: frames, s⟩ m := by
  cases frame with
  | nested => exact ⟨_, .leave⟩
  | look negated c => exact ⟨_, .look⟩
  | sequence results items =>
    cases o with
    | matched c value => exact ⟨_, .sequenceNext⟩
    | mismatch | aborted => exact ⟨_, .pass nofun⟩
  | choice items c =>
    cases o with
    | mismatch => exact ⟨_, .choiceNext⟩
    | matched | aborted => exact ⟨_, .pass nofun⟩
  | rounds id item min max results c =>
    cases o with
    | matched c₁ value =>
      by_cases hlast : max = none ∧ min ≤ results.length + 1 ∧
        Cursor.position c₁ ≤ Cursor.position c
      · obtain ⟨rfl, hn, still⟩ := hlast
        exact ⟨_, .roundsLast hn still⟩
      · exact ⟨_, .roundsNext fun hm hn => Nat.lt_of_not_le fun hp => hlast ⟨hm, hn, hp⟩⟩
    | mismatch =>
      rcases Nat.lt_or_ge results.length min with hn | hn
      · exact ⟨_, .roundsShort hn⟩
      · exact ⟨_, .roundsEnough hn⟩
    | aborted cause => exact ⟨_, .pass ⟨cause, rfl⟩⟩
  | handled action =>
    cases o with
    | matched c value => exact ⟨_, .handledMatched⟩
    | mismatch | aborted => exact ⟨_, .pass nofun⟩

/-- A match goes on until it has ended and nothing is left to go on, which may be never. -/
theorem exists_step (g : Grammar ε π) (config : Config) (m : Moment γ σ π)
    (h : ∀ o s, m ≠ ⟨.ended o, [], s⟩) : ∃ m', Step g config m m' := by
  obtain ⟨_ | o, _ | ⟨frame, frames⟩, s⟩ := m
  · exact exists_step_attempt ..
  · exact exists_step_attempt ..
  · exact absurd rfl (h o s)
  · exact exists_step_ended ..

end Moment

/-! ## From the relation to the moments -/

namespace Evaluates

variable {id : RuleId} {rule : Rule ε π} {d : Nat} {c : γ} {i i' : σ} {o : Outcome γ (Value π)}
  {marks : List (Mark γ π)} {goal : Goal π}

theorem step_alone (e : Evaluates g config (.rule id) d c i o i' marks)
    (h : g.rule? id = some rule) (ha : rule.Alone id) (frames : List (Frame γ π))
    {s : RunState γ σ π} (hd : s.depth = d) (hi : s.input = i) :
    Moment.Steps g config ⟨.attempt (.rule id) c, frames, s⟩
      ⟨.ended o, frames, s.after marks i'⟩ :=
  .single (.alone (ha.known h) (e.eval_one (ha.known h) hd hi))

/-- What evaluates is stepped through to its end, whatever goes on after it. -/
theorem steps (e : Evaluates g config goal d c i o i' marks) :
    ∀ (frames : List (Frame γ π)) (s : RunState γ σ π), s.depth = d → s.input = i →
      Moment.Steps g config ⟨.attempt goal c, frames, s⟩
        ⟨.ended o, frames, s.after marks i'⟩ := by
  induction e with
  | @unknown id _ _ _ h =>
    intro frames s hd hi
    have hknown : ∀ rule, g.rule? id = some rule → rule.Alone id := fun _ hrule => by
      rw [h] at hrule
      cases hrule
    exact .single (.alone hknown (Evaluates.eval_one (.unknown h) hknown hd hi))
  | constant h hv =>
    exact fun frames s => step_alone (.constant h hv) h (Rule.alone_of_constant hv _) frames
  | endReached h hc => exact fun frames s => step_alone (.endReached h hc) h ⟨rfl, nofun⟩ frames
  | endMissed h hc => exact fun frames s => step_alone (.endMissed h hc) h ⟨rfl, nofun⟩ frames
  | element h ha hc hi =>
    exact fun frames s => step_alone (.element h ha hc hi) h (Rule.alone_of_accepts ha _) frames
  | elementMissed h ha hc =>
    exact fun frames s => step_alone (.elementMissed h ha hc) h (Rule.alone_of_accepts ha _) frames
  | word h hw => exact fun frames s => step_alone (.word h hw) h ⟨rfl, nofun⟩ frames
  | wordMissed h hw => exact fun frames s => step_alone (.wordMissed h hw) h ⟨rfl, nofun⟩ frames
  | lookahead h _ ih =>
    intro frames s hd hi
    exact .head (.lookahead h) ((ih _ s hd hi).tail .look)
  | tooDeep h hg hl hd =>
    rintro frames s rfl rfl
    exact .single (.tooDeep h hg hl hd)
  | nested h hg hl _ ih =>
    rintro frames s rfl rfl
    rw [← RunState.leave_after_enter]
    exact .head (.enter h hg hl) ((ih _ s.enter rfl rfl).tail .leave)
  | sequenceDone =>
    rintro frames s rfl rfl
    exact .single .sequenceDone
  | sequenceNext _ _ ih₁ ih₂ =>
    intro frames s hd hi
    rw [← RunState.after_after]
    exact .head .sequenceItem <| (ih₁ _ s hd hi).trans <|
      .head .sequenceNext (ih₂ frames _ ((s.depth_after ..).trans hd) rfl)
  | sequenceStop _ ho ih =>
    intro frames s hd hi
    exact .head .sequenceItem ((ih _ s hd hi).tail (.pass ho))
  | choiceNone =>
    rintro frames s rfl rfl
    exact .single .choiceNone
  | choiceNext _ _ ih₁ ih₂ =>
    intro frames s hd hi
    rw [← RunState.after_after]
    exact .head .choiceItem <| (ih₁ _ s hd hi).trans <|
      .head .choiceNext (ih₂ frames _ ((s.depth_after ..).trans hd) rfl)
  | choiceStop _ ho ih =>
    intro frames s hd hi
    exact .head .choiceItem ((ih _ s hd hi).tail (.pass ho))
  | roundsFull hm hn =>
    rintro frames s rfl rfl
    exact .single (.roundsFull hm hn)
  | roundsNext hm _ more _ ih₁ ih₂ =>
    intro frames s hd hi
    rw [← RunState.after_after]
    exact .head (.roundsItem hm) <| (ih₁ _ s hd hi).trans <|
      .head (.roundsNext more) (ih₂ frames _ ((s.depth_after ..).trans hd) rfl)
  | roundsLast _ hn still ih =>
    intro frames s hd hi
    exact .head (.roundsItem nofun) ((ih _ s hd hi).tail (.roundsLast hn still))
  | roundsEnough hm _ hn ih =>
    intro frames s hd hi
    exact .head (.roundsItem hm) ((ih _ s hd hi).tail (.roundsEnough hn))
  | roundsShort hm _ hn ih =>
    rintro frames s rfl hi
    rw [← RunState.recordFailure_after]
    exact .head (.roundsItem hm) ((ih _ s rfl hi).tail (.roundsShort hn))
  | roundsAborted hm _ ih =>
    intro frames s hd hi
    exact .head (.roundsItem hm) ((ih _ s hd hi).tail (.pass ⟨_, rfl⟩))
  | handledMatched _ ih =>
    intro frames s hd hi
    rw [← RunState.noteAny_after]
    exact .head .handledItem ((ih _ s hd hi).tail .handledMatched)
  | handledStop _ ho ih =>
    intro frames s hd hi
    exact .head .handledItem ((ih _ s hd hi).tail (.pass ho))

end Evaluates

/-! ## From the moments to the relation -/

/-- What is attempted evaluates to an end, and what goes on after it comes to an end. -/
inductive Moment.Completes (g : Grammar ε π) (config : Config) :
    Moment γ σ π → Outcome γ (Value π) → RunState γ σ π → Prop
  | done {o s} : Completes g config ⟨.ended o, [], s⟩ o s
  | ended {o frames s m o' s'} (next : Step g config ⟨.ended o, frames, s⟩ m)
      (rest : Completes g config m o' s') : Completes g config ⟨.ended o, frames, s⟩ o' s'
  | attempt {goal c frames s o i marks o' s'}
      (e : Evaluates g config goal s.depth c s.input o i marks)
      (rest : Completes g config ⟨.ended o, frames, s.after marks i⟩ o' s') :
      Completes g config ⟨.attempt goal c, frames, s⟩ o' s'

namespace Moment.Completes

variable {m m' : Moment γ σ π} {o' : Outcome γ (Value π)} {s s' : RunState γ σ π} {goal : Goal π}
  {c : γ} {frame : Frame γ π} {frames : List (Frame γ π)} {marks : List (Mark γ π)} {i : σ}

/-- An attempt is evaluated, and then the innermost frame is the next to go on. -/
theorem through (h : Completes g config ⟨.attempt goal c, frame :: frames, s⟩ o' s') :
    ∃ o i marks m, Evaluates g config goal s.depth c s.input o i marks ∧
      Step g config ⟨.ended o, frame :: frames, s.after marks i⟩ m ∧
        Completes g config m o' s' := by
  cases h with
  | attempt e rest =>
    cases rest with
    | ended next rest => exact ⟨_, _, _, _, e, next, rest⟩

/-- What is attempted after another attempt is evaluated at the same depth. -/
theorem again (h : Completes g config ⟨.attempt goal c, frames, s.after marks i⟩ o' s') :
    ∃ o i' more, Evaluates g config goal s.depth c i o i' more ∧
      Completes g config ⟨.ended o, frames, s.after (marks ++ more) i'⟩ o' s' := by
  cases h with
  | attempt e rest =>
    rw [RunState.depth_after] at e
    rw [RunState.after_after] at rest
    exact ⟨_, _, _, e, rest⟩

/-- One step of an attempt into what it tries, or to its end, is part of its evaluation. -/
theorem of_step (h : Step g config m m') (rest : Completes g config m' o' s') :
    Completes g config m o' s' := by
  obtain ⟨⟨goal, c⟩ | o, frames, s⟩ := m
  case ended => exact .ended h rest
  cases h with
  | alone _ hs =>
    obtain ⟨i', marks, e, rfl⟩ := g.eval_derived config 1 _ _ _ _ _ hs
    exact .attempt e rest
  | lookahead h =>
    obtain ⟨_, _, _, _, e, next, rest⟩ := rest.through
    cases next with
    | look => exact .attempt (.lookahead h e) rest
    | pass hp => cases hp
  | tooDeep h hg hl hd => exact .attempt (.tooDeep h hg hl hd) rest
  | enter h hg hl =>
    obtain ⟨_, _, _, _, e, next, rest⟩ := rest.through
    cases next with
    | leave =>
      rw [RunState.leave_after_enter] at rest
      exact .attempt (.nested h hg hl e) rest
    | pass hp => cases hp
  | sequenceDone => exact .attempt .sequenceDone rest
  | sequenceItem =>
    obtain ⟨_, _, _, _, e, next, rest⟩ := rest.through
    cases next with
    | sequenceNext =>
      obtain ⟨_, _, _, e₂, rest⟩ := rest.again
      exact .attempt (.sequenceNext e e₂) rest
    | pass hp => exact .attempt (.sequenceStop e hp) rest
  | choiceNone => exact .attempt .choiceNone rest
  | choiceItem =>
    obtain ⟨_, _, _, _, e, next, rest⟩ := rest.through
    cases next with
    | choiceNext =>
      obtain ⟨_, _, _, e₂, rest⟩ := rest.again
      exact .attempt (.choiceNext e e₂) rest
    | pass hp => exact .attempt (.choiceStop e hp) rest
  | roundsFull hm hn => exact .attempt (.roundsFull hm hn) rest
  | roundsItem hm =>
    obtain ⟨_, _, _, _, e, next, rest⟩ := rest.through
    cases next with
    | roundsNext more =>
      obtain ⟨_, _, _, e₂, rest⟩ := rest.again
      exact .attempt (.roundsNext hm e more e₂) rest
    | roundsLast hn still => exact .attempt (.roundsLast e hn still) rest
    | roundsEnough hn => exact .attempt (.roundsEnough hm e hn) rest
    | roundsShort hn =>
      rw [RunState.recordFailure_after] at rest
      exact .attempt (.roundsShort hm e hn) rest
    | pass hp =>
      obtain ⟨cause, rfl⟩ := hp
      exact .attempt (.roundsAborted hm e) rest
  | handledItem =>
    obtain ⟨_, _, _, _, e, next, rest⟩ := rest.through
    cases next with
    | handledMatched =>
      rw [RunState.noteAny_after] at rest
      exact .attempt (.handledMatched e) rest
    | pass hp => exact .attempt (.handledStop e hp) rest

theorem of_steps {o : Outcome γ (Value π)} (h : Steps g config m ⟨.ended o, [], s⟩) :
    Completes g config m o s := by
  induction h using Relation.ReflTransGen.head_induction_on with
  | refl => exact .done
  | head first _ ih => exact of_step first ih

end Moment.Completes

/-- A goal evaluates to an end exactly when its moments lead there. -/
theorem Grammar.evaluates_iff_moments {goal : Goal π} {c : γ} {s s' : RunState γ σ π}
    {o : Outcome γ (Value π)} :
    (∃ i marks, Evaluates g config goal s.depth c s.input o i marks ∧ s' = s.after marks i) ↔
      Moment.Steps g config ⟨.attempt goal c, [], s⟩ ⟨.ended o, [], s'⟩ := by
  constructor
  · rintro ⟨i, marks, e, rfl⟩
    exact e.steps [] s rfl rfl
  · intro h
    cases Moment.Completes.of_steps h with
    | attempt e rest =>
      cases rest with
      | done => exact ⟨_, _, e, rfl⟩
      | ended next => cases next

/-- A match comes to an end through its moments, and only so. -/
theorem Parser.returns_iff_moments {p : Parser γ ε π} {id : RuleId} {c : γ}
    {s s' : RunState γ σ π} {o : Outcome γ (Value π)} :
    p.Returns id c s o s' ↔
      Moment.Steps p.grammar p.config ⟨.attempt (.rule id) c, [], s⟩ ⟨.ended o, [], s'⟩ :=
  returns_iff.trans Grammar.evaluates_iff_moments

end PegMatcher
