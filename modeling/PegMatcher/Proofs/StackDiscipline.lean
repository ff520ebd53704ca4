import PegMatcher.Proofs.DepthLimit
import PegMatcher.Proofs.History
import PegMatcher.Proofs.Moments
import PegMatcher.Proofs.Simulation.Evaluation
/-
The depth is a stack discipline.

The depth of a state counts the depths that were entered and not left yet.  At every moment
of a match it is the number of frames that are still to leave one, so that no depth is left
that was not entered, and a match ends at the depth at which it began, however it ends.

The deepest nesting only grows until the next reset.  It stays within the limit, and a match
is aborted for depth only where it has reached the limit.
-/
namespace PegMatcher

variable {γ ε σ π : Type}

/-! ## States -/

namespace RunState

/-- Nothing is deeper than the deepest nesting, and that is not deeper than the limit. -/
structure Bounded (limit : Option Nat) (s : RunState γ σ π) : Prop where
  depth_le : s.depth ≤ s.maxDepth
  permits : Permits limit s.maxDepth
  failure_le : ∀ f, s.failure = some f → f.depth ≤ s.maxDepth

theorem bounded_fresh (limit : Option Nat) (i : σ) :
    (RunState.fresh i : RunState γ σ π).Bounded limit :=
  ⟨Nat.le_refl 0, fun bound _ => bound.zero_le, nofun⟩

theorem bounded_reset (limit : Option Nat) (s : RunState γ σ π) : s.reset.Bounded limit :=
  ⟨Nat.le_refl 0, fun bound _ => bound.zero_le, nofun⟩

theorem depth_noteAny (s : RunState γ σ π) (message : Option (Message π)) :
    (s.noteAny message).depth = s.depth := by
  cases message <;> rfl

theorem maxDepth_noteAny (s : RunState γ σ π) (message : Option (Message π)) :
    (s.noteAny message).maxDepth = s.maxDepth := by
  cases message <;> rfl

namespace Bounded

variable {limit : Option Nat} {s : RunState γ σ π}

theorem note (h : s.Bounded limit) (message : Message π) : (s.note message).Bounded limit :=
  ⟨h.depth_le, h.permits, h.failure_le⟩

theorem noteAny (h : s.Bounded limit) (message : Option (Message π)) :
    (s.noteAny message).Bounded limit := by
  cases message with
  | none => exact h
  | some message => exact h.note message

theorem leave (h : s.Bounded limit) : s.leave.Bounded limit :=
  ⟨Nat.le_trans (Nat.sub_le ..) h.depth_le, h.permits, h.failure_le⟩

theorem enter (h : s.Bounded limit) (hl : ∀ bound, limit = some bound → s.depth < bound) :
    s.enter.Bounded limit where
  depth_le := Nat.le_max_right ..
  permits bound hb := Nat.max_le.2 ⟨h.permits bound hb, hl bound hb⟩
  failure_le f hf := Nat.le_trans (h.failure_le f hf) (Nat.le_max_left ..)

variable [Cursor γ ε σ]

theorem recordFailure (h : s.Bounded limit) (c : γ) (id : RuleId) :
    (s.recordFailure c id).Bounded limit := by
  have hmax : (s.recordFailure c id).maxDepth = s.maxDepth := s.maxDepth_recordFailure c id
  refine ⟨?_, hmax ▸ h.permits, fun f hf => ?_⟩
  · rw [hmax, depth_recordFailure]
    exact h.depth_le
  · rw [hmax]
    rw [failure_recordFailure] at hf
    rcases Failure.further_cases s.failure ⟨c, id, s.depth⟩ with hkept | hnew
    · exact h.failure_le f (hkept.symm.trans hf)
    · rw [← Option.some.inj (hnew.symm.trans hf)]
      exact h.depth_le

/-- What a rule that tries no other records is its own failure, if anything. -/
theorem after (h : s.Bounded limit) {marks : List (Mark γ π)} {c : γ} {id : RuleId}
    (hm : marks = [] ∨ marks = [.failed ⟨c, id, s.depth⟩]) (i : σ) :
    (s.after marks i).Bounded limit := by
  have hread : (s.after [] i).Bounded limit := ⟨h.depth_le, h.permits, h.failure_le⟩
  rcases hm with rfl | rfl
  · exact hread
  · exact recordFailure_after s [] i c id ▸ hread.recordFailure c id

end Bounded
end RunState

/-! ## Moments -/

/-- How many of the frames leave a depth. -/
def Frame.nesting : List (Frame γ π) → Nat
  | [] => 0
  | .nested :: frames => nesting frames + 1
  | _ :: frames => nesting frames

theorem Frame.nesting_of_passes {frame : Frame γ π} {o : Outcome γ (Value π)}
    (h : frame.Passes o) (frames : List (Frame γ π)) :
    nesting (frame :: frames) = nesting frames := by
  cases frame with
  | nested => cases h
  | _ => rfl

/-- The depth is what the frames are to leave, and an abort for depth is at the limit. -/
structure Moment.Balanced (limit : Option Nat) (m : Moment γ σ π) : Prop where
  depth_eq : m.state.depth = Frame.nesting m.frames
  bounded : m.state.Bounded limit
  at_limit : ∀ bound position, m.control = .ended (.aborted (.tooDeep bound position)) →
    limit = some bound ∧ m.state.maxDepth = bound

/-- The depth of a frame that leaves one was entered. -/
theorem Moment.Balanced.depth_pos {limit : Option Nat} {o : Outcome γ (Value π)}
    {frames : List (Frame γ π)} {s : RunState γ σ π}
    (h : Balanced limit ⟨.ended o, .nested :: frames, s⟩) : 0 < s.depth :=
  h.depth_eq ▸ Nat.succ_pos _

theorem Moment.balanced_attempt {limit : Option Nat} {s : RunState γ σ π} (hd : s.depth = 0)
    (hs : s.Bounded limit) (goal : Goal π) (c : γ) : Balanced limit ⟨.attempt goal c, [], s⟩ :=
  ⟨hd, hs, nofun⟩

variable [Cursor γ ε σ] [Element ε] [ElementValue ε π] [Payload π] {g : Grammar ε π}
  {config : Config}

/-- A rule that tries no other records its own failure at most, and is not aborted for
depth. -/
theorem Evaluates.of_alone {id : RuleId} {d : Nat} {c : γ} {i i' : σ} {o : Outcome γ (Value π)}
    {marks : List (Mark γ π)} (e : Evaluates g config (.rule id) d c i o i' marks)
    (h : ∀ rule, g.rule? id = some rule → rule.Alone id) :
    (marks = [] ∨ marks = [.failed ⟨c, id, d⟩]) ∧ ¬o.TooDeep := by
  cases e with
  | unknown | constant | endReached | element | word =>
    exact ⟨.inl rfl, by rintro ⟨_, _, ⟨⟩⟩⟩
  | endMissed | elementMissed | wordMissed => exact ⟨.inr rfl, by rintro ⟨_, _, ⟨⟩⟩⟩
  | lookahead hrule => exact absurd rfl ((h _ hrule).2 _ _)
  | tooDeep hrule hgoal | nested hrule hgoal =>
    rw [(h _ hrule).1] at hgoal
    cases hgoal

namespace Moment

variable {m m' : Moment γ σ π}

theorem Step.balanced (h : Step g config m m') (hm : m.Balanced config.maxDepth) :
    m'.Balanced config.maxDepth := by
  obtain ⟨hdepth, hbounded, hlimit⟩ := hm
  cases h with
  | alone halone hs =>
    obtain ⟨i', marks, e, rfl⟩ := g.eval_derived config 1 _ _ _ _ _ hs
    obtain ⟨hmarks, hshallow⟩ := e.of_alone halone
    refine ⟨(RunState.depth_after ..).trans hdepth, hbounded.after hmarks i', ?_⟩
    rintro bound position ⟨⟩
    exact absurd ⟨bound, position, rfl⟩ hshallow
  | tooDeep _ _ hl hd =>
    refine ⟨hdepth, hbounded.note _, ?_⟩
    rintro bound position ⟨⟩
    exact ⟨hl, Nat.le_antisymm (hbounded.permits _ hl) (Nat.le_trans hd hbounded.depth_le)⟩
  | enter _ _ hl => exact ⟨congrArg (· + 1) hdepth, hbounded.enter hl, nofun⟩
  | leave => exact ⟨congrArg (· - 1) hdepth, hbounded.leave, hlimit⟩
  | look =>
    refine ⟨hdepth, hbounded, fun bound position ho => hlimit bound position ?_⟩
    exact congrArg Control.ended (Outcome.look_eq_aborted.1 (Control.ended.inj ho))
  | roundsFull => exact ⟨hdepth, hbounded, by split <;> nofun⟩
  | roundsShort =>
    exact ⟨(RunState.depth_recordFailure ..).trans hdepth, hbounded.recordFailure _ _, nofun⟩
  | handledMatched =>
    exact ⟨(RunState.depth_noteAny ..).trans hdepth, hbounded.noteAny _, nofun⟩
  | pass hp => exact ⟨hdepth.trans (Frame.nesting_of_passes hp _), hbounded, hlimit⟩
  | _ => exact ⟨hdepth, hbounded, nofun⟩

/-- The deepest nesting only grows. -/
theorem Step.maxDepth_le (h : Step g config m m') : m.state.maxDepth ≤ m'.state.maxDepth := by
  cases h with
  | alone halone hs =>
    obtain ⟨i', marks, e, rfl⟩ := g.eval_derived config 1 _ _ _ _ _ hs
    exact (RunState.maxDepth_after _ marks i').symm ▸ Nat.le_max_left ..
  | enter => exact Nat.le_max_left ..
  | roundsShort => exact Nat.le_of_eq (RunState.maxDepth_recordFailure ..).symm
  | handledMatched => exact Nat.le_of_eq (RunState.maxDepth_noteAny ..).symm
  | _ => exact Nat.le_refl _

theorem Steps.balanced (h : Steps g config m m') (hm : m.Balanced config.maxDepth) :
    m'.Balanced config.maxDepth := by
  induction h with
  | refl => exact hm
  | tail _ last ih => exact last.balanced ih

theorem Steps.maxDepth_le (h : Steps g config m m') : m.state.maxDepth ≤ m'.state.maxDepth := by
  induction h with
  | refl => exact Nat.le_refl _
  | tail _ last ih => exact Nat.le_trans ih last.maxDepth_le

end Moment

/-! ## Where a match is aborted -/

namespace Evaluates

variable {goal : Goal π} {d : Nat} {c : γ} {i i' : σ} {o : Outcome γ (Value π)}
  {marks : List (Mark γ π)} {Over : σ → γ → (Nat → Option ε) → Prop} {x : Nat → Option ε}

/-- An abort for depth is at a cursor over the input, at the start or further along. -/
theorem tooDeep_at (hs : Cursor.Shared Over) (e : Evaluates g config goal d c i o i' marks) :
    Over i c x → ∀ {limit place}, o = .aborted (.tooDeep limit place) →
      ∃ j c', Over j c' x ∧ place = Cursor.position c' ∧
        Cursor.position c ≤ Cursor.position c' := by
  induction e with
  | tooDeep =>
    rintro hc limit place ⟨⟩
    exact ⟨_, _, hc, rfl, Nat.le_refl _⟩
  | lookahead _ _ ih => exact fun hc _ _ ho => ih hc (Outcome.look_eq_aborted.1 ho)
  | nested _ _ _ _ ih => exact ih
  | sequenceNext first _ _ ih | roundsNext _ first _ _ _ ih =>
    intro hc limit place ho
    obtain ⟨j, c', hover, hplace, hle⟩ := ih (first.over_matched hs hc) ho
    exact ⟨j, c', hover, hplace, Nat.le_trans (first.position_le hs hc) hle⟩
  | choiceNext first _ _ ih => exact fun hc => ih (first.stays hs hc hc)
  | sequenceStop _ _ ih | choiceStop _ _ ih | handledStop _ _ ih => exact ih
  | roundsAborted _ _ ih => exact ih
  | roundsFull => intro _ _ _; split <;> nofun
  | _ => exact fun _ _ _ => nofun

end Evaluates

/-! ## Calls -/

namespace Parser

variable {p : Parser γ ε π} {s s' : RunState γ σ π} {o : Outcome γ (Value π)}

/-- The moments in which the calls on a state begin to match. -/
inductive Begins (p : Parser γ ε π) (s : RunState γ σ π) : Moment γ σ π → Prop
  | matchRule {id c} : Begins p s ⟨.attempt (.rule id) c, [], s⟩
  | run : Begins p s ⟨.attempt (.rule p.root) p.start, [], p.opened s⟩

/-- A call from a cursor has ended: nothing is entered any more, and if it was aborted for
depth, that was at the limit and at a position of the input from the cursor on. -/
structure Settled (p : Parser γ ε π) (c : γ) (i : σ) (o : Outcome γ (Value π))
    (s' : RunState γ σ π) : Prop where
  depth_eq : s'.depth = 0
  bounded : s'.Bounded p.config.maxDepth
  at_limit : ∀ limit position, o = .aborted (.tooDeep limit position) →
    p.config.maxDepth = some limit ∧ s'.maxDepth = limit
  place : ∀ limit position, o = .aborted (.tooDeep limit position) →
    ∀ (Over : σ → γ → (Nat → Option ε) → Prop) x xs, Cursor.Shared Over → Over i c x →
      Cursor.Ends x xs → Cursor.position c ≤ position ∧ position ≤ xs.length

theorem Returns.settled {id : RuleId} {c : γ} (h : p.Returns id c s o s') (hd : s.depth = 0)
    (hs : s.Bounded p.config.maxDepth) : p.Settled c s.input o s' := by
  have hbalanced := (returns_iff_moments.1 h).balanced (Moment.balanced_attempt hd hs _ c)
  refine ⟨hbalanced.depth_eq, hbalanced.bounded, fun limit position ho => ?_, ?_⟩
  · exact hbalanced.at_limit limit position (congrArg Control.ended ho)
  · intro limit position ho Over x xs hover hc hends
    obtain ⟨i', marks, e, -⟩ := returns_iff.1 h
    obtain ⟨j, c', hc', rfl, hle⟩ := e.tooDeep_at hover hc ho
    exact ⟨hle, hover.position_le hends hc'⟩

theorem Returns.maxDepth_le {id : RuleId} {c : γ} (h : p.Returns id c s o s') :
    s.maxDepth ≤ s'.maxDepth :=
  (returns_iff_moments.1 h).maxDepth_le

theorem Runs.settled (h : p.Runs s o s') : p.Settled p.start s.input o s' := by
  obtain ⟨s₁, hr, rfl⟩ := runs_iff.1 h
  obtain ⟨hdepth, hbounded, hlimit, hplace⟩ := hr.settled rfl ((RunState.bounded_reset _ s).note _)
  exact ⟨hdepth, hbounded.note _, hlimit, hplace⟩

theorem History.bounded {trials : List (Trial γ σ)} (h : p.History s trials s')
    (hd : s.depth = 0) (hs : s.Bounded p.config.maxDepth) : s'.Bounded p.config.maxDepth := by
  induction h with
  | nil => exact hs
  | reset _ ih => exact ih rfl (RunState.bounded_reset ..)
  | run first _ ih => exact ih first.settled.depth_eq first.settled.bounded
  | matchRule first _ ih =>
    have hsettled := first.settled hd hs
    exact ih hsettled.depth_eq hsettled.bounded

/-- After any calls on a new parser, however they ended, no depth is entered, and nothing is
deeper than the deepest nesting or that deeper than the limit.  At every moment of a further
call this is so as well, the depth is what is still to be left, so that none is left that
was not entered, and the deepest nesting does not shrink from one moment to the next.  The
call leaves what it found, and where it is aborted for depth, that is at the limit. -/
theorem stack_discipline {i : σ} {trials : List (Trial γ σ)} (h : p.History (.fresh i) trials s) :
    (s.depth = 0 ∧ s.Bounded p.config.maxDepth) ∧
      (∀ m₀ m, p.Begins s m₀ → Moment.Steps p.grammar p.config m₀ m →
        m.Balanced p.config.maxDepth ∧
          (∀ o frames s', m = ⟨.ended o, .nested :: frames, s'⟩ → 0 < s'.depth) ∧
          ∀ m', Moment.Step p.grammar p.config m m' → m.state.maxDepth ≤ m'.state.maxDepth) ∧
      (∀ id c o s', p.Returns id c s o s' →
        s.maxDepth ≤ s'.maxDepth ∧ p.Settled c s.input o s') ∧
      ∀ o s', p.Runs s o s' → p.Settled p.start s.input o s' := by
  have hd : s.depth = 0 := h.depth_eq rfl
  have hs : s.Bounded p.config.maxDepth := h.bounded rfl (RunState.bounded_fresh _ i)
  refine ⟨⟨hd, hs⟩, ?_, fun id c o s' hr => ⟨hr.maxDepth_le, hr.settled hd hs⟩,
    fun o s' hr => hr.settled⟩
  intro m₀ m hbegins hsteps
  have hstart : m₀.Balanced p.config.maxDepth := by
    cases hbegins with
    | matchRule => exact Moment.balanced_attempt hd hs _ _
    | run => exact Moment.balanced_attempt rfl ((RunState.bounded_reset _ s).note _) _ _
  have hbalanced := hsteps.balanced hstart
  refine ⟨hbalanced, ?_, fun m' hstep => hstep.maxDepth_le⟩
  rintro o frames s' rfl
  exact hbalanced.depth_pos

end Parser

/-- A sum is a sum and a one behind a plus, or a one: it begins with itself. -/
def sums : Grammar Char Empty :=
  ⟨#[.placeholder ⟨4⟩, .literal '+', .literal '1', .sequence [⟨0⟩, ⟨1⟩, ⟨2⟩],
    .firstOf [⟨3⟩, ⟨2⟩]], []⟩

/-- Looks for a sum at the start of the input, at most six levels deep. -/
def sumParser (input : Array Char) : Parser (SliceCursor Char) Char Empty :=
  ⟨sums, ⟨0⟩, .start input, ⟨.array, some 6⟩⟩

/-- A run and a match after it are both aborted at the limit, and nothing stays entered. -/
theorem sums_discipline : ∃ s s' : RunState (SliceCursor Char) Unit Empty,
    (sumParser #['1', '+', '1']).History (.fresh ()) [⟨⟨0⟩, .start #['1', '+', '1'], ()⟩] s ∧
    (sumParser #['1', '+', '1']).Returns ⟨3⟩ ⟨#['1', '+', '1'], 2⟩ s
      (.aborted (.tooDeep 6 2)) s' ∧
    s.depth = 0 ∧ s'.depth = 0 ∧ s'.maxDepth = 6 := by
  have hcalls : ∃ s s' : RunState (SliceCursor Char) Unit Empty,
      (sumParser #['1', '+', '1']).Runs (.fresh ()) (.aborted (.tooDeep 6 0)) s ∧
      (sumParser #['1', '+', '1']).Returns ⟨3⟩ ⟨#['1', '+', '1'], 2⟩ s
        (.aborted (.tooDeep 6 2)) s' := ⟨_, _, ⟨9, rfl⟩, ⟨9, rfl⟩⟩
  obtain ⟨s, s', hr, hm⟩ := hcalls
  have hhistory := Parser.History.run hr .nil
  obtain ⟨⟨hd, -⟩, -, hends, -⟩ := Parser.stack_discipline hhistory
  obtain ⟨-, hsettled⟩ := hends _ _ _ _ hm
  exact ⟨s, s', hhistory, hm, hd, hsettled.depth_eq, (hsettled.at_limit 6 2 rfl).2⟩

end PegMatcher
