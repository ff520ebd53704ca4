import PegMatcher.Proofs.FurthestFailure
/-
Histories of a parser.

A parser is used through three calls: it runs its root at its start, it matches any rule at
any cursor, and it resets.  A history is any number of these one after the other on one
state, whatever their outcomes.  Each call but a reset is a trial of a rule at a cursor, and
what it leaves on the state is what the evaluation of that rule from depth zero leaves.
-/
namespace PegMatcher

variable {γ ε σ π : Type} [Cursor γ ε σ]

/-- A rule to be matched at a cursor, and the state of the input at that time. -/
structure Trial (γ σ : Type) where
  rule : RuleId
  cursor : γ
  input : σ

/-- The deepest nesting among some marks. -/
def Mark.deepest : List (Mark γ π) → Nat
  | [] => 0
  | .entered depth :: marks => max depth (deepest marks)
  | _ :: marks => deepest marks

theorem RunState.maxDepth_after (s : RunState γ σ π) (marks : List (Mark γ π)) (i : σ) :
    (s.after marks i).maxDepth = max s.maxDepth (Mark.deepest marks) := by
  induction marks generalizing s with
  | nil => exact (Nat.max_zero s.maxDepth).symm
  | cons m marks ih =>
    have hstep : (s.after (m :: marks) i).maxDepth =
        max (s.mark m).maxDepth (Mark.deepest marks) := ih (s.mark m)
    rw [hstep]
    cases m with
    | entered depth => exact Nat.max_assoc s.maxDepth depth (Mark.deepest marks)
    | failed f =>
      have hmark : (s.mark (.failed f)).maxDepth = s.maxDepth := maxDepth_recordFailure ..
      rw [hmark]
      rfl
    | said message => rfl

namespace Parser

variable [Element ε] [ElementValue ε π] [Payload π]

/-- The state in which a run begins to match. -/
def opened (p : Parser γ ε π) (s : RunState γ σ π) : RunState γ σ π :=
  s.reset.note (.started p.root (p.grammar.describe p.root) (Cursor.position p.start))

/-- Running the root at the start comes to an end, with an outcome and a state. -/
def Runs (p : Parser γ ε π) (s : RunState γ σ π) (o : Outcome γ (Value π))
    (s' : RunState γ σ π) : Prop :=
  ∃ fuel, p.run fuel s = some (o, s')

/-- Calls one after the other: the trials they make, and the state after them. -/
inductive History (p : Parser γ ε π) :
    RunState γ σ π → List (Trial γ σ) → RunState γ σ π → Prop
  | nil {s} : History p s [] s
  | reset {s trials s'} (rest : History p s.reset trials s') : History p s trials s'
  | run {s o s₁ trials s'} (first : p.Runs s o s₁) (rest : History p s₁ trials s') :
      History p s (⟨p.root, p.start, s.input⟩ :: trials) s'
  | matchRule {s id c o s₁ trials s'} (first : p.Returns id c s o s₁)
      (rest : History p s₁ trials s') : History p s (⟨id, c, s.input⟩ :: trials) s'

/-- A trial on a state leaves what the evaluation of the rule from depth zero leaves. -/
structure Leaves (p : Parser γ ε π) (s : RunState γ σ π) (t : Trial γ σ)
    (o : Outcome γ (Value π)) (s' : RunState γ σ π) (marks : List (Mark γ π)) : Prop where
  evaluates : Evaluates p.grammar p.config (.rule t.rule) 0 t.cursor t.input o s'.input marks
  depth_eq : s'.depth = 0
  maxDepth_eq : s'.maxDepth = max s.maxDepth (Mark.deepest marks)
  failure_eq : s'.failure = (Mark.failures marks).foldl Failure.further s.failure

variable {p : Parser γ ε π} {s s' : RunState γ σ π} {o : Outcome γ (Value π)}

theorem Returns.leaves {id : RuleId} {c : γ} (h : p.Returns id c s o s') (hd : s.depth = 0) :
    ∃ marks, p.Leaves s ⟨id, c, s.input⟩ o s' marks := by
  obtain ⟨i', marks, e, rfl⟩ := returns_iff.1 h
  rw [hd] at e
  have hdepth : (s.after marks i').depth = 0 := (s.depth_after marks i').trans hd
  exact ⟨marks, e, hdepth, s.maxDepth_after marks i', s.failure_after marks i'⟩

theorem run_eq (fuel : Nat) :
    p.run fuel s = (p.matchRule fuel p.root p.start (p.opened s)).map
      fun answer => (answer.1, answer.2.note (p.closing answer.2 answer.1)) := by
  simp only [run, opened]
  cases p.matchRule fuel p.root p.start (s.reset.note _) with
  | none => rfl
  | some answer => rfl

/-- A run is a match of the root from a reset state, between two messages. -/
theorem runs_iff : p.Runs s o s' ↔
    ∃ s₁, p.Returns p.root p.start (p.opened s) o s₁ ∧ s' = s₁.note (p.closing s₁ o) := by
  constructor
  · rintro ⟨fuel, h⟩
    rw [run_eq] at h
    obtain ⟨⟨o₁, s₁⟩, hmatch, hanswer⟩ := Option.map_eq_some_iff.1 h
    obtain ⟨rfl, rfl⟩ := Prod.mk.inj hanswer
    exact ⟨s₁, ⟨fuel, hmatch⟩, rfl⟩
  · rintro ⟨s₁, ⟨fuel, hmatch⟩, rfl⟩
    refine ⟨fuel, ?_⟩
    rw [run_eq, hmatch]
    rfl

theorem Runs.leaves (h : p.Runs s o s') :
    ∃ marks, p.Leaves s.reset ⟨p.root, p.start, s.input⟩ o s' marks := by
  obtain ⟨s₁, hr, rfl⟩ := runs_iff.1 h
  obtain ⟨marks, hl⟩ := hr.leaves rfl
  exact ⟨marks, hl.evaluates, hl.depth_eq, hl.maxDepth_eq, hl.failure_eq⟩

/-- A run ends as the evaluation of the root from depth zero does. -/
theorem runs_of_evaluates {i' : σ} {marks : List (Mark γ π)}
    (e : Evaluates p.grammar p.config (.rule p.root) 0 p.start s.input o i' marks) :
    ∃ s', p.Runs s o s' ∧ p.Leaves s.reset ⟨p.root, p.start, s.input⟩ o s' marks := by
  have hr : p.Returns p.root p.start (p.opened s) o ((p.opened s).after marks i') :=
    returns_iff.2 ⟨i', marks, e, rfl⟩
  refine ⟨_, runs_iff.2 ⟨_, hr, rfl⟩, e, ?_, ?_, ?_⟩
  · exact (p.opened s).depth_after marks i'
  · exact (p.opened s).maxDepth_after marks i'
  · exact (p.opened s).failure_after marks i'

/-- Every call leaves the depth balanced, aborted ones too. -/
theorem History.depth_eq {trials : List (Trial γ σ)} (h : p.History s trials s')
    (hd : s.depth = 0) : s'.depth = 0 := by
  induction h with
  | nil => exact hd
  | reset _ ih => exact ih rfl
  | run first _ ih =>
    obtain ⟨marks, hl⟩ := first.leaves
    exact ih hl.depth_eq
  | matchRule first _ ih =>
    obtain ⟨marks, hl⟩ := first.leaves hd
    exact ih hl.depth_eq

end Parser
end PegMatcher
