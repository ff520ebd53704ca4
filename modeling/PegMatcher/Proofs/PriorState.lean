import PegMatcher.Proofs.History
/-
What happened before a match does not influence it.

The outcome of a match depends on the rule, the cursor and the state of the input, and not
on the failure or the deepest nesting recorded before.  What the match records is merged
with what was there: the deeper nesting is kept, and the later of the failures unless the
earlier one is further along.  A run therefore ends after any history as it would in a new
parser.
-/
namespace PegMatcher

variable {γ ε σ π : Type} [Cursor γ ε σ]

/-- What is kept of the failures before and in a match that was recorded on its own. -/
def Failure.merged (before : Option (Failure γ)) : Option (Failure γ) → Option (Failure γ)
  | none => before
  | some f => further before f

namespace Failure

variable {before kept : Option (Failure γ)} {f : Failure γ}

@[simp] theorem merged_none : merged before none = before := rfl

@[simp] theorem merged_some : merged before (some f) = further before f := rfl

/-- A failure that nothing before it exceeds replaces what was there. -/
theorem further_eq (h : ∀ f₀, before = some f₀ → f₀.position ≤ f.position) :
    further before f = some f := by
  cases before with
  | none => rfl
  | some f₀ => exact if_neg (Nat.not_lt_of_le (h f₀ rfl))

/-- Recording one more failure and merging commute. -/
theorem further_merged (before kept : Option (Failure γ)) (e : Failure γ) :
    further (merged before kept) e = merged before (further kept e) := by
  cases kept with
  | none => rfl
  | some f =>
    cases before with
    | none =>
      by_cases hf : e.position < f.position
      · simp [further, hf]
      · simp [further, hf]
    | some f₀ =>
      -- the three failures are compared two by two
      by_cases hf : e.position < f.position
      · by_cases h₀ : f.position < f₀.position
        · have he : e.position < f₀.position := by omega
          simp [further, hf, h₀, he]
        · simp [further, hf, h₀]
      · by_cases h₀ : f.position < f₀.position
        · simp [further, hf, h₀]
        · have he : ¬e.position < f₀.position := by omega
          simp [further, hf, h₀, he]

theorem foldl_further_merged (failures : List (Failure γ)) (before kept : Option (Failure γ)) :
    failures.foldl further (merged before kept) = merged before (failures.foldl further kept) := by
  induction failures generalizing kept with
  | nil => rfl
  | cons e failures ih =>
    rw [List.foldl_cons, List.foldl_cons, further_merged]
    exact ih (further kept e)

end Failure

variable [Element ε] [ElementValue ε π] [Payload π]

namespace Parser

variable {p : Parser γ ε π} {id : RuleId} {c : γ} {o : Outcome γ (Value π)}

/-- Two states at depth zero with the same input give the same outcomes. -/
theorem Returns.of_input_eq {s₁ s₂ s' : RunState γ σ π} (h : p.Returns id c s₁ o s')
    (h₁ : s₁.depth = 0) (h₂ : s₂.depth = 0) (hi : s₁.input = s₂.input) :
    ∃ s', p.Returns id c s₂ o s' := by
  obtain ⟨i', marks, e, -⟩ := returns_iff.1 h
  rw [h₁, hi, ← h₂] at e
  exact ⟨_, returns_iff.2 ⟨i', marks, e, rfl⟩⟩

/-- What a match records on a state is what it records in a new parser, merged. -/
theorem Returns.merged {s t : RunState γ σ π} (h : p.Returns id c (.fresh s.input) o t)
    (hd : s.depth = 0) :
    ∃ s', p.Returns id c s o s' ∧ s'.maxDepth = max s.maxDepth t.maxDepth ∧
      s'.failure = Failure.merged s.failure t.failure := by
  obtain ⟨i', marks, e, rfl⟩ := returns_iff.1 h
  have e₀ : Evaluates p.grammar p.config (.rule id) s.depth c s.input o i' marks := by
    rw [hd]
    exact e
  refine ⟨s.after marks i', returns_iff.2 ⟨i', marks, e₀, rfl⟩, ?_, ?_⟩
  · have hfresh : ((RunState.fresh s.input : RunState γ σ π).after marks i').maxDepth =
        Mark.deepest marks := by
      rw [RunState.maxDepth_after]
      exact Nat.zero_max _
    rw [RunState.maxDepth_after, hfresh]
  · rw [RunState.failure_after, RunState.failure_after]
    exact Failure.foldl_further_merged (Mark.failures marks) s.failure none

/-- A run records the same from any state with the same input. -/
theorem Runs.of_input_eq {s₁ s₂ t₁ : RunState γ σ π} (h : p.Runs s₁ o t₁)
    (hi : s₁.input = s₂.input) :
    ∃ t₂, p.Runs s₂ o t₂ ∧ t₂.maxDepth = t₁.maxDepth ∧ t₂.failure = t₁.failure := by
  obtain ⟨marks, h₁⟩ := h.leaves
  have e : Evaluates p.grammar p.config (.rule p.root) 0 p.start s₂.input o t₁.input marks :=
    hi ▸ h₁.evaluates
  obtain ⟨t₂, hruns, h₂⟩ := runs_of_evaluates e
  exact ⟨t₂, hruns, h₂.maxDepth_eq.trans h₁.maxDepth_eq.symm,
    h₂.failure_eq.trans h₁.failure_eq.symm⟩

/-- The failure and the deepest nesting recorded before a match do not influence its
outcome, and are merged with what the match itself records.  After any history a run ends,
nests and fails as in a new parser. -/
theorem prior_state_unseen (p : Parser γ ε π) :
    (∀ id c (s₁ s₂ : RunState γ σ π) o, s₁.depth = 0 → s₂.depth = 0 → s₁.input = s₂.input →
      ((∃ s', p.Returns id c s₁ o s') ↔ ∃ s', p.Returns id c s₂ o s')) ∧
    (∀ id c (s : RunState γ σ π) o t, s.depth = 0 → p.Returns id c (.fresh s.input) o t →
      ∃ s', p.Returns id c s o s' ∧ s'.maxDepth = max s.maxDepth t.maxDepth ∧
        (∀ f, t.failure = some f → (∀ f₀, s.failure = some f₀ → f₀.position ≤ f.position) →
          s'.failure = some f) ∧
        ((∀ f, t.failure = some f → ∃ f₀, s.failure = some f₀ ∧ f.position < f₀.position) →
          s'.failure = s.failure)) ∧
    ∀ i trials (s : RunState γ σ π), p.History (.fresh i) trials s →
      ∀ o maxDepth failure,
        (∃ s', p.Runs s o s' ∧ s'.maxDepth = maxDepth ∧ s'.failure = failure) ↔
          ∃ t, p.Runs (.fresh s.input : RunState γ σ π) o t ∧ t.maxDepth = maxDepth ∧
            t.failure = failure := by
  refine ⟨?_, ?_, ?_⟩
  · intro id c s₁ s₂ o h₁ h₂ hi
    constructor
    · rintro ⟨s', h⟩
      exact h.of_input_eq h₁ h₂ hi
    · rintro ⟨s', h⟩
      exact h.of_input_eq h₂ h₁ hi.symm
  · intro id c s o t hd h
    obtain ⟨s', hr, hmax, hfailure⟩ := h.merged hd
    refine ⟨s', hr, hmax, fun f hf hbehind => ?_, fun hahead => ?_⟩
    · rw [hfailure, hf, Failure.merged_some]
      exact Failure.further_eq hbehind
    · rw [hfailure]
      cases hf : t.failure with
      | none => exact Failure.merged_none
      | some f =>
        obtain ⟨f₀, hf₀, hlt⟩ := hahead f hf
        rw [hf₀]
        exact if_pos hlt
  · intro i trials s _ o maxDepth failure
    constructor
    · rintro ⟨s', h, rfl, rfl⟩
      exact h.of_input_eq rfl
    · rintro ⟨t, h, rfl, rfl⟩
      exact h.of_input_eq rfl

/-- A group that is never closed, and then an opening parenthesis missed at the start of
other input: the first failure is further along and stays. -/
theorem groups_prior_state : ∃ s s', s.depth = 0 ∧
    (groupParser #['(', '(']).Returns ⟨0⟩ (.start #['(', '(']) (.fresh ()) .mismatch s ∧
    (groupParser #['(', '(']).Returns ⟨1⟩ (.start #['x']) s .mismatch s' ∧
    s'.maxDepth = s.maxDepth ∧ s'.failure = s.failure := by
  obtain ⟨s, hs, hd, hm, hf⟩ : ∃ s,
      (groupParser #['(', '(']).Returns ⟨0⟩ (.start #['(', '(']) (.fresh ()) .mismatch s ∧
        s.depth = 0 ∧ s.maxDepth = 8 ∧ s.failure = some ⟨⟨#['(', '('], 2⟩, ⟨2⟩, 5⟩ :=
    ⟨_, ⟨20, rfl⟩, rfl, rfl, rfl⟩
  have ht : (groupParser #['(', '(']).Returns ⟨1⟩ (.start #['x']) (.fresh ()) .mismatch
      ((RunState.fresh ()).recordFailure (.start #['x']) ⟨1⟩) := ⟨1, rfl⟩
  obtain ⟨s', hr, hmax, -, hkept⟩ :=
    (prior_state_unseen (groupParser #['(', '('])).2.1 ⟨1⟩ _ s _ _ hd ht
  have hbehind : s'.maxDepth = s.maxDepth := hmax.trans (by rw [hm]; rfl)
  refine ⟨s, s', hd, hs, hr, hbehind, hkept fun f h => ?_⟩
  rw [← Option.some.inj h]
  exact ⟨_, hf, by decide⟩

end Parser
end PegMatcher
