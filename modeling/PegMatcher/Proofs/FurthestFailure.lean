import PegMatcher.Proofs.Adequacy
import PegMatcher.Proofs.Building
/-
The furthest failure.

The failures of an evaluation are listed in the order in which they happen, those inside
discarded alternatives, lookaheads and aborted attempts included: elements, words and ends
of input that were missed where they were asked for, and repetitions short of their
minimum at the cursor where the last round began.  A run keeps one of them, and over any
calls since a reset it is the last of those that are furthest along.
-/
namespace PegMatcher

variable {γ ε σ π : Type} [Cursor γ ε σ]

/-! ## The last of the furthest failures -/

def Failure.position (f : Failure γ) : Nat := Cursor.position f.cursor

/-- The failure is the last of those at the furthest position. -/
def Failure.IsFurthest (failures : List (Failure γ)) (f : Failure γ) : Prop :=
  ∃ before later, failures = before ++ f :: later ∧ (∀ e ∈ before, e.position ≤ f.position) ∧
    ∀ e ∈ later, e.position < f.position

/-- What is kept after one more failure. -/
def Failure.further (kept : Option (Failure γ)) (f : Failure γ) : Option (Failure γ) :=
  match kept with
  | none => some f
  | some furthest => if f.position < furthest.position then some furthest else some f

namespace Failure

variable {failures more : List (Failure γ)} {f e : Failure γ}

theorem further_cases (kept : Option (Failure γ)) (f : Failure γ) :
    further kept f = kept ∨ further kept f = some f := by
  cases kept with
  | none => exact .inr rfl
  | some furthest =>
    unfold further
    dsimp only
    split
    · exact .inl rfl
    · exact .inr rfl

theorem IsFurthest.snoc_below (h : IsFurthest failures f) (he : e.position < f.position) :
    IsFurthest (failures ++ [e]) f := by
  obtain ⟨before, later, rfl, hbefore, hlater⟩ := h
  refine ⟨before, later ++ [e], by rw [List.append_assoc, List.cons_append], hbefore, ?_⟩
  intro x hx
  rcases List.mem_append.1 hx with hx | hx
  · exact hlater x hx
  · rw [List.mem_singleton.1 hx]
    exact he

theorem IsFurthest.le (h : IsFurthest failures f) (he : e ∈ failures) :
    e.position ≤ f.position := by
  obtain ⟨before, later, rfl, hbefore, hlater⟩ := h
  rcases List.mem_append.1 he with he | he
  · exact hbefore e he
  · rcases List.mem_cons.1 he with rfl | he
    · exact Nat.le_refl _
    · exact Nat.le_of_lt (hlater e he)

theorem IsFurthest.mem (h : IsFurthest failures f) : f ∈ failures := by
  obtain ⟨before, later, rfl, -, -⟩ := h
  exact List.mem_append_right _ List.mem_cons_self

theorem isFurthest_snoc (h : ∀ x ∈ failures, x.position ≤ e.position) :
    IsFurthest (failures ++ [e]) e := ⟨failures, [], rfl, h, nofun⟩

theorem IsFurthest.unique (h : IsFurthest failures f) (h' : IsFurthest failures e) : f = e := by
  obtain ⟨before, later, rfl, hbefore, hlater⟩ := h
  obtain ⟨before', later', heq, hbefore', hlater'⟩ := h'
  rcases List.append_eq_append_iff.1 heq with ⟨between, rfl, hrest⟩ | ⟨between, rfl, hrest⟩
  · cases between with
    | nil => exact (List.cons.inj hrest).1
    | cons x between =>
      obtain ⟨rfl, rfl⟩ := List.cons.inj hrest
      have hlt := hlater e (List.mem_append_right _ (List.mem_cons_self ..))
      have hle := hbefore' f (List.mem_append_right _ (List.mem_cons_self ..))
      omega
  · cases between with
    | nil => exact (List.cons.inj hrest).1.symm
    | cons x between =>
      obtain ⟨rfl, rfl⟩ := List.cons.inj hrest
      have hlt := hlater' f (List.mem_append_right _ (List.mem_cons_self ..))
      have hle := hbefore e (List.mem_append_right _ (List.mem_cons_self ..))
      omega

/-- What is kept of a list of failures. -/
def Kept (failures : List (Failure γ)) : Option (Failure γ) → Prop
  | none => failures = []
  | some f => IsFurthest failures f

theorem Kept.further {kept : Option (Failure γ)} (h : Kept failures kept) (e : Failure γ) :
    Kept (failures ++ [e]) (further kept e) := by
  cases kept with
  | none =>
    cases h
    exact isFurthest_snoc nofun
  | some f =>
    unfold Failure.further
    dsimp only
    split
    · exact IsFurthest.snoc_below h ‹_›
    · exact isFurthest_snoc fun x hx => Nat.le_trans (IsFurthest.le h hx) (Nat.le_of_not_lt ‹_›)

theorem Kept.foldl {kept : Option (Failure γ)} (h : Kept failures kept) :
    Kept (failures ++ more) (more.foldl Failure.further kept) := by
  induction more generalizing failures kept with
  | nil =>
    rw [List.append_nil]
    exact h
  | cons e more ih =>
    rw [List.append_cons]
    exact ih (h.further e)

theorem Kept.eq_none_iff {kept : Option (Failure γ)} (h : Kept failures kept) :
    kept = none ↔ failures = [] := by
  cases kept with
  | none => exact ⟨fun _ => h, fun _ => rfl⟩
  | some f =>
    obtain ⟨before, later, rfl, -⟩ := h
    exact ⟨nofun, fun hnil => by simp at hnil⟩

theorem Kept.eq_some_iff {kept : Option (Failure γ)} (h : Kept failures kept) :
    kept = some f ↔ IsFurthest failures f := by
  cases kept with
  | none =>
    cases h
    refine ⟨nofun, ?_⟩
    intro hfurthest
    obtain ⟨before, later, hnil, -⟩ := hfurthest
    simp at hnil
  | some e => exact ⟨fun he => Option.some.inj he ▸ h, fun hf => congrArg some (h.unique hf)⟩

theorem foldl_further_mono (more : List (Failure γ)) {kept : Option (Failure γ)}
    (h : kept = some f) :
    ∃ f', more.foldl further kept = some f' ∧ f.position ≤ f'.position := by
  subst h
  induction more generalizing f with
  | nil => exact ⟨f, rfl, Nat.le_refl _⟩
  | cons e more ih =>
    rw [List.foldl_cons]
    by_cases hlt : e.position < f.position
    · rw [show further (some f) e = some f from if_pos hlt]
      exact ih
    · rw [show further (some f) e = some e from if_neg hlt]
      obtain ⟨f', hf', hle⟩ := ih (f := e)
      exact ⟨f', hf', Nat.le_trans (Nat.le_of_not_lt hlt) hle⟩

theorem le_further (kept : Option (Failure γ)) (f : Failure γ) :
    ∃ f', further kept f = some f' ∧ f.position ≤ f'.position := by
  cases kept with
  | none => exact ⟨f, rfl, Nat.le_refl _⟩
  | some furthest =>
    by_cases hlt : f.position < furthest.position
    · exact ⟨furthest, if_pos hlt, Nat.le_of_lt hlt⟩
    · exact ⟨f, if_neg hlt, Nat.le_refl _⟩

/-- Of each failure something is kept that is no less far along. -/
theorem le_foldl_further (h : f ∈ failures) (kept : Option (Failure γ)) :
    ∃ f', failures.foldl further kept = some f' ∧ f.position ≤ f'.position := by
  obtain ⟨before, later, rfl⟩ := List.append_of_mem h
  rw [List.foldl_append, List.foldl_cons]
  obtain ⟨f₁, hf₁, hle₁⟩ := le_further (before.foldl further kept) f
  obtain ⟨f', hf', hle'⟩ := foldl_further_mono later hf₁
  exact ⟨f', hf', Nat.le_trans hle₁ hle'⟩

end Failure

/-! ## The failures among the marks of an evaluation -/

def Mark.failure? : Mark γ π → Option (Failure γ)
  | failed f => some f
  | _ => none

/-- The failures among some marks, in order. -/
def Mark.failures (marks : List (Mark γ π)) : List (Failure γ) := marks.filterMap Mark.failure?

theorem Mark.failures_append (marks more : List (Mark γ π)) :
    failures (marks ++ more) = failures marks ++ failures more := List.filterMap_append

theorem Mark.failures_warnings (warnings : List (Warning π)) :
    failures (warnings.map (.said ∘ .reshaping) : List (Mark γ π)) = [] := by
  induction warnings with
  | nil => rfl
  | cons _ _ ih => exact ih

namespace RunState

theorem failure_recordFailure (s : RunState γ σ π) (c : γ) (id : RuleId) :
    (s.recordFailure c id).failure = Failure.further s.failure ⟨c, id, s.depth⟩ := by
  unfold recordFailure Failure.further
  cases hf : s.failure with
  | none => rfl
  | some f =>
    dsimp only
    by_cases hlt : Cursor.position c < Cursor.position f.cursor
    · rw [if_pos hlt]
      exact hf.trans (if_pos hlt).symm
    · rw [if_neg hlt]
      refine Eq.trans ?_ (if_neg hlt).symm
      split <;> rfl

theorem failure_after (s : RunState γ σ π) (marks : List (Mark γ π)) (i : σ) :
    (s.after marks i).failure = (Mark.failures marks).foldl Failure.further s.failure := by
  induction marks generalizing s with
  | nil => rfl
  | cons m marks ih =>
    show ((s.mark m).after marks i).failure = _
    rw [ih]
    cases m with
    | failed f =>
      show List.foldl _ (s.mark (.failed f)).failure _ = _
      rw [show (s.mark (.failed f)).failure = Failure.further s.failure f from
        failure_recordFailure ..]
      rfl
    | entered | said => rfl

end RunState

/-! ## Runs -/

variable [Element ε] [ElementValue ε π] [Payload π]

/-- Calls that match rules at cursors, one after the other on one state. -/
inductive Parser.Calls (p : Parser γ ε π) :
    RunState γ σ π → List (RuleId × γ) → RunState γ σ π → Prop
  | nil {s} : Calls p s [] s
  | cons {id c s o s₁ calls s'} (first : p.Returns id c s o s₁) (rest : Calls p s₁ calls s') :
      Calls p s ((id, c) :: calls) s'

/-- Evaluations of rules at cursors from depth zero, one after the other on one input, and
the failures in them in order. -/
inductive Grammar.Fails (g : Grammar ε π) (config : Config) :
    σ → List (RuleId × γ) → σ → List (Failure γ) → Prop
  | nil {i} : Fails g config i [] i []
  | cons {id c i o i₁ marks calls i' failures}
      (first : Evaluates g config (.rule id) 0 c i o i₁ marks)
      (rest : Fails g config i₁ calls i' failures) :
      Fails g config i ((id, c) :: calls) i' (Mark.failures marks ++ failures)

namespace Parser

variable {p : Parser γ ε π} {s s' : RunState γ σ π} {calls : List (RuleId × γ)}

theorem Returns.failure {id : RuleId} {c : γ} {o : Outcome γ (Value π)}
    (h : p.Returns id c s o s') : ∃ i' marks,
      Evaluates p.grammar p.config (.rule id) s.depth c s.input o i' marks ∧ s'.input = i' ∧
        s'.depth = s.depth ∧
        s'.failure = (Mark.failures marks).foldl Failure.further s.failure := by
  obtain ⟨i', marks, e, rfl⟩ := returns_iff.1 h
  exact ⟨i', marks, e, rfl, s.depth_after marks i', s.failure_after marks i'⟩

/-- The failures of some calls are those of the evaluations that the calls make. -/
theorem Calls.fails (h : p.Calls s calls s') (hd : s.depth = 0) :
    ∃ failures, p.grammar.Fails p.config s.input calls s'.input failures := by
  induction h with
  | nil => exact ⟨[], .nil⟩
  | cons first _ ih =>
    obtain ⟨i₁, marks, e, rfl, hdepth, -⟩ := first.failure
    rw [hd] at e
    obtain ⟨failures, rest⟩ := ih (hdepth.trans hd)
    exact ⟨_, .cons e rest⟩

/-- Calls keep the furthest of the failures before them and in them. -/
theorem Calls.kept (h : p.Calls s calls s') (hd : s.depth = 0) {i' : σ}
    {before failures : List (Failure γ)} (hb : Failure.Kept before s.failure)
    (hf : p.grammar.Fails p.config s.input calls i' failures) :
    Failure.Kept (before ++ failures) s'.failure := by
  induction h generalizing before failures with
  | nil =>
    cases hf
    rwa [List.append_nil]
  | @cons id c s o s₁ calls s' first _ ih =>
    cases hf with
    | cons e rest =>
      -- the call ends as the evaluation says, because it has one end only
      have hr : p.Returns id c s _ _ := returns_iff.2 ⟨_, _, hd ▸ e, rfl⟩
      obtain ⟨rfl, rfl⟩ := first.unique hr
      rw [← List.append_assoc]
      refine ih ((s.depth_after ..).trans hd) ?_ rest
      rw [s.failure_after]
      exact hb.foldl

theorem Calls.failure_mono (h : p.Calls s calls s') {f : Failure γ} (hf : s.failure = some f) :
    ∃ f', s'.failure = some f' ∧ f.position ≤ f'.position := by
  induction h generalizing f with
  | nil => exact ⟨f, hf, Nat.le_refl _⟩
  | cons first _ ih =>
    obtain ⟨_, marks, -, -, -, hkept⟩ := first.failure
    obtain ⟨f₁, hf₁, hle₁⟩ := Failure.foldl_further_mono (Mark.failures marks) hf
    obtain ⟨f', hf', hle'⟩ := ih (hkept.trans hf₁)
    exact ⟨f', hf', Nat.le_trans hle₁ hle'⟩

/-- After any calls since a reset there is a failure exactly when something failed in one
of them, and it is the last of the failures furthest along.  Further calls never move it
back. -/
theorem failure_furthest (h : p.Calls s.reset calls s') :
    (∃ failures, p.grammar.Fails p.config s.input calls s'.input failures) ∧
      (∀ i' failures, p.grammar.Fails p.config s.input calls i' failures →
        (s'.failure = none ↔ failures = []) ∧
          ∀ f, s'.failure = some f ↔ Failure.IsFurthest failures f) ∧
      ∀ more s'', p.Calls s' more s'' → ∀ f, s'.failure = some f →
        ∃ f', s''.failure = some f' ∧ f.position ≤ f'.position := by
  refine ⟨h.fails rfl, fun i' failures hf => ?_, fun more s'' hmore f hf => ?_⟩
  · have hkept : Failure.Kept ([] ++ failures) s'.failure := h.kept rfl rfl hf
    exact ⟨hkept.eq_none_iff, fun f => hkept.eq_some_iff⟩
  · exact hmore.failure_mono hf

/-- A group that is never closed: the closing parenthesis was missed last. -/
theorem groups_furthest : ∃ s' failures,
    (groupParser #['(', '(']).Calls (RunState.fresh ()).reset
      [(⟨0⟩, .start #['(', '('])] s' ∧
    Failure.IsFurthest failures ⟨(⟨#['(', '('], 2⟩ : SliceCursor Char), ⟨2⟩, 5⟩ ∧
    groups.Fails ⟨.array, none⟩ () [(⟨0⟩, SliceCursor.start #['(', '('])] s'.input failures := by
  have hr : (groupParser #['(', '(']).Returns ⟨0⟩ (.start #['(', '('])
      (RunState.fresh ()).reset .mismatch _ := ⟨20, rfl⟩
  obtain ⟨⟨failures, hf⟩, hfurthest, -⟩ := failure_furthest (.cons hr .nil)
  exact ⟨_, failures, .cons hr .nil, ((hfurthest _ _ hf).2 _).1 rfl, hf⟩

end Parser
end PegMatcher
