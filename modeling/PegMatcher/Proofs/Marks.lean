import PegMatcher.Proofs.Evaluation
/-
The state of a run after an attempt is the state before with the marks of the attempt
put on it in order.  Marks bring their own depth, so that putting them on commutes with
entering and leaving, and what each step of the evaluator does to the state is said here
as the marks it leaves.
-/
namespace PegMatcher

variable {γ ε σ π : Type} [Cursor γ ε σ]

namespace RunState

/-- The state with one mark put on it. -/
def mark (s : RunState γ σ π) : Mark γ π → RunState γ σ π
  | .entered depth => { s with maxDepth := max s.maxDepth depth }
  | .failed f =>
    { ({ s with depth := f.depth } : RunState γ σ π).recordFailure f.cursor f.rule with
      depth := s.depth }
  | .said message => s.note message

/-- The state after an attempt that left some marks and a state of the input. -/
def after (s : RunState γ σ π) (marks : List (Mark γ π)) (input : σ) : RunState γ σ π :=
  { marks.foldl mark s with input }

theorem after_nil (s : RunState γ σ π) : s.after [] s.input = s := rfl

theorem depth_mark (s : RunState γ σ π) (m : Mark γ π) : (s.mark m).depth = s.depth := by
  cases m <;> rfl

theorem depth_after (s : RunState γ σ π) (marks : List (Mark γ π)) (i : σ) :
    (s.after marks i).depth = s.depth := by
  induction marks generalizing s with
  | nil => rfl
  | cons m marks ih => exact (ih (s.mark m)).trans (s.depth_mark m)

theorem input_after (s : RunState γ σ π) (marks : List (Mark γ π)) (i : σ) :
    (s.after marks i).input = i := rfl

/-! ## Marks and the other parts of the state -/

theorem recordFailure_of_input (s : RunState γ σ π) (i : σ) (c : γ) (id : RuleId) :
    ({ s with input := i } : RunState γ σ π).recordFailure c id =
      { s.recordFailure c id with input := i } := by
  obtain ⟨depth, maxDepth, failure, log, input⟩ := s
  cases failure with
  | none => rfl
  | some f =>
    unfold recordFailure
    dsimp only
    split
    · rfl
    · split <;> rfl

/-- A mark reads nothing of the state of the input. -/
theorem mark_of_input (s : RunState γ σ π) (i : σ) (m : Mark γ π) :
    ({ s with input := i } : RunState γ σ π).mark m = { s.mark m with input := i } := by
  cases m with
  | entered _ => rfl
  | failed f =>
    exact congrArg (fun t : RunState γ σ π => ({ t with depth := s.depth } : RunState γ σ π))
      (recordFailure_of_input { s with depth := f.depth } i f.cursor f.rule)
  | said _ => rfl

theorem after_of_input (s : RunState γ σ π) (i j : σ) (marks : List (Mark γ π)) :
    ({ s with input := i } : RunState γ σ π).after marks j = s.after marks j := by
  induction marks generalizing s with
  | nil => rfl
  | cons m marks ih =>
    show (({ s with input := i } : RunState γ σ π).mark m).after marks j =
      (s.mark m).after marks j
    rw [mark_of_input]
    exact ih (s.mark m)

/-- A mark reads nothing of the depth of the state. -/
theorem mark_of_depth (s : RunState γ σ π) (d : Nat) (m : Mark γ π) :
    ({ s with depth := d } : RunState γ σ π).mark m = { s.mark m with depth := d } := by
  cases m <;> rfl

theorem after_of_depth (s : RunState γ σ π) (d : Nat) (marks : List (Mark γ π)) (i : σ) :
    ({ s with depth := d } : RunState γ σ π).after marks i =
      { s.after marks i with depth := d } := by
  induction marks generalizing s with
  | nil => rfl
  | cons m marks ih =>
    show (({ s with depth := d } : RunState γ σ π).mark m).after marks i =
      { (s.mark m).after marks i with depth := d }
    rw [mark_of_depth]
    exact ih (s.mark m)

/-- Two attempts one after the other leave the marks of both. -/
theorem after_after (s : RunState γ σ π) (marks more : List (Mark γ π)) (i j : σ) :
    (s.after marks i).after more j = s.after (marks ++ more) j := by
  refine (after_of_input (marks.foldl mark s) i j more).trans ?_
  unfold after
  rw [List.foldl_append]

/-- Leaving undoes entering, but for the depth that was reached. -/
theorem leave_after_enter (s : RunState γ σ π) (marks : List (Mark γ π)) (i : σ) :
    (s.enter.after marks i).leave = s.after (.entered (s.depth + 1) :: marks) i := by
  have hs : s.enter = { s.mark (.entered (s.depth + 1)) with depth := s.depth + 1 } := rfl
  have hd : ((s.mark (.entered (s.depth + 1))).after marks i).depth = s.depth :=
    depth_after _ marks i
  show _ = (s.mark (.entered (s.depth + 1))).after marks i
  rw [hs, after_of_depth]
  generalize (s.mark (.entered (s.depth + 1))).after marks i = t at hd ⊢
  cases t
  cases hd
  rfl

theorem maxDepth_recordFailure (s : RunState γ σ π) (c : γ) (id : RuleId) :
    (s.recordFailure c id).maxDepth = s.maxDepth := by
  unfold recordFailure
  split
  · rfl
  · dsimp only
    split
    · rfl
    · split <;> rfl

theorem maxDepth_after_le {s : RunState γ σ π} {marks : List (Mark γ π)} {i : σ} {n : Nat} :
    (s.after marks i).maxDepth ≤ n ↔
      s.maxDepth ≤ n ∧ ∀ depth, .entered depth ∈ marks → depth ≤ n := by
  induction marks generalizing s with
  | nil => exact ⟨fun h => ⟨h, nofun⟩, And.left⟩
  | cons m marks ih =>
    show ((s.mark m).after marks i).maxDepth ≤ n ↔ _
    rw [ih]
    cases m with
    | entered depth =>
      show max s.maxDepth depth ≤ n ∧ _ ↔ _
      simp only [Nat.max_le, List.mem_cons, Mark.entered.injEq, forall_eq_or_imp, and_assoc]
    | failed f =>
      have hmax : (s.mark (.failed f)).maxDepth = s.maxDepth := maxDepth_recordFailure ..
      simp only [hmax, List.mem_cons, reduceCtorEq, false_or]
    | said message =>
      simp only [List.mem_cons, reduceCtorEq, false_or]
      rfl

/-- From a reset state, the deepest nesting is the deepest among the marks. -/
theorem maxDepth_reset_le {s : RunState γ σ π} {marks : List (Mark γ π)} {i : σ} {n : Nat} :
    (s.reset.after marks i).maxDepth ≤ n ↔ ∀ depth, .entered depth ∈ marks → depth ≤ n := by
  rw [maxDepth_after_le]
  exact and_iff_right (Nat.zero_le n)

/-! ## The marks of the steps -/

theorem recordFailure_eq_after (s : RunState γ σ π) (c : γ) (id : RuleId) :
    s.recordFailure c id = s.after [.failed ⟨c, id, s.depth⟩] s.input := by
  show _ = ({ (s.recordFailure c id) with depth := s.depth, input := s.input } : RunState γ σ π)
  obtain ⟨depth, maxDepth, failure, log, input⟩ := s
  cases failure with
  | none => rfl
  | some f =>
    unfold recordFailure
    dsimp only
    split
    · rfl
    · split <;> rfl

theorem depth_recordFailure (s : RunState γ σ π) (c : γ) (id : RuleId) :
    (s.recordFailure c id).depth = s.depth := by
  rw [recordFailure_eq_after, depth_after]

theorem recordFailure_after (s : RunState γ σ π) (marks : List (Mark γ π)) (i : σ) (c : γ)
    (id : RuleId) :
    (s.after marks i).recordFailure c id = s.after (marks ++ [.failed ⟨c, id, s.depth⟩]) i := by
  rw [recordFailure_eq_after, after_after, depth_after, input_after]

theorem noteAny_after (s : RunState γ σ π) (marks : List (Mark γ π)) (i : σ)
    (warning : Option (Warning π)) :
    (s.after marks i).noteAny (warning.map .reshaping) =
      s.after (marks ++ warning.toList.map (.said ∘ .reshaping)) i := by
  rw [← after_after s marks _ i i]
  cases warning <;> rfl

theorem matchEnd_reached {c : γ} (hc : Cursor.peek c = none) (s : RunState γ σ π)
    (id : RuleId) : s.matchEnd id c = (.matched c .null, s.after [] s.input) := by
  simp [matchEnd, Cursor.atEnd, hc, after_nil]

theorem matchEnd_missed {c : γ} {item : ε} (hc : Cursor.peek c = some item)
    (s : RunState γ σ π) (id : RuleId) :
    s.matchEnd id c = (.mismatch, s.after [.failed ⟨c, id, s.depth⟩] s.input) := by
  simp [matchEnd, Cursor.atEnd, hc, recordFailure_eq_after]

theorem matchElement_taken [ElementValue ε π] {c : γ} {item : ε} {accepts : ε → Bool}
    (hc : Cursor.peek c = some item) (hi : accepts item = true) (s : RunState γ σ π)
    (id : RuleId) :
    s.matchElement id accepts c =
      (.matched (Cursor.next c s.input).1 (ElementValue.value item),
        s.after [] (Cursor.next c s.input).2) := by
  simp only [matchElement, hc, hi, if_true]
  rfl

theorem matchElement_missed [ElementValue ε π] {c : γ} {accepts : ε → Bool}
    (hc : ∀ item, Cursor.peek c = some item → accepts item = false) (s : RunState γ σ π)
    (id : RuleId) :
    s.matchElement id accepts c =
      (.mismatch, s.after [.failed ⟨c, id, s.depth⟩] s.input) := by
  rw [← recordFailure_eq_after]
  unfold matchElement
  cases hp : Cursor.peek c with
  | none => rfl
  | some item => simp [hc item hp]

theorem read_eq {α : Type} (s : RunState γ σ π) (f : σ → α × σ) :
    s.read f = ((f s.input).1, s.after [] (f s.input).2) := rfl

theorem matchWord_taken [Element ε] {items : List ε} {c c' : γ} {s : RunState γ σ π} {i' : σ}
    (hw : skipItems items c s.input = (some c', i')) (id : RuleId) (value : Value π) :
    s.matchWord id items value c = (.matched c' value, s.after [] i') := by
  unfold matchWord
  rw [read_eq, hw]

theorem matchWord_missed [Element ε] {items : List ε} {c : γ} {s : RunState γ σ π} {i' : σ}
    (hw : skipItems items c s.input = (none, i')) (id : RuleId) (value : Value π) :
    s.matchWord id items value c = (.mismatch, s.after [.failed ⟨c, id, s.depth⟩] i') := by
  unfold matchWord
  rw [read_eq, hw]
  exact congrArg (Prod.mk _) (recordFailure_after s [] i' c id)

theorem descend_tooDeep {α : Type} {config : Config} {limit : Nat} {c : γ}
    {s : RunState γ σ π} (hl : config.maxDepth = some limit) (hd : limit ≤ s.depth)
    (body : RunState γ σ π → Attempt γ σ π α) :
    s.descend config.maxDepth c body =
      some (.aborted (.tooDeep limit (Cursor.position c)),
        s.after [.said (.limitReached limit (Cursor.position c))] s.input) := by
  unfold descend
  rw [hl, Option.filter_some_pos (by simpa using hd)]
  rfl

theorem descend_within {α : Type} {config : Config} {c : γ} {s : RunState γ σ π}
    (hl : ∀ limit, config.maxDepth = some limit → s.depth < limit)
    (body : RunState γ σ π → Attempt γ σ π α) :
    s.descend config.maxDepth c body =
      (body s.enter).map fun answer => (answer.1, answer.2.leave) := by
  have hnone : config.maxDepth.filter (· ≤ s.depth) = none := by
    cases hm : config.maxDepth with
    | none => rfl
    | some limit => simp [hl limit hm]
  unfold descend
  rw [hnone]
  cases body s.enter <;> rfl

end RunState
end PegMatcher
