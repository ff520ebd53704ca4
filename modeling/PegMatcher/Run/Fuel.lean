import PegMatcher.Run.Match
/-
More fuel keeps an answer.  The order on matchers says that one answers at least what
another answers; every form of rule is monotone in how its children are matched, and
therefore evaluation is monotone in its fuel.
-/
namespace PegMatcher

variable {γ ε σ π : Type}

/-- Whatever answer the first attempt gives, the second gives too. -/
def Attempt.Le {α : Type} (a b : Attempt γ σ π α) : Prop :=
  ∀ answer, a = some answer → b = some answer

namespace Attempt

variable {α β : Type}

theorem le_refl (a : Attempt γ σ π α) : a.Le a := fun _ h => h

theorem le_trans {a b c : Attempt γ σ π α} (hab : a.Le b) (hbc : b.Le c) : a.Le c :=
  fun answer h => hbc answer (hab answer h)

theorem none_le (a : Attempt γ σ π α) : Le none a := fun _ h => nomatch h

theorem collect_le {a b : Attempt γ σ π (List (Value π))} (h : a.Le b) (kind : Kind) :
    (a.collect kind).Le (b.collect kind) := by
  cases a with
  | none => exact none_le _
  | some answer => rw [h answer rfl]; exact le_refl _

end Attempt

/-- The second matcher answers at least what the first one answers. -/
def Matcher.Le (child other : Matcher γ σ π) : Prop := ∀ id c s, (child id c s).Le (other id c s)

namespace Matcher

variable {child other : Matcher γ σ π}

/-- Two matchers agree wherever the first one answers. -/
theorem Le.cases (h : child.Le other) (id : RuleId) (c : γ) (s : RunState γ σ π) :
    child id c s = none ∨ child id c s = other id c s := by
  cases hc : child id c s with
  | none => exact .inl rfl
  | some answer => exact .inr (h id c s answer hc).symm

theorem sequence_le (h : child.Le other) (results : List (Value π)) (items : List RuleId)
    (c : γ) (s : RunState γ σ π) :
    Attempt.Le (child.sequence results items c s) (other.sequence results items c s) := by
  induction items generalizing results c s with
  | nil => exact Attempt.le_refl _
  | cons item items ih =>
    rw [sequence, sequence]
    rcases h.cases item c s with hc | hc
    · rw [hc]; exact Attempt.none_le _
    · rw [← hc]
      split
      · exact ih _ _ _
      all_goals exact Attempt.le_refl _

theorem firstOf_le (h : child.Le other) (items : List RuleId) (c : γ) (s : RunState γ σ π) :
    Attempt.Le (child.firstOf items c s) (other.firstOf items c s) := by
  induction items generalizing s with
  | nil => exact Attempt.le_refl _
  | cons item items ih =>
    rw [firstOf, firstOf]
    rcases h.cases item c s with hc | hc
    · rw [hc]; exact Attempt.none_le _
    · rw [← hc]
      split
      · exact ih _
      · exact Attempt.le_refl _

theorem lookahead_le (h : child.Le other) (item : RuleId) (negated : Bool) (c : γ)
    (s : RunState γ σ π) :
    Attempt.Le (child.lookahead item negated c s) (other.lookahead item negated c s) := by
  rcases h.cases item c s with hc | hc
  · rw [lookahead, hc]; exact Attempt.none_le _
  · rw [lookahead, lookahead, hc]; exact Attempt.le_refl _

theorem handler_le [Payload π] (h : child.Le other) (kind : Kind) (item : RuleId)
    (action : Action π) (c : γ) (s : RunState γ σ π) :
    Attempt.Le (child.handler kind item action c s) (other.handler kind item action c s) := by
  rcases h.cases item c s with hc | hc
  · rw [handler, hc]; exact Attempt.none_le _
  · rw [handler, handler, hc]; exact Attempt.le_refl _

variable [Cursor γ ε σ]

theorem repetition_le (h : child.Le other) (id item : RuleId) (results : List (Value π))
    (need : Nat) (room : Option Nat) {fuel more : Nat} (hf : fuel ≤ more) (c : γ)
    (s : RunState γ σ π) :
    Attempt.Le (child.repetition id item results need room fuel c s)
      (other.repetition id item results need room more c s) := by
  induction fuel generalizing results need room more c s with
  | zero => exact Attempt.none_le _
  | succ fuel ih =>
    cases more with
    | zero => omega
    | succ more =>
      rw [repetition, repetition]
      split
      · exact Attempt.le_refl _
      · rcases h.cases item c s with hc | hc
        · rw [hc]; exact Attempt.none_le _
        · rw [← hc]
          split
          · split
            · exact Attempt.le_refl _
            · exact ih _ _ _ (by omega) _ _
          all_goals exact Attempt.le_refl _

end Matcher

variable [Cursor γ ε σ]

theorem RunState.descend_le {α : Type} {body other : RunState γ σ π → Attempt γ σ π α}
    (h : ∀ s, (body s).Le (other s)) (limit : Option Nat) (c : γ) (s : RunState γ σ π) :
    Attempt.Le (s.descend limit c body) (s.descend limit c other) := by
  unfold descend
  split
  · exact Attempt.le_refl _
  · cases hb : body s.enter with
    | none => exact Attempt.none_le _
    | some answer => rw [h _ answer hb]; exact Attempt.le_refl _

namespace Grammar

variable [Element ε] [ElementValue ε π] [Payload π]

theorem step_le (g : Grammar ε π) (config : Config) {child other : Matcher γ σ π}
    (h : child.Le other) {fuel more : Nat} (hf : fuel ≤ more) (id : RuleId) (c : γ)
    (s : RunState γ σ π) :
    Attempt.Le (g.step config child fuel id c s) (g.step config other more id c s) := by
  unfold step
  split
  case h_9 =>
    exact RunState.descend_le
      (fun s => Attempt.collect_le (Matcher.sequence_le h _ _ _ s) _) _ _ _
  case h_10 => exact RunState.descend_le (fun s => Matcher.firstOf_le h _ _ s) _ _ _
  case h_11 =>
    exact RunState.descend_le
      (fun s => Attempt.collect_le (Matcher.repetition_le h _ _ _ _ _ hf _ s) _) _ _ _
  case h_12 => exact Matcher.lookahead_le h _ _ _ _
  case h_13 => exact RunState.descend_le (fun s => h _ _ s) _ _ _
  case h_14 => exact RunState.descend_le (fun s => Matcher.handler_le h _ _ _ _ s) _ _ _
  all_goals exact Attempt.le_refl _

theorem eval_le (g : Grammar ε π) (config : Config) {fuel more : Nat} (hf : fuel ≤ more) :
    Matcher.Le (g.eval config fuel : Matcher γ σ π) (g.eval config more) := by
  induction fuel generalizing more with
  | zero => exact fun _ _ _ => Attempt.none_le _
  | succ fuel ih =>
    cases more with
    | zero => omega
    | succ more => exact g.step_le config (ih (by omega)) (by omega)

end Grammar
end PegMatcher
