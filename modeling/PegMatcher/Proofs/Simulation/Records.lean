import PegMatcher.Proofs.History
import PegMatcher.Proofs.Simulation.Evaluation
/-
What two runs record that go the same way.

Across a bridge two evaluations leave related marks.  Put on states that recorded the same
before, related marks make states that recorded the same: the depth, the deepest nesting, and
a failure of the same rule at related cursors or none.  The messages may differ.  Parsers whose
grammars correspond therefore end together, `Returns.copied`.
-/
namespace PegMatcher

variable {γ₀ σ₀ γ₁ σ₁ ε π : Type}

/-! ## Related failures -/

/-- Failures of the same rule at the same depth, at related cursors. -/
structure Failure.Related (S : γ₀ → γ₁ → Prop) (f : Failure γ₀) (f' : Failure γ₁) : Prop where
  cursor : S f.cursor f'.cursor
  rule_eq : f.rule = f'.rule
  depth_eq : f.depth = f'.depth

namespace Failure

variable {S T : γ₀ → γ₁ → Prop}

theorem Related.imp {f : Failure γ₀} {f' : Failure γ₁} (h : f.Related S f')
    (hS : ∀ c d, S c d → T c d) : f.Related T f' :=
  ⟨hS _ _ h.cursor, h.rule_eq, h.depth_eq⟩

theorem Related.imp_kept {kept : Option (Failure γ₀)} {kept' : Option (Failure γ₁)}
    (h : Option.Rel (Related S) kept kept') (hS : ∀ c d, S c d → T c d) :
    Option.Rel (Related T) kept kept' := by
  cases h with
  | none => exact .none
  | some hf => exact .some (hf.imp hS)

/-- Failures at the same cursor are the same. -/
theorem Related.eq {γ : Type} {S : γ → γ → Prop} {f f' : Failure γ} (h : f.Related S f')
    (hS : ∀ c d, S c d → c = d) : f = f' := by
  obtain ⟨cursor, rule, depth⟩ := f
  obtain ⟨cursor', rule', depth'⟩ := f'
  obtain ⟨hcursor, hrule, hdepth⟩ := h
  have hsame : cursor = cursor' := hS _ _ hcursor
  have hrule : rule = rule' := hrule
  have hdepth : depth = depth' := hdepth
  rw [hsame, hrule, hdepth]

variable [Cursor γ₀ ε σ₀] [Cursor γ₁ ε σ₁] {R : Failure γ₀ → Failure γ₁ → Prop}
  {ahead behind : Nat} (hR : ∀ f f', R f f' → f.position + behind = f'.position + ahead)
include hR

/-- Which of two failures is further along does not depend on the distance of positions. -/
theorem further_related {kept : Option (Failure γ₀)} {kept' : Option (Failure γ₁)}
    {f : Failure γ₀} {f' : Failure γ₁} (hkept : Option.Rel R kept kept') (hf : R f f') :
    Option.Rel R (further kept f) (further kept' f') := by
  cases hkept with
  | none => exact .some hf
  | @some furthest furthest' hfurthest =>
    have hnew := hR _ _ hf
    have hold := hR _ _ hfurthest
    by_cases hlt : f.position < furthest.position
    · have hlt' : f'.position < furthest'.position := by omega
      rw [show further (some furthest) f = some furthest from if_pos hlt,
        show further (some furthest') f' = some furthest' from if_pos hlt']
      exact .some hfurthest
    · have hge : ¬f'.position < furthest'.position := by omega
      rw [show further (some furthest) f = some f from if_neg hlt,
        show further (some furthest') f' = some f' from if_neg hge]
      exact .some hf

theorem foldl_further_related {failures : List (Failure γ₀)} {failures' : List (Failure γ₁)}
    (h : List.Forall₂ R failures failures') {kept : Option (Failure γ₀)}
    {kept' : Option (Failure γ₁)} (hkept : Option.Rel R kept kept') :
    Option.Rel R (failures.foldl further kept) (failures'.foldl further kept') := by
  induction h generalizing kept kept' with
  | nil => exact hkept
  | cons hf _ ih => exact ih (further_related hR hkept hf)

end Failure

/-! ## Related marks and states -/

namespace Mark

variable {S : γ₀ → γ₁ → Prop} {marks : List (Mark γ₀ π)} {marks' : List (Mark γ₁ π)}

theorem Related.failures (h : Related S 0 marks marks') :
    List.Forall₂ (Failure.Related S) (failures marks) (failures marks') := by
  induction h with
  | nil => exact .nil
  | entered _ ih | said _ ih | replied _ ih => exact ih
  | failed hc _ ih => exact .cons ⟨hc, rfl, rfl⟩ ih

theorem Related.deepest_eq (h : Related S 0 marks marks') : deepest marks = deepest marks' := by
  induction h with
  | nil => rfl
  | @entered depth marks marks' _ ih =>
    show max depth (deepest marks) = max depth (deepest marks')
    rw [ih]
  | failed _ _ ih | said _ ih | replied _ ih => exact ih

end Mark

/-- States that recorded the same, with failures at related cursors. -/
structure RunState.Related (S : γ₀ → γ₁ → Prop) (s : RunState γ₀ σ₀ π)
    (t : RunState γ₁ σ₁ π) : Prop where
  depth_eq : s.depth = t.depth
  maxDepth_eq : s.maxDepth = t.maxDepth
  failure : Option.Rel (Failure.Related S) s.failure t.failure

variable [Cursor γ₀ ε σ₀] [Cursor γ₁ ε σ₁] {K : σ₀ → σ₁ → γ₀ → γ₁ → Prop}
  {R : Value π → Value π → Prop} {ahead behind : Nat}

theorem RunState.Related.after {S T : γ₀ → γ₁ → Prop} {s : RunState γ₀ σ₀ π}
    {t : RunState γ₁ σ₁ π} {marks : List (Mark γ₀ π)} {marks' : List (Mark γ₁ π)}
    (h : s.Related S t) (hS : ∀ c d, S c d → T c d)
    (hT : ∀ c d, T c d → Cursor.position c + behind = Cursor.position d + ahead)
    (hm : Mark.Related T 0 marks marks') (i : σ₀) (j : σ₁) :
    (s.after marks i).Related T (t.after marks' j) := by
  refine ⟨?_, ?_, ?_⟩
  · rw [s.depth_after, t.depth_after, h.depth_eq]
  · rw [s.maxDepth_after, t.maxDepth_after, h.maxDepth_eq, hm.deepest_eq]
  · rw [s.failure_after, t.failure_after]
    exact Failure.foldl_further_related (fun _ _ hf => hT _ _ hf.cursor) hm.failures
      (Failure.Related.imp_kept h.failure hS)

variable [Element ε] [ElementValue ε π] [Payload π]

namespace Parser

variable {p : Parser γ₀ ε π} {q : Parser γ₁ ε π} {id : RuleId} {c : γ₀} {d : γ₁}
  {s s' : RunState γ₀ σ₀ π} {t : RunState γ₁ σ₁ π} {o : Outcome γ₀ (Value π)}

/-- Across a bridge, from states that recorded the same, one parser ends as the other does
and records the same. -/
theorem Returns.copied (hK : Cursor.Bridge K ahead behind)
    (hg : p.grammar.Corresponds R p.config.kind q.config.kind q.grammar)
    (hl : p.config.maxDepth = q.config.maxDepth) (hr : p.Returns id c s o s')
    (hc : K s.input t.input c d) (hs : s.Related (K s.input t.input) t) :
    ∃ o' t', q.Returns id d t o' t' ∧
      (∀ e f, K s.input t.input e f → K s'.input t'.input e f) ∧
      o.Related (K s'.input t'.input) R ahead behind o' ∧
      s'.Related (K s'.input t'.input) t' := by
  obtain ⟨i', marks, e, rfl⟩ := returns_iff.1 hr
  obtain ⟨o', j', marks', e', hstay, ho, hm⟩ :=
    e.copied hK hg hl .rule (hs.depth_eq.trans (Nat.add_zero _).symm) hc fun _ => rfl
  have hpositions : ∀ c d, K i' j' c d →
      Cursor.position c + behind = Cursor.position d + ahead := fun _ _ => hK.position_eq
  exact ⟨o', _, returns_iff.2 ⟨j', marks', e', rfl⟩, hstay, ho,
    hs.after hstay hpositions hm i' j'⟩

end Parser
end PegMatcher
