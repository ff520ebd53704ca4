import PegMatcher.Proofs.Evaluation
import PegMatcher.Proofs.Building
/-
Why an evaluation aborts.

A rule that is no part of the grammar aborts, and so does a rule that nests beyond the
depth limit.  Nothing else does, and every attempt that comes to such a rule ends with that
same abort, `Tries.aborts`.  A closed grammar leaves the depth limit as the only cause.
-/
namespace PegMatcher

variable {γ ε σ π : Type}

namespace Goal

/-- The rules that a goal is about to match. -/
def rules : Goal π → List RuleId
  | rule id => [id]
  | sequence _ items | choice items => items
  | rounds _ item _ _ _ | handled item _ => [item]

/-- Every rule that a goal is about to match is a rule of the grammar. -/
def Within (g : Grammar ε π) (goal : Goal π) : Prop :=
  ∀ id ∈ goal.rules, g.contains id = true

theorem within_rule {g : Grammar ε π} {id : RuleId} :
    (rule id : Goal π).Within g ↔ g.contains id = true := by
  simp [Within, rules]

/-- What is inside a rule is about its children. -/
theorem rules_inside {id : RuleId} {r : Rule ε π} {goal : Goal π}
    (h : r.inside? id = some goal) : goal.rules = r.children := by
  cases r with
  | sequence | firstOf | repetition | placeholder | handler => cases h; rfl
  | _ => cases h

end Goal

variable [Cursor γ ε σ] [Element ε] [ElementValue ε π] [Payload π] {g : Grammar ε π}
  {config : Config} {goal : Goal π} {d : Nat} {c : γ} {i i' : σ} {o : Outcome γ (Value π)}
  {marks : List (Mark γ π)}

namespace Evaluates

/-- In a closed grammar every rule that comes up is known. -/
theorem known (hg : g.Closed) (e : Evaluates g config goal d c i o i' marks) :
    goal.Within g → ∀ id, o ≠ .aborted (.unknownRule id) := by
  induction e with
  | unknown h =>
    intro hw
    obtain ⟨rule, hrule⟩ := Grammar.contains_iff.1 (Goal.within_rule.1 hw)
    rw [h] at hrule
    cases hrule
  | @lookahead id item negated d c i o i' marks h _ ih =>
    intro _ missing ho
    have hchild : g.contains item = true := hg id _ h item (List.mem_singleton.2 rfl)
    exact ih (Goal.within_rule.2 hchild) missing (Outcome.look_eq_aborted.1 ho)
  | nested h hg' _ _ ih =>
    intro _
    exact ih fun child hchild => hg _ _ h child (Goal.rules_inside hg' ▸ hchild)
  | sequenceNext _ _ _ ih | choiceNext _ _ _ ih =>
    exact fun hw => ih fun child hchild => hw child (List.mem_cons_of_mem _ hchild)
  | sequenceStop _ _ ih | choiceStop _ _ ih =>
    exact fun hw => ih (Goal.within_rule.2 (hw _ List.mem_cons_self))
  | roundsNext _ _ _ _ _ ih | handledStop _ _ ih | roundsAborted _ _ ih => exact ih
  | roundsFull => intro _ id; split <;> nofun
  | _ => exact fun _ _ => nofun

/-- An abort for the depth tells the limit of the settings. -/
theorem limit_of_tooDeep (e : Evaluates g config goal d c i o i' marks) :
    ∀ {limit position : Nat}, o = .aborted (.tooDeep limit position) →
      config.maxDepth = some limit := by
  induction e with
  | tooDeep _ _ hl => rintro _ _ ⟨⟩; exact hl
  | lookahead _ _ ih => exact fun ho => ih (Outcome.look_eq_aborted.1 ho)
  | nested _ _ _ _ ih => exact ih
  | sequenceNext _ _ _ ih | choiceNext _ _ _ ih => exact ih
  | sequenceStop _ _ ih | choiceStop _ _ ih => exact ih
  | roundsNext _ _ _ _ _ ih => exact ih
  | roundsAborted _ _ ih => rintro _ _ ⟨⟩; exact ih rfl
  | handledStop _ _ ih => exact ih
  | roundsFull => intro _ _; split <;> nofun
  | _ => nofun

/-- Without a limit nothing aborts in a closed grammar. -/
theorem not_aborted (hg : g.Closed) (hl : config.maxDepth = none) (hw : goal.Within g)
    (e : Evaluates g config goal d c i o i' marks) : ∀ cause, o ≠ .aborted cause := by
  rintro (⟨limit, position⟩ | id) ho
  · have hlimit := e.limit_of_tooDeep ho
    rw [hl] at hlimit
    cases hlimit
  · exact e.known hg hw id ho

end Evaluates

/-- Evaluating a goal comes to try a rule, at a depth, a cursor and a state of the input. -/
inductive Tries (g : Grammar ε π) (config : Config) (target : RuleId) (depth : Nat) (start : γ)
    (input : σ) : Goal π → Nat → γ → σ → Prop
  | self : Tries g config target depth start input (.rule target) depth start input
  | lookahead {id item negated d c i} (h : g.rule? id = some (.lookahead item negated))
      (child : Tries g config target depth start input (.rule item) d c i) :
      Tries g config target depth start input (.rule id) d c i
  | nested {id rule goal d c i} (h : g.rule? id = some rule)
      (hg : rule.inside? id = some goal) (hl : ∀ limit, config.maxDepth = some limit → d < limit)
      (body : Tries g config target depth start input goal (d + 1) c i) :
      Tries g config target depth start input (.rule id) d c i
  | sequenceFirst {results item items d c i}
      (first : Tries g config target depth start input (.rule item) d c i) :
      Tries g config target depth start input (.sequence results (item :: items)) d c i
  | sequenceRest {results item items d c i c₁ value i₁ marks}
      (first : Evaluates g config (.rule item) d c i (.matched c₁ value) i₁ marks)
      (rest : Tries g config target depth start input
        (.sequence (value :: results) items) d c₁ i₁) :
      Tries g config target depth start input (.sequence results (item :: items)) d c i
  | choiceFirst {item items d c i}
      (first : Tries g config target depth start input (.rule item) d c i) :
      Tries g config target depth start input (.choice (item :: items)) d c i
  | choiceRest {item items d c i i₁ marks}
      (first : Evaluates g config (.rule item) d c i .mismatch i₁ marks)
      (rest : Tries g config target depth start input (.choice items) d c i₁) :
      Tries g config target depth start input (.choice (item :: items)) d c i
  | roundsFirst {id item min max results d c i}
      (hm : ∀ n, max = some n → results.length < n)
      (first : Tries g config target depth start input (.rule item) d c i) :
      Tries g config target depth start input (.rounds id item min max results) d c i
  | roundsRest {id item min max results d c i c₁ value i₁ marks}
      (hm : ∀ n, max = some n → results.length < n)
      (first : Evaluates g config (.rule item) d c i (.matched c₁ value) i₁ marks)
      (more : max = none → min ≤ results.length + 1 → Cursor.position c < Cursor.position c₁)
      (rest : Tries g config target depth start input
        (.rounds id item min max (value :: results)) d c₁ i₁) :
      Tries g config target depth start input (.rounds id item min max results) d c i
  | handled {item action d c i}
      (child : Tries g config target depth start input (.rule item) d c i) :
      Tries g config target depth start input (.handled item action) d c i

/-- No choice, repetition or lookahead around an abort turns it into anything else. -/
theorem Tries.aborts {target : RuleId} {depth : Nat} {start : γ} {input j : σ} {cause : Abort}
    {said : List (Mark γ π)} (t : Tries g config target depth start input goal d c i)
    (e : Evaluates g config (.rule target) depth start input (.aborted cause) j said) :
    ∃ marks, Evaluates g config goal d c i (.aborted cause) j marks := by
  induction t with
  | self => exact ⟨said, e⟩
  | lookahead h _ ih => exact ih.imp' id fun _ child => .lookahead h child
  | nested h hg hl _ ih => exact ih.imp' _ fun _ body => .nested h hg hl body
  | sequenceFirst _ ih => exact ih.imp' id fun _ first => .sequenceStop first nofun
  | sequenceRest first _ ih => exact ih.imp' _ fun _ rest => .sequenceNext first rest
  | choiceFirst _ ih => exact ih.imp' id fun _ first => .choiceStop first nofun
  | choiceRest first _ ih => exact ih.imp' _ fun _ rest => .choiceNext first rest
  | roundsFirst hm _ ih => exact ih.imp' id fun _ first => .roundsAborted hm first
  | roundsRest hm first more _ ih =>
    exact ih.imp' _ fun _ rest => .roundsNext hm first more rest
  | handled _ ih => exact ih.imp' id fun _ child => .handledStop child nofun

end PegMatcher
