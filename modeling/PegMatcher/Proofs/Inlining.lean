import PegMatcher.Proofs.Moments
import PegMatcher.Proofs.Simulation.Records
/-
A placeholder can be inlined.

A placeholder matches what its target matches, one level deeper.  Where a rule refers to a
placeholder it may therefore refer to the target instead, at any number of places at once: a
match that is not aborted for depth ends as before, with the same failure, and nothing is nested
deeper than it was.  Placeholders record no failures themselves, so that the failures of the two
matches are those of the same rules at the same cursors in the same order.
-/
namespace PegMatcher

variable {γ ε σ π : Type}

/-! ## Inlined grammars -/

/-- A reference to a rule that was kept, or replaced by what the rule is a placeholder for. -/
def Grammar.Inlines (g : Grammar ε π) (id target : RuleId) : Prop :=
  target = id ∨ g.rule? id = some (.placeholder target)

/-- A rule after some of its references were inlined. -/
inductive Rule.Inlined (g : Grammar ε π) : Rule ε π → Rule ε π → Prop
  | childless {rule} (h : rule.children = []) : Inlined g rule rule
  | sequence {items items'} (h : List.Forall₂ g.Inlines items items') :
      Inlined g (.sequence items) (.sequence items')
  | firstOf {items items'} (h : List.Forall₂ g.Inlines items items') :
      Inlined g (.firstOf items) (.firstOf items')
  | repetition {item item' min max} (h : g.Inlines item item') :
      Inlined g (.repetition item min max) (.repetition item' min max)
  | lookahead {item item' negated} (h : g.Inlines item item') :
      Inlined g (.lookahead item negated) (.lookahead item' negated)
  | placeholder {target target'} (h : g.Inlines target target') :
      Inlined g (.placeholder target) (.placeholder target')
  | handler {item item' action} (h : g.Inlines item item') :
      Inlined g (.handler item action) (.handler item' action)

/-- What is left to do for a rule after some of its references were inlined. -/
inductive Goal.Inlined (g : Grammar ε π) : Goal π → Goal π → Prop
  | rule {id id'} (h : g.Inlines id id') : Inlined g (.rule id) (.rule id')
  | sequence {results items items'} (h : List.Forall₂ g.Inlines items items') :
      Inlined g (.sequence results items) (.sequence results items')
  | choice {items items'} (h : List.Forall₂ g.Inlines items items') :
      Inlined g (.choice items) (.choice items')
  | rounds {id item item' min max results} (h : g.Inlines item item') :
      Inlined g (.rounds id item min max results) (.rounds id item' min max results)
  | handled {item item' action} (h : g.Inlines item item') :
      Inlined g (.handled item action) (.handled item' action)

/-- A grammar after some references of its rules were inlined, with the rules numbered as
before. -/
def Grammar.Inlined (g g' : Grammar ε π) : Prop :=
  ∀ id, Option.Rel (Rule.Inlined g) (g.rule? id) (g'.rule? id)

theorem Grammar.inlines_refl (g : Grammar ε π) (id : RuleId) : g.Inlines id id := .inl rfl

theorem Rule.inlined_refl (g : Grammar ε π) (rule : Rule ε π) : rule.Inlined g rule := by
  have hitems (items : List RuleId) : List.Forall₂ g.Inlines items items :=
    List.forall₂_same.2 fun id _ => g.inlines_refl id
  cases rule with
  | sequence items => exact .sequence (hitems items)
  | firstOf items => exact .firstOf (hitems items)
  | repetition item => exact .repetition (g.inlines_refl item)
  | lookahead item => exact .lookahead (g.inlines_refl item)
  | placeholder target => exact .placeholder (g.inlines_refl target)
  | handler item => exact .handler (g.inlines_refl item)
  | _ => exact .childless rfl

/-- Nothing has to be inlined. -/
theorem Grammar.inlined_refl (g : Grammar ε π) : g.Inlined g := by
  intro id
  cases g.rule? id with
  | none => exact .none
  | some rule => exact .some (rule.inlined_refl g)

namespace Rule.Inlined

variable {g : Grammar ε π} {rule rule' : Rule ε π} {id : RuleId} {goal : Goal π}

theorem eq_of_alone (h : rule.Inlined g rule') (ha : rule.Alone id) : rule' = rule := by
  obtain ⟨hinside, hlook⟩ := ha
  cases h with
  | childless => rfl
  | lookahead => exact absurd rfl (hlook _ _)
  | _ => cases hinside

/-- What is inside a rule is inlined with the rule. -/
theorem inside (h : rule.Inlined g rule') (hg : rule.inside? id = some goal) :
    ∃ goal', rule'.inside? id = some goal' ∧ goal.Inlined g goal' := by
  cases h with
  | childless hchildren =>
    cases rule with
    | sequence items =>
      cases hchildren
      cases hg
      exact ⟨_, rfl, .sequence .nil⟩
    | firstOf items =>
      cases hchildren
      cases hg
      exact ⟨_, rfl, .choice .nil⟩
    | repetition | placeholder | handler => cases hchildren
    | _ => cases hg
  | sequence h =>
    cases hg
    exact ⟨_, rfl, .sequence h⟩
  | firstOf h =>
    cases hg
    exact ⟨_, rfl, .choice h⟩
  | repetition h =>
    cases hg
    exact ⟨_, rfl, .rounds h⟩
  | lookahead => cases hg
  | placeholder h =>
    cases hg
    exact ⟨_, rfl, .rule h⟩
  | handler h =>
    cases hg
    exact ⟨_, rfl, .handled h⟩

end Rule.Inlined

namespace Grammar.Inlined

variable {g g' : Grammar ε π} (hg : g.Inlined g') {id id' : RuleId} (hi : g.Inlines id id')
  {rule : Rule ε π}
include hg

theorem exists_rule (h : g.rule? id = some rule) : ∃ rule', g'.rule? id = some rule' ∧
    rule.Inlined g rule' := by
  have hrel := hg id
  rw [h] at hrel
  generalize g'.rule? id = r at hrel ⊢
  cases hrel with
  | some hrule => exact ⟨_, rfl, hrule⟩

include hi

theorem unknown (h : g.rule? id = none) : id' = id ∧ g'.rule? id = none := by
  rcases hi with rfl | hi
  · have hrel := hg id'
    rw [h] at hrel
    generalize g'.rule? id' = r at hrel ⊢
    cases hrel
    exact ⟨rfl, rfl⟩
  · rw [h] at hi
    cases hi

theorem alone (h : g.rule? id = some rule) (ha : rule.Alone id) :
    id' = id ∧ g'.rule? id = some rule := by
  rcases hi with rfl | hi
  · obtain ⟨rule', h', hrule⟩ := hg.exists_rule h
    exact ⟨rfl, hrule.eq_of_alone ha ▸ h'⟩
  · rw [h] at hi
    cases hi
    cases ha.1

theorem lookahead {item : RuleId} {negated : Bool}
    (h : g.rule? id = some (.lookahead item negated)) :
    id' = id ∧ ∃ item', g.Inlines item item' ∧ g'.rule? id = some (.lookahead item' negated) := by
  rcases hi with rfl | hi
  · obtain ⟨rule', h', hrule⟩ := hg.exists_rule h
    cases hrule with
    | childless hchildren => cases hchildren
    | lookahead hitem => exact ⟨rfl, _, hitem, h'⟩
  · rw [h] at hi
    cases hi

/-- A rule that nests is there with its references inlined, or it is a placeholder whose
target is in its place. -/
theorem nested {goal : Goal π} (h : g.rule? id = some rule) (hgoal : rule.inside? id = some goal) :
    goal = .rule id' ∨ id' = id ∧ ∃ rule' goal', g'.rule? id = some rule' ∧
      rule'.inside? id = some goal' ∧ goal.Inlined g goal' := by
  rcases hi with rfl | hi
  · obtain ⟨rule', h', hrule⟩ := hg.exists_rule h
    obtain ⟨goal', hgoal', hinlined⟩ := hrule.inside hgoal
    exact .inr ⟨rfl, rule', goal', h', hgoal', hinlined⟩
  · rw [h] at hi
    cases hi
    cases hgoal
    exact .inl rfl

end Grammar.Inlined

/-! ## Marks with less nesting -/

/-- The same failure, nested no deeper. -/
structure Failure.Shallower (f f' : Failure γ) : Prop where
  cursor_eq : f.cursor = f'.cursor
  rule_eq : f.rule = f'.rule
  depth_le : f'.depth ≤ f.depth

/-- The same marks with depths no larger, where some depths were not entered. -/
inductive Mark.Shallower : List (Mark γ π) → List (Mark γ π) → Prop
  | nil : Shallower [] []
  | entered {depth depth' marks marks'} (hle : depth' ≤ depth) (rest : Shallower marks marks') :
      Shallower (.entered depth :: marks) (.entered depth' :: marks')
  | skipped {depth marks marks'} (rest : Shallower marks marks') :
      Shallower (.entered depth :: marks) marks'
  | failed {c id depth depth' marks marks'} (hle : depth' ≤ depth)
      (rest : Shallower marks marks') :
      Shallower (.failed ⟨c, id, depth⟩ :: marks) (.failed ⟨c, id, depth'⟩ :: marks')
  | said {message marks marks'} (rest : Shallower marks marks') :
      Shallower (.said message :: marks) (.said message :: marks')

namespace Mark

variable {marks marks' more more' : List (Mark γ π)}

theorem Shallower.append (h : Shallower marks marks') (hmore : Shallower more more') :
    Shallower (marks ++ more) (marks' ++ more') := by
  induction h with
  | nil => exact hmore
  | entered hle _ ih => exact .entered hle ih
  | skipped _ ih => exact .skipped ih
  | failed hle _ ih => exact .failed hle ih
  | said _ ih => exact .said ih

theorem shallower_said (messages : List (Message π)) :
    Shallower (messages.map .said : List (Mark γ π)) (messages.map .said) := by
  induction messages with
  | nil => exact .nil
  | cons _ _ ih => exact .said ih

theorem Shallower.deepest_le (h : Shallower marks marks') : deepest marks' ≤ deepest marks := by
  induction h with
  | nil => exact Nat.le_refl 0
  | entered hle _ ih =>
    exact Nat.max_le.2
      ⟨Nat.le_trans hle (Nat.le_max_left ..), Nat.le_trans ih (Nat.le_max_right ..)⟩
  | skipped _ ih => exact Nat.le_trans ih (Nat.le_max_right ..)
  | failed _ _ ih | said _ ih => exact ih

variable [Cursor γ ε σ]

theorem Shallower.failures (h : Shallower marks marks') :
    List.Forall₂ Failure.Shallower (failures marks) (failures marks') := by
  induction h with
  | nil => exact .nil
  | entered _ _ ih | skipped _ ih | said _ ih => exact ih
  | failed hle _ ih => exact .cons ⟨rfl, rfl, hle⟩ ih

end Mark

/-! ## Runs of inlined grammars -/

variable [Cursor γ ε σ] [Element ε] [ElementValue ε π] [Payload π]

/-- What an evaluation becomes where it nests less: it ends the same, and the marks it leaves
are shallower. -/
def Evaluates.Shallowed (g : Grammar ε π) (config : Config) (goal : Goal π) (depth : Nat) (c : γ)
    (i : σ) (o : Outcome γ (Value π)) (i' : σ) (marks : List (Mark γ π)) : Prop :=
  ∃ marks', Evaluates g config goal depth c i o i' marks' ∧ Mark.Shallower marks marks'

variable {g g' : Grammar ε π} {config : Config} {goal goal' : Goal π} {d d' : Nat} {c : γ}
  {i i' : σ} {o : Outcome γ (Value π)} {marks : List (Mark γ π)}

namespace Evaluates.Shallowed

theorem still (e : Evaluates g config goal d c i o i' []) :
    Shallowed g config goal d c i o i' [] :=
  ⟨[], e, .nil⟩

theorem missed {id : RuleId} (hd : d' ≤ d)
    (e : Evaluates g config goal d' c i .mismatch i' [.failed ⟨c, id, d'⟩]) :
    Shallowed g config goal d' c i .mismatch i' [.failed ⟨c, id, d⟩] :=
  ⟨_, e, .failed hd .nil⟩

/-- What leaves the marks of a part of it only. -/
theorem pass {o' : Outcome γ (Value π)} (h : Shallowed g config goal d c i o i' marks)
    (hpass : ∀ {marks'}, Evaluates g config goal d c i o i' marks' →
      Evaluates g config goal' d c i o' i' marks') :
    Shallowed g config goal' d c i o' i' marks := by
  obtain ⟨marks', e, hm⟩ := h
  exact ⟨marks', hpass e, hm⟩

/-- Two parts one after the other. -/
theorem seq {first rest : Goal π} {c₁ : γ} {i₁ : σ} {o₁ : Outcome γ (Value π)}
    {marks₁ marks₂ : List (Mark γ π)} (h₁ : Shallowed g config first d c i o₁ i₁ marks₁)
    (h₂ : Shallowed g config rest d c₁ i₁ o i' marks₂)
    (hjoin : ∀ {marks₁' marks₂'}, Evaluates g config first d c i o₁ i₁ marks₁' →
      Evaluates g config rest d c₁ i₁ o i' marks₂' →
        Evaluates g config goal d c i o i' (marks₁' ++ marks₂')) :
    Shallowed g config goal d c i o i' (marks₁ ++ marks₂) := by
  obtain ⟨marks₁', e₁, hm₁⟩ := h₁
  obtain ⟨marks₂', e₂, hm₂⟩ := h₂
  exact ⟨_, hjoin e₁ e₂, hm₁.append hm₂⟩

end Evaluates.Shallowed

/-- What does not end at the depth limit evaluates to the same after inlining, no deeper. -/
theorem Evaluates.inlined (hg : g.Inlined g') (e : Evaluates g config goal d c i o i' marks) :
    ∀ {goal' d'}, goal.Inlined g goal' → d' ≤ d → ¬o.TooDeep →
      Shallowed g' config goal' d' c i o i' marks := by
  -- induction on the evaluation before inlining; the depth after it is only known to be no
  -- larger, since every reference that was inlined above has left a depth out
  induction e with
  | unknown h =>
    rintro goal' d' ⟨hi⟩ hd ho
    obtain ⟨rfl, h'⟩ := hg.unknown hi h
    exact .still (.unknown h')
  | constant h hv =>
    rintro goal' d' ⟨hi⟩ hd ho
    obtain ⟨rfl, h'⟩ := hg.alone hi h (Rule.alone_of_constant hv _)
    exact .still (.constant h' hv)
  | endReached h hc =>
    rintro goal' d' ⟨hi⟩ hd ho
    obtain ⟨rfl, h'⟩ := hg.alone hi h ⟨rfl, nofun⟩
    exact .still (.endReached h' hc)
  | endMissed h hc =>
    rintro goal' d' ⟨hi⟩ hd ho
    obtain ⟨rfl, h'⟩ := hg.alone hi h ⟨rfl, nofun⟩
    exact .missed hd (.endMissed h' hc)
  | element h ha hc haccepts =>
    rintro goal' d' ⟨hi⟩ hd ho
    obtain ⟨rfl, h'⟩ := hg.alone hi h (Rule.alone_of_accepts ha _)
    exact .still (.element h' ha hc haccepts)
  | elementMissed h ha hc =>
    rintro goal' d' ⟨hi⟩ hd ho
    obtain ⟨rfl, h'⟩ := hg.alone hi h (Rule.alone_of_accepts ha _)
    exact .missed hd (.elementMissed h' ha hc)
  | word h hw =>
    rintro goal' d' ⟨hi⟩ hd ho
    obtain ⟨rfl, h'⟩ := hg.alone hi h ⟨rfl, nofun⟩
    exact .still (.word h' hw)
  | wordMissed h hw =>
    rintro goal' d' ⟨hi⟩ hd ho
    obtain ⟨rfl, h'⟩ := hg.alone hi h ⟨rfl, nofun⟩
    exact .missed hd (.wordMissed h' hw)
  | lookahead h _ ih =>
    rintro goal' d' ⟨hi⟩ hd ho
    obtain ⟨rfl, item', hitem, h'⟩ := hg.lookahead hi h
    have hchild := ih (.rule hitem) hd fun hdeep => ho (Outcome.look_tooDeep.2 hdeep)
    exact hchild.pass (.lookahead h')
  | tooDeep => exact fun _ _ ho => absurd ⟨_, _, rfl⟩ ho
  | nested h hgoal hl _ ih =>
    rintro goal' d' ⟨hi⟩ hd ho
    rcases hg.nested hi h hgoal with rfl | ⟨rfl, rule', goal', h', hgoal', hinlined⟩
    · -- the target in the place of its placeholder does not enter the depth below
      obtain ⟨marks', e', hm⟩ := ih (.rule (g.inlines_refl _)) (Nat.le_succ_of_le hd) ho
      exact ⟨marks', e', .skipped hm⟩
    · obtain ⟨marks', e', hm⟩ := ih hinlined (Nat.succ_le_succ hd) ho
      have hroom := fun limit heq => Nat.lt_of_le_of_lt hd (hl limit heq)
      exact ⟨_, .nested h' hgoal' hroom e', .entered (Nat.succ_le_succ hd) hm⟩
  | sequenceDone =>
    intro goal' d' hgoal hd ho
    cases hgoal with
    | sequence hitems =>
      cases hitems
      exact .still .sequenceDone
  | sequenceNext _ _ ih₁ ih₂ =>
    intro goal' d' hgoal hd ho
    cases hgoal with
    | sequence hitems =>
      cases hitems with
      | cons hitem hitems =>
        exact (ih₁ (.rule hitem) hd nofun).seq (ih₂ (.sequence hitems) hd ho) .sequenceNext
  | sequenceStop _ hs ih =>
    intro goal' d' hgoal hd ho
    cases hgoal with
    | sequence hitems =>
      cases hitems with
      | cons hitem => exact (ih (.rule hitem) hd ho).pass (.sequenceStop · hs)
  | choiceNone =>
    intro goal' d' hgoal hd ho
    cases hgoal with
    | choice hitems =>
      cases hitems
      exact .still .choiceNone
  | choiceNext _ _ ih₁ ih₂ =>
    intro goal' d' hgoal hd ho
    cases hgoal with
    | choice hitems =>
      cases hitems with
      | cons hitem hitems =>
        exact (ih₁ (.rule hitem) hd nofun).seq (ih₂ (.choice hitems) hd ho) .choiceNext
  | choiceStop _ hs ih =>
    intro goal' d' hgoal hd ho
    cases hgoal with
    | choice hitems =>
      cases hitems with
      | cons hitem => exact (ih (.rule hitem) hd ho).pass (.choiceStop · hs)
  | roundsFull hm hn =>
    intro goal' d' hgoal hd ho
    cases hgoal
    exact .still (.roundsFull hm hn)
  | roundsNext hm _ more _ ih₁ ih₂ =>
    intro goal' d' hgoal hd ho
    cases hgoal with
    | rounds hitem =>
      exact (ih₁ (.rule hitem) hd nofun).seq (ih₂ (.rounds hitem) hd ho)
        fun first rest => .roundsNext hm first more rest
  | roundsLast _ hn still ih =>
    intro goal' d' hgoal hd ho
    cases hgoal with
    | rounds hitem => exact (ih (.rule hitem) hd nofun).pass (.roundsLast · hn still)
  | roundsEnough hm _ hn ih =>
    intro goal' d' hgoal hd ho
    cases hgoal with
    | rounds hitem => exact (ih (.rule hitem) hd nofun).pass (.roundsEnough hm · hn)
  | roundsShort hm _ hn ih =>
    intro goal' d' hgoal hd ho
    cases hgoal with
    | rounds hitem =>
      obtain ⟨marks', e', hm'⟩ := ih (.rule hitem) hd nofun
      exact ⟨_, .roundsShort hm e' hn, hm'.append (.failed hd .nil)⟩
  | roundsAborted hm _ ih =>
    intro goal' d' hgoal hd ho
    cases hgoal with
    | rounds hitem => exact (ih (.rule hitem) hd ho).pass (.roundsAborted hm)
  | handledMatched _ ih =>
    intro goal' d' hgoal hd ho
    cases hgoal with
    | handled hitem =>
      obtain ⟨marks', e', hm⟩ := ih (.rule hitem) hd nofun
      refine ⟨_, .handledMatched e', hm.append ?_⟩
      rw [← List.map_map]
      exact Mark.shallower_said _
  | handledStop _ hs ih =>
    intro goal' d' hgoal hd ho
    cases hgoal with
    | handled hitem => exact (ih (.rule hitem) hd ho).pass (.handledStop · hs)

/-- What a new parser matches without being aborted for depth is matched the same after any
references were inlined: with the same outcome at the same cursor, a failure of the same rule at
the same cursor that is nested no deeper, or none as before, and no deeper nesting. -/
theorem Parser.inlining_preserves {p q : Parser γ ε π} (hg : p.grammar.Inlined q.grammar)
    (hconfig : p.config = q.config) {id : RuleId} {s : RunState γ σ π}
    (h : p.Returns id c (.fresh i) o s) (ho : ¬o.TooDeep) :
    ∃ t, q.Returns id c (.fresh i) o t ∧ t.input = s.input ∧ t.maxDepth ≤ s.maxDepth ∧
      Option.Rel Failure.Shallower s.failure t.failure := by
  obtain ⟨i', marks, e, rfl⟩ := returns_iff.1 h
  rw [hconfig] at e
  obtain ⟨marks', e', hm⟩ := e.inlined hg (.rule (p.grammar.inlines_refl id)) (Nat.le_refl _) ho
  refine ⟨_, returns_iff.2 ⟨i', marks', e', rfl⟩, rfl, ?_, ?_⟩
  · rw [RunState.maxDepth_after, RunState.maxDepth_after]
    exact Nat.max_le.2 ⟨Nat.le_max_left .., Nat.le_trans hm.deepest_le (Nat.le_max_right ..)⟩
  · rw [RunState.failure_after, RunState.failure_after]
    have hposition (f f' : Failure γ) (hf : f.Shallower f') : f.position + 0 = f'.position + 0 :=
      congrArg Cursor.position hf.cursor_eq
    exact Failure.foldl_further_related hposition hm.failures .none

/-- Groups that refer to their sequence and not to its placeholder. -/
def inlinedGroupCalls : List (Builder.Call Char Empty) :=
  [.placeholder, .add (.literal '('), .add (.literal ')'), .add (Rule.zeroOrMore ⟨4⟩),
    .add (.sequence [⟨1⟩, ⟨3⟩, ⟨2⟩]), .define ⟨0⟩ ⟨4⟩, .add .any, .add (.lookahead ⟨5⟩ false),
    .add (.sequence [⟨4⟩, ⟨6⟩])]

def inlinedGroups : Grammar Char Empty :=
  ⟨#[.placeholder ⟨4⟩, .literal '(', .literal ')', Rule.zeroOrMore ⟨4⟩,
    .sequence [⟨1⟩, ⟨3⟩, ⟨2⟩], .any, .lookahead ⟨5⟩ false, .sequence [⟨4⟩, ⟨6⟩]], []⟩

theorem groups_inlined : groups.Inlined inlinedGroups := by
  have hkeep (id : RuleId) : groups.Inlines id id := groups.inlines_refl id
  have hgroup : groups.Inlines ⟨0⟩ ⟨4⟩ := .inr rfl
  rintro ⟨n⟩
  match n with
  | 0 => exact .some (.placeholder (hkeep _))
  | 1 | 2 | 5 => exact .some (.childless rfl)
  | 3 => exact .some (.repetition hgroup)
  | 4 => exact .some (.sequence (.cons (hkeep _) (.cons (hkeep _) (.cons (hkeep _) .nil))))
  | 6 => exact .some (.lookahead (hkeep _))
  | 7 => exact .some (.sequence (.cons hgroup (.cons (hkeep _) .nil)))
  | n + 8 =>
    have hbeyond : 8 ≤ n + 8 := Nat.le_add_left ..
    have hnone : groups.rule? ⟨n + 8⟩ = none := Array.getElem?_eq_none hbeyond
    have hnone' : inlinedGroups.rule? ⟨n + 8⟩ = none := Array.getElem?_eq_none hbeyond
    rw [hnone, hnone']
    exact .none

/-- A group is within a limit of five, and stays within it. -/
theorem inlining_preserves_groups : (Builder.after inlinedGroupCalls).build = .ok inlinedGroups ∧
    groups.Inlined inlinedGroups ∧ ∃ o s t,
      ((groupParser #['(', ')']).limited (some 5)).Returns ⟨0⟩ (.start #['(', ')']) (.fresh ())
        o s ∧ ¬o.TooDeep ∧
      Parser.Returns ⟨inlinedGroups, ⟨0⟩, .start #['(', ')'], ⟨.array, some 5⟩⟩ ⟨0⟩
        (.start #['(', ')']) (.fresh ()) o t ∧ t.maxDepth ≤ s.maxDepth := by
  have hreturns : ((groupParser #['(', ')']).limited (some 5)).Returns ⟨0⟩ (.start #['(', ')'])
      (.fresh ()) (.matched _ _) _ := ⟨20, rfl⟩
  obtain ⟨t, ht, -, hle, -⟩ := Parser.inlining_preserves
    (p := (groupParser #['(', ')']).limited (some 5))
    (q := ⟨inlinedGroups, ⟨0⟩, .start #['(', ')'], ⟨.array, some 5⟩⟩)
    groups_inlined rfl hreturns nofun
  exact ⟨rfl, groups_inlined, _, _, t, hreturns, nofun, ht, hle⟩

end PegMatcher
