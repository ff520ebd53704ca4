import PegMatcher.Proofs.Actions
import PegMatcher.Proofs.Adequacy
import PegMatcher.Proofs.Building
/-
Elements taken out of sequences.

A sequence collects one value from each of its children, and building refuses to take an element
out of a sequence that does not have it.  An element is looked up in the vector that the children
made, and in either representation this vector has the values of the children as its elements,
whatever they are; a chain at the last place is an element like any other and not a tail.  So the
value taken out is that of the child in its place, and the action never meets a value of the
wrong shape.

A match of a rule that nests is taken apart into the match of what is inside it, one level
deeper.
-/
namespace PegMatcher

variable {γ ε σ π : Type} [Cursor γ ε σ]

theorem RunState.descend_matched {α : Type} {limit : Option Nat} {c c' : γ} {result : α}
    {body : RunState γ σ π → Attempt γ σ π α} {s s' : RunState γ σ π}
    (h : s.descend limit c body = some (.matched c' result, s')) :
    ∃ s₁, body s.enter = some (.matched c' result, s₁) ∧ s' = s₁.leave := by
  unfold descend at h
  split at h
  · cases h
  · split at h
    · rename_i o s₁ hbody
      cases h
      exact ⟨s₁, hbody, rfl⟩
    · cases h

variable [Payload π]

/-- An element that a collected vector has is found. -/
theorem Action.apply_extract_collect (kind : Kind) {index : Nat} {values : List (Value π)}
    {v : Value π} (h : values[index]? = some v) :
    (extract index).apply kind (kind.collect values) = (v, none) := by
  have hget : (kind.collect values).get? index = some v := by
    show (kind.create values).get? index = some v
    rw [ValueVector.get?_eq, Kind.toList_create, h]
  rw [apply, hget]

namespace Parser

variable [Element ε] [ElementValue ε π]

/-- Rules match one behind the other, each where the one before ended, with a value each. -/
inductive MatchesAll (p : Parser γ ε π) :
    List RuleId → γ → RunState γ σ π → List (Value π) → γ → RunState γ σ π → Prop
  | nil {c s} : MatchesAll p [] c s [] c s
  | cons {item items c s c₁ v s₁ values c' s'} (first : p.Returns item c s (.matched c₁ v) s₁)
      (rest : MatchesAll p items c₁ s₁ values c' s') :
      MatchesAll p (item :: items) c s (v :: values) c' s'

variable {p : Parser γ ε π} {id item : RuleId} {items : List RuleId} {c c' : γ} {v : Value π}
  {s s' : RunState γ σ π} {values : List (Value π)}

namespace MatchesAll

theorem length_eq (h : p.MatchesAll items c s values c' s') : values.length = items.length := by
  induction h with
  | nil => rfl
  | cons _ _ ih => exact congrArg Nat.succ ih

/-- Of rules that all match, each one matches behind the ones before it and before the others. -/
theorem split {before after : List RuleId}
    (h : p.MatchesAll (before ++ item :: after) c s values c' s') :
    ∃ vs c₁ s₁ v c₂ s₂ ws, values = vs ++ v :: ws ∧ p.MatchesAll before c s vs c₁ s₁ ∧
      p.Returns item c₁ s₁ (.matched c₂ v) s₂ ∧ p.MatchesAll after c₂ s₂ ws c' s' := by
  induction before generalizing c s values with
  | nil =>
    cases h with
    | cons first rest => exact ⟨[], c, s, _, _, _, _, rfl, .nil, first, rest⟩
  | cons head before ih =>
    cases h with
    | @cons _ _ _ _ _ u _ _ _ _ first rest =>
      obtain ⟨vs, c₁, s₁, v, c₂, s₂, ws, rfl, hbefore, hitem, hafter⟩ := ih rest
      exact ⟨u :: vs, c₁, s₁, v, c₂, s₂, ws, rfl, .cons first hbefore, hitem, hafter⟩

/-- The results of a sequence are those of its children, behind the results it starts with. -/
theorem of_sequence {fuel : Nat} {results : List (Value π)}
    (h : Matcher.sequence (p.matchRule fuel) results items c s = some (.matched c' values, s')) :
    ∃ vs, values = results.reverse ++ vs ∧ p.MatchesAll items c s vs c' s' := by
  induction items generalizing results c s with
  | nil =>
    cases h
    exact ⟨[], (List.append_nil _).symm, .nil⟩
  | cons item items ih =>
    rw [Matcher.sequence] at h
    split at h
    · rename_i c₁ v s₁ hitem
      obtain ⟨vs, rfl, hrest⟩ := ih h
      refine ⟨v :: vs, ?_, .cons ⟨fuel, hitem⟩ hrest⟩
      rw [List.reverse_cons, List.append_assoc]
      rfl
    all_goals cases h

end MatchesAll

/-! ## Matches of rules that nest -/

namespace Returns

/-- A rule that nests matches as what is inside it does, one level deeper. -/
theorem matched_inside {rule : Rule ε π} {goal : Goal π} (hrule : p.grammar.rule? id = some rule)
    (hgoal : rule.inside? id = some goal) (h : p.Returns id c s (.matched c' v) s') :
    ∃ fuel s₁, goal.attempt (p.matchRule fuel) p.config.kind fuel c s.enter =
      some (.matched c' v, s₁) ∧ s' = s₁.leave := by
  obtain ⟨_ | fuel, h⟩ := h
  · cases h
  · change p.grammar.step p.config (p.matchRule fuel) fuel id c s = _ at h
    rw [Grammar.step_nested _ _ _ _ hrule hgoal] at h
    exact ⟨fuel, RunState.descend_matched h⟩

theorem handler {action : Action π} (hrule : p.grammar.rule? id = some (.handler item action))
    (h : p.Returns id c s (.matched c' v) s') :
    ∃ u s₁, p.Returns item c s.enter (.matched c' u) s₁ ∧
      v = (action.apply p.config.kind u).1 ∧
        s' = (s₁.noteAny ((action.apply p.config.kind u).2.map .reshaping)).leave := by
  obtain ⟨fuel, s₁, hattempt, rfl⟩ := h.matched_inside hrule rfl
  rw [Goal.attempt_handled] at hattempt
  split at hattempt
  · rename_i c₁ u s₂ hitem
    cases hattempt
    exact ⟨u, s₂, ⟨fuel, hitem⟩, rfl, rfl⟩
  · rename_i hstop
    exact absurd hattempt (hstop c' v s₁)

theorem sequence (hrule : p.grammar.rule? id = some (.sequence items))
    (h : p.Returns id c s (.matched c' v) s') :
    ∃ values s₁, p.MatchesAll items c s.enter values c' s₁ ∧
      v = p.config.kind.collect values ∧ s' = s₁.leave := by
  obtain ⟨fuel, s₁, hattempt, rfl⟩ := h.matched_inside hrule rfl
  change Attempt.collect p.config.kind
    (Matcher.sequence (p.matchRule fuel) [] items c s.enter) = _ at hattempt
  unfold Attempt.collect at hattempt
  split at hattempt
  · rename_i hsequence
    cases hattempt
    obtain ⟨values, hvalues, hall⟩ := MatchesAll.of_sequence hsequence
    exact ⟨values, s₁, hall, congrArg p.config.kind.collect hvalues, rfl⟩
  all_goals cases hattempt

end Returns

/-! ## Extraction -/

/-- In a built grammar, a rule that takes element number `index` out of a sequence matches with
the value of the child in that place: the children before it match one behind the other, it
matches where they end, and the children after it match up to where the whole sequence ends.
The element is found, so that nothing is said, and the state is the one behind the last child. -/
theorem extraction_finds_element {b : Builder ε π} (hb : b.build = .ok p.grammar) {index : Nat}
    (hrule : p.grammar.rule? id = some (.handler item (.extract index)))
    (hitem : p.grammar.rule? item = some (.sequence items))
    (h : p.Returns id c s (.matched c' v) s') :
    ∃ before child after, items = before ++ child :: after ∧ before.length = index ∧
      ∃ vs c₁ s₁ c₂ s₂ ws s₃, p.MatchesAll before c s.enter.enter vs c₁ s₁ ∧
        p.Returns child c₁ s₁ (.matched c₂ v) s₂ ∧ p.MatchesAll after c₂ s₂ ws c' s₃ ∧
        p.Returns item c s.enter
          (.matched c' (p.config.kind.collect (vs ++ v :: ws))) s₃.leave ∧
        (Action.extract index).apply p.config.kind (p.config.kind.collect (vs ++ v :: ws)) =
          (v, none) ∧
        s' = s₃.leave.leave := by
  obtain ⟨u, s₂, hsequence, rfl, rfl⟩ := h.handler hrule
  obtain ⟨values, s₃, hall, rfl, rfl⟩ := hsequence.sequence hitem
  have hlt := Builder.extract_of_build hb hrule hitem
  have hitems : items = items.take index ++ items[index] :: items.drop (index + 1) := by
    rw [← List.drop_eq_getElem_cons hlt, List.take_append_drop]
  have hlength : (items.take index).length = index := List.length_take_of_le (Nat.le_of_lt hlt)
  rw [hitems] at hall
  obtain ⟨vs, c₁, s₁, w, c₂, s₂, ws, rfl, hbefore, hchild, hafter⟩ := hall.split
  have hfound : (vs ++ w :: ws)[index]? = some w := by
    have hvs : vs.length = index := hbefore.length_eq.trans hlength
    rw [List.getElem?_append_right (Nat.le_of_eq hvs), hvs, Nat.sub_self]
    rfl
  have happly := Action.apply_extract_collect p.config.kind hfound
  rw [happly]
  exact ⟨_, _, _, hitems, hlength, vs, c₁, s₁, c₂, s₂, ws, s₃, hbefore, hchild, hafter,
    hsequence, happly, rfl⟩

/-- A letter with a dotted pair behind it, and the pair taken out again. -/
def letterAndPairCalls : List (Builder.Call Char Empty) :=
  [.add (.literal 'x'), .add (.empty (.vector (.cons (.int 1) (.int 2)))),
    .add (.sequence [⟨0⟩, ⟨1⟩]), .add (.handler ⟨2⟩ (.extract 1))]

def letterAndPair (input : Array Char) : Parser (SliceCursor Char) Char Empty :=
  ⟨⟨#[.literal 'x', .empty (.vector (.cons (.int 1) (.int 2))), .sequence [⟨0⟩, ⟨1⟩],
    .handler ⟨2⟩ (.extract 1)], []⟩, ⟨3⟩, .start input, ⟨.cons, none⟩⟩

/-- In a chain the pair at the last place is still an element, and its own child produced it. -/
theorem pair_extracted :
    (Builder.after letterAndPairCalls).build = .ok (letterAndPair #['x']).grammar ∧
    ∃ s' c₁ s₁ c₂ s₂, (letterAndPair #['x']).Returns ⟨3⟩ (.start #['x']) (.fresh ())
        (.matched ⟨#['x'], 1⟩ (.vector (.cons (.int 1) (.int 2)))) s' ∧
      (letterAndPair #['x']).Returns ⟨1⟩ c₁ s₁
        (.matched c₂ (.vector (.cons (.int 1) (.int 2)))) s₂ := by
  have hbuild : (Builder.after letterAndPairCalls).build = .ok (letterAndPair #['x']).grammar :=
    rfl
  have hmatch : (letterAndPair #['x']).Returns ⟨3⟩ (.start #['x']) (.fresh ())
      (.matched ⟨#['x'], 1⟩ (.vector (.cons (.int 1) (.int 2)))) _ := ⟨10, rfl⟩
  obtain ⟨before, child, after, hitems, hlength, vs, c₁, s₁, c₂, s₂, ws, s₃, -, hchild, -⟩ :=
    extraction_finds_element hbuild rfl rfl hmatch
  obtain ⟨first, rfl⟩ := List.length_eq_one_iff.1 hlength
  cases hitems
  exact ⟨hbuild, _, c₁, s₁, c₂, s₂, hmatch, hchild⟩

end Parser
end PegMatcher
