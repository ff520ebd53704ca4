import Mathlib.Logic.Relation
import PegMatcher.Proofs.History
import PegMatcher.Proofs.Simulation.Evaluation
import PegMatcher.Proofs.Reading.Slice
/-
The reported failure is honest.

The failure that a parser reports after any calls blames a rule below one that was matched,
at a cursor that advancing leads to from where that rule was matched, and the rule does not
match there.  It does not in a new parser either, which comes to it at depth zero and on an
input that was read further: an evaluation has a copy at any smaller depth and on any
input that shows the same elements.  A repetition may have had results before it ran short;
from where its last round began it has none, and falls short all the more.
-/
namespace PegMatcher

variable {γ ε σ π : Type} [Cursor γ ε σ]

namespace Goal

/-- The rules that failures in a goal can blame: those below the rules it is about to
match, and a repetition for its rounds. -/
inductive Blames (g : Grammar ε π) : Goal π → RuleId → Prop
  | below {goal id target} (hid : id ∈ goal.rules)
      (h : Relation.ReflTransGen g.Child id target) : Blames g goal target
  | rounds {id item min max results} : Blames g (.rounds id item min max results) id

/-- Rounds belong to a repetition of the grammar that was entered. -/
def Entered (g : Grammar ε π) (config : Config) (depth : Nat) : Goal π → Prop
  | .rounds id item min max _ => g.rule? id = some (.repetition item min max) ∧ 0 < depth ∧
      ∀ limit, config.maxDepth = some limit → 0 < limit
  | _ => True

variable {g : Grammar ε π} {config : Config} {goal goal' : Goal π} {id target : RuleId}

theorem Blames.mono (h : goal.Blames g target) (hrules : ∀ id ∈ goal.rules, id ∈ goal'.rules)
    (hgoal : ∀ id item min max results, goal ≠ .rounds id item min max results) :
    goal'.Blames g target := by
  cases h with
  | below hid h => exact .below (hrules _ hid) h
  | rounds => exact absurd rfl (hgoal _ _ _ _ _)

theorem Blames.of_rule (h : (rule id : Goal π).Blames g target) (hid : id ∈ goal.rules) :
    goal.Blames g target :=
  h.mono (fun _ hmem => List.mem_singleton.1 hmem ▸ hid) nofun

/-- What a goal inside a rule blames is below the rule. -/
theorem Blames.inside {rule : Rule ε π} (h : goal.Blames g target) (hrule : g.rule? id = some rule)
    (hgoal : rule.inside? id = some goal) : (Goal.rule id : Goal π).Blames g target := by
  refine .below (List.mem_singleton.2 rfl) ?_
  cases h with
  | below hid h =>
    rw [Goal.rules_inside hgoal] at hid
    exact .head ⟨rule, hrule, hid⟩ h
  | rounds =>
    cases rule with
    | repetition =>
      cases hgoal
      exact .refl
    | _ => cases hgoal

theorem entered_inside {rule : Rule ε π} {depth : Nat} (hrule : g.rule? id = some rule)
    (hgoal : rule.inside? id = some goal)
    (hl : ∀ limit, config.maxDepth = some limit → depth < limit) :
    goal.Entered g config (depth + 1) := by
  cases rule with
  | repetition item min max =>
    cases hgoal
    exact ⟨hrule, Nat.succ_pos depth, fun limit h => Nat.lt_of_le_of_lt depth.zero_le (hl limit h)⟩
  | sequence | firstOf | placeholder | handler =>
    cases hgoal
    exact trivial
  | _ => cases hgoal

end Goal

theorem Failure.mem_of_foldl {failures : List (Failure γ)} {kept : Option (Failure γ)}
    {f : Failure γ} (h : failures.foldl further kept = some f) : kept = some f ∨ f ∈ failures := by
  induction failures generalizing kept with
  | nil => exact .inl h
  | cons e failures ih =>
    rcases ih h with hkept | hmem
    · rcases further_cases kept e with heq | heq
      · exact .inl (heq.symm.trans hkept)
      · rw [heq] at hkept
        exact .inr (Option.some.inj hkept ▸ List.mem_cons_self)
    · exact .inr (List.mem_cons_of_mem _ hmem)

theorem Mark.mem_failures {marks : List (Mark γ π)} {f : Failure γ} :
    f ∈ Mark.failures marks ↔ .failed f ∈ marks := by
  refine List.mem_filterMap.trans ⟨?_, fun h => ⟨_, h, rfl⟩⟩
  rintro ⟨m, hm, hf⟩
  cases m with
  | failed => exact Option.some.inj hf ▸ hm
  | entered | said => cases hf

/-! ## Failures of an evaluation -/

variable [Element ε] [ElementValue ε π] [Payload π]

namespace Evaluates

variable {g : Grammar ε π} {config : Config} {goal : Goal π} {depth : Nat} {c : γ} {i i' : σ}
  {o : Outcome γ (Value π)} {marks : List (Mark γ π)}

theorem contains {id : RuleId} (e : Evaluates g config (.rule id) depth c i .mismatch i' marks) :
    g.contains id = true := by
  refine Grammar.contains_iff.2 (Option.ne_none_iff_exists'.1 fun hnone => ?_)
  generalize ho : (.mismatch : Outcome γ (Value π)) = o at e
  cases e with
  | unknown => cases ho
  | constant h | endReached h | endMissed h | element h | elementMissed h | word h
  | wordMissed h | lookahead h | tooDeep h | nested h =>
    rw [hnone] at h
    cases h

/-- A rule that does not match does not match at a smaller depth. -/
theorem misses_less {id : RuleId} {less : Nat} (hle : less ≤ depth)
    (e : Evaluates g config (.rule id) depth c i .mismatch i' marks) :
    ∃ j marks', Evaluates g config (.rule id) less c i .mismatch j marks' :=
  e.misses_across Cursor.bridge_refl ⟨rfl, rfl⟩ hle

end Evaluates

/-- A failure inside a goal: it blames a rule that belongs there, and the rule does not
match where the failure is, from depth zero and in a state that the input was in. -/
structure Goal.Honest (g : Grammar ε π) (config : Config)
    (Over : σ → γ → (Nat → Option ε) → Prop) (x : Nat → Option ε) (goal : Goal π)
    (f : Failure γ) : Prop where
  blames : goal.Blames g f.rule
  misses : ∃ i i' marks, Over i f.cursor x ∧
    Evaluates g config (.rule f.rule) 0 f.cursor i .mismatch i' marks

namespace Goal.Honest

variable {g : Grammar ε π} {config : Config} {Over : σ → γ → (Nat → Option ε) → Prop}
  {x : Nat → Option ε} {goal goal' : Goal π} {id : RuleId} {f : Failure γ}

/-- A rule is to blame for its own mismatch. -/
theorem of_miss {c : γ} {i i' : σ} {depth : Nat} {marks : List (Mark γ π)} (hc : Over i c x)
    (e : Evaluates g config (.rule id) 0 c i .mismatch i' marks) :
    (Goal.rule id).Honest g config Over x ⟨c, id, depth⟩ :=
  ⟨.below (List.mem_singleton.2 rfl) .refl, i, i', marks, hc, e⟩

theorem imp (h : goal.Honest g config Over x f)
    (hblames : goal.Blames g f.rule → goal'.Blames g f.rule) :
    goal'.Honest g config Over x f :=
  ⟨hblames h.blames, h.misses⟩

theorem of_rule (h : (Goal.rule id).Honest g config Over x f) (hid : id ∈ goal.rules) :
    goal.Honest g config Over x f :=
  h.imp fun hblames => hblames.of_rule hid

end Goal.Honest

namespace Evaluates

variable {g : Grammar ε π} {config : Config} {goal : Goal π} {depth : Nat} {c : γ} {i i' : σ}
  {o : Outcome γ (Value π)} {marks : List (Mark γ π)}

/-- Every failure in an evaluation is honest. -/
theorem honest {Over : σ → γ → (Nat → Option ε) → Prop} (hs : Cursor.Shared Over)
    {x : Nat → Option ε} (e : Evaluates g config goal depth c i o i' marks) :
    Over i c x → goal.Entered g config depth → ∀ f, .failed f ∈ marks →
      goal.Honest g config Over x f := by
  induction e with
  | endMissed h hc =>
    intro hover _ f hf
    obtain rfl := Mark.failed.inj (List.mem_singleton.1 hf)
    exact .of_miss hover (.endMissed h hc)
  | elementMissed h ha hc =>
    intro hover _ f hf
    obtain rfl := Mark.failed.inj (List.mem_singleton.1 hf)
    exact .of_miss hover (.elementMissed h ha hc)
  | wordMissed h hw =>
    intro hover _ f hf
    obtain rfl := Mark.failed.inj (List.mem_singleton.1 hf)
    exact .of_miss hover (.wordMissed h hw)
  | @lookahead id item negated depth c i o i' marks h _ ih =>
    intro hover _ f hf
    have hchild : g.Child id item := ⟨_, h, List.mem_singleton.2 rfl⟩
    refine (ih hover trivial f hf).imp fun hblames => ?_
    cases hblames with
    | below hid hbelow =>
      rw [List.mem_singleton.1 hid] at hbelow
      exact .below (List.mem_singleton.2 rfl) (.head hchild hbelow)
  | nested h hg hl _ ih =>
    intro hover _ f hf
    have hf := (List.mem_cons.1 hf).resolve_left nofun
    have hinside := ih hover (Goal.entered_inside h hg hl) f hf
    exact hinside.imp fun hblames => hblames.inside h hg
  | sequenceNext first _ ih₁ ih₂ =>
    intro hover _ f hf
    rcases List.mem_append.1 hf with hf | hf
    · exact (ih₁ hover trivial f hf).of_rule List.mem_cons_self
    · have hrest := ih₂ (first.over_matched hs hover) trivial f hf
      exact hrest.imp fun hblames => hblames.mono (fun _ => List.mem_cons_of_mem _) nofun
  | sequenceStop _ _ ih | choiceStop _ _ ih =>
    intro hover _ f hf
    exact (ih hover trivial f hf).of_rule List.mem_cons_self
  | choiceNext first _ ih₁ ih₂ =>
    intro hover _ f hf
    rcases List.mem_append.1 hf with hf | hf
    · exact (ih₁ hover trivial f hf).of_rule List.mem_cons_self
    · have hrest := ih₂ (first.stays hs hover hover) trivial f hf
      exact hrest.imp fun hblames => hblames.mono (fun _ => List.mem_cons_of_mem _) nofun
  | roundsNext _ first _ _ ih₁ ih₂ =>
    intro hover hentered f hf
    rcases List.mem_append.1 hf with hf | hf
    · exact (ih₁ hover trivial f hf).of_rule (List.mem_singleton.2 rfl)
    · refine (ih₂ (first.over_matched hs hover) hentered f hf).imp fun hblames => ?_
      cases hblames with
      | below hid hbelow => exact .below hid hbelow
      | rounds => exact .rounds
  | roundsLast _ _ _ ih | roundsEnough _ _ _ ih | roundsAborted _ _ ih | handledStop _ _ ih =>
    intro hover _ f hf
    exact (ih hover trivial f hf).of_rule (List.mem_singleton.2 rfl)
  | @roundsShort id item min max results depth c i i₁ marks hx first hn ih =>
    intro hover hentered f hf
    rcases List.mem_append.1 hf with hf | hf
    · exact (ih hover trivial f hf).of_rule (List.mem_singleton.2 rfl)
    · obtain rfl := Mark.failed.inj (List.mem_singleton.1 hf)
      obtain ⟨hrule, hdepth, hlimit⟩ := hentered
      -- the last round again, as the first one of the repetition at depth zero
      obtain ⟨j, marks', e⟩ := first.misses_less hdepth
      have hroom : ∀ n, max = some n → ([] : List (Value π)).length < n := fun n hn =>
        Nat.lt_of_le_of_lt (Nat.zero_le _) (hx n hn)
      have hshort : ([] : List (Value π)).length < min := Nat.lt_of_le_of_lt (Nat.zero_le _) hn
      exact ⟨.rounds, i, j, _, hover, .nested hrule rfl hlimit (.roundsShort hroom e hshort)⟩
  | handledMatched _ ih =>
    intro hover _ f hf
    have hwarned (warnings : List (Warning π)) :
        (Mark.failed f : Mark γ π) ∉ warnings.map (.said ∘ .reshaping) := by simp
    have hf := (List.mem_append.1 hf).resolve_right (hwarned _)
    exact (ih hover trivial f hf).of_rule (List.mem_singleton.2 rfl)
  | _ =>
    intro _ _ f hf
    simp at hf

end Evaluates

/-! ## Failures over a history -/

namespace Parser

variable {p : Parser γ ε π} {s s' : RunState γ σ π} {t : Trial γ σ} {f : Failure γ}
  {Over : σ → γ → (Nat → Option ε) → Prop}

/-- A failure in a trial blames a rule below the one tried, at a cursor that the trial got
to, and the rule still does not match there when the state of the input is `i`. -/
structure Blamed (p : Parser γ ε π) (Over : σ → γ → (Nat → Option ε) → Prop) (t : Trial γ σ)
    (i : σ) (f : Failure γ) : Prop where
  over_trial : ∃ x, Over t.input t.cursor x
  still_over : ∀ x, Over t.input t.cursor x → Over i f.cursor x
  below : Relation.ReflTransGen p.grammar.Child t.rule f.rule
  cursor_eq : ∃ n, f.cursor = (Cursor.advance n t.cursor t.input).1 ∧
    Cursor.position f.cursor = Cursor.position t.cursor + n
  misses : ∃ i' marks,
    Evaluates p.grammar p.config (.rule f.rule) 0 f.cursor i .mismatch i' marks

/-- A failure stays honest while other trials read on. -/
theorem Blamed.later (hs : Cursor.Shared Over) {i i' : σ} (h : p.Blamed Over t i f)
    (hstay : ∀ x, Over i f.cursor x → Over i' f.cursor x) : p.Blamed Over t i' f := by
  obtain ⟨x, hx⟩ := h.over_trial
  obtain ⟨_, _, e⟩ := h.misses
  have hplace : Cursor.SamePlace Over Over i i' f.cursor f.cursor :=
    ⟨x, h.still_over x hx, hstay x (h.still_over x hx), rfl⟩
  exact ⟨h.over_trial, fun y hy => hstay y (h.still_over y hy), h.below, h.cursor_eq,
    e.misses_across (hs.bridge hs) hplace (Nat.le_refl 0)⟩

theorem Leaves.blamed (hs : Cursor.Shared Over) {o : Outcome γ (Value π)}
    {marks : List (Mark γ π)} (h : p.Leaves s t o s' marks)
    (ht : ∃ x, Over t.input t.cursor x) (hf : .failed f ∈ marks) :
    p.Blamed Over t s'.input f := by
  obtain ⟨x, hx⟩ := ht
  obtain ⟨hblames, j, j', marks', hover, e⟩ := h.evaluates.honest hs hx trivial f hf
  obtain ⟨n, m, hnm, hcursor, hinput⟩ := (h.evaluates.reached (hs.steady hx)).2.2 f hf
  have hnow (y) (hy : Over t.input t.cursor y) : Over s'.input f.cursor y := by
    rw [hcursor, hinput]
    exact hs.over_advance hy hnm
  have hplace : Cursor.SamePlace Over Over j s'.input f.cursor f.cursor :=
    ⟨x, hover, hnow x hx, rfl⟩
  refine ⟨⟨x, hx⟩, hnow, ?_, ?_, e.misses_across (hs.bridge hs) hplace (Nat.le_refl 0)⟩
  · cases hblames with
    | below hid hbelow => exact List.mem_singleton.1 hid ▸ hbelow
  · obtain ⟨k, -, heq, hp⟩ := hs.exists_advance hx n
    rw [heq] at hcursor
    exact ⟨k, hcursor, (congrArg Cursor.position hcursor).trans hp⟩

/-- After a trial, what is kept is blamed in it or was blamed before. -/
theorem Leaves.kept (hs : Cursor.Shared Over) {o : Outcome γ (Value π)} {marks : List (Mark γ π)}
    (before : List (Trial γ σ)) (h : p.Leaves s t o s' marks)
    (ht : ∃ x, Over t.input t.cursor x) (hinput : t.input = s.input)
    (hbefore : ∀ f, s.failure = some f → ∃ t ∈ before, p.Blamed Over t s.input f) :
    ∀ f, s'.failure = some f → ∃ t' ∈ t :: before, p.Blamed Over t' s'.input f := by
  intro f hf
  rw [h.failure_eq] at hf
  rcases Failure.mem_of_foldl hf with hf | hf
  · obtain ⟨t', ht', hblamed⟩ := hbefore f hf
    obtain ⟨x, hx⟩ := ht
    rw [← hinput] at hblamed
    have hlater := hblamed.later hs fun y hy => h.evaluates.stays hs hx hy
    exact ⟨t', List.mem_cons_of_mem _ ht', hlater⟩
  · exact ⟨t, List.mem_cons_self, h.blamed hs ht (Mark.mem_failures.1 hf)⟩

theorem History.blamed (hs : Cursor.Shared Over) {trials : List (Trial γ σ)}
    (h : p.History s trials s') : ∀ before : List (Trial γ σ), s.depth = 0 →
      (∀ t ∈ trials, ∃ x, Over t.input t.cursor x) →
      (∀ f, s.failure = some f → ∃ t ∈ before, p.Blamed Over t s.input f) →
      ∀ f, s'.failure = some f → ∃ t, (t ∈ trials ∨ t ∈ before) ∧ p.Blamed Over t s'.input f := by
  induction h with
  | nil =>
    intro before _ _ hbefore f hf
    obtain ⟨t, ht, hblamed⟩ := hbefore f hf
    exact ⟨t, .inr ht, hblamed⟩
  | reset _ ih => exact fun before _ htrials _ => ih before rfl htrials nofun
  | run first _ ih =>
    intro before _ htrials _ f hf
    obtain ⟨htried, htrials⟩ := List.forall_mem_cons.1 htrials
    obtain ⟨marks, hl⟩ := first.leaves
    have hkept := hl.kept hs before htried rfl nofun
    obtain ⟨t, ht, hblamed⟩ := ih _ hl.depth_eq htrials hkept f hf
    exact ⟨t, by simpa [or_left_comm, or_assoc] using ht, hblamed⟩
  | matchRule first _ ih =>
    intro before hd htrials hbefore f hf
    obtain ⟨htried, htrials⟩ := List.forall_mem_cons.1 htrials
    obtain ⟨marks, hl⟩ := first.leaves hd
    have hkept := hl.kept hs before htried rfl hbefore
    obtain ⟨t, ht, hblamed⟩ := ih _ hl.depth_eq htrials hkept f hf
    exact ⟨t, by simpa [or_left_comm, or_assoc] using ht, hblamed⟩

/-- The failure reported after any calls on inputs that come to an end: it blames a rule
below one that was matched, at a cursor advanced from where that was; the error shows the
position and the element there, or the end of the input; and the rule does not match there
in a new parser. -/
theorem failure_honest (hs : Cursor.Shared Over) {i : σ} {trials : List (Trial γ σ)}
    (h : p.History (.fresh i) trials s)
    (hinput : ∀ t ∈ trials, ∃ x xs, Over t.input t.cursor x ∧ Cursor.Ends x xs)
    (hf : s.failure = some f) :
    ∃ t ∈ trials, p.grammar.contains f.rule = true ∧
      Relation.ReflTransGen p.grammar.Child t.rule f.rule ∧
      (∃ n, f.cursor = (Cursor.advance n t.cursor t.input).1 ∧
        Cursor.position f.cursor = Cursor.position t.cursor + n) ∧
      (∀ x xs, Over t.input t.cursor x → Cursor.Ends x xs → ∃ d, p.error? s = some d ∧
        d.position = Cursor.position f.cursor ∧ d.position ≤ xs.length ∧
        d.found = xs[d.position]?.map Element.display ∧
        (d.found = none ↔ d.position = xs.length)) ∧
      ∀ q : Parser γ ε π, q.grammar = p.grammar → q.config = p.config →
        ∃ s', q.Returns f.rule f.cursor (.fresh s.input) .mismatch s' := by
  have hover : ∀ t ∈ trials, ∃ x, Over t.input t.cursor x := by
    intro t ht
    obtain ⟨x, xs, hx, -⟩ := hinput t ht
    exact ⟨x, hx⟩
  obtain ⟨t, ht, hblamed⟩ := h.blamed hs [] rfl hover nofun f hf
  obtain ⟨i', marks, e⟩ := hblamed.misses
  refine ⟨t, ht.resolve_right nofun, e.contains, hblamed.below, hblamed.cursor_eq,
    fun x xs hx hends => ?_, fun q hgrammar hconfig => ?_⟩
  · have hthere := hblamed.still_over x hx
    have hle : Cursor.position f.cursor ≤ xs.length := hs.position_le hends hthere
    have hpeek : Cursor.peek f.cursor = xs[Cursor.position f.cursor]? :=
      hs.peek_of_ends hends hthere
    have herror : p.error? s = some ⟨Cursor.position f.cursor,
        (Cursor.peek f.cursor).map Element.display, f.rule, p.grammar.describe f.rule⟩ := by
      rw [error?, hf]
      rfl
    have hnone : (Cursor.peek f.cursor).map Element.display = none ↔
        Cursor.position f.cursor = xs.length := by
      rw [hpeek, Option.map_eq_none_iff, List.getElem?_eq_none_iff]
      omega
    exact ⟨_, herror, rfl, hle, congrArg (Option.map Element.display) hpeek, hnone⟩
  · rw [← hgrammar, ← hconfig] at e
    exact ⟨_, returns_iff.2 ⟨i', marks, e, rfl⟩⟩

/-- A group that is never closed: where the run ends, the parenthesis that was missed is
missed by a new parser too. -/
theorem groups_honest : ∃ s : RunState (SliceCursor Char) Unit Empty,
    (groupParser #['(', '(']).History (.fresh ()) [⟨⟨0⟩, .start #['(', '('], ()⟩] s ∧
    s.failure = some ⟨⟨#['(', '('], 2⟩, ⟨2⟩, 5⟩ ∧ groups.contains ⟨2⟩ = true ∧
    ∃ s', (groupParser #['(', '(']).Returns ⟨2⟩ ⟨#['(', '('], 2⟩ (.fresh ()) .mismatch s' := by
  obtain ⟨s, hs, hf⟩ : ∃ s, (groupParser #['(', '(']).Runs (.fresh ()) .mismatch s ∧
      s.failure = some ⟨⟨#['(', '('], 2⟩, ⟨2⟩, 5⟩ := ⟨_, ⟨20, rfl⟩, rfl⟩
  have hinput : ∀ t ∈ [(⟨⟨0⟩, .start #['(', '('], ()⟩ : Trial (SliceCursor Char) Unit)],
      ∃ x xs, SliceCursor.Over t.input t.cursor x ∧ Cursor.Ends x xs := by
    intro t ht
    rw [List.mem_singleton.1 ht]
    refine ⟨_, ['(', '('], SliceCursor.over_start _, fun n _ => ?_⟩
    exact Array.getElem?_toList.symm
  have hhistory : (groupParser #['(', '(']).History (.fresh ())
      [⟨⟨0⟩, .start #['(', '('], ()⟩] s := .run hs .nil
  obtain ⟨t, -, hknown, -, -, -, hmiss⟩ :=
    failure_honest SliceCursor.shared hhistory hinput hf
  exact ⟨s, hhistory, hf, hknown, hmiss _ rfl rfl⟩

end Parser
end PegMatcher
