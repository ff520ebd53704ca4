import PegMatcher.Proofs.Actions
import PegMatcher.Proofs.Inlining
import PegMatcher.Proofs.Peg.Adequacy
/-
Right recursion with collapse is repetition.

A list of items can be matched by a rule that matches an item and itself behind it, or else
nothing, and collapses the item and the list behind it into one list.  Where the item always
advances, this is the repetition of the item: one matches exactly when the other does, at the
same cursor and with the same elements, and the same failure is left.  The repetition collects
its results on the way, while the rule builds its list from the end, an element deeper each time;
so the failures of the two are those of the same rules at the same cursors in the same order,
nested deeper in the rule.
-/
namespace PegMatcher

variable {γ ε σ π : Type}

/-- A placeholder for a list of items that is right recursive, and the repetition of the item. -/
structure Grammar.RightRecursion (g : Grammar ε π) where
  item : RuleId
  list : RuleId
  choice : RuleId
  joined : RuleId
  pair : RuleId
  empty : RuleId
  star : RuleId
  list_rule : g.rule? list = some (.placeholder choice)
  choice_rule : g.rule? choice = some (.firstOf [joined, empty])
  joined_rule : g.rule? joined = some (.handler pair .collapse)
  pair_rule : g.rule? pair = some (.sequence [item, list])
  empty_rule : g.rule? empty = some .emptyVector
  star_rule : g.rule? star = some (Rule.zeroOrMore item)

/-! ## Collapsed lists -/

/-- An item and the list behind it collapse into the list of both. -/
theorem Action.collapse_pair [Payload π] (kind : Kind) (a : Value π) (items : List (Value π)) :
    (collapse.apply kind (kind.collect [a, kind.collect items])).1 =
      kind.collect (a :: items) := by
  rw [apply_collapse_pair]
  exact congrArg Value.vector (kind.insertBefore_create a items)

/-! ## Evaluations by their rules -/

theorem Rule.constant?_of_accepts [Element ε] {rule : Rule ε π} {accepts : ε → Bool} {kind : Kind}
    (h : rule.accepts? = some accepts) : rule.constant? kind = none := by
  cases rule with
  | any | literal | test => rfl
  | _ => cases h

variable [Cursor γ ε σ] [Element ε] [ElementValue ε π] [Payload π]

namespace Evaluates

variable {g : Grammar ε π} {config : Config} {d d' : Nat} {c : γ} {i i' : σ}
  {o : Outcome γ (Value π)} {marks : List (Mark γ π)} {id : RuleId}

/-- A rule that is not aborted for depth ends the same at a smaller depth, with the same
failures. -/
theorem shallower (e : Evaluates g config (.rule id) d c i o i' marks) (hle : d' ≤ d)
    (ho : ¬o.TooDeep) : ∃ marks', Evaluates g config (.rule id) d' c i o i' marks' ∧
      List.Forall₂ Failure.Shallower (Mark.failures marks) (Mark.failures marks') := by
  obtain ⟨marks', e', hm⟩ := e.inlined g.inlined_refl (.rule (g.inlines_refl id)) hle ho
  exact ⟨marks', e', hm.failures⟩

/-- A rule that nests is aborted at once, or there is room and it ends as what is inside it
does. -/
theorem nested_cases {rule : Rule ε π} {goal : Goal π} (hrule : g.rule? id = some rule)
    (hgoal : rule.inside? id = some goal)
    (e : Evaluates g config (.rule id) d c i o i' marks) :
    (∃ limit, config.maxDepth = some limit ∧ o = .aborted (.tooDeep limit (Cursor.position c))) ∨
      (∀ limit, config.maxDepth = some limit → d < limit) ∧
        ∃ marks', marks = .entered (d + 1) :: marks' ∧
          Evaluates g config goal (d + 1) c i o i' marks' := by
  have hnested {rule' : Rule ε π} (h : g.rule? id = some rule') : rule'.inside? id = some goal :=
    Option.some.inj (hrule.symm.trans h) ▸ hgoal
  cases e with
  | nested h hg hl body =>
    obtain rfl := Option.some.inj ((hnested h).symm.trans hg)
    exact .inr ⟨hl, _, rfl, body⟩
  | tooDeep _ _ hlimit => exact .inl ⟨_, hlimit, rfl⟩
  | unknown h =>
    rw [hrule] at h
    cases h
  | constant h hv =>
    have hgoal := hnested h
    rw [(Rule.alone_of_constant hv id).1] at hgoal
    cases hgoal
  | element h ha | elementMissed h ha =>
    have hgoal := hnested h
    rw [(Rule.alone_of_accepts ha id).1] at hgoal
    cases hgoal
  | endReached h | endMissed h | word h | wordMissed h | lookahead h => cases hnested h

/-- Without a limit, a rule that nests ends as what is inside it does. -/
theorem of_inside {rule : Rule ε π} {goal : Goal π} (hrule : g.rule? id = some rule)
    (hgoal : rule.inside? id = some goal) (hl : config.maxDepth = none)
    (e : Evaluates g config (.rule id) d c i o i' marks) :
    ∃ marks', Evaluates g config goal (d + 1) c i o i' marks' ∧
      Mark.failures marks = Mark.failures marks' := by
  rcases e.nested_cases hrule hgoal with ⟨limit, hlimit, -⟩ | ⟨-, marks', rfl, body⟩
  · rw [hl] at hlimit
    cases hlimit
  · exact ⟨marks', body, rfl⟩

/-- A rule that takes an element leaves it behind. -/
theorem position_lt_of_accepts {Over : σ → γ → (Nat → Option ε) → Prop}
    (hs : Cursor.Shared Over) {x : Nat → Option ε} (hc : Over i c x) {rule : Rule ε π}
    {accepts : ε → Bool} (hrule : g.rule? id = some rule)
    (haccepts : rule.accepts? = some accepts) {c' : γ} {v : Value π}
    (e : Evaluates g config (.rule id) d c i (.matched c' v) i' marks) :
    Cursor.position c < Cursor.position c' := by
  have halone := (Rule.alone_of_accepts haccepts id).known hrule
  have hsame {rule' : Rule ε π} (h : g.rule? id = some rule') : rule'.accepts? = some accepts :=
    Option.some.inj (hrule.symm.trans h) ▸ haccepts
  generalize ho : (Outcome.matched c' v : Outcome γ (Value π)) = o at e
  cases e with
  | element _ _ hpeek _ =>
    obtain ⟨rfl, -⟩ := Outcome.matched.inj ho
    rw [hs.position_next hc (Option.isSome_of_eq_some hpeek)]
    exact Nat.lt_succ_self _
  | constant h hv =>
    rw [Rule.constant?_of_accepts (hsame h)] at hv
    cases hv
  | endReached h | word h => cases hsame h
  | lookahead h => exact absurd rfl ((halone _ h).2 _ _)
  | nested h hgoal =>
    rw [(halone _ h).1] at hgoal
    cases hgoal
  | elementMissed | endMissed | wordMissed | tooDeep | unknown => cases ho

end Evaluates

/-! ## A list one item at a time -/

/-- What a match is made of that goes on while there are items: the item does not match, and the
outcome is what it is without items, or an item matches with a list behind it, and they are
collapsed.  The failures are those of the item and of the list. -/
inductive Grammar.RightRecursion.Parts {g : Grammar ε π} (r : g.RightRecursion) (config : Config)
    (d : Nat) (c : γ) (i i' : σ) (marks : List (Mark γ π)) (without : Outcome γ (Value π)) :
    Outcome γ (Value π) → Prop
  | none {marks₁} (item : Evaluates g config (.rule r.item) d c i .mismatch i' marks₁)
      (failures_eq : Mark.failures marks = Mark.failures marks₁) :
      Parts r config d c i i' marks without without
  | more {c₁ a i₁ marks₁ c₂ v marks₂}
      (item : Evaluates g config (.rule r.item) d c i (.matched c₁ a) i₁ marks₁)
      (list : Evaluates g config (.rule r.list) d c₁ i₁ (.matched c₂ v) i' marks₂)
      (failures_eq : Mark.failures marks = Mark.failures marks₁ ++ Mark.failures marks₂) :
      Parts r config d c i i' marks without
        (.matched c₂ (Action.collapse.apply config.kind (config.kind.collect [a, v])).1)

namespace Grammar.RightRecursion

variable {g : Grammar ε π} (r : g.RightRecursion) {config : Config} {d : Nat} {c : γ} {i i' : σ}
  {o : Outcome γ (Value π)} {marks : List (Mark γ π)}

theorem empty_matches (e : Evaluates g config (.rule r.empty) d c i o i' marks) :
    o = .matched c (config.kind.collect []) ∧ i' = i ∧ Mark.failures marks = [] := by
  have hrule {rule : Rule ε π} (h : g.rule? r.empty = some rule) : rule = .emptyVector :=
    Option.some.inj (h.symm.trans r.empty_rule)
  cases e with
  | constant h hv =>
    cases hrule h
    obtain rfl := Option.some.inj hv
    refine ⟨?_, rfl, rfl⟩
    rw [Kind.collect]
    cases config.kind <;> rfl
  | element h ha | elementMissed h ha =>
    cases hrule h
    cases ha
  | nested h hg | tooDeep h hg =>
    cases hrule h
    cases hg
  | endReached h | endMissed h | word h | wordMissed h | lookahead h => cases hrule h
  | unknown h =>
    rw [r.empty_rule] at h
    cases h

variable (hg : g.Closed) (hl : config.maxDepth = none)
include hg hl

/-- The last alternative of a list always matches. -/
theorem list_matches (e : Evaluates g config (.rule r.list) d c i o i' marks) :
    ∃ c' v, o = .matched c' v := by
  have hknown : (Goal.rule r.list).Within g :=
    Goal.within_rule.2 (Grammar.contains_iff.2 ⟨_, r.list_rule⟩)
  have haborted := e.not_aborted hg hl hknown
  obtain ⟨_, e, -⟩ := e.of_inside r.list_rule rfl hl
  obtain ⟨_, e, -⟩ := e.of_inside r.choice_rule rfl hl
  cases e with
  | choiceStop _ ho =>
    cases o with
    | matched c' v => exact ⟨c', v, rfl⟩
    | mismatch => exact absurd rfl ho
    | aborted cause => exact absurd rfl (haborted cause)
  | choiceNext _ rest =>
    cases rest with
    | choiceStop last _ => exact ⟨_, _, (r.empty_matches last).1⟩
    | choiceNext last _ => cases (r.empty_matches last).1

/-- The first alternative of a list is an item and the list behind it, collapsed. -/
theorem joined_parts (e : Evaluates g config (.rule r.joined) d c i o i' marks) :
    r.Parts config (d + 2) c i i' marks .mismatch o := by
  have hknown : (Goal.rule r.joined).Within g :=
    Goal.within_rule.2 (Grammar.contains_iff.2 ⟨_, r.joined_rule⟩)
  have haborted := e.not_aborted hg hl hknown
  obtain ⟨_, e, hmarks⟩ := e.of_inside r.joined_rule rfl hl
  cases e with
  | handledMatched child =>
    obtain ⟨_, e, hpair⟩ := child.of_inside r.pair_rule rfl hl
    cases e with
    | sequenceStop _ ho => exact absurd rfl (ho _ _)
    | sequenceNext first rest =>
      cases rest with
      | sequenceStop _ ho => exact absurd rfl (ho _ _)
      | sequenceNext second done =>
        cases done
        refine .more first second (hmarks.trans ?_)
        rw [Mark.failures_append, Mark.failures_warnings, List.append_nil, hpair,
          List.append_nil, Mark.failures_append]
  | handledStop child ho =>
    obtain ⟨_, e, hpair⟩ := child.of_inside r.pair_rule rfl hl
    cases e with
    | sequenceStop first _ =>
      cases o with
      | matched c' v => exact absurd rfl (ho c' v)
      | mismatch => exact .none first (hmarks.trans hpair)
      | aborted cause => exact absurd rfl (haborted cause)
    | sequenceNext first rest =>
      cases rest with
      | sequenceStop second hsecond =>
        obtain ⟨c', v, rfl⟩ := r.list_matches hg hl second
        exact absurd rfl (ho c' v)
      | sequenceNext second done =>
        cases done
        exact absurd rfl (ho _ _)

/-- A list is empty where the item does not match, or it is an item and the list behind it. -/
theorem list_parts (e : Evaluates g config (.rule r.list) d c i o i' marks) :
    r.Parts config (d + 4) c i i' marks (.matched c (config.kind.collect [])) o := by
  obtain ⟨_, e, hlist⟩ := e.of_inside r.list_rule rfl hl
  obtain ⟨_, e, hchoice⟩ := e.of_inside r.choice_rule rfl hl
  have hmarks := hlist.trans hchoice
  cases e with
  | choiceStop first ho =>
    cases r.joined_parts hg hl first with
    | none => exact absurd rfl ho
    | more item list hfirst => exact .more item list (hmarks.trans hfirst)
  | choiceNext first rest =>
    cases r.joined_parts hg hl first with
    | none item hfirst =>
      cases rest with
      | choiceStop last _ =>
        obtain ⟨rfl, rfl, hlast⟩ := r.empty_matches last
        refine .none item (hmarks.trans ?_)
        rw [Mark.failures_append, hfirst, hlast, List.append_nil]
      | choiceNext last _ => cases (r.empty_matches last).1

end Grammar.RightRecursion

/-! ## A list by the relation -/

namespace Grammar.RightRecursion

variable {g : Grammar ε π} (r : g.RightRecursion) {kind : Kind} {xs ys zs : List ε}
  {a v : Value π}

theorem yields_none (h : g.Refuses kind r.item xs) :
    g.Yields kind r.list xs xs (.vector kind.empty) := by
  have hpair : Peg g kind (.rule r.pair) xs none := .nested r.pair_rule rfl (.sequenceStop h)
  have hjoined : Peg g kind (.rule r.joined) xs none :=
    .nested r.joined_rule rfl (.handledMissed hpair)
  have hempty : Peg g kind (.rule r.empty) xs (some (xs, .vector kind.empty)) :=
    .constant r.empty_rule rfl
  exact .nested r.list_rule rfl
    (.nested r.choice_rule rfl (.choiceNext hjoined (.choiceTaken hempty)))

theorem yields_more (hitem : g.Yields kind r.item xs ys a) (hlist : g.Yields kind r.list ys zs v) :
    g.Yields kind r.list xs zs
      (Action.collapse.apply kind (kind.collect [a, v])).1 := by
  have hpair : Peg g kind (.rule r.pair) xs (some (zs, kind.collect [a, v])) :=
    .nested r.pair_rule rfl (.sequenceNext hitem (.sequenceNext hlist .sequenceDone))
  have hjoined : Peg g kind (.rule r.joined) xs
      (some (zs, (Action.collapse.apply kind (kind.collect [a, v])).1)) :=
    .nested r.joined_rule rfl (.handledMatched hpair)
  exact .nested r.list_rule rfl (.nested r.choice_rule rfl (.choiceTaken hjoined))

end Grammar.RightRecursion

/-! ## The list and the repetition side by side -/

/-- Where a rule matches over an input that ends, what is left of the input is what the relation
of parsing expression grammars leaves. -/
theorem Evaluates.yields {g : Grammar ε π} {config : Config} {d : Nat} {c c' : γ} {i i' : σ}
    {id : RuleId} {v : Value π} {marks : List (Mark γ π)}
    {Over : σ → γ → (Nat → Option ε) → Prop} (hs : Cursor.Shared Over) {x : Nat → Option ε}
    {xs : List ε} (hx : Cursor.Ends x xs) (hc : Over i c x)
    (e : Evaluates g config (.rule id) d c i (.matched c' v) i' marks) :
    g.Yields config.kind id (xs.drop (Cursor.position c)) (xs.drop (Cursor.position c')) v := by
  have hreads := hs.reads hx hc
  rcases e.peg hreads rfl rfl (Nat.le_refl 0) (Nat.zero_le _) with ⟨_, ho⟩ | ⟨answer, ha, hpeg⟩
  · cases ho
  · obtain ⟨n, hn, rfl, rfl⟩ := ha.of_matched
    rw [hreads.position_eq n hn, ← List.drop_drop]
    exact hpeg

theorem Evaluates.refuses {g : Grammar ε π} {config : Config} {d : Nat} {c : γ} {i i' : σ}
    {id : RuleId} {marks : List (Mark γ π)}
    {Over : σ → γ → (Nat → Option ε) → Prop} (hs : Cursor.Shared Over) {x : Nat → Option ε}
    {xs : List ε} (hx : Cursor.Ends x xs) (hc : Over i c x)
    (e : Evaluates g config (.rule id) d c i .mismatch i' marks) :
    g.Refuses config.kind id (xs.drop (Cursor.position c)) := by
  have hreads := hs.reads hx hc
  rcases e.peg hreads rfl rfl (Nat.le_refl 0) (Nat.zero_le _) with ⟨_, ho⟩ | ⟨answer, ha, hpeg⟩
  · cases ho
  · rw [ha.of_mismatch] at hpeg
    exact hpeg

/-- Whatever a rule matches at a cursor over an input ends behind the cursor. -/
def Grammar.Advances (g : Grammar ε π) (config : Config) (Over : σ → γ → (Nat → Option ε) → Prop)
    (x : Nat → Option ε) (id : RuleId) : Prop :=
  ∀ {d : Nat} {c c' : γ} {i i' : σ} {v : Value π} {marks : List (Mark γ π)}, Over i c x →
    Evaluates g config (.rule id) d c i (.matched c' v) i' marks →
      Cursor.position c < Cursor.position c'

namespace Grammar.RightRecursion

variable {g : Grammar ε π} (r : g.RightRecursion) {config : Config}
  {Over : σ → γ → (Nat → Option ε) → Prop} (hs : Cursor.Shared Over) {x : Nat → Option ε}
  {xs : List ε} (hx : Cursor.Ends x xs) (hadvances : g.Advances config Over x r.item)
include hs hx hadvances

/-- A list is matched where the rounds of the repetition end, in whatever depth these are up to
that of the first item; behind any results they collect the same items and leave the failures
of the list. -/
theorem rounds_of_list (hg : g.Closed) (hl : config.maxDepth = none) {D : Nat} {c : γ} {i i' : σ}
    {o : Outcome γ (Value π)} {marks : List (Mark γ π)} (hc : Over i c x)
    (e : Evaluates g config (.rule r.list) D c i o i' marks) :
    ∃ c' items, o = .matched c' (config.kind.collect items) ∧
      ∀ d results, d ≤ D + 4 → ∃ marks',
        Evaluates g config (.rounds r.star r.item 0 none results) d c i
          (.matched c' (config.kind.collect (results.reverse ++ items))) i' marks' ∧
        List.Forall₂ Failure.Shallower (Mark.failures marks) (Mark.failures marks') := by
  induction hn : xs.length - Cursor.position c using Nat.strongRecOn
    generalizing D c i o i' marks with
  | _ n ih =>
    have hmax (results : List (Value π)) : ∀ n, none = some n → results.length < n := nofun
    cases r.list_parts hg hl e with
    | none hitem hmarks =>
      refine ⟨c, [], rfl, fun d results hd => ?_⟩
      obtain ⟨marks', hitem', hfailures⟩ := hitem.shallower hd nofun
      rw [List.append_nil, hmarks]
      exact ⟨marks', .roundsEnough (hmax results) hitem' (Nat.zero_le _), hfailures⟩
    | @more c₁ a i₁ marks₁ c₂ v marks₂ hitem hlist hmarks =>
      have hc₁ := hitem.over_matched hs hc
      have hlt := hadvances hc hitem
      have hle := hs.position_le hx hc₁
      obtain ⟨c', items, ho, hrounds⟩ := ih _ (by omega) hc₁ hlist rfl
      obtain ⟨rfl, rfl⟩ := Outcome.matched.inj ho
      refine ⟨c₂, a :: items, by rw [Action.collapse_pair], fun d results hd => ?_⟩
      obtain ⟨marks₁', hitem', hfailures₁⟩ := hitem.shallower hd nofun
      obtain ⟨marks₂', hrest, hfailures₂⟩ := hrounds d (a :: results) (by omega)
      rw [List.reverse_cons, List.append_assoc] at hrest
      refine ⟨_, .roundsNext (hmax results) hitem' (fun _ _ => hlt) hrest, ?_⟩
      rw [hmarks, Mark.failures_append]
      exact List.rel_append hfailures₁ hfailures₂

/-- Where the rounds of the repetition end, the list matches too. -/
theorem list_of_rounds {goal : Goal π} {d : Nat} {c : γ} {i i' : σ} {o : Outcome γ (Value π)}
    {marks : List (Mark γ π)} (e : Evaluates g config goal d c i o i' marks) :
    ∀ results, goal = .rounds r.star r.item 0 none results → Over i c x →
      (∀ cause, o ≠ .aborted cause) →
        ∃ ys v, g.Yields config.kind r.list (xs.drop (Cursor.position c)) ys v := by
  induction e with
  | roundsFull hm =>
    intro results hgoal
    cases hgoal
    cases hm
  | roundsNext _ first _ _ _ ih =>
    intro results hgoal hc ho
    cases hgoal
    obtain ⟨ys, v, hlist⟩ := ih _ rfl (first.over_matched hs hc) ho
    exact ⟨ys, _, r.yields_more (first.yields hs hx hc) hlist⟩
  | roundsLast first _ still =>
    intro results hgoal hc ho
    cases hgoal
    exact absurd still (Nat.not_le_of_lt (hadvances hc first))
  | roundsEnough _ first =>
    intro results hgoal hc ho
    cases hgoal
    exact ⟨_, _, r.yields_none (first.refuses hs hx hc)⟩
  | roundsShort _ _ hn =>
    intro results hgoal
    cases hgoal
    cases hn
  | roundsAborted => exact fun _ _ _ ho => absurd rfl (ho _)
  | _ =>
    intro results hgoal
    cases hgoal

end Grammar.RightRecursion

/-! ## The list and the repetition in a state -/

namespace Grammar.RightRecursion

variable {p : Parser γ ε π} {c : γ} {s s' : RunState γ σ π} {o : Outcome γ (Value π)}
  {Over : σ → γ → (Nat → Option ε) → Prop} {x : Nat → Option ε} {xs : List ε}
  (r : p.grammar.RightRecursion) (hg : p.grammar.Closed) (hl : p.config.maxDepth = none)
  (hs : Cursor.Shared Over) (hx : Cursor.Ends x xs) (hc : Over s.input c x)
  (hadvances : p.grammar.Advances p.config Over x r.item)
include hg hl hs hx hc hadvances

/-- Where the list ends in a state, the repetition does, with the same items and failure. -/
theorem returns_star (h : p.Returns r.list c s o s') :
    ∃ c' items s'', o = .matched c' (p.config.kind.collect items) ∧
      p.Returns r.star c s (.matched c' (p.config.kind.collect items)) s'' ∧
      s'.input = s''.input ∧ Option.Rel Failure.Shallower s'.failure s''.failure := by
  obtain ⟨i', marks, e, rfl⟩ := Parser.returns_iff.1 h
  obtain ⟨c', items, ho, hrounds⟩ := r.rounds_of_list hs hx hadvances hg hl hc e
  obtain ⟨marks', hstar, hfailures⟩ := hrounds (s.depth + 1) [] (by omega)
  have hlimit (limit : Nat) (h : p.config.maxDepth = some limit) : s.depth < limit := by
    rw [hl] at h
    cases h
  refine ⟨c', items, _, ho,
    Parser.returns_iff.2 ⟨i', _, .nested r.star_rule rfl hlimit hstar, rfl⟩, rfl, ?_⟩
  rw [RunState.failure_after, RunState.failure_after]
  have hposition (f f' : Failure γ) (hf : f.Shallower f') : f.position + 0 = f'.position + 0 :=
    congrArg Cursor.position hf.cursor_eq
  have hstart : Option.Rel Failure.Shallower s.failure s.failure := by
    cases s.failure with
    | none => exact .none
    | some f => exact .some ⟨rfl, rfl, Nat.le_refl _⟩
  exact Failure.foldl_further_related hposition hfailures hstart

theorem yields_list (h : p.Returns r.star c s o s') :
    ∃ ys v, p.grammar.Yields p.config.kind r.list (xs.drop (Cursor.position c)) ys v := by
  obtain ⟨i', marks, e, -⟩ := Parser.returns_iff.1 h
  have hknown : (Goal.rule r.star).Within p.grammar :=
    Goal.within_rule.2 (Grammar.contains_iff.2 ⟨_, r.star_rule⟩)
  have haborted := e.not_aborted hg hl hknown
  obtain ⟨_, hrounds, -⟩ := e.of_inside r.star_rule rfl hl
  exact r.list_of_rounds hs hx hadvances hrounds [] rfl hc fun cause ho => haborted cause ho

end Grammar.RightRecursion

namespace Parser

variable {p : Parser γ ε π} {c : γ} {s : RunState γ σ π}
  {Over : σ → γ → (Nat → Option ε) → Prop} {x : Nat → Option ε} {xs : List ε}

/-- Whenever a rule matches at a cursor over an input, it advances. -/
def Advances (p : Parser γ ε π) (Over : σ → γ → (Nat → Option ε) → Prop) (x : Nat → Option ε)
    (id : RuleId) : Prop :=
  ∀ (s s' : RunState γ σ π) (c c' : γ) (v : Value π), Over s.input c x →
    p.Returns id c s (.matched c' v) s' → Cursor.position c < Cursor.position c'

theorem Advances.evaluates {id : RuleId} (h : p.Advances Over x id) :
    p.grammar.Advances p.config Over x id := by
  intro d c c' i i' v marks hc e
  exact h ⟨d, 0, none, [], i⟩ _ c c' v hc (returns_iff.2 ⟨i', marks, e, rfl⟩)

/-- A right recursive list of an item that advances and the repetition of the item, matched in
the same state at the same cursor over an input that ends: one ends when the other does, and then
both match at the same cursor, with vectors of the configured kind that hold the same items, and
leave the same failure, nested no deeper by the repetition. -/
theorem right_recursion_repeats {b : Builder ε π} (hb : b.build = .ok p.grammar)
    (r : p.grammar.RightRecursion) (hl : p.config.maxDepth = none) (hs : Cursor.Shared Over)
    (hx : Cursor.Ends x xs) (hc : Over s.input c x) (hadvances : p.Advances Over x r.item) :
    ((∃ o s', p.Returns r.list c s o s') ↔ ∃ o s', p.Returns r.star c s o s') ∧
      ∀ o₁ s₁ o₂ s₂, p.Returns r.list c s o₁ s₁ → p.Returns r.star c s o₂ s₂ →
        ∃ c' items, o₁ = .matched c' (p.config.kind.collect items) ∧
          o₂ = .matched c' (p.config.kind.collect items) ∧ s₁.input = s₂.input ∧
          Option.Rel Failure.Shallower s₁.failure s₂.failure := by
  have hg : p.grammar.Closed := (Builder.build_ok hb).2.2
  have hrepeats {o : Outcome γ (Value π)} {s' : RunState γ σ π}
      (h : p.Returns r.list c s o s') := r.returns_star hg hl hs hx hc hadvances.evaluates h
  refine ⟨⟨fun ⟨o, s', h⟩ => ?_, fun ⟨o, s', h⟩ => ?_⟩, fun o₁ s₁ o₂ s₂ h₁ h₂ => ?_⟩
  · obtain ⟨_, _, s'', -, hstar, -⟩ := hrepeats h
    exact ⟨_, s'', hstar⟩
  · obtain ⟨_, _, hlist⟩ := r.yields_list hg hl hs hx hc hadvances.evaluates h
    obtain ⟨o', s'', -, h'⟩ := Peg.returns (hs.reads hx hc) hl hlist
    exact ⟨o', s'', h'⟩
  · obtain ⟨c', items, s', ho, hstar, hinput, hfailure⟩ := hrepeats h₁
    obtain ⟨rfl, rfl⟩ := h₂.unique hstar
    exact ⟨c', items, ho, rfl, hinput, hfailure⟩

/-! ## Groups in groups -/

/-- A group is a list of groups between brackets. -/
def nestedCalls : List (Builder.Call Char Empty) :=
  [.add (.literal '('), .add (.literal ')'), .placeholder, .add (.sequence [⟨0⟩, ⟨2⟩, ⟨1⟩]),
    .add (.sequence [⟨3⟩, ⟨2⟩]), .add (.handler ⟨4⟩ .collapse), .add .emptyVector,
    .add (.firstOf [⟨5⟩, ⟨6⟩]), .define ⟨2⟩ ⟨7⟩, .add (Rule.zeroOrMore ⟨3⟩)]

def nested : Grammar Char Empty :=
  ⟨#[.literal '(', .literal ')', .placeholder ⟨7⟩, .sequence [⟨0⟩, ⟨2⟩, ⟨1⟩],
    .sequence [⟨3⟩, ⟨2⟩], .handler ⟨4⟩ .collapse, .emptyVector, .firstOf [⟨5⟩, ⟨6⟩],
    Rule.zeroOrMore ⟨3⟩], []⟩

def nested_rightRecursion : nested.RightRecursion :=
  ⟨⟨3⟩, ⟨2⟩, ⟨7⟩, ⟨5⟩, ⟨4⟩, ⟨6⟩, ⟨8⟩, rfl, rfl, rfl, rfl, rfl, rfl⟩

def nestedParser (xs : List Char) : Parser (SliceCursor Char) Char Empty :=
  ⟨nested, ⟨2⟩, .start xs.toArray, ⟨.cons, none⟩⟩

theorem nested_advances (xs : List Char) :
    (nestedParser xs).Advances SliceCursor.Over (fun n => xs.toArray[n]?) ⟨3⟩ := by
  intro s s' c c' v hc h
  obtain ⟨i', marks, e, -⟩ := returns_iff.1 h
  have hitem : nested.rule? ⟨3⟩ = some (.sequence [⟨0⟩, ⟨2⟩, ⟨1⟩]) := rfl
  have hopening : nested.rule? ⟨0⟩ = some (.literal '(') := rfl
  obtain ⟨_, e, -⟩ := e.of_inside hitem rfl rfl
  cases e with
  | sequenceStop _ ho => exact absurd rfl (ho _ _)
  | sequenceNext first rest =>
    have hlt := first.position_lt_of_accepts SliceCursor.shared hc hopening rfl
    have hle := rest.position_le SliceCursor.shared (first.over_matched SliceCursor.shared hc)
    exact Nat.lt_of_lt_of_le hlt hle

/-- A group, a group with a group inside, and a bracket too many. -/
def nestedText : List Char :=
  ['(', ')', '(', '(', ')', ')', ')']

theorem nested_repeats : (Builder.after nestedCalls).build = .ok nested ∧
    (nestedParser nestedText).Advances SliceCursor.Over (fun n => nestedText.toArray[n]?) ⟨3⟩ ∧
    ∃ o₁ s₁ o₂ s₂ c' items,
      (nestedParser nestedText).Returns ⟨2⟩ (.start nestedText.toArray) (.fresh ()) o₁ s₁ ∧
      (nestedParser nestedText).Returns ⟨8⟩ (.start nestedText.toArray) (.fresh ()) o₂ s₂ ∧
      o₁ = .matched c' (Kind.cons.collect items) ∧
      o₂ = .matched c' (Kind.cons.collect items) ∧
      Option.Rel Failure.Shallower s₁.failure s₂.failure := by
  have hlist : (nestedParser nestedText).Returns ⟨2⟩ (.start nestedText.toArray) (.fresh ()) _ _ :=
    ⟨40, rfl⟩
  have hstar : (nestedParser nestedText).Returns ⟨8⟩ (.start nestedText.toArray) (.fresh ()) _ _ :=
    ⟨40, rfl⟩
  obtain ⟨-, hsame⟩ := right_recursion_repeats (p := nestedParser nestedText)
    (b := Builder.after nestedCalls) rfl nested_rightRecursion rfl SliceCursor.shared
    (SliceCursor.ends_toArray nestedText) (SliceCursor.over_start nestedText.toArray)
    (nested_advances nestedText)
  obtain ⟨c', items, h₁, h₂, -, hfailure⟩ := hsame _ _ _ _ hlist hstar
  exact ⟨rfl, nested_advances nestedText, _, _, _, _, c', items, hlist, hstar, h₁, h₂, hfailure⟩

end Parser
end PegMatcher
