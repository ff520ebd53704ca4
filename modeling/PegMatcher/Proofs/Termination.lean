import Mathlib.Data.Fintype.EquivFin
import Mathlib.Logic.Relation
import Mathlib.Order.WellFounded
import PegMatcher.Proofs.Peg.Adequacy
/-
Which grammars end under a depth limit.

Every rule that nests takes one from the depth that is left, so under a limit only the
rules that do not nest can go on for ever.  Of these only lookaheads have children.  A
grammar therefore ends on all inputs exactly when no chain of lookaheads leads back to
where it began.  Left recursion, cycles through placeholders and repetitions of what
consumes nothing do no harm.

The measure of an attempt has three parts: the depth left, the rank of a rule among the
lookaheads, and within a repetition the rounds left, which without a maximum are the
results still required and the elements left.
-/
namespace PegMatcher

variable {γ ε σ π : Type}

/-! ## Chains of lookaheads -/

namespace Grammar

/-- A rule is a lookahead at another rule. -/
def LooksAhead (g : Grammar ε π) (id child : RuleId) : Prop :=
  ∃ negated, g.rule? id = some (.lookahead child negated)

theorem LooksAhead.lt_size {g : Grammar ε π} {id child : RuleId} (h : g.LooksAhead id child) :
    id.index < g.size := by
  obtain ⟨negated, h⟩ := h
  exact of_decide_eq_true (contains_iff.2 ⟨_, h⟩)

theorem LooksAhead.unique {g : Grammar ε π} {id child other : RuleId}
    (h : g.LooksAhead id child) (h' : g.LooksAhead id other) : child = other := by
  obtain ⟨_, h⟩ := h
  obtain ⟨_, h'⟩ := h'
  rw [h] at h'
  cases h'
  rfl

/-- Without a cycle the lookaheads of a grammar have a rank, since there are finitely many. -/
theorem wellFounded_looksAhead {g : Grammar ε π}
    (h : ∀ id, ¬Relation.TransGen g.LooksAhead id id) :
    WellFounded fun child id => g.LooksAhead id child := by
  have hrank : WellFounded fun child id : Fin g.size =>
      Relation.TransGen g.LooksAhead ⟨id⟩ ⟨child⟩ := by
    have : IsTrans (Fin g.size) fun child id => Relation.TransGen g.LooksAhead ⟨id⟩ ⟨child⟩ :=
      ⟨fun _ _ _ hab hbc => hbc.trans hab⟩
    have : Std.Irrefl fun child id : Fin g.size => Relation.TransGen g.LooksAhead ⟨id⟩ ⟨child⟩ :=
      ⟨fun id => h ⟨id⟩⟩
    exact Finite.wellFounded_of_trans_of_irrefl _
  -- a number beyond the grammar is no lookahead
  have hall : ∀ id : RuleId, (∀ hlt : id.index < g.size,
      Acc (fun child id => g.LooksAhead id child) ⟨(⟨id.index, hlt⟩ : Fin g.size)⟩) →
      Acc (fun child id => g.LooksAhead id child) id := fun id hid =>
    .intro _ fun child hchild => (hid hchild.lt_size).inv hchild
  refine ⟨fun id => hall id fun hlt => ?_⟩
  generalize (⟨id.index, hlt⟩ : Fin g.size) = n
  induction n using hrank.induction with
  | _ n ih => exact .intro _ fun child hchild => hall child fun hlt => ih _ (.single hchild)

end Grammar

/-- In a grammar composed call by call a lookahead looks at an earlier rule. -/
theorem Builder.Composed.looksAhead_lt {ids : List RuleId} {b : Builder ε π} {g : Grammar ε π}
    (h : Composed issued ids b) (hb : b.build = .ok g) {id child : RuleId}
    (hid : g.LooksAhead id child) : child.index < id.index := by
  obtain ⟨negated, hrule⟩ := hid
  have hslot : b.slots[id.index]? = some (some (.lookahead child negated)) := by
    rw [slots_of_build hb]
    exact congrArg (Option.map some) hrule
  rcases h.children_earlier hslot with ⟨target, ⟨⟩⟩ | hchildren
  exact hchildren child (List.mem_singleton.2 rfl)

/-- Along a chain of lookaheads the numbers go down, so that it does not come back. -/
theorem Builder.Composed.acyclic {ids : List RuleId} {b : Builder ε π} {g : Grammar ε π}
    (h : Composed issued ids b) (hb : b.build = .ok g) (id : RuleId) :
    ¬Relation.TransGen g.LooksAhead id id := by
  have hlt : ∀ start id, Relation.TransGen g.LooksAhead start id → id.index < start.index := by
    intro start id hchain
    induction hchain with
    | single hstep => exact h.looksAhead_lt hb hstep
    | tail _ hstep ih => exact Nat.lt_trans (h.looksAhead_lt hb hstep) ih
  exact fun hcycle => Nat.lt_irrefl _ (hlt id id hcycle)

variable [Cursor γ ε σ] [Element ε] [ElementValue ε π] [Payload π]

/-! ## Every goal settles -/

section
variable {g : Grammar ε π} {config : Config} {c₀ : γ} {i₀ : σ} {xs : List ε} {d : Nat}

/-- At a depth a goal comes to an end at every place of an input. -/
def Settles (g : Grammar ε π) (config : Config) (c₀ : γ) (i₀ : σ) (xs : List ε) (d : Nat)
    (goal : Goal π) : Prop :=
  ∀ {k m : Nat}, k ≤ m → m ≤ xs.length → ∃ o i' marks,
    Evaluates g config goal d (Cursor.advance k c₀ i₀).1 (Cursor.advance m c₀ i₀).2 o i' marks

/-- What is left of the rounds of a repetition before `left` elements. -/
def roundsLeft (min : Nat) (max : Option Nat) (count left : Nat) : Nat :=
  match max with
  | some n => n - count
  | none => min - count + left

variable (h₀ : Cursor.Reads c₀ i₀ xs)
include h₀

theorem Settles.sequence (h : ∀ id, Settles g config c₀ i₀ xs d (.rule id))
    (items : List RuleId) (results : List (Value π)) :
    Settles g config c₀ i₀ xs d (.sequence results items) := by
  induction items generalizing results with
  | nil => exact fun _ _ => ⟨_, _, _, .sequenceDone⟩
  | cons item items ih =>
    intro k m hkm hm
    obtain ⟨o, i', marks, first⟩ := h item hkm hm
    rcases first.peg h₀ rfl rfl hkm hm with ⟨cause, rfl⟩ | ⟨answer, ha, -⟩
    · exact ⟨_, _, _, .sequenceStop first nofun⟩
    · cases ha with
      | matched hk hkm' hm' hx =>
        obtain ⟨_, _, _, rest⟩ := ih (_ :: results) hkm' hx
        exact ⟨_, _, _, .sequenceNext first rest⟩
      | mismatch => exact ⟨_, _, _, .sequenceStop first nofun⟩

theorem Settles.choice (h : ∀ id, Settles g config c₀ i₀ xs d (.rule id))
    (items : List RuleId) : Settles g config c₀ i₀ xs d (.choice items) := by
  induction items with
  | nil => exact fun _ _ => ⟨_, _, _, .choiceNone⟩
  | cons item items ih =>
    intro k m hkm hm
    obtain ⟨o, i', marks, first⟩ := h item hkm hm
    rcases first.peg h₀ rfl rfl hkm hm with ⟨cause, rfl⟩ | ⟨answer, ha, -⟩
    · exact ⟨_, _, _, .choiceStop first nofun⟩
    · cases ha with
      | matched => exact ⟨_, _, _, .choiceStop first nofun⟩
      | mismatch hm' hx =>
        obtain ⟨_, _, _, rest⟩ := ih (Nat.le_trans hkm hm') hx
        exact ⟨_, _, _, .choiceNext first rest⟩

omit h₀ in
theorem Settles.handled (h : ∀ id, Settles g config c₀ i₀ xs d (.rule id)) (item : RuleId)
    (action : Action π) : Settles g config c₀ i₀ xs d (.handled item action) := by
  intro k m hkm hm
  obtain ⟨o, i', marks, child⟩ := h item hkm hm
  cases o with
  | matched => exact ⟨_, _, _, .handledMatched child⟩
  | mismatch | aborted => exact ⟨_, _, _, .handledStop child nofun⟩

/-- The rounds of a repetition come to an end: each leaves fewer of them. -/
theorem Settles.rounds (h : ∀ id, Settles g config c₀ i₀ xs d (.rule id)) (id item : RuleId)
    (min : Nat) (max : Option Nat) (results : List (Value π)) :
    Settles g config c₀ i₀ xs d (.rounds id item min max results) := by
  intro k m hkm hm
  induction hn : roundsLeft min max results.length (xs.length - k) using
    Nat.strong_induction_on generalizing results k m with
  | _ n ih =>
    by_cases hroom : ∀ n, max = some n → results.length < n
    · obtain ⟨o, i', marks, first⟩ := h item hkm hm
      rcases first.peg h₀ rfl rfl hkm hm with ⟨cause, rfl⟩ | ⟨answer, ha, -⟩
      · exact ⟨_, _, _, .roundsAborted hroom first⟩
      · cases ha with
        | @matched k' m' value hk hkm' hm' hx =>
          by_cases hlast : max = none ∧ min ≤ results.length + 1 ∧ k' ≤ k
          · obtain ⟨rfl, hmin, hstill⟩ := hlast
            refine ⟨_, _, _, .roundsLast first hmin ?_⟩
            rw [h₀.position_eq k (by omega), h₀.position_eq k' (by omega)]
            omega
          · have more : max = none → min ≤ results.length + 1 → k < k' := fun hmax hmin =>
              Nat.lt_of_not_le fun hle => hlast ⟨hmax, hmin, hle⟩
            have hfewer : roundsLeft min max (results.length + 1) (xs.length - k') < n := by
              rw [← hn]
              cases max with
              | none =>
                have hmore := more rfl
                show min - (results.length + 1) + (xs.length - k') <
                  min - results.length + (xs.length - k)
                omega
              | some bound =>
                have hbound := hroom bound rfl
                show bound - (results.length + 1) < bound - results.length
                omega
            obtain ⟨_, _, _, rest⟩ := ih _ hfewer (value :: results) hkm' hx rfl
            refine ⟨_, _, _, .roundsNext hroom first (fun hmax hmin => ?_) rest⟩
            have hmore := more hmax hmin
            rw [h₀.position_eq k (by omega), h₀.position_eq k' (by omega)]
            omega
        | mismatch =>
          by_cases hmin : min ≤ results.length
          · exact ⟨_, _, _, .roundsEnough hroom first hmin⟩
          · exact ⟨_, _, _, .roundsShort hroom first (Nat.lt_of_not_le hmin)⟩
    · obtain ⟨n, hmax, hfull⟩ := exists_le_of_not_lt hroom
      exact ⟨_, _, _, .roundsFull hmax hfull⟩

theorem Settles.goal (h : ∀ id, Settles g config c₀ i₀ xs d (.rule id)) (goal : Goal π) :
    Settles g config c₀ i₀ xs d goal := by
  cases goal with
  | rule id => exact h id
  | sequence results items => exact Settles.sequence h₀ h items results
  | choice items => exact Settles.choice h₀ h items
  | rounds id item min max results => exact Settles.rounds h₀ h id item min max results
  | handled item action => exact Settles.handled h item action

end

/-- Under a limit and without a cycle of lookaheads every rule settles at every depth. -/
theorem Grammar.settles {g : Grammar ε π} {config : Config} {c₀ : γ} {i₀ : σ} {xs : List ε}
    {limit : Nat} (h : ∀ id, ¬Relation.TransGen g.LooksAhead id id)
    (hl : config.maxDepth = some limit) (h₀ : Cursor.Reads c₀ i₀ xs) (d : Nat) (id : RuleId) :
    Settles g config c₀ i₀ xs d (.rule id) := by
  induction hn : limit - d using Nat.strong_induction_on generalizing d id with
  | _ n deeper =>
    -- at one depth the rank among the lookaheads decreases
    induction id using (wellFounded_looksAhead h).induction with
    | _ id ahead =>
      intro k m hkm hm
      cases hrule : g.rule? id with
      | none => exact ⟨_, _, _, .unknown hrule⟩
      | some rule =>
        rcases rule.form_cases config.kind id with ⟨value, hv⟩ | rfl | ⟨accepts, ha⟩ |
          ⟨items, value, rfl⟩ | ⟨item, negated, rfl⟩ | ⟨goal, hg⟩
        · exact ⟨_, _, _, .constant hrule hv⟩
        · cases hpeek : Cursor.peek (Cursor.advance k c₀ i₀).1 with
          | none => exact ⟨_, _, _, .endReached hrule hpeek⟩
          | some item => exact ⟨_, _, _, .endMissed hrule hpeek⟩
        · by_cases hpeek : ∀ item, Cursor.peek (Cursor.advance k c₀ i₀).1 = some item →
              accepts item = false
          · exact ⟨_, _, _, .elementMissed hrule ha hpeek⟩
          · obtain ⟨item, hitem⟩ := Classical.not_forall.1 hpeek
            obtain ⟨hitem, hyes⟩ := Classical.not_imp.1 hitem
            exact ⟨_, _, _, .element hrule ha hitem (by simpa using hyes)⟩
        · rcases hw : skipItems items (Cursor.advance k c₀ i₀).1 (Cursor.advance m c₀ i₀).2 with
            ⟨_ | c', i'⟩
          · exact ⟨_, _, _, .wordMissed hrule hw⟩
          · exact ⟨_, _, _, .word hrule hw⟩
        · obtain ⟨_, _, _, child⟩ := ahead item ⟨negated, hrule⟩ hkm hm
          exact ⟨_, _, _, .lookahead hrule child⟩
        · by_cases hd : limit ≤ d
          · exact ⟨_, _, _, .tooDeep hrule hg hl hd⟩
          · have hbody : Settles g config c₀ i₀ xs (d + 1) goal :=
              Settles.goal h₀ (fun id => deeper _ (by omega) (d + 1) id rfl) goal
            obtain ⟨_, _, _, body⟩ := hbody hkm hm
            refine ⟨_, _, _, .nested hrule hg (fun bound hbound => ?_) body⟩
            rw [hl] at hbound
            cases hbound
            exact Nat.lt_of_not_le hd

/-! ## A cycle of lookaheads never ends -/

/-- No evaluation of a rule on a cycle of lookaheads comes to an end. -/
theorem Evaluates.not_on_cycle {g : Grammar ε π} {config : Config} {goal : Goal π} {d : Nat}
    {c : γ} {i i' : σ} {o : Outcome γ (Value π)} {marks : List (Mark γ π)}
    (e : Evaluates g config goal d c i o i' marks) :
    ∀ id, goal = .rule id → ¬Relation.TransGen g.LooksAhead id id := by
  -- the first step of a cycle tells what the rule is
  have hstart : ∀ {id}, Relation.TransGen g.LooksAhead id id →
      ∃ item negated, g.rule? id = some (.lookahead item negated) := fun hcycle => by
    obtain ⟨item, ⟨negated, h⟩, -⟩ := Relation.TransGen.head'_iff.1 hcycle
    exact ⟨item, negated, h⟩
  induction e with
  | @lookahead id item negated _ _ _ _ _ _ h _ ih =>
    intro start hgoal hcycle
    cases hgoal
    -- the cycle goes on through the only child, and around it again
    obtain ⟨next, hnext, hback⟩ := Relation.TransGen.head'_iff.1 hcycle
    obtain rfl : next = item := hnext.unique ⟨negated, h⟩
    exact ih next rfl (Relation.TransGen.tail' hback hnext)
  | unknown h =>
    intro start hgoal hcycle
    cases hgoal
    obtain ⟨item, negated, hrule⟩ := hstart hcycle
    rw [h] at hrule
    cases hrule
  | constant h hv | element h hv | elementMissed h hv | nested h hv | tooDeep h hv =>
    intro start hgoal hcycle
    cases hgoal
    obtain ⟨item, negated, hrule⟩ := hstart hcycle
    rw [h] at hrule
    cases hrule
    cases hv
  | endReached h | endMissed h | word h | wordMissed h =>
    intro start hgoal hcycle
    cases hgoal
    obtain ⟨item, negated, hrule⟩ := hstart hcycle
    rw [h] at hrule
    cases hrule
  | _ => nofun

/-! ## Built grammars -/

/-- Matching comes to an end for every rule of the grammar, every limit and every cursor
before a finite input. -/
def Grammar.Terminates (g : Grammar ε π) : Prop :=
  ∀ (γ σ : Type) [Cursor γ ε σ] (p : Parser γ ε π) (limit : Nat) (id : RuleId) (c : γ)
    (s : RunState γ σ π) (xs : List ε), p.grammar = g → p.config.maxDepth = some limit →
    g.contains id = true → Cursor.Reads c s.input xs → ∃ o s', p.Returns id c s o s'

theorem Grammar.terminates_of_acyclic {g : Grammar ε π}
    (h : ∀ id, ¬Relation.TransGen g.LooksAhead id id) : g.Terminates := by
  intro γ σ _ p limit id c s xs hg hl _ hc
  subst hg
  obtain ⟨o, i', marks, e⟩ := Grammar.settles h hl hc s.depth id (Nat.le_refl 0) (Nat.zero_le _)
  exact ⟨o, _, Parser.returns_iff.2 ⟨i', marks, e, rfl⟩⟩

/-- A rule on a cycle of lookaheads has no end even before no elements. -/
theorem Grammar.Terminates.acyclic {g : Grammar ε π} (h : g.Terminates) (id : RuleId) :
    ¬Relation.TransGen g.LooksAhead id id := by
  intro hcycle
  obtain ⟨item, hfirst, -⟩ := Relation.TransGen.head'_iff.1 hcycle
  let p : Parser (SliceCursor ε) ε π := ⟨g, id, .start #[], ⟨.array, some 0⟩⟩
  have hid : g.contains id = true := decide_eq_true hfirst.lt_size
  have hc : Cursor.Reads p.start () [] := SliceCursor.reads_start #[]
  obtain ⟨o, s', hr⟩ := h _ _ p 0 id p.start (.fresh ()) [] rfl rfl hid hc
  obtain ⟨i', marks, e, -⟩ := Parser.returns_iff.1 hr
  exact e.not_on_cycle id rfl hcycle

/-- A built grammar terminates under every depth limit exactly when it has no cycle of
lookaheads only, and it has none when its rules refer to numbers of slots that were there before
them. -/
theorem Builder.terminates_iff {b : Builder ε π} {g : Grammar ε π} (hb : b.build = .ok g) :
    (g.Terminates ↔ ∀ id, ¬Relation.TransGen g.LooksAhead id id) ∧
      ∀ ids, Composed issued ids b → g.Terminates := by
  refine ⟨⟨fun h => h.acyclic, Grammar.terminates_of_acyclic⟩, fun ids hids => ?_⟩
  exact Grammar.terminates_of_acyclic (hids.acyclic hb)

/-- Nested groups terminate.  A lookahead at its own number builds too, and does not. -/
theorem groups_terminates : groups.Terminates ∧ ∃ g : Grammar Char Empty,
    (Builder.after [.add (.lookahead ⟨0⟩ true)]).build = .ok g ∧ ¬g.Terminates := by
  obtain ⟨ids, hids⟩ := composed_groupCalls
  have hloop : (Builder.after [.add (.lookahead ⟨0⟩ true)]).build =
      .ok (⟨#[.lookahead ⟨0⟩ true], []⟩ : Grammar Char Empty) := rfl
  refine ⟨(Builder.terminates_iff build_groupCalls).2 ids hids, _, hloop, fun h => ?_⟩
  exact (Builder.terminates_iff hloop).1.1 h ⟨0⟩ (.single ⟨true, rfl⟩)

/-- Number 0 is named before there is such a rule, and the number returned for it is then given
to the rule that takes this place. -/
def namedCalls : List (Builder.Call Char Empty) := [.name ⟨0⟩ "loop", .add (.lookahead ⟨0⟩ false)]

def namedLoop : Grammar Char Empty := ⟨#[.lookahead ⟨0⟩ false], [(⟨0⟩, "loop")]⟩

/-- It is not enough that rules refer to numbers that were returned before, since naming returns
any number. -/
theorem namedLoop_endless :
    Builder.Composed Builder.returned [⟨0⟩, ⟨0⟩] (Builder.after namedCalls) ∧
      (Builder.after namedCalls).build = .ok namedLoop ∧ ¬namedLoop.Terminates := by
  have hnamed : Builder.Composed Builder.returned _ _ :=
    Builder.Composed.empty.call (.name ⟨0⟩ "loop" : Builder.Call Char Empty) nofun
  refine ⟨hnamed.call (.add (.lookahead ⟨0⟩ false)) (by decide), rfl, fun h => ?_⟩
  exact h.acyclic ⟨0⟩ (.single ⟨false, rfl⟩)

end PegMatcher
