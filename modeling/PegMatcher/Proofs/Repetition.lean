import PegMatcher.Proofs.FurthestFailure
import PegMatcher.Proofs.RightRecursion
/-
How often a repetition repeats.

A repetition matches its item again and again, each time where the result before ended, and
takes as many results as it may.  It stops at its maximum, or where the item does not match,
or, without a maximum, behind a result that consumed nothing as soon as it has enough, since
all further results would be the same.  Where the item does not match before there are enough,
the repetition does not match either, and it has the last word there: the failure that it
records stays unless another one is further on.

Rounds are followed through the states of one run.  An induction on the rounds shows how the
repetition ends with them, and an induction on its evaluation that it has some when it ends.
-/
namespace PegMatcher

variable {γ ε σ π : Type} [Cursor γ ε σ]

/-- One result of a repetition, and where its item began and ended. -/
structure Round (γ π : Type) where
  start : γ
  stop : γ
  value : Value π

/-- A failure is the one kept when what is kept is not further on. -/
theorem Failure.further_eq_some {kept : Option (Failure γ)} {f : Failure γ}
    (h : ∀ e, further kept f = some e → e.position ≤ f.position) : further kept f = some f := by
  cases kept with
  | none => rfl
  | some e =>
    rcases further_cases (some e) f with heq | heq
    · have hle := h e heq
      exact if_neg (Nat.not_lt_of_le hle)
    · exact heq

namespace Parser

variable [Element ε] [ElementValue ε π] [Payload π]

/-- The item matches time after time, always where it ended the time before: the rounds from
one cursor and state to another. -/
inductive Repeats (p : Parser γ ε π) (item : RuleId) :
    γ → RunState γ σ π → List (Round γ π) → γ → RunState γ σ π → Prop
  | nil {c s} : Repeats p item c s [] c s
  | cons {c s c₁ v s₁ rounds c' s'} (first : p.Returns item c s (.matched c₁ v) s₁)
      (rest : Repeats p item c₁ s₁ rounds c' s') :
      Repeats p item c s (⟨c, c₁, v⟩ :: rounds) c' s'

/-- Rounds up to a cursor and a state are as many as there may be, and no more. -/
structure Greedy (p : Parser γ ε π) (item : RuleId) (min : Nat) (max : Option Nat)
    (rounds : List (Round γ π)) (c' : γ) (s' : RunState γ σ π) : Prop where
  enough : min ≤ rounds.length
  within : ∀ n, max = some n → rounds.length ≤ n
  /-- Without a maximum, every result from number `min` on but the last consumed something. -/
  advances : max = none → ∀ n r, rounds[n]? = some r → min ≤ n + 1 → n + 1 < rounds.length →
    Cursor.position r.start < Cursor.position r.stop
  stops : max = some rounds.length ∨ (∃ s'', p.Returns item c' s' .mismatch s'') ∨
    max = none ∧ ∃ r, rounds.getLast? = some r ∧ Cursor.position r.stop = Cursor.position r.start

/-- The item does not match behind fewer results than the minimum. -/
def FallsShort (p : Parser γ ε π) (item : RuleId) (min : Nat) (c : γ) (s : RunState γ σ π)
    (c' : γ) (s' : RunState γ σ π) : Prop :=
  ∃ rounds s₁, p.Repeats item c s rounds c' s₁ ∧ rounds.length < min ∧
    p.Returns item c' s₁ .mismatch s'

variable {p : Parser γ ε π} {id item : RuleId} {min : Nat} {max : Option Nat} {c c' : γ}
  {s s₁ s₂ s' : RunState γ σ π} {r : Round γ π} {rounds : List (Round γ π)}
  {results : List (Value π)}

/-! ## One round more -/

namespace Greedy

theorem nil_iff : p.Greedy item min max [] c' s' ↔
    min = 0 ∧ (max = some 0 ∨ ∃ s'', p.Returns item c' s' .mismatch s'') := by
  constructor
  · intro h
    refine ⟨Nat.le_zero.1 h.enough, ?_⟩
    rcases h.stops with hfull | hmiss | ⟨-, r, hlast, -⟩
    · exact .inl hfull
    · exact .inr hmiss
    · cases hlast
  · rintro ⟨rfl, hstops⟩
    exact ⟨Nat.le_refl 0, fun n _ => Nat.zero_le n, nofun, hstops.imp_right .inl⟩

/-- A result that consumed nothing is the last one. -/
theorem last (hmin : min ≤ 1) (hstill : Cursor.position r.stop = Cursor.position r.start) :
    p.Greedy item min none [r] c' s' where
  enough := hmin
  within := nofun
  advances _ n r _ _ hn := absurd hn (by simp)
  stops := .inr (.inr ⟨rfl, r, rfl, hstill⟩)

theorem cons (h : p.Greedy item (min - 1) (max.map (· - 1)) rounds c' s') (hmax : max ≠ some 0)
    (hmore : max = none → min ≤ 1 → Cursor.position r.start < Cursor.position r.stop) :
    p.Greedy item min max (r :: rounds) c' s' where
  enough := by
    have henough := h.enough
    rw [List.length_cons]
    omega
  within n hn := by
    subst hn
    have hwithin : rounds.length ≤ n - 1 := h.within _ rfl
    have hne : n ≠ 0 := fun heq => hmax (congrArg some heq)
    rw [List.length_cons]
    omega
  advances hnone n r' hr hn hlast := by
    rw [List.length_cons] at hlast
    cases n with
    | zero =>
      obtain rfl := Option.some.inj hr
      exact hmore hnone hn
    | succ n =>
      have hrest : max.map (· - 1) = none := Option.map_eq_none_iff.2 hnone
      exact h.advances hrest n r' hr (by omega) (by omega)
  stops := by
    rcases h.stops with hfull | hmiss | ⟨hnone, r', hlast, hstill⟩
    · obtain ⟨n, rfl, hn⟩ := Option.map_eq_some_iff.1 hfull
      have hne : n ≠ 0 := fun heq => hmax (congrArg some heq)
      refine .inl (congrArg some ?_)
      rw [List.length_cons]
      omega
    · exact .inr (.inl hmiss)
    · refine .inr (.inr ⟨Option.map_eq_none_iff.1 hnone, r', ?_, hstill⟩)
      rw [List.getLast?_cons, hlast, Option.getD_some]

theorem tail (h : p.Greedy item min max (r :: rounds) c' s')
    (hmore : max = none → min ≤ 1 → Cursor.position r.start < Cursor.position r.stop) :
    p.Greedy item (min - 1) (max.map (· - 1)) rounds c' s' where
  enough := by
    have henough := h.enough
    rw [List.length_cons] at henough
    omega
  within n hn := by
    obtain ⟨m, hm, rfl⟩ := Option.map_eq_some_iff.1 hn
    have hwithin := h.within m hm
    rw [List.length_cons] at hwithin
    omega
  advances hnone n r' hr hn hlast := by
    have hlength : n + 1 + 1 < (r :: rounds).length := Nat.succ_lt_succ hlast
    exact h.advances (Option.map_eq_none_iff.1 hnone) (n + 1) r' hr (by omega) hlength
  stops := by
    rcases h.stops with rfl | hmiss | ⟨rfl, r', hlast, hstill⟩
    · exact .inl rfl
    · exact .inr (.inl hmiss)
    · refine .inr (.inr ⟨rfl, r', ?_, hstill⟩)
      cases rounds with
      | nil =>
        have hlt := hmore rfl h.enough
        rw [show r = r' from Option.some.inj hlast] at hlt
        omega
      | cons next rounds => exact hlast

/-- Nothing follows a result that consumed nothing, when it is one of enough. -/
theorem eq_nil (h : p.Greedy item min none (r :: rounds) c' s') (hmin : min ≤ 1)
    (hstill : Cursor.position r.stop ≤ Cursor.position r.start) : rounds = [] := by
  by_contra hne
  have hlength : 0 + 1 < (r :: rounds).length := Nat.succ_lt_succ (List.length_pos_iff.2 hne)
  have hlt := h.advances rfl 0 r rfl hmin hlength
  omega

end Greedy

/-! ## Rounds and evaluation -/

theorem Returns.depth_eq {o : Outcome γ (Value π)} (h : p.Returns id c s o s') :
    s'.depth = s.depth := by
  obtain ⟨i', marks, -, rfl⟩ := returns_iff.1 h
  exact s.depth_after marks i'

/-- With enough results, a repetition ends at its maximum and where the item does not match. -/
theorem evaluates_here (id : RuleId) (hmin : min ≤ results.length)
    (hstops : max.map (· - results.length) = some 0 ∨ ∃ s'', p.Returns item c s .mismatch s'') :
    ∃ i' marks, Evaluates p.grammar p.config (.rounds id item min max results) s.depth c s.input
      (.matched c (p.config.kind.collect results.reverse)) i' marks := by
  by_cases hfull : ∃ n, max = some n ∧ n ≤ results.length
  · obtain ⟨n, hn, hle⟩ := hfull
    have e : Evaluates p.grammar p.config (.rounds id item min max results) s.depth c s.input
        (if min ≤ results.length then .matched c (p.config.kind.collect results.reverse)
          else .mismatch) s.input [] := .roundsFull hn hle
    rw [if_pos hmin] at e
    exact ⟨_, _, e⟩
  · have hroom : ∀ n, max = some n → results.length < n := fun n hn =>
      Nat.lt_of_not_le fun hle => hfull ⟨n, hn, hle⟩
    rcases hstops with hzero | ⟨s'', hmiss⟩
    · obtain ⟨n, hn, hle⟩ := Option.map_eq_some_iff.1 hzero
      have hlt := hroom n hn
      omega
    · obtain ⟨i₁, marks, e, -⟩ := returns_iff.1 hmiss
      exact ⟨i₁, marks, .roundsEnough hroom e hmin⟩

namespace Repeats

theorem depth_eq (h : p.Repeats item c s rounds c' s') : s'.depth = s.depth := by
  induction h with
  | nil => rfl
  | cons first _ ih => exact ih.trans first.depth_eq

/-- Greedy rounds behind some results end a repetition. -/
theorem evaluates_matched (id : RuleId) (h : p.Repeats item c s rounds c' s₁) :
    ∀ results : List (Value π),
      p.Greedy item (min - results.length) (max.map (· - results.length)) rounds c' s₁ →
        ∃ i' marks, Evaluates p.grammar p.config (.rounds id item min max results) s.depth c
          s.input (.matched c' (p.config.kind.collect (results.reverse ++ rounds.map Round.value)))
            i' marks := by
  induction h with
  | nil =>
    intro results hgreedy
    obtain ⟨hmin, hstops⟩ := Greedy.nil_iff.1 hgreedy
    rw [List.map_nil, List.append_nil]
    exact evaluates_here id (Nat.sub_eq_zero_iff_le.1 hmin) hstops
  | @cons c s c₁ v s₁ rounds c' s' first rest ih =>
    intro results hgreedy
    obtain ⟨i₁, marks₁, e, rfl⟩ := returns_iff.1 first
    have hroom : ∀ n, max = some n → results.length < n := by
      rintro n rfl
      have hwithin : rounds.length + 1 ≤ n - results.length := hgreedy.within _ rfl
      omega
    -- a result that consumed nothing ends the rounds, unless more are needed or counted
    by_cases hstill : max = none ∧ min - results.length ≤ 1 ∧
        Cursor.position c₁ ≤ Cursor.position c
    · obtain ⟨rfl, hmin, hle⟩ := hstill
      obtain rfl := hgreedy.eq_nil hmin hle
      cases rest
      have elast : Evaluates p.grammar p.config (.rounds id item min none results) s.depth c
          s.input _ i₁ marks₁ := .roundsLast e (by omega) hle
      rw [List.reverse_cons] at elast
      exact ⟨i₁, marks₁, elast⟩
    · have hmore : max = none → min - results.length ≤ 1 →
          Cursor.position c < Cursor.position c₁ :=
        fun hnone hmin => Nat.lt_of_not_le fun hle => hstill ⟨hnone, hmin, hle⟩
      have htail := hgreedy.tail fun hnone => hmore (Option.map_eq_none_iff.1 hnone)
      rw [Nat.sub_sub, Option.map_map] at htail
      obtain ⟨i', marks', erest⟩ := ih (v :: results) htail
      rw [RunState.depth_after, RunState.input_after, List.reverse_cons,
        List.append_assoc] at erest
      exact ⟨i', _, .roundsNext hroom e (fun hnone hmin => hmore hnone (by omega)) erest⟩

/-- Rounds that fall short end a repetition with a mismatch, which leaves its failure last. -/
theorem evaluates_mismatch (id : RuleId) (hbounds : ∀ n, max = some n → min ≤ n)
    (h : p.Repeats item c s rounds c' s₁) (hmiss : p.Returns item c' s₁ .mismatch s₂) :
    ∀ results : List (Value π), results.length + rounds.length < min → ∃ i' marks,
      Evaluates p.grammar p.config (.rounds id item min max results) s.depth c s.input .mismatch
        i' marks ∧ s.after marks i' = s₂.recordFailure c' id := by
  induction h with
  | @nil c s =>
    intro results hshort
    obtain ⟨i₁, marks, e, rfl⟩ := returns_iff.1 hmiss
    have hroom : ∀ n, max = some n → results.length < n := fun n hn =>
      Nat.lt_of_lt_of_le hshort (hbounds n hn)
    exact ⟨i₁, _, .roundsShort hroom e hshort, (s.recordFailure_after marks i₁ c id).symm⟩
  | @cons c s c₁ v s₁ rounds c' s' first rest ih =>
    intro results hshort
    rw [List.length_cons] at hshort
    obtain ⟨i₁, marks₁, e, rfl⟩ := returns_iff.1 first
    have hroom : ∀ n, max = some n → results.length < n := by
      intro n hn
      have hle := hbounds n hn
      omega
    have hlength : (v :: results).length + rounds.length < min := by
      rw [List.length_cons]
      omega
    obtain ⟨i', marks', erest, hafter⟩ := ih hmiss (v :: results) hlength
    rw [RunState.depth_after, RunState.input_after] at erest
    rw [RunState.after_after] at hafter
    exact ⟨i', _, .roundsNext hroom e (fun _ hmin => by omega) erest, hafter⟩

end Repeats

theorem FallsShort.cons {v : Value π} {c₁ : γ} (first : p.Returns item c s (.matched c₁ v) s₁)
    (h : p.FallsShort item (min - 1) c₁ s₁ c' s') : p.FallsShort item min c s c' s' := by
  obtain ⟨rounds, s₂, hrounds, hshort, hmiss⟩ := h
  refine ⟨_, s₂, .cons first hrounds, ?_, hmiss⟩
  rw [List.length_cons]
  omega

theorem FallsShort.depth_eq (h : p.FallsShort item min c s c' s') : s'.depth = s.depth := by
  obtain ⟨rounds, s₁, hrounds, -, hmiss⟩ := h
  exact hmiss.depth_eq.trans hrounds.depth_eq

/-- How a repetition ends behind some results: with greedy rounds, or with too few. -/
inductive RoundsEnd (p : Parser γ ε π) (item : RuleId) (min : Nat) (max : Option Nat)
    (results : List (Value π)) (c : γ) (s : RunState γ σ π) : Outcome γ (Value π) → Prop
  | matched {rounds : List (Round γ π)} {c' : γ} {s' : RunState γ σ π}
      (repeats : p.Repeats item c s rounds c' s')
      (greedy : p.Greedy item (min - results.length) (max.map (· - results.length)) rounds c' s') :
      RoundsEnd p item min max results c s
        (.matched c' (p.config.kind.collect (results.reverse ++ rounds.map Round.value)))
  | mismatch {c' : γ} {s' : RunState γ σ π}
      (short : p.FallsShort item (min - results.length) c s c' s') :
      RoundsEnd p item min max results c s .mismatch

theorem RoundsEnd.cons {v : Value π} {c₁ : γ} {o : Outcome γ (Value π)}
    (first : p.Returns item c s (.matched c₁ v) s₁)
    (hroom : ∀ n, max = some n → results.length < n)
    (hmore : max = none → min ≤ results.length + 1 → Cursor.position c < Cursor.position c₁)
    (h : p.RoundsEnd item min max (v :: results) c₁ s₁ o) :
    p.RoundsEnd item min max results c s o := by
  cases h with
  | @matched rounds c' s' hrepeats hgreedy =>
    have hrest : p.Greedy item (min - results.length - 1)
        ((max.map (· - results.length)).map (· - 1)) rounds c' s' := by
      rw [Nat.sub_sub, Option.map_map]
      exact hgreedy
    have hmax : max.map (· - results.length) ≠ some 0 := by
      intro hzero
      obtain ⟨n, hn, hle⟩ := Option.map_eq_some_iff.1 hzero
      have hlt := hroom n hn
      omega
    rw [List.reverse_cons, List.append_assoc]
    exact .matched (.cons first hrepeats)
      (hrest.cons hmax fun hnone hmin => hmore (Option.map_eq_none_iff.1 hnone) (by omega))
  | mismatch hshort => exact .mismatch (.cons first hshort)

theorem RoundsEnd.here (hmin : min ≤ results.length)
    (hstops : max.map (· - results.length) = some 0 ∨ ∃ s'', p.Returns item c s .mismatch s'') :
    p.RoundsEnd item min max results c s (.matched c (p.config.kind.collect results.reverse)) := by
  have hnil : p.RoundsEnd item min max results c s (.matched c (p.config.kind.collect
      (results.reverse ++ ([] : List (Round γ π)).map Round.value))) :=
    .matched .nil (Greedy.nil_iff.2 ⟨Nat.sub_eq_zero_of_le hmin, hstops⟩)
  rwa [List.map_nil, List.append_nil] at hnil

/-- A repetition that comes to an end does so with rounds. -/
theorem RoundsEnd.of_evaluates {Over : σ → γ → (Nat → Option ε) → Prop} (hs : Cursor.Shared Over)
    {x : Nat → Option ε} (hbounds : ∀ n, max = some n → min ≤ n) {goal : Goal π} {d : Nat}
    {i i' : σ} {o : Outcome γ (Value π)} {marks : List (Mark γ π)}
    (e : Evaluates p.grammar p.config goal d c i o i' marks) :
    ∀ (results : List (Value π)) (s : RunState γ σ π), goal = .rounds id item min max results →
      s.depth = d → s.input = i → Over i c x → (∀ cause, o ≠ .aborted cause) →
        p.RoundsEnd item min max results c s o := by
  induction e with
  | @roundsFull _ _ _ _ results _ _ _ _ hm hn =>
    intro _ s hgoal _ _ _ _
    cases hgoal
    have hmin : min ≤ results.length := Nat.le_trans (hbounds _ hm) hn
    rw [if_pos hmin]
    refine .here hmin (.inl ?_)
    rw [hm, Option.map_some, Nat.sub_eq_zero_of_le hn]
  | roundsNext hm first more _ _ ih =>
    intro results s hgoal hd hi hc ho
    cases hgoal
    subst hd hi
    have hfirst := returns_iff.2 ⟨_, _, first, rfl⟩
    exact .cons hfirst hm more
      (ih _ _ rfl (s.depth_after _ _) rfl (first.over_matched hs hc) ho)
  | @roundsLast _ _ _ results _ c _ c₁ v _ _ first hn still =>
    intro _ s hgoal hd hi hc _
    cases hgoal
    subst hd hi
    have hfirst := returns_iff.2 ⟨_, _, first, rfl⟩
    have heq : Cursor.position c₁ = Cursor.position c :=
      Nat.le_antisymm still (first.position_le hs hc)
    have hmin : min - results.length ≤ 1 := by omega
    rw [List.reverse_cons]
    exact .matched (.cons hfirst .nil) (Greedy.last hmin heq)
  | roundsEnough _ first hn =>
    intro results s hgoal hd hi _ _
    cases hgoal
    subst hd hi
    exact .here hn (.inr ⟨_, returns_iff.2 ⟨_, _, first, rfl⟩⟩)
  | @roundsShort _ _ _ _ results _ _ _ _ _ _ first hn =>
    intro _ s hgoal hd hi _ _
    cases hgoal
    subst hd hi
    have hshort : ([] : List (Round γ π)).length < min - results.length := Nat.sub_pos_of_lt hn
    exact .mismatch ⟨[], s, .nil, hshort, returns_iff.2 ⟨_, _, first, rfl⟩⟩
  | roundsAborted => exact fun _ _ _ _ _ _ ho => absurd rfl (ho _)
  | _ =>
    intro results s hgoal
    cases hgoal

/-! ## How many rounds there can be -/

section
variable {Over : σ → γ → (Nat → Option ε) → Prop} (hs : Cursor.Shared Over) {x : Nat → Option ε}
  {xs : List ε} (hx : Cursor.Ends x xs)
include hs

theorem Returns.over_matched {v : Value π} (h : p.Returns id c s (.matched c' v) s')
    (hc : Over s.input c x) : Over s'.input c' x := by
  obtain ⟨i', marks, e, rfl⟩ := returns_iff.1 h
  exact e.over_matched hs hc

theorem Returns.position_le {v : Value π} (h : p.Returns id c s (.matched c' v) s')
    (hc : Over s.input c x) : Cursor.position c ≤ Cursor.position c' := by
  obtain ⟨i', marks, e, -⟩ := returns_iff.1 h
  exact e.position_le hs hc

include hx

theorem Returns.yields {v : Value π} (h : p.Returns id c s (.matched c' v) s')
    (hc : Over s.input c x) : p.grammar.Yields p.config.kind id (xs.drop (Cursor.position c))
      (xs.drop (Cursor.position c')) v := by
  obtain ⟨i', marks, e, -⟩ := returns_iff.1 h
  exact e.yields hs hx hc

namespace Repeats

/-- Behind a result that consumed nothing all results are like it. -/
theorem still {v : Value π} (h : p.Repeats item c s rounds c' s') (hc : Over s.input c x)
    (hstill : p.grammar.Yields p.config.kind item (xs.drop (Cursor.position c))
      (xs.drop (Cursor.position c)) v) :
    ∀ r ∈ rounds, Cursor.position r.stop = Cursor.position r.start := by
  induction h with
  | nil => exact nofun
  | @cons c s c₁ w s₁ rounds c' s' first rest ih =>
    have hc₁ := first.over_matched hs hc
    have heq : Cursor.position c₁ = Cursor.position c := by
      have hdrop := (Prod.mk.inj (Option.some.inj
        (Peg.unique (first.yields hs hx hc) hstill))).1
      have hlength := congrArg List.length hdrop
      have hle := hs.position_le hx hc
      have hle₁ := hs.position_le hx hc₁
      rw [List.length_drop, List.length_drop] at hlength
      omega
    rw [← heq] at hstill
    exact List.forall_mem_cons.2 ⟨heq, ih hc₁ hstill⟩

/-- When the last result but one consumed something, every result before did. -/
theorem length_le (h : p.Repeats item c s rounds c' s') (hc : Over s.input c x)
    (hadvances : ∀ n r, rounds[n]? = some r → n + 2 = rounds.length →
      Cursor.position r.start < Cursor.position r.stop) :
    rounds.length ≤ xs.length - Cursor.position c + 1 := by
  induction h with
  | nil => exact Nat.zero_le _
  | @cons c s c₁ v s₁ rounds c' s' first rest ih =>
    have hc₁ := first.over_matched hs hc
    have hle₁ := hs.position_le hx hc₁
    have hrest := ih hc₁ fun n r hr hn => hadvances (n + 1) r hr (congrArg Nat.succ hn)
    rw [List.length_cons]
    by_cases hnil : rounds = []
    · rw [hnil]
      exact Nat.le_add_left _ _
    · have hlt : Cursor.position c < Cursor.position c₁ := by
        -- otherwise no result would consume anything, not even the last but one
        refine Nat.lt_of_le_of_ne (first.position_le hs hc) fun heq => ?_
        have hyields := first.yields hs hx hc
        rw [← heq] at hyields
        have hall := (Repeats.cons first rest).still hs hx hc hyields
        have hpos : 0 < rounds.length := List.length_pos_iff.2 hnil
        obtain ⟨r, hr⟩ : ∃ r, (⟨c, c₁, v⟩ :: rounds)[rounds.length - 1]? = some r :=
          ⟨_, List.getElem?_eq_getElem (by rw [List.length_cons]; omega)⟩
        have hlast := hadvances _ r hr (by rw [List.length_cons]; omega)
        exact absurd (hall r (List.mem_of_getElem? hr)) (Nat.ne_of_gt hlast)
      omega

end Repeats

/-- Without a maximum there is room for the minimum, or else for one result for each element
left and one more. -/
theorem Greedy.length_le (hgreedy : p.Greedy item min none rounds c' s')
    (h : p.Repeats item c s rounds c' s') (hc : Over s.input c x) :
    rounds.length ≤ Nat.max min (xs.length - Cursor.position c + 1) := by
  by_cases hmin : rounds.length ≤ min
  · exact Nat.le_trans hmin (Nat.le_max_left _ _)
  · have hlength := h.length_le hs hx hc fun n r hr hn =>
      hgreedy.advances rfl n r hr (by omega) (by omega)
    exact Nat.le_trans hlength (Nat.le_max_right _ _)

end

/-! ## The rule of a repetition -/

section
variable (hrule : p.grammar.rule? id = some (.repetition item min max))
include hrule

/-- A repetition that is not aborted at once enters and does its rounds. -/
theorem Returns.entered {o : Outcome γ (Value π)} (h : p.Returns id c s o s')
    (ho : ∀ cause, o ≠ .aborted cause) :
    (∀ limit, p.config.maxDepth = some limit → s.depth < limit) ∧ ∃ i' marks,
      Evaluates p.grammar p.config (.rounds id item min max []) s.enter.depth c s.enter.input o i'
        marks := by
  obtain ⟨i', marks, e, -⟩ := returns_iff.1 h
  rcases e.nested_cases hrule rfl with ⟨limit, -, haborted⟩ | ⟨hl, marks', -, body⟩
  · exact absurd haborted (ho _)
  · exact ⟨hl, i', marks', body⟩

variable (hl : ∀ limit, p.config.maxDepth = some limit → s.depth < limit)
include hl

theorem returns_of_rounds {o : Outcome γ (Value π)} {i' : σ} {marks : List (Mark γ π)}
    (e : Evaluates p.grammar p.config (.rounds id item min max []) s.enter.depth c s.enter.input o
      i' marks) : p.Returns id c s o (s.enter.after marks i').leave :=
  returns_iff.2 ⟨i', _, .nested hrule rfl hl e, s.leave_after_enter marks i'⟩

theorem Repeats.returns_matched (h : p.Repeats item c s.enter rounds c' s₁)
    (hgreedy : p.Greedy item min max rounds c' s₁) :
    ∃ s', p.Returns id c s (.matched c' (p.config.kind.collect (rounds.map Round.value))) s' := by
  have hgreedy' : p.Greedy item (min - ([] : List (Value π)).length)
      (max.map (· - ([] : List (Value π)).length)) rounds c' s₁ := by
    simpa using hgreedy
  obtain ⟨i', marks, e⟩ := h.evaluates_matched id [] hgreedy'
  exact ⟨_, returns_of_rounds hrule hl e⟩

theorem FallsShort.returns_mismatch (hbounds : ∀ n, max = some n → min ≤ n)
    (h : p.FallsShort item min c s.enter c' s₂) :
    p.Returns id c s .mismatch (s₂.recordFailure c' id).leave := by
  obtain ⟨rounds, s₁, hrounds, hshort, hmiss⟩ := h
  have hlength : ([] : List (Value π)).length + rounds.length < min := by simpa using hshort
  obtain ⟨i', marks, e, hafter⟩ := hrounds.evaluates_mismatch id hbounds hmiss [] hlength
  rw [← hafter]
  exact returns_of_rounds hrule hl e

end

/-- A repetition that matches has greedy rounds up to where it ends. -/
theorem Returns.exists_rounds {Over : σ → γ → (Nat → Option ε) → Prop} (hs : Cursor.Shared Over)
    {x : Nat → Option ε} (hbounds : ∀ n, max = some n → min ≤ n)
    (hrule : p.grammar.rule? id = some (.repetition item min max)) (hc : Over s.input c x)
    {v : Value π} (h : p.Returns id c s (.matched c' v) s') :
    ∃ rounds s₁, p.Repeats item c s.enter rounds c' s₁ ∧ p.Greedy item min max rounds c' s₁ ∧
      v = p.config.kind.collect (rounds.map Round.value) := by
  obtain ⟨-, i', marks, e⟩ := h.entered hrule nofun
  have hend := RoundsEnd.of_evaluates hs hbounds e [] s.enter rfl rfl rfl hc nofun
  generalize ho : Outcome.matched c' v = o at hend
  cases hend with
  | mismatch => cases ho
  | matched hrepeats hgreedy =>
    obtain ⟨rfl, rfl⟩ := Outcome.matched.inj ho
    exact ⟨_, _, hrepeats, by simpa using hgreedy, rfl⟩

/-- A repetition that does not match falls short. -/
theorem Returns.fallsShort {Over : σ → γ → (Nat → Option ε) → Prop} (hs : Cursor.Shared Over)
    {x : Nat → Option ε} (hbounds : ∀ n, max = some n → min ≤ n)
    (hrule : p.grammar.rule? id = some (.repetition item min max)) (hc : Over s.input c x)
    (h : p.Returns id c s .mismatch s') : ∃ c' s₂, p.FallsShort item min c s.enter c' s₂ := by
  obtain ⟨-, i', marks, e⟩ := h.entered hrule nofun
  have hend := RoundsEnd.of_evaluates hs hbounds e [] s.enter rfl rfl rfl hc nofun
  generalize ho : (Outcome.mismatch : Outcome γ (Value π)) = o at hend
  cases hend with
  | matched => cases ho
  | mismatch hshort => exact ⟨_, _, hshort⟩

/-- A repetition of a built grammar over an input that ends.  Whenever it is not aborted, it
matches just with greedy rounds, and collects their values up to where the last one ended;
without a maximum their number is bounded by what is left of the input.  It does not match just
when it falls short, and then its own failure there is the one that is kept, if none further on
is. -/
theorem repetition_greedy {b : Builder ε π} (hb : b.build = .ok p.grammar)
    (hrule : p.grammar.rule? id = some (.repetition item min max))
    {Over : σ → γ → (Nat → Option ε) → Prop} (hs : Cursor.Shared Over) {x : Nat → Option ε}
    {xs : List ε} (hx : Cursor.Ends x xs) (hc : Over s.input c x)
    (hreturns : ∃ o s', p.Returns id c s o s' ∧ ∀ cause, o ≠ .aborted cause) :
    (∀ c' v, (∃ s', p.Returns id c s (.matched c' v) s') ↔
      ∃ rounds s₁, p.Repeats item c s.enter rounds c' s₁ ∧ p.Greedy item min max rounds c' s₁ ∧
        v = p.config.kind.collect (rounds.map Round.value)) ∧
    (max = none → ∀ rounds c' s₁, p.Repeats item c s.enter rounds c' s₁ →
      p.Greedy item min max rounds c' s₁ →
        rounds.length ≤ Nat.max min (xs.length - Cursor.position c + 1)) ∧
    ((∃ s', p.Returns id c s .mismatch s') ↔ ∃ c' s₂, p.FallsShort item min c s.enter c' s₂) ∧
    ∀ s' c' s₂, p.Returns id c s .mismatch s' → p.FallsShort item min c s.enter c' s₂ →
      s' = (s₂.recordFailure c' id).leave ∧
        ((∀ f, s'.failure = some f → f.position ≤ Cursor.position c') →
          s'.failure = some ⟨c', id, s.depth + 1⟩) := by
  have hbounds : ∀ n, max = some n → min ≤ n := fun n hn =>
    Builder.bounds_of_build hb (hn ▸ hrule)
  have hlimit : ∀ limit, p.config.maxDepth = some limit → s.depth < limit := by
    obtain ⟨o, s', hr, ho⟩ := hreturns
    exact (hr.entered hrule ho).1
  refine ⟨fun c' v => ⟨?_, ?_⟩, ?_, ⟨?_, ?_⟩, fun s' c' s₂ hmiss hshort => ?_⟩
  · rintro ⟨s', hr⟩
    exact hr.exists_rounds hs hbounds hrule hc
  · rintro ⟨rounds, s₁, hrounds, hgreedy, rfl⟩
    exact hrounds.returns_matched hrule hlimit hgreedy
  · rintro rfl rounds c' s₁ hrounds hgreedy
    exact hgreedy.length_le hs hx hrounds hc
  · rintro ⟨s', hr⟩
    exact hr.fallsShort hs hbounds hrule hc
  · rintro ⟨c', s₂, hshort⟩
    exact ⟨_, hshort.returns_mismatch hrule hlimit hbounds⟩
  · obtain ⟨-, rfl⟩ := hmiss.unique (hshort.returns_mismatch hrule hlimit hbounds)
    refine ⟨rfl, fun hfurthest => ?_⟩
    have hfailure : (s₂.recordFailure c' id).leave.failure =
        Failure.further s₂.failure ⟨c', id, s.depth + 1⟩ := by
      show (s₂.recordFailure c' id).failure = _
      rw [RunState.failure_recordFailure, hshort.depth_eq]
      rfl
    rw [hfailure] at hfurthest ⊢
    exact Failure.further_eq_some hfurthest

/-- Looks for three letters `a` or more. -/
def letters (input : Array Char) : Parser (SliceCursor Char) Char Empty :=
  ⟨⟨#[.literal 'a', .repetition ⟨0⟩ 3 none], []⟩, ⟨1⟩, .start input, .standard⟩

/-- Two letters are too few: at the third place the letter does not match, and the failure kept
there is that of the repetition and not of the letter. -/
theorem letters_fallShort : ∃ s' : RunState (SliceCursor Char) Unit Empty,
    (letters #['a', 'a', 'b']).Returns ⟨1⟩ (.start #['a', 'a', 'b']) (.fresh ()) .mismatch s' ∧
      s'.failure = some ⟨⟨#['a', 'a', 'b'], 2⟩, ⟨1⟩, 1⟩ := by
  have hb : (Builder.after [.add (.literal 'a'), .add (.repetition ⟨0⟩ 3 none)] :
      Builder Char Empty).build = .ok (letters #['a', 'a', 'b']).grammar := rfl
  have hx : Cursor.Ends (fun n => #['a', 'a', 'b'][n]?) ['a', 'a', 'b'] :=
    fun _ _ => Array.getElem?_toList.symm
  obtain ⟨s', hr, hbelow⟩ : ∃ s' : RunState (SliceCursor Char) Unit Empty,
      (letters #['a', 'a', 'b']).Returns ⟨1⟩ (.start #['a', 'a', 'b']) (.fresh ()) .mismatch s' ∧
        ∀ f, s'.failure = some f → f.position ≤ 2 := by
    refine ⟨_, ⟨10, rfl⟩, fun f hf => ?_⟩
    obtain rfl := Option.some.inj hf
    decide
  obtain ⟨s₂, hshort⟩ : ∃ s₂, (letters #['a', 'a', 'b']).FallsShort ⟨0⟩ 3
      (.start #['a', 'a', 'b']) (RunState.fresh ()).enter ⟨#['a', 'a', 'b'], 2⟩ s₂ :=
    ⟨_, _, _, .cons ⟨1, rfl⟩ (.cons ⟨1, rfl⟩ .nil), by decide, ⟨1, rfl⟩⟩
  obtain ⟨-, -, -, hlast⟩ := repetition_greedy hb rfl SliceCursor.shared hx
    (SliceCursor.over_start _) ⟨_, _, hr, nofun⟩
  exact ⟨s', hr, (hlast s' _ s₂ hr hshort).2 hbelow⟩

end Parser
end PegMatcher
