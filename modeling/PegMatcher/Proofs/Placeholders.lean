import Mathlib.Data.List.Induction
import Mathlib.Tactic.ByContra
import PegMatcher.Proofs.Building
/-
Placeholders over a history of calls.

A builder keeps no record of the calls that made it, but its slots tell what matters of them: the
empty slots are those of the placeholders that no call has defined yet, and a slot that has a rule
keeps it for good.  Therefore a definition is accepted just when its placeholder was created by
an earlier call and is not defined yet, so that in a grammar each placeholder stands for the
target of one definition, made before or after the rules that refer to it.

What a call does to a slot is said for one call, for empty slots and for filled ones, and then
for all calls by an induction that takes the last call off.
-/
namespace PegMatcher

variable {ε π : Type}

namespace Builder

variable {b : Builder ε π} {p t : RuleId} {n : Nat} {rule : Rule ε π} {call : Call ε π}
  {calls : List (Call ε π)}

/-! ## One call -/

theorem lt_size_of_slot {slot : Option (Rule ε π)} (h : b.slots[n]? = some slot) : n < b.size :=
  (Array.getElem?_eq_some_iff.1 h).1

/-- The definition of a placeholder as a target succeeds. -/
def Accepts (b : Builder ε π) (placeholder target : RuleId) : Prop :=
  (b.define placeholder target).1 = .ok ()

theorem accepts_iff :
    b.Accepts p t ↔ p ≠ t ∧ t.index < b.size ∧ b.slots[p.index]? = some none := by
  unfold Accepts define
  by_cases hself : p = t
  · simp [hself]
  · by_cases hknown : t.index < b.size
    · rw [if_neg hself, if_neg (Nat.not_le_of_lt hknown)]
      split <;> simp_all
    · simp [hself, hknown, Nat.le_of_not_lt hknown]

/-- A refused definition leaves the builder as it was. -/
theorem perform_of_refused (h : ¬b.Accepts p t) : (b.perform (.define p t)).2 = b := by
  cases hdefine : (b.define p t).1 with
  | ok => exact absurd hdefine h
  | error fault => exact define_error hdefine

theorem slots_of_accepts (h : b.Accepts p t) : (b.perform (.define p t)).2.slots =
    b.slots.setIfInBounds p.index (some (.placeholder t)) := by
  rcases b.define_cases p t with ⟨fault, hdefine⟩ | hdefine
  · rw [Accepts, hdefine] at h
    cases h
  · rw [perform, hdefine]

/-- An accepted definition puts a reference into the slot of its placeholder. -/
theorem filled_of_accepts (h : b.Accepts p t) :
    (b.perform (.define p t)).2.slots[p.index]? = some (some (.placeholder t)) := by
  have hlt : p.index < b.slots.size := lt_size_of_slot (accepts_iff.1 h).2.2
  rw [slots_of_accepts h, Array.getElem?_setIfInBounds_self_of_lt hlt]

/-- A definition changes no slot but that of its placeholder. -/
theorem slot_define_ne (hne : p.index ≠ n) :
    (b.perform (.define p t)).2.slots[n]? = b.slots[n]? := by
  by_cases haccepts : b.Accepts p t
  · rw [slots_of_accepts haccepts, Array.getElem?_setIfInBounds_ne hne]
  · rw [perform_of_refused haccepts]

/-- No call changes a slot that has a rule. -/
theorem filled_perform (h : b.slots[n]? = some (some rule)) (call : Call ε π) :
    (b.perform call).2.slots[n]? = some (some rule) := by
  have hne : n ≠ b.slots.size := Nat.ne_of_lt (lt_size_of_slot h)
  cases call with
  | add added =>
    rw [perform, add, Array.getElem?_push, if_neg hne]
    exact h
  | placeholder =>
    rw [perform, addPlaceholder, Array.getElem?_push, if_neg hne]
    exact h
  | define p t =>
    by_cases haccepts : b.Accepts p t
    · have hother : p.index ≠ n := by
        intro hp
        have hempty := (accepts_iff.1 haccepts).2.2
        rw [hp, h] at hempty
        cases hempty
      rw [slot_define_ne hother]
      exact h
    · rw [perform_of_refused haccepts]
      exact h
  | name id text => exact h

/-- A definition that is accepted fills the slot of its placeholder, and no other one is filled. -/
theorem unfilled_define : (b.perform (.define p t)).2.slots[n]? = some none ↔
    b.slots[n]? = some none ∧ ¬(p = ⟨n⟩ ∧ b.Accepts p t) := by
  by_cases hn : p = ⟨n⟩
  · by_cases haccepts : b.Accepts p t
    · have hfilled := filled_of_accepts haccepts
      rw [hn] at hfilled haccepts ⊢
      simp [hfilled, haccepts]
    · rw [perform_of_refused haccepts]
      simp [haccepts]
  · have hne : p.index ≠ n := fun h => hn (congrArg RuleId.mk h)
    rw [slot_define_ne hne]
    simp [hn]

/-- A slot is empty after a call when the call made it, or when it was empty before and the call
does not define it. -/
theorem unfilled_perform : (b.perform call).2.slots[n]? = some none ↔
    call = .placeholder ∧ n = b.size ∨
      b.slots[n]? = some none ∧ ∀ t, ¬(call = .define ⟨n⟩ t ∧ b.Accepts ⟨n⟩ t) := by
  cases call with
  | add added =>
    rw [perform, add, Array.getElem?_push]
    by_cases hn : n = b.slots.size
    · simp [hn]
    · simp [hn]
  | placeholder =>
    rw [perform, addPlaceholder, Array.getElem?_push]
    by_cases hn : n = b.slots.size
    · simp [hn, size]
    · simp [hn, size]
  | define p t =>
    have hcall : (∀ u, ¬(Call.define p t = (.define ⟨n⟩ u : Call ε π) ∧ b.Accepts ⟨n⟩ u)) ↔
        ¬(p = ⟨n⟩ ∧ b.Accepts p t) := by
      constructor
      · intro hno hp
        exact hno t ⟨congrArg (Call.define · t) hp.1, hp.1 ▸ hp.2⟩
      · intro hno u hu
        obtain ⟨hp, rfl⟩ := Call.define.inj hu.1
        exact hno ⟨hp, hp ▸ hu.2⟩
    rw [unfilled_define, hcall]
    simp
  | name id text => simp [perform, name]

/-! ## A history of calls -/

theorem after_snoc (calls : List (Call ε π)) (call : Call ε π) :
    after (calls ++ [call]) = ((after calls).perform call).2 := List.foldl_append

/-- One of the calls is such, made in the builder that the calls before it lead to. -/
def Made (calls : List (Call ε π)) (such : Builder ε π → Call ε π → Prop) : Prop :=
  ∃ earlier call later, calls = earlier ++ call :: later ∧ such (after earlier) call

/-- One of the calls made this placeholder. -/
def Created (calls : List (Call ε π)) (placeholder : RuleId) : Prop :=
  Made calls fun b call => call = .placeholder ∧ b.addPlaceholder.1 = placeholder

/-- One of the calls defined a placeholder as this target, and was accepted. -/
def Defined (calls : List (Call ε π)) (placeholder target : RuleId) : Prop :=
  Made calls fun b call => call = .define placeholder target ∧ b.Accepts placeholder target

theorem not_made_nil {such : Builder ε π → Call ε π → Prop} : ¬Made [] such := by
  intro hmade
  obtain ⟨earlier, call, later, h, -⟩ := hmade
  exact List.append_ne_nil_of_right_ne_nil earlier (List.cons_ne_nil call later) h.symm

theorem made_snoc {such : Builder ε π → Call ε π → Prop} :
    Made (calls ++ [call]) such ↔ Made calls such ∨ such (after calls) call := by
  constructor
  · intro hmade
    obtain ⟨earlier, made, later, h, hsuch⟩ := hmade
    rcases later.eq_nil_or_concat with rfl | ⟨later, last, rfl⟩
    · obtain ⟨rfl, hlast⟩ := List.append_inj' h rfl
      cases hlast
      exact .inr hsuch
    · rw [List.concat_eq_append, ← List.cons_append, ← List.append_assoc] at h
      exact .inl ⟨earlier, made, later, (List.append_inj' h rfl).1, hsuch⟩
  · intro hmade
    rcases hmade with ⟨earlier, made, later, rfl, hsuch⟩ | hsuch
    · exact ⟨earlier, made, later ++ [call], List.append_assoc _ _ _, hsuch⟩
    · exact ⟨calls, call, [], rfl, hsuch⟩

/-- No later call changes a slot that has a rule. -/
theorem filled_after (h : (after calls).slots[n]? = some (some rule)) (later : List (Call ε π)) :
    (after (calls ++ later)).slots[n]? = some (some rule) := by
  induction later using List.reverseRecOn with
  | nil => rwa [List.append_nil]
  | append_singleton later call ih =>
    rw [← List.append_assoc, after_snoc]
    exact filled_perform ih call

theorem filled_of_add (earlier later : List (Call ε π)) (rule : Rule ε π) :
    (after (earlier ++ .add rule :: later)).slots[(after earlier).size]? = some (some rule) := by
  rw [List.append_cons]
  refine filled_after ?_ later
  rw [after_snoc]
  exact Array.getElem?_push_size

theorem filled_of_defined (h : Defined calls p t) :
    (after calls).slots[p.index]? = some (some (.placeholder t)) := by
  obtain ⟨earlier, _, later, rfl, rfl, haccepts⟩ := h
  rw [List.append_cons]
  refine filled_after ?_ later
  rw [after_snoc]
  exact filled_of_accepts haccepts

/-- The empty slots are those of the placeholders that are not defined yet. -/
theorem unfilled_iff : (after calls).slots[n]? = some none ↔
    Created calls ⟨n⟩ ∧ ∀ t, ¬Defined calls ⟨n⟩ t := by
  induction calls using List.reverseRecOn with
  | nil => exact ⟨nofun, fun h => absurd h.1 not_made_nil⟩
  | append_singleton calls call ih =>
    have hcreated : Created (calls ++ [call]) ⟨n⟩ ↔
        Created calls ⟨n⟩ ∨ call = .placeholder ∧ n = (after calls).size := by
      rw [Created, made_snoc]
      refine or_congr Iff.rfl (and_congr_right fun _ => ?_)
      exact ⟨fun h => (congrArg RuleId.index h).symm, fun h => congrArg RuleId.mk h.symm⟩
    have hdefined : ∀ t, Defined (calls ++ [call]) ⟨n⟩ t ↔
        Defined calls ⟨n⟩ t ∨ call = .define ⟨n⟩ t ∧ (after calls).Accepts ⟨n⟩ t :=
      fun t => made_snoc
    rw [after_snoc, unfilled_perform, ih, hcreated]
    constructor
    · intro hslot
      rcases hslot with ⟨rfl, rfl⟩ | ⟨⟨hmade, hnot⟩, hcall⟩
      · -- a new slot has no definition, since a defined one has a rule
        refine ⟨.inr ⟨rfl, rfl⟩, fun t ht => ?_⟩
        rcases (hdefined t).1 ht with ht | ⟨heq, -⟩
        · exact absurd (lt_size_of_slot (filled_of_defined ht)) (Nat.lt_irrefl _)
        · cases heq
      · exact ⟨.inl hmade, fun t ht => ((hdefined t).1 ht).elim (hnot t) (hcall t)⟩
    · intro hboth
      obtain ⟨hmade | hnew, hnot⟩ := hboth
      · exact .inr ⟨⟨hmade, fun t ht => hnot t ((hdefined t).2 (.inl ht))⟩,
          fun t ht => hnot t ((hdefined t).2 (.inr ht))⟩
      · exact .inl hnew

/-- A definition is accepted when its placeholder was created and is not defined yet, and its
target is another rule. -/
theorem accepts_after_iff : (after calls).Accepts p t ↔
    p ≠ t ∧ p.index < (after calls).size ∧ t.index < (after calls).size ∧
      Created calls p ∧ ∀ t', ¬Defined calls p t' := by
  rw [accepts_iff, unfilled_iff]
  constructor
  · intro h
    obtain ⟨hne, ht, hp⟩ := h
    exact ⟨hne, lt_size_of_slot (unfilled_iff.2 hp), ht, hp⟩
  · intro h
    obtain ⟨hne, -, ht, hp⟩ := h
    exact ⟨hne, ht, hp⟩

/-- Once a definition of a placeholder is accepted, all later ones are refused. -/
theorem not_accepts_later (h : (after calls).Accepts p t) (between : List (Call ε π))
    (target : RuleId) : ¬(after (calls ++ .define p t :: between)).Accepts p target := by
  intro hlater
  exact (accepts_after_iff.1 hlater).2.2.2.2 t ⟨calls, _, between, rfl, rfl, h⟩

/-- Of a history, one definition of a placeholder at most is accepted. -/
theorem defined_once {earlier later earlier' later' : List (Call ε π)} {t' : RuleId}
    (h : earlier ++ .define p t :: later = earlier' ++ .define p t' :: later')
    (haccepts : (after earlier).Accepts p t) (haccepts' : (after earlier').Accepts p t') :
    earlier = earlier' ∧ t = t' := by
  rcases List.append_eq_append_iff.1 h with ⟨between, rfl, hrest⟩ | ⟨between, rfl, hrest⟩
  · cases between with
    | nil =>
      cases hrest
      exact ⟨(List.append_nil earlier).symm, rfl⟩
    | cons call between =>
      obtain ⟨rfl, -⟩ := List.cons.inj hrest
      exact absurd haccepts' (not_accepts_later haccepts between t')
  · cases between with
    | nil =>
      cases hrest
      exact ⟨List.append_nil earlier', rfl⟩
    | cons call between =>
      obtain ⟨rfl, -⟩ := List.cons.inj hrest
      exact absurd haccepts (not_accepts_later haccepts' between t)

/-! ## Refused definitions -/

/-- The call is a definition that fails. -/
def refuses (b : Builder ε π) : Call ε π → Bool
  | .define placeholder target => !(b.define placeholder target).1.isOk
  | _ => false

/-- The calls without the definitions that fail. -/
def withoutRefused (b : Builder ε π) : List (Call ε π) → List (Call ε π)
  | [] => []
  | call :: calls =>
    if b.refuses call then withoutRefused (b.perform call).2 calls
    else call :: withoutRefused (b.perform call).2 calls

theorem perform_of_refuses (h : b.refuses call = true) : (b.perform call).2 = b := by
  cases call with
  | define p t =>
    refine perform_of_refused fun haccepts => ?_
    rw [refuses, haccepts] at h
    cases h
  | _ => cases h

theorem foldl_withoutRefused (b : Builder ε π) (calls : List (Call ε π)) :
    (b.withoutRefused calls).foldl (fun b call => (b.perform call).2) b =
      calls.foldl (fun b call => (b.perform call).2) b := by
  induction calls generalizing b with
  | nil => rfl
  | cons call calls ih =>
    rw [withoutRefused, List.foldl_cons]
    split
    · rename_i hrefuses
      rw [perform_of_refuses hrefuses]
      exact ih b
    · exact ih _

/-! ## Grammars -/

theorem rule?_of_slot {g : Grammar ε π} (hg : b.build = .ok g) {id : RuleId}
    (h : b.slots[id.index]? = some (some rule)) : g.rule? id = some rule := by
  rw [slots_of_build hg] at h
  exact (Option.map_inj_right fun _ _ => Option.some.inj).1 h

/-- After any calls, a definition succeeds just when it refers to two rules that are there, the
first of them a placeholder that an earlier call created and no earlier call defined, and one
that fails leaves the builder as it was; so the calls without those that fail lead to the same
builder.  When that builder makes a grammar, each rule is in it under the number that its call
handed out, and under the number of each placeholder a reference to the target of the one
definition of it that succeeded. -/
theorem placeholders_bound_once (calls : List (Call ε π)) :
    (∀ p t, ((after calls).Accepts p t ↔
        p ≠ t ∧ p.index < (after calls).size ∧ t.index < (after calls).size ∧
          Created calls p ∧ ∀ t', ¬Defined calls p t') ∧
      (¬(after calls).Accepts p t → ((after calls).perform (.define p t)).2 = after calls)) ∧
    after (empty.withoutRefused calls) = after calls ∧
    ∀ g, (after calls).build = .ok g →
      (∀ earlier rule later, calls = earlier ++ .add rule :: later →
        g.rule? ((after earlier).add rule).1 = some rule) ∧
      ∀ p, Created calls p → ∃ earlier t later, calls = earlier ++ .define p t :: later ∧
        (after earlier).Accepts p t ∧ g.rule? p = some (.placeholder t) ∧
          ∀ earlier' t' later', calls = earlier' ++ .define p t' :: later' →
            (after earlier').Accepts p t' → earlier' = earlier ∧ t' = t := by
  refine ⟨fun p t => ⟨accepts_after_iff, perform_of_refused⟩, foldl_withoutRefused empty calls,
    fun g hg => ⟨?_, fun p hcreated => ?_⟩⟩
  · intro earlier rule later hcalls
    subst hcalls
    exact rule?_of_slot hg (filled_of_add earlier later rule)
  · -- a grammar has no empty slots, so that some call defined the placeholder
    obtain ⟨t, hdefined⟩ : ∃ t, Defined calls p t := by
      by_contra hnot
      have hslot := unfilled_iff.2 ⟨hcreated, not_exists.1 hnot⟩
      rw [slots_of_build hg] at hslot
      obtain ⟨rule, -, hrule⟩ := Option.map_eq_some_iff.1 hslot
      cases hrule
    have hrule := rule?_of_slot hg (filled_of_defined hdefined)
    obtain ⟨earlier, _, later, hcalls, rfl, haccepts⟩ := hdefined
    refine ⟨earlier, t, later, hcalls, haccepts, hrule, fun earlier' t' later' hcalls' h' => ?_⟩
    exact defined_once (hcalls'.symm.trans hcalls) h' haccepts

/-- A list of letters that refers to itself.  Its placeholder is used before it is defined, and
the definition succeeds at the third attempt and is not repeated. -/
def retriedCalls : List (Call Char Empty) :=
  [.placeholder, .define ⟨0⟩ ⟨0⟩, .define ⟨0⟩ ⟨2⟩, .add (.literal 'a'),
    .add (.sequence [⟨1⟩, ⟨0⟩]), .define ⟨1⟩ ⟨2⟩, .define ⟨0⟩ ⟨2⟩, .define ⟨0⟩ ⟨1⟩]

def retried : Grammar Char Empty :=
  ⟨#[.placeholder ⟨2⟩, .literal 'a', .sequence [⟨1⟩, ⟨0⟩]], []⟩

theorem retried_bound_once : (after retriedCalls).build = .ok retried ∧
    empty.withoutRefused retriedCalls = [.placeholder, .add (.literal 'a'),
      .add (.sequence [⟨1⟩, ⟨0⟩]), .define ⟨0⟩ ⟨2⟩] ∧
    after (empty.withoutRefused retriedCalls) = after retriedCalls ∧
    Created retriedCalls ⟨0⟩ ∧
    ∃ earlier later, retriedCalls = earlier ++ .define ⟨0⟩ ⟨2⟩ :: later ∧
      (after earlier).Accepts ⟨0⟩ ⟨2⟩ ∧ retried.rule? ⟨0⟩ = some (.placeholder ⟨2⟩) := by
  have hbuild : (after retriedCalls).build = .ok retried := rfl
  have hcreated : Created retriedCalls ⟨0⟩ := ⟨[], _, _, rfl, rfl, rfl⟩
  obtain ⟨-, hsame, hgrammar⟩ := placeholders_bound_once retriedCalls
  obtain ⟨earlier, t, later, hcalls, haccepts, hrule, -⟩ :=
    (hgrammar retried hbuild).2 ⟨0⟩ hcreated
  obtain rfl : ⟨2⟩ = t := Rule.placeholder.inj (Option.some.inj hrule)
  exact ⟨hbuild, rfl, hsame, hcreated, earlier, later, hcalls, haccepts, hrule⟩

end Builder
end PegMatcher
