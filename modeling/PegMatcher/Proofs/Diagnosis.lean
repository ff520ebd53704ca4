import PegMatcher.Proofs.HonestFailure
/-
A mismatch leaves a diagnostic.

A rule that does not match leaves a failure at the cursor where it was tried or further along.
Rules that take elements record their own failure.  Of the others only a repetition below its
minimum does, so that the failure is that of whatever did not match inside, and that began where
the rule did or behind elements that were matched.  Two rules can mismatch when nothing inside
them did: a negated lookahead, and a choice without alternatives.  A third one, a repetition with
its minimum above its maximum, is in no grammar that was built.
-/
namespace PegMatcher

variable {γ ε σ π : Type}

/-! ## Rules that mismatch for a reason -/

/-- A rule that mismatches only because something inside it does, if it has anything inside. -/
def Rule.Telling : Rule ε π → Prop
  | .firstOf items => items ≠ []
  | .repetition _ min max => ∀ n, max = some n → min ≤ n
  | .lookahead _ negated => negated = false
  | _ => True

/-- A rule is telling, and so is every rule below it. -/
def Grammar.TellsBelow (g : Grammar ε π) (id : RuleId) : Prop :=
  ∀ target, Relation.ReflTransGen g.Child id target →
    ∀ rule, g.rule? target = some rule → rule.Telling

/-- Below a rule of a built grammar every rule is telling when there is no negated lookahead
and no choice without alternatives. -/
theorem Builder.tellsBelow {b : Builder ε π} {g : Grammar ε π} (hb : b.build = .ok g)
    {id : RuleId} (hbelow : ∀ target, Relation.ReflTransGen g.Child id target →
      g.rule? target ≠ some (.firstOf []) ∧
        ∀ item, g.rule? target ≠ some (.lookahead item true)) : g.TellsBelow id := by
  intro target htarget rule hrule
  obtain ⟨hchoice, hlookahead⟩ := hbelow target htarget
  cases rule with
  | firstOf items =>
    intro hitems
    exact hchoice (hitems ▸ hrule)
  | lookahead item negated =>
    cases negated with
    | false => rfl
    | true => exact absurd hrule (hlookahead item)
  | repetition item min max =>
    intro n hn
    exact bounds_of_build hb (hn ▸ hrule)
  | _ => exact trivial

/-- What is left to do mismatches only because a rule does that it is about to match, and such
rules are telling. -/
structure Goal.Telling (g : Grammar ε π) (goal : Goal π) : Prop where
  choice : goal ≠ .choice []
  bounds : ∀ id item min max results, goal = .rounds id item min max results →
    ∀ n, max = some n → min ≤ n
  rules : ∀ id ∈ goal.rules, g.TellsBelow id

namespace Goal.Telling

variable {g : Grammar ε π} {goal : Goal π} {id : RuleId}

theorem of_rule (h : g.TellsBelow id) : (Goal.rule id).Telling g :=
  ⟨nofun, nofun, fun _ hid => List.mem_singleton.1 hid ▸ h⟩

theorem of_rounds {item : RuleId} {min : Nat} {max : Option Nat} {results : List (Value π)}
    (hbounds : ∀ n, max = some n → min ≤ n) (hitem : g.TellsBelow item) :
    (Goal.rounds id item min max results).Telling g where
  choice := nofun
  bounds _ _ _ _ _ heq := by
    cases heq
    exact hbounds
  rules _ hid := List.mem_singleton.1 hid ▸ hitem

theorem below (h : goal.Telling g) (hid : id ∈ goal.rules) : (Goal.rule id).Telling g :=
  of_rule (h.rules id hid)

theorem child {rule : Rule ε π} {child : RuleId} (h : (Goal.rule id).Telling g)
    (hrule : g.rule? id = some rule) (hchild : child ∈ rule.children) : g.TellsBelow child :=
  fun target hbelow => h.rules id (List.mem_singleton.2 rfl) target
    (.head ⟨rule, hrule, hchild⟩ hbelow)

theorem telling {rule : Rule ε π} (h : (Goal.rule id).Telling g)
    (hrule : g.rule? id = some rule) : rule.Telling :=
  h.rules id (List.mem_singleton.2 rfl) id .refl rule hrule

/-- What is inside a telling rule is telling. -/
theorem inside {rule : Rule ε π} (h : (Goal.rule id).Telling g) (hrule : g.rule? id = some rule)
    (hgoal : rule.inside? id = some goal) : goal.Telling g := by
  have htelling := h.telling hrule
  have hrules : ∀ id ∈ goal.rules, g.TellsBelow id := by
    intro id hid
    rw [Goal.rules_inside hgoal] at hid
    exact h.child hrule hid
  cases rule with
  | firstOf items =>
    cases hgoal
    exact ⟨fun heq => htelling (Goal.choice.inj heq), nofun, hrules⟩
  | repetition item min max =>
    cases hgoal
    exact .of_rounds htelling (hrules item (List.mem_singleton.2 rfl))
  | sequence | placeholder | handler =>
    cases hgoal
    exact ⟨nofun, nofun, hrules⟩
  | _ => cases hgoal

end Goal.Telling

/-! ## Failures from a cursor on -/

variable [Cursor γ ε σ]

/-- A failure among some marks at a cursor or further along. -/
def Mark.FailsFrom (c : γ) (marks : List (Mark γ π)) : Prop :=
  ∃ f, .failed f ∈ marks ∧ Cursor.position c ≤ f.position

namespace Mark.FailsFrom

variable {c c' : γ} {marks more : List (Mark γ π)}

theorem here {id : RuleId} {depth : Nat} :
    FailsFrom c ([.failed ⟨c, id, depth⟩] : List (Mark γ π)) :=
  ⟨_, List.mem_singleton.2 rfl, Nat.le_refl _⟩

theorem of_subset (h : FailsFrom c marks) (hsub : marks ⊆ more) : FailsFrom c more := by
  obtain ⟨f, hf, hle⟩ := h
  exact ⟨f, hsub hf, hle⟩

theorem of_le (h : FailsFrom c' marks) (hle : Cursor.position c ≤ Cursor.position c') :
    FailsFrom c marks := by
  obtain ⟨f, hf, hle'⟩ := h
  exact ⟨f, hf, Nat.le_trans hle hle'⟩

end Mark.FailsFrom

/-! ## What is reported -/

variable [Element ε]

theorem Diagnostic.text_ne_empty (d : Diagnostic) : d.text ≠ "" := by
  intro h
  have hlabel := (String.append_eq_empty_iff.1 (String.append_eq_empty_iff.1
    (String.append_eq_empty_iff.1 (String.append_eq_empty_iff.1 h).1).1).1).1
  exact absurd hlabel (by decide)

/-- Where there is a failure there is an error at its position, with a text. -/
theorem Parser.error?_of_failure {p : Parser γ ε π} {s : RunState γ σ π} {f : Failure γ}
    (hf : s.failure = some f) :
    ∃ d, p.error? s = some d ∧ d.position = f.position ∧ p.errorText s ≠ "" := by
  have herror : p.error? s = some ⟨f.position, (Cursor.peek f.cursor).map Element.display,
      f.rule, p.grammar.describe f.rule⟩ := by
    rw [error?, hf]
    rfl
  refine ⟨_, herror, rfl, ?_⟩
  rw [errorText, herror]
  exact Diagnostic.text_ne_empty _

/-! ## The failure of a mismatch -/

variable [ElementValue ε π] [Payload π]

/-- A telling goal that mismatches leaves a failure where it was tried or further along. -/
theorem Evaluates.failsFrom {g : Grammar ε π} {config : Config} {goal : Goal π} {depth : Nat}
    {c : γ} {i i' : σ} {o : Outcome γ (Value π)} {marks : List (Mark γ π)}
    {Over : σ → γ → (Nat → Option ε) → Prop} (hs : Cursor.Shared Over) {x : Nat → Option ε}
    (e : Evaluates g config goal depth c i o i' marks) :
    Over i c x → goal.Telling g → o = .mismatch → Mark.FailsFrom c marks := by
  induction e with
  | endMissed | elementMissed | wordMissed => exact fun _ _ _ => .here
  | lookahead h _ ih =>
    intro hc ht ho
    have hplain : _ = false := ht.telling h
    subst hplain
    refine ih hc (.of_rule (ht.child h (List.mem_singleton.2 rfl))) ?_
    rename_i o _ _ _
    cases o with
    | mismatch => rfl
    | matched | aborted => cases ho
  | nested h hgoal _ _ ih =>
    exact fun hc ht ho => (ih hc (ht.inside h hgoal) ho).of_subset (List.subset_cons_self ..)
  | @sequenceNext results item items depth c i c₁ value _ _ _ _ _ first _ _ ih =>
    intro hc ht ho
    have hrest : (Goal.sequence (value :: results) items).Telling g :=
      ⟨nofun, nofun, fun id hid => ht.rules id (List.mem_cons_of_mem _ hid)⟩
    refine ((ih (first.over_matched hs hc) hrest ho).of_le (first.position_le hs hc)).of_subset ?_
    exact List.subset_append_right ..
  | sequenceStop _ _ ih | choiceStop _ _ ih =>
    exact fun hc ht ho => ih hc (ht.below List.mem_cons_self) ho
  | choiceNone => exact fun _ ht _ => absurd rfl ht.choice
  | choiceNext _ _ ih _ =>
    intro hc ht _
    refine (ih hc (ht.below List.mem_cons_self) rfl).of_subset ?_
    exact List.subset_append_left ..
  | roundsFull hm hn =>
    intro _ ht ho
    have hle := ht.bounds _ _ _ _ _ rfl _ hm
    rw [if_pos (Nat.le_trans hle hn)] at ho
    cases ho
  | @roundsNext id item min max results depth c i c₁ value _ _ _ _ _ _ first _ _ _ ih =>
    intro hc ht ho
    have hrest : (Goal.rounds id item min max (value :: results)).Telling g :=
      .of_rounds (ht.bounds id item min max results rfl) (ht.rules item (List.mem_singleton.2 rfl))
    refine ((ih (first.over_matched hs hc) hrest ho).of_le (first.position_le hs hc)).of_subset ?_
    exact List.subset_append_right ..
  | roundsShort => exact fun _ _ _ => Mark.FailsFrom.here.of_subset (List.subset_append_right ..)
  | handledStop _ _ ih => exact fun hc ht ho => ih hc (ht.below (List.mem_singleton.2 rfl)) ho
  | _ => exact fun _ _ => nofun

namespace Parser

variable {p : Parser γ ε π} {s s' : RunState γ σ π}

/-- A rule of a built grammar with no negated lookahead and no choice without alternatives
below it leaves a failure when it mismatches, whatever was matched before.  The failure is at
the cursor of the rule or further along, and there is an error with a text for it. -/
theorem mismatch_diagnosed {b : Builder ε π} (hb : b.build = .ok p.grammar)
    {Over : σ → γ → (Nat → Option ε) → Prop} (hs : Cursor.Shared Over) {id : RuleId}
    (hbelow : ∀ target, Relation.ReflTransGen p.grammar.Child id target →
      p.grammar.rule? target ≠ some (.firstOf []) ∧
        ∀ item, p.grammar.rule? target ≠ some (.lookahead item true))
    {c : γ} {x : Nat → Option ε} (hc : Over s.input c x)
    (h : p.Returns id c s .mismatch s') :
    ∃ f, s'.failure = some f ∧ Cursor.position c ≤ Cursor.position f.cursor ∧
      ∃ d, p.error? s' = some d ∧ d.position = Cursor.position f.cursor ∧
        p.errorText s' ≠ "" := by
  obtain ⟨i', marks, e, rfl⟩ := returns_iff.1 h
  have htelling : (Goal.rule id).Telling p.grammar := .of_rule (Builder.tellsBelow hb hbelow)
  obtain ⟨f, hf, hle⟩ := e.failsFrom hs hc htelling rfl
  obtain ⟨f', hf', hle'⟩ := Failure.le_foldl_further (Mark.mem_failures.2 hf) s.failure
  have hkept : (s.after marks i').failure = some f' := (s.failure_after marks i').trans hf'
  exact ⟨f', hkept, Nat.le_trans hle hle', error?_of_failure hkept⟩

/-- A group with nothing behind it: an element was asked for and missed at the end. -/
theorem groups_diagnosed : ∃ s', (groupParser #['(', ')']).Returns ⟨7⟩ (.start #['(', ')'])
      (.fresh ()) .mismatch s' ∧
    ∃ f, s'.failure = some f ∧ 0 ≤ Cursor.position f.cursor ∧
      ∃ d, (groupParser #['(', ')']).error? s' = some d ∧
        d.position = Cursor.position f.cursor ∧
        (groupParser #['(', ')']).errorText s' ≠ "" := by
  have hreturns : (groupParser #['(', ')']).Returns ⟨7⟩ (.start #['(', ')'])
      (.fresh ()) .mismatch _ := ⟨20, rfl⟩
  refine ⟨_, hreturns, ?_⟩
  refine mismatch_diagnosed build_groupCalls SliceCursor.shared (fun target _ => ?_)
    (SliceCursor.over_start #['(', ')']) hreturns
  have hrules : ∀ rule ∈ groups.rules.toList,
      rule ≠ .firstOf [] ∧ ∀ item, rule ≠ .lookahead item true := by
    simp [groups, Rule.zeroOrMore]
  exact ⟨fun h => (hrules _ (Grammar.mem_of_rule? h)).1 rfl,
    fun item h => (hrules _ (Grammar.mem_of_rule? h)).2 item rfl⟩

end Parser
end PegMatcher
