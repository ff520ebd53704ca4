import PegMatcher.Proofs.Aborts
import PegMatcher.Proofs.Moments
/-
A run looks up rules of its grammar only.

Rule numbers are plain numbers and a builder takes any of them for a child.  Building refuses
the collection when one of them is no rule of it, so that a built grammar is closed.  What a
match comes to look up is the rule it was called with or below it: each moment brings children of
rules that were there before.  In a closed grammar a match is therefore aborted for an unknown
rule only at once, for the number it was called with.
-/
namespace PegMatcher

variable {γ ε σ π : Type}

/-! ## The rules of a moment -/

/-- The rules that are matched when an attempt has ended. -/
def Frame.rules : Frame γ π → List RuleId
  | .sequence _ items | .choice items _ => items
  | .rounds _ item _ _ _ _ => [item]
  | .nested | .look _ _ | .handled _ => []

/-- The rules that are about to be matched. -/
def Control.rules : Control γ π → List RuleId
  | .attempt goal _ => goal.rules
  | .ended _ => []

namespace Moment

/-- The rules that are about to be matched, now or when attempts have ended. -/
def rules (m : Moment γ σ π) : List RuleId := m.control.rules ++ m.frames.flatMap Frame.rules

/-- A rule is looked up by its number. -/
def LooksUp (target : RuleId) (m : Moment γ σ π) : Prop :=
  ∃ c, m.control = .attempt (.rule target) c

theorem LooksUp.mem_rules {target : RuleId} {m : Moment γ σ π} (h : m.LooksUp target) :
    target ∈ m.rules := by
  obtain ⟨c, hcontrol⟩ := h
  rw [rules, hcontrol]
  exact List.mem_cons_self

variable [Cursor γ ε σ] [Element ε] [ElementValue ε π] [Payload π] {g : Grammar ε π}
  {config : Config} {m m' : Moment γ σ π} {target : RuleId}

/-- A rule of the next moment was one before, or is a child of one. -/
theorem Step.mem_rules (h : Step g config m m') (ht : target ∈ m'.rules) :
    target ∈ m.rules ∨ ∃ id ∈ m.rules, g.Child id target := by
  cases h with
  | alone | tooDeep => exact .inl (List.mem_cons_of_mem _ ht)
  | lookahead h =>
    rcases List.mem_cons.1 ht with rfl | ht
    · exact .inr ⟨_, List.mem_cons_self, _, h, List.mem_singleton.2 rfl⟩
    · exact .inl (List.mem_cons_of_mem _ ht)
  | enter h hg =>
    rcases List.mem_append.1 ht with ht | ht
    · exact .inr ⟨_, List.mem_cons_self, _, h, Goal.rules_inside hg ▸ ht⟩
    · exact .inl (List.mem_cons_of_mem _ ht)
  | roundsFull | roundsLast | roundsEnough | roundsShort =>
    exact .inl (List.mem_cons_of_mem _ ht)
  | roundsItem =>
    -- the item stays to be matched in the rounds after this one
    rcases List.mem_cons.1 ht with rfl | ht
    · exact .inl List.mem_cons_self
    · exact .inl ht
  | pass => exact .inl (List.mem_append_right (Frame.rules _) ht)
  | _ => exact .inl ht

/-- Whatever comes to be matched is a rule of the first moment or below one. -/
theorem Steps.mem_rules (h : Steps g config m m') (ht : target ∈ m'.rules) :
    ∃ id ∈ m.rules, Relation.ReflTransGen g.Child id target := by
  induction h generalizing target with
  | refl => exact ⟨target, ht, .refl⟩
  | tail _ last ih =>
    rcases last.mem_rules ht with ht | ⟨parent, hparent, hchild⟩
    · exact ih ht
    · obtain ⟨id, hid, hbelow⟩ := ih hparent
      exact ⟨id, hid, hbelow.tail hchild⟩

/-- A match in a closed grammar looks up rules of the grammar only. -/
theorem Steps.contains (hg : g.Closed) {id : RuleId} {c : γ} {s : RunState γ σ π}
    (h : Steps g config ⟨.attempt (.rule id) c, [], s⟩ m) (hid : g.contains id = true)
    (ht : m.LooksUp target) : g.contains target = true := by
  obtain ⟨start, hstart, hbelow⟩ := h.mem_rules ht.mem_rules
  cases List.mem_singleton.1 hstart
  exact hg.contains_below hid hbelow

end Moment

/-! ## Unknown rules -/

section

variable [Cursor γ ε σ] [Element ε] [ElementValue ε π] [Payload π] {p : Parser γ ε π}
  {id missing : RuleId} {c : γ} {s s' : RunState γ σ π}

theorem Parser.returns_unknown (h : p.grammar.rule? id = none) (c : γ) (s : RunState γ σ π) :
    p.Returns id c s (.aborted (.unknownRule id)) s :=
  ⟨1, Grammar.step_unknown _ 0 c s h⟩

/-- A match in a closed grammar is aborted for an unknown rule exactly when it was called with
one, and changes nothing then. -/
theorem Parser.returns_unknown_iff (hg : p.grammar.Closed) :
    p.Returns id c s (.aborted (.unknownRule missing)) s' ↔
      missing = id ∧ p.grammar.size ≤ id.index ∧ s' = s := by
  constructor
  · intro h
    have hunknown : ¬p.grammar.contains id = true := by
      intro hid
      obtain ⟨i, marks, e, -⟩ := returns_iff.1 h
      exact e.known hg (Goal.within_rule.2 hid) missing rfl
    have hnone : p.grammar.rule? id = none := by
      rwa [Grammar.contains_iff, ← Option.isSome_iff_exists, Option.not_isSome_iff_eq_none]
        at hunknown
    obtain ⟨houtcome, rfl⟩ := h.unique (returns_unknown hnone c s)
    cases houtcome
    exact ⟨rfl, Nat.le_of_not_lt (mt Grammar.contains_iff_lt.2 hunknown), rfl⟩
  · rintro ⟨rfl, hsize, rfl⟩
    exact returns_unknown (Array.getElem?_eq_none hsize) c s'

end

/-! ## Built grammars -/

/-- Whatever calls were made of a builder, with whatever numbers, rules that pass its first
check refer to each other only.  When it builds a grammar, every child is a rule of it, a match
that is called with a rule of it looks up rules of it only, and a match is aborted for an
unknown rule exactly when it was called with one, with the state as it was. -/
theorem Builder.lookups_within (calls : List (Call ε π)) :
    (∀ rules, filledSlots (after calls).size 0 (after calls).slots.toList = .ok rules →
      ∀ rule ∈ rules, ∀ child ∈ rule.children, child.index < rules.length) ∧
    ∀ g, (after calls).build = .ok g →
      (∀ rule ∈ g.rules, ∀ child ∈ rule.children, child.index < g.size) ∧
      ∀ {γ σ : Type} [Cursor γ ε σ] [Element ε] [ElementValue ε π] [Payload π] (p : Parser γ ε π),
        p.grammar = g → ∀ (id : RuleId) (c : γ) (s : RunState γ σ π),
          (id.index < g.size → ∀ m target,
            Moment.Steps g p.config ⟨.attempt (.rule id) c, [], s⟩ m → m.LooksUp target →
              target.index < g.size) ∧
          ∀ missing s', p.Returns id c s (.aborted (.unknownRule missing)) s' ↔
            missing = id ∧ g.size ≤ id.index ∧ s' = s := by
  refine ⟨fun rules hrules => children_lt_of_filledSlots hrules, fun g hg => ?_⟩
  obtain ⟨-, -, hclosed⟩ := build_ok hg
  refine ⟨fun rule hrule child hchild => ?_, ?_⟩
  · obtain ⟨n, hn⟩ := Array.mem_iff_getElem?.1 hrule
    exact Grammar.contains_iff_lt.1 (hclosed ⟨n⟩ rule hn child hchild)
  · rintro γ σ _ _ _ _ p rfl id c s
    refine ⟨fun hid m target hsteps hlooks => ?_, fun missing s' => ?_⟩
    · exact Grammar.contains_iff_lt.1
        (hsteps.contains hclosed (Grammar.contains_iff_lt.2 hid) hlooks)
    · exact Parser.returns_unknown_iff hclosed

/-- A group is looked up where its placeholder was, and the greatest number of a word is
looked up in vain. -/
theorem groups_lookups_within : (Builder.after groupCalls).build = .ok groups ∧
    Builder.filledSlots (Builder.after groupCalls).size 0
      (Builder.after groupCalls).slots.toList = .ok groups.rules.toList ∧
    (∀ rule ∈ groups.rules, ∀ child ∈ rule.children, child.index < groups.size) ∧
    (groupParser #['(']).Returns ⟨0xffffffffffffffff⟩ (.start #['(']) (.fresh ())
      (.aborted (.unknownRule ⟨0xffffffffffffffff⟩)) (.fresh ()) ∧
    ∃ m, Moment.Steps groups ⟨.array, none⟩
        ⟨.attempt (.rule ⟨0⟩) (SliceCursor.start #['(']), [], .fresh ()⟩ m ∧
      m.LooksUp ⟨4⟩ ∧ 4 < groups.size := by
  have hbuild : (Builder.after groupCalls).build = .ok groups := rfl
  obtain ⟨hchildren, hmatch⟩ := (Builder.lookups_within groupCalls).2 groups hbuild
  have hparser (id : RuleId) := hmatch (groupParser #['(']) rfl id (.start #['(']) (.fresh ())
  have hstep : Moment.Steps groups ⟨.array, none⟩
      ⟨.attempt (.rule ⟨0⟩) (SliceCursor.start #['(']), [], (.fresh () : RunState _ Unit _)⟩ _ :=
    .single (.enter rfl rfl nofun)
  have hlooks := (hparser ⟨0⟩).1 (by decide) _ ⟨4⟩ hstep ⟨_, rfl⟩
  exact ⟨hbuild, rfl, hchildren, ((hparser ⟨0xffffffffffffffff⟩).2 _ _).2 ⟨rfl, by decide, rfl⟩,
    _, hstep, ⟨_, rfl⟩, hlooks⟩

end PegMatcher
