import PegMatcher.Proofs.Alike
import PegMatcher.Proofs.Reading.Slice
import PegMatcher.Proofs.Simulation.Records
/-
Recognition is independent of values.

Two grammars with the same rule graph may make different values of a match: their constants,
the values of their words and their actions may differ, and so may the representation of
vectors.  They correspond when nothing at all is asked of the values.  A run of one therefore
has its copy in the other, with the same outcome but for the value and with the same records,
and neither consumes what the other does not.
-/
namespace PegMatcher

variable {γ ε σ π : Type}

/-! ## Grammars with the same rule graph -/

/-- Rules that take the same elements and go on with the same rules. -/
inductive Rule.SameGraph : Rule ε π → Rule ε π → Prop
  | empty {v w} : SameGraph (.empty v) (.empty w)
  | word {items v w} : SameGraph (.word items v) (.word items w)
  | handler {item action action'} : SameGraph (.handler item action) (.handler item action')
  | same (rule) : SameGraph rule rule

theorem Rule.SameGraph.symm {r₀ r₁ : Rule ε π} (h : r₀.SameGraph r₁) : r₁.SameGraph r₀ := by
  cases h with
  | empty => exact .empty
  | word => exact .word
  | handler => exact .handler
  | same => exact .same _

/-- The rules under each number have the same graph.  Names may differ. -/
def Grammar.SameGraph (g₀ g₁ : Grammar ε π) : Prop :=
  List.Forall₂ Rule.SameGraph g₀.rules.toList g₁.rules.toList

namespace Grammar

variable {g₀ g₁ : Grammar ε π}

theorem SameGraph.symm (h : g₀.SameGraph g₁) : g₁.SameGraph g₀ :=
  List.Forall₂.flip (List.Forall₂.imp (fun _ _ => Rule.SameGraph.symm) h)

theorem SameGraph.rel_rule? (h : g₀.SameGraph g₁) (id : RuleId) :
    Option.Rel Rule.SameGraph (g₀.rule? id) (g₁.rule? id) := by
  rw [rule?, rule?, ← Array.getElem?_toList, ← Array.getElem?_toList]
  exact rel_getElem? h id.index

end Grammar

/-! ## Nothing is asked of values -/

variable [Element ε] [ElementValue ε π] [Payload π]

/-- Rules with the same graph go on alike, whatever values they make. -/
theorem Rule.SameGraph.corresponds {r₀ r₁ : Rule ε π} (h : r₀.SameGraph r₁) (κ₀ κ₁ : Kind) :
    r₀.Corresponds (fun _ _ => True) κ₀ κ₁ r₁ := by
  cases h with
  | empty => exact ⟨fun _ => ⟨_, rfl, trivial⟩, nofun, nofun, nofun, nofun, nofun⟩
  | @word items v w =>
    refine ⟨nofun, nofun, nofun, fun {items' v'} heq => ?_, nofun, nofun⟩
    cases heq
    exact ⟨w, rfl, trivial⟩
  | handler =>
    refine ⟨nofun, nofun, nofun, nofun, nofun, fun {id goal} heq => ?_⟩
    cases heq
    exact ⟨_, rfl, .handled fun _ _ _ => trivial⟩
  | same =>
    exact corresponds_self (fun _ => trivial) (fun _ => trivial) (fun _ => trivial)
      (fun _ => trivial) fun _ _ _ _ => trivial

theorem Grammar.SameGraph.corresponds {g₀ g₁ : Grammar ε π} (h : g₀.SameGraph g₁)
    (κ₀ κ₁ : Kind) : g₀.Corresponds (fun _ _ => True) κ₀ κ₁ g₁ where
  unknown {id} hnone := by
    have hrel := h.rel_rule? id
    rw [hnone] at hrel
    generalize g₁.rule? id = r at hrel ⊢
    cases hrel
    rfl
  rule {id r₀} hrule := by
    have hrel := h.rel_rule? id
    rw [hrule] at hrel
    generalize g₁.rule? id = r at hrel ⊢
    cases hrel with
    | some hr => exact ⟨_, rfl, hr.corresponds κ₀ κ₁⟩
  null := trivial
  element _ := trivial
  collect _ := trivial

/-- The outcome without the value of a match. -/
def Outcome.bare {α : Type} : Outcome γ α → Outcome γ Unit
  | .matched c _ => .matched c ()
  | .mismatch => .mismatch
  | .aborted cause => .aborted cause

namespace Parser

variable [Cursor γ ε σ] {p q : Parser γ ε π}

/-- What one of two parsers with the same rule graph does, the other does too, up to the
value of the match and to messages. -/
theorem Returns.of_sameGraph (hg : p.grammar.SameGraph q.grammar)
    (hl : p.config.maxDepth = q.config.maxDepth) {id : RuleId} {c : γ}
    {s s' : RunState γ σ π} {o : Outcome γ (Value π)} (h : p.Returns id c s o s')
    (log : List (Message π)) :
    ∃ o' t', q.Returns id c { s with log } o' t' ∧ o.bare = o'.bare ∧ s'.depth = t'.depth ∧
      s'.maxDepth = t'.maxDepth ∧ s'.failure = t'.failure ∧ s'.input = t'.input := by
  have hcorr := hg.corresponds p.config.kind q.config.kind
  have hstart : s.Related (fun c d => s.input = s.input ∧ c = d)
      ({ s with log } : RunState γ σ π) := by
    refine ⟨rfl, rfl, ?_⟩
    show Option.Rel _ s.failure s.failure
    cases s.failure with
    | none => exact .none
    | some f => exact .some ⟨⟨rfl, rfl⟩, rfl, rfl⟩
  obtain ⟨o', t', hr, hstay, ho, hs⟩ :=
    h.copied (t := { s with log }) Cursor.bridge_refl hcorr hl ⟨rfl, rfl⟩ hstart
  refine ⟨o', t', hr, ?_, hs.depth_eq, hs.maxDepth_eq, ?_, (hstay c c ⟨rfl, rfl⟩).1⟩
  · cases ho with
    | matched hc => exact congrArg (Outcome.matched · ()) hc.2
    | mismatch => rfl
    | aborted hcause => exact congrArg Outcome.aborted (Abort.moved_zero.1 hcause)
  · have hkept := hs.failure
    generalize s'.failure = f, t'.failure = f' at hkept ⊢
    cases hkept with
    | none => rfl
    | some hf => exact congrArg some (hf.eq fun _ _ hc => hc.2)

/-- Two parsers whose grammars have the same rule graph and whose depth limits are the same,
in states that differ in messages only: one returns from a match exactly when the other does,
and they end alike, but for the value of a match, and leave the same records and the same
input. -/
theorem recognition_independent (hg : p.grammar.SameGraph q.grammar)
    (hl : p.config.maxDepth = q.config.maxDepth) (id : RuleId) (c : γ) (s : RunState γ σ π)
    (log : List (Message π)) :
    ((∃ o s', p.Returns id c s o s') ↔ ∃ o' t', q.Returns id c { s with log } o' t') ∧
      ∀ o s' o' t', p.Returns id c s o s' → q.Returns id c { s with log } o' t' →
        o.bare = o'.bare ∧ s'.depth = t'.depth ∧ s'.maxDepth = t'.maxDepth ∧
          s'.failure = t'.failure ∧ s'.input = t'.input := by
  refine ⟨⟨?_, ?_⟩, fun o s' o' t' h h' => ?_⟩
  · rintro ⟨o, s', h⟩
    obtain ⟨o', t', h', -⟩ := h.of_sameGraph hg hl log
    exact ⟨o', t', h'⟩
  · rintro ⟨o', t', h'⟩
    obtain ⟨o, s', h, -⟩ := h'.of_sameGraph hg.symm hl.symm s.log
    exact ⟨o, s', h⟩
  · obtain ⟨o₁, t₁, h₁, hsame⟩ := h.of_sameGraph hg hl log
    obtain ⟨rfl, rfl⟩ := h₁.unique h'
    exact hsame

end Parser

/-- Pairs of letters with nothing behind them, each collapsed into one vector. -/
def letterPairs : Grammar Char Empty :=
  ⟨#[.word ['a', 'b'] none, .empty .null, .sequence [⟨0⟩, ⟨1⟩], .handler ⟨2⟩ .collapse,
    Rule.zeroOrMore ⟨3⟩], []⟩

/-- The same pairs, each counted as one. -/
def pairCounts : Grammar Char Empty :=
  ⟨#[.word ['a', 'b'] (some .null), .empty (.str "pair"), .sequence [⟨0⟩, ⟨1⟩],
    .handler ⟨2⟩ (.map fun _ _ => .int 1), Rule.zeroOrMore ⟨3⟩], [(⟨4⟩, "pairs")]⟩

/-- Looks for pairs at the start of the input, at most three levels deep. -/
def pairParser (g : Grammar Char Empty) (kind : Kind) (input : Array Char) :
    Parser (SliceCursor Char) Char Empty :=
  ⟨g, ⟨4⟩, .start input, ⟨kind, some 3⟩⟩

/-- In a text with half a pair at its end, counting stops where collecting does. -/
theorem pairs_recognition : letterPairs.SameGraph pairCounts ∧ ∃ o' t',
    (pairParser pairCounts .cons #['a', 'b', 'a']).Returns ⟨4⟩ (.start #['a', 'b', 'a'])
      (.fresh ()) o' t' ∧
    o'.bare = .matched ⟨#['a', 'b', 'a'], 2⟩ () ∧ t'.maxDepth = 3 ∧
    t'.failure = some ⟨⟨#['a', 'b', 'a'], 2⟩, ⟨0⟩, 3⟩ := by
  have hgraph : letterPairs.SameGraph pairCounts :=
    .cons .word (.cons .empty (.cons (.same _) (.cons .handler (.cons (.same _) .nil))))
  have hcollected : ∃ o s', (pairParser letterPairs .array #['a', 'b', 'a']).Returns ⟨4⟩
      (.start #['a', 'b', 'a']) (.fresh ()) o s' ∧
      o.bare = .matched ⟨#['a', 'b', 'a'], 2⟩ () ∧ s'.maxDepth = 3 ∧
      s'.failure = some ⟨⟨#['a', 'b', 'a'], 2⟩, ⟨0⟩, 3⟩ := ⟨_, _, ⟨9, rfl⟩, rfl, rfl, rfl⟩
  obtain ⟨o, s', h, ho, hmax, hfailure⟩ := hcollected
  have hlimit : (pairParser letterPairs .array #['a', 'b', 'a']).config.maxDepth =
      (pairParser pairCounts .cons #['a', 'b', 'a']).config.maxDepth := rfl
  obtain ⟨hreturns, hsame⟩ := Parser.recognition_independent hgraph hlimit ⟨4⟩
    (.start #['a', 'b', 'a']) (.fresh ()) []
  obtain ⟨o', t', h'⟩ := hreturns.1 ⟨o, s', h⟩
  obtain ⟨hend, -, hdeepest, hkept, -⟩ := hsame o s' o' t' h h'
  exact ⟨hgraph, o', t', h', hend.symm.trans ho, hdeepest.symm.trans hmax,
    hkept.symm.trans hfailure⟩

end PegMatcher
