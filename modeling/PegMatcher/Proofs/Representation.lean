import PegMatcher.Proofs.Alike
import PegMatcher.Proofs.Simulation.Evaluation
import PegMatcher.Proofs.Reading.Slice
/-
The representation of vectors never shows in the results.

A grammar whose constants and elements have no improper chains, and whose functions take
alike values to alike values, matches the same under both representations: it corresponds to
itself with values related by being alike, so that every evaluation under one has its copy
under the other at the same cursors.
-/
namespace PegMatcher

variable {γ ε σ π : Type}

namespace Grammar

/-- The values that empty matches and words are given have no improper chains. -/
def ProperConstants (g : Grammar ε π) : Prop :=
  (∀ id v, g.rule? id = some (.empty v) → v.Proper) ∧
    ∀ id items v, g.rule? id = some (.word items (some v)) → v.Proper

/-- Functions of the grammar take alike values to alike values, with arrays in use on one
side and chains on the other. -/
def MapsAlike (g : Grammar ε π) : Prop :=
  ∀ id item f, g.rule? id = some (.handler item (.map f)) →
    ∀ v w, v.Alike w → (f v .array).Alike (f w .cons)

end Grammar

/-- The parser with vectors in the given representation. -/
def Parser.representing (p : Parser γ ε π) (kind : Kind) : Parser γ ε π :=
  { p with config := { p.config with kind } }

/-- Outcomes of the same kind, matched at the same cursor with alike values. -/
inductive Outcome.Alike : Outcome γ (Value π) → Outcome γ (Value π) → Prop
  | matched {c v w} (h : v.Alike w) : Alike (.matched c v) (.matched c w)
  | mismatch : Alike .mismatch .mismatch
  | aborted {cause} : Alike (.aborted cause) (.aborted cause)

theorem Outcome.Alike.symm {o o' : Outcome γ (Value π)} (h : o.Alike o') : o'.Alike o := by
  cases h with
  | matched h => exact .matched h.symm
  | mismatch => exact .mismatch
  | aborted => exact .aborted

variable [Cursor γ ε σ] [Element ε] [ElementValue ε π] [Payload π]

theorem Grammar.corresponds_alike {g : Grammar ε π} {κ₀ κ₁ : Kind} (hg : g.ProperConstants)
    (he : ∀ item : ε, (ElementValue.value item : Value π).Proper)
    (hmap : ∀ id item f, g.rule? id = some (.handler item (.map f)) →
      ∀ v w, v.Alike w → (f v κ₀).Alike (f w κ₁)) : g.Corresponds Value.Alike κ₀ κ₁ g := by
  refine g.corresponds_self (.scalar nofun) (fun item => (he item).alike)
    (fun h => Value.alike_collect h κ₀ κ₁) (fun h => (hg.1 _ _ h).alike)
    (fun h => (hg.2 _ _ _ h).alike) ?_
  intro id item action h v w hvw
  refine Value.alike_congruence.apply (fun f hf => ?_) hvw
  subst hf
  exact hmap id item f h

namespace Parser

variable {p : Parser γ ε π} {id : RuleId} {c : γ} {s s' : RunState γ σ π}

theorem Returns.alike {κ₀ κ₁ : Kind} {o : Outcome γ (Value π)}
    (hcorr : p.grammar.Corresponds Value.Alike κ₀ κ₁ p.grammar)
    (h : (p.representing κ₀).Returns id c s o s') :
    ∃ o' s'', (p.representing κ₁).Returns id c s o' s'' ∧ o.Alike o' := by
  obtain ⟨i', marks, e, -⟩ := returns_iff.1 h
  have hlimit : (p.representing κ₀).config.maxDepth = (p.representing κ₁).config.maxDepth := rfl
  obtain ⟨o', j', marks', e', -, ho, -⟩ := e.copied Cursor.bridge_refl hcorr hlimit .rule
    (Nat.add_zero s.depth).symm ⟨rfl, rfl⟩ fun _ => rfl
  refine ⟨o', _, returns_iff.2 ⟨j', marks', e', rfl⟩, ?_⟩
  cases ho with
  | matched hc hv => exact hc.2 ▸ .matched hv
  | mismatch => exact .mismatch
  | aborted hcause => exact Abort.moved_zero.1 hcause ▸ .aborted

/-- Under arrays and under chains a parser ends in the same way, at the same cursor and with
alike values.  These are written the same when arrays are written as lists, have the same
text, and are equal when they hold no float and no payload that differs from itself. -/
theorem representation_unseen (hg : p.grammar.ProperConstants)
    (he : ∀ item : ε, (ElementValue.value item : Value π).Proper) (hmap : p.grammar.MapsAlike)
    (id : RuleId) (c : γ) (s : RunState γ σ π) :
    (∀ o s', (p.representing .array).Returns id c s o s' →
      ∃ o' s'', (p.representing .cons).Returns id c s o' s'' ∧ o.Alike o') ∧
    (∀ o' s'', (p.representing .cons).Returns id c s o' s'' →
      ∃ o s', (p.representing .array).Returns id c s o s' ∧ o.Alike o') ∧
    ∀ v w : Value π, v.Alike w →
      (⟨true⟩ : Printer).print v = (⟨true⟩ : Printer).print w ∧ v.text = w.text ∧
      ((∀ x, (Value.float x).Occurs v → x.isNaN = false) →
        (∀ q, (Value.custom q).Occurs v → Payload.same q q = true) → v.same w = true) := by
  refine ⟨fun o s' h => ?_, fun o' s'' h => ?_, fun v w h => ?_⟩
  · exact h.alike (Grammar.corresponds_alike hg he hmap)
  · have hback : ∀ id item f, p.grammar.rule? id = some (.handler item (.map f)) →
        ∀ v w, v.Alike w → (f v .cons).Alike (f w .array) :=
      fun id item f hf v w hvw => (hmap id item f hf w v hvw.symm).symm
    obtain ⟨o, s', hr, ho⟩ := h.alike (Grammar.corresponds_alike hg he hback)
    exact ⟨o, s', hr, ho.symm⟩
  · exact ⟨h.print_eq rfl, h.text_eq, h.same_eq_true⟩

/-- A character and an empty vector, wrapped in one more vector by a function. -/
def wrapping : Grammar Char Empty :=
  ⟨#[.any, .emptyVector, .sequence [⟨0⟩, ⟨1⟩], .handler ⟨2⟩ (.map fun v kind => kind.collect [v])],
    []⟩

theorem wrapping_unseen : wrapping.MapsAlike ∧ ∃ o s',
    ((⟨wrapping, ⟨3⟩, .start #['a'], .standard⟩ : Parser (SliceCursor Char) Char Empty).representing
      .cons).Returns ⟨3⟩ (.start #['a']) (.fresh ()) o s' ∧
    Outcome.Alike (.matched ⟨#['a'], 1⟩
      (.vector (.array [.vector (.array [.char 'a', .vector (.array [])])]))) o := by
  have hconstants : wrapping.ProperConstants :=
    ⟨fun id v h => by simpa [wrapping] using Grammar.mem_of_rule? h,
      fun id items v h => by simpa [wrapping] using Grammar.mem_of_rule? h⟩
  have helements (item : Char) : (ElementValue.value item : Value Empty).Proper :=
    show (Value.char item : Value Empty).Proper from .scalar nofun
  have hmaps : wrapping.MapsAlike := by
    intro id item f h v w hvw
    have hf : item = ⟨2⟩ ∧ f = fun v kind => kind.collect [v] := by
      simpa [wrapping] using Grammar.mem_of_rule? h
    rw [hf.2]
    exact Value.alike_collect (.cons hvw .nil) .array .cons
  have hr : ((⟨wrapping, ⟨3⟩, .start #['a'], .standard⟩ :
      Parser (SliceCursor Char) Char Empty).representing .array).Returns ⟨3⟩ (.start #['a'])
      (.fresh ()) (.matched ⟨#['a'], 1⟩
        (.vector (.array [.vector (.array [.char 'a', .vector (.array [])])]))) _ := ⟨5, rfl⟩
  obtain ⟨o, s', hcons, ho⟩ :=
    (representation_unseen hconstants helements hmaps _ _ _).1 _ _ hr
  exact ⟨hmaps, o, s', hcons, ho⟩

end Parser
end PegMatcher
