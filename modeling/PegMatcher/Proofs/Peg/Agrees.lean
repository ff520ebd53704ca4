import PegMatcher.Proofs.Peg.Relation
/-
Where an attempt ends and what a relation on lists answers.

A place of an input is given by two numbers, how far the cursor is from where the input
began and how far the input has been read.  An outcome agrees with an answer when the
cursor is where the answer says, and the input has been read no less than before.
-/
namespace PegMatcher

variable {γ ε σ π : Type} [Cursor γ ε σ]

/-- At place `k` of an input read up to `m`, an attempt ends where an answer says, with
the input read no less. -/
inductive Agrees (c : γ) (i : σ) (xs : List ε) (k m : Nat) :
    PegAnswer ε π → Outcome γ (Value π) → σ → Prop
  | matched {k' m' value} (hk : k ≤ k') (hkm : k' ≤ m') (hm : m ≤ m') (hx : m' ≤ xs.length) :
      Agrees c i xs k m (some (xs.drop k', value))
        (.matched (Cursor.advance k' c i).1 value) (Cursor.advance m' c i).2
  | mismatch {m'} (hm : m ≤ m') (hx : m' ≤ xs.length) :
      Agrees c i xs k m none .mismatch (Cursor.advance m' c i).2

namespace Agrees

variable {c₀ c₁ : γ} {i₀ i₁ i' : σ} {xs : List ε} {k m k₁ m₁ : Nat} {answer : PegAnswer ε π}
  {o : Outcome γ (Value π)}

theorem weaken (h : Agrees c₀ i₀ xs k₁ m₁ answer o i') (hk : k ≤ k₁) (hm : m ≤ m₁) :
    Agrees c₀ i₀ xs k m answer o i' := by
  cases h with
  | matched hk' hkm hm' hx =>
    exact .matched (Nat.le_trans hk hk') hkm (Nat.le_trans hm hm') hx
  | mismatch hm' hx => exact .mismatch (Nat.le_trans hm hm') hx

theorem of_matched {d : γ} {value : Value π}
    (h : Agrees c₀ i₀ xs k m answer (.matched d value) i') :
    ∃ n ≤ xs.length, d = (Cursor.advance n c₀ i₀).1 ∧ answer = some (xs.drop n, value) := by
  cases h with
  | matched _ hkm _ hx => exact ⟨_, Nat.le_trans hkm hx, rfl, rfl⟩

theorem of_mismatch (h : Agrees c₀ i₀ xs k m answer .mismatch i') : answer = none := by
  cases h
  rfl

theorem of_some {ys : List ε} {value : Value π}
    (h : Agrees c₀ i₀ xs k m (some (ys, value)) o i') :
    ∃ n ≤ xs.length, ys = xs.drop n ∧ o = .matched (Cursor.advance n c₀ i₀).1 value := by
  cases h with
  | matched _ hkm _ hx => exact ⟨_, Nat.le_trans hkm hx, rfl, rfl⟩

theorem of_none (h : Agrees c₀ i₀ xs k m none o i') : o = .mismatch := by
  cases h
  rfl

theorem here (hkm : k ≤ m) (hm : m ≤ xs.length) (value : Value π) :
    Agrees c₀ i₀ xs k m (some (xs.drop k, value)) (.matched (Cursor.advance k c₀ i₀).1 value)
      (Cursor.advance m c₀ i₀).2 :=
  .matched (Nat.le_refl k) hkm (Nat.le_refl m) hm

theorem missed (hm : m ≤ xs.length) :
    Agrees c₀ i₀ xs k m (none : PegAnswer ε π) .mismatch (Cursor.advance m c₀ i₀).2 :=
  .mismatch (Nat.le_refl m) hm

/-- A lookahead turns back to where it stands, whatever was read on the way. -/
theorem look (h : Agrees c₀ i₀ xs k m answer o i') (hkm : k ≤ m) (negated : Bool) :
    Agrees c₀ i₀ xs k m (answer.look negated (xs.drop k))
      (o.look negated (Cursor.advance k c₀ i₀).1) i' := by
  cases h with
  | matched hk hkm' hm hx =>
    cases negated with
    | true => exact .mismatch hm hx
    | false => exact .matched (Nat.le_refl k) (Nat.le_trans hkm hm) hm hx
  | mismatch hm hx =>
    cases negated with
    | true => exact .matched (Nat.le_refl k) (Nat.le_trans hkm hm) hm hx
    | false => exact .mismatch hm hx

/-- A repetition without room for another round matches when it has its minimum. -/
theorem full (hkm : k ≤ m) (hm : m ≤ xs.length) (enough : Prop) [Decidable enough]
    (value : Value π) :
    Agrees c₀ i₀ xs k m (if enough then some (xs.drop k, value) else none)
      (if enough then .matched (Cursor.advance k c₀ i₀).1 value else .mismatch)
      (Cursor.advance m c₀ i₀).2 := by
  split
  · exact here hkm hm value
  · exact missed hm

theorem unique {c : γ} {i i₁ i₂ : σ} {xs : List ε} {k m : Nat}
    {a₁ a₂ : PegAnswer ε π} {o : Outcome γ (Value π)} (hc : Cursor.Reads c i xs)
    (h₁ : Agrees c i xs k m a₁ o i₁) (h₂ : Agrees c i xs k m a₂ o i₂) : a₁ = a₂ := by
  cases o with
  | matched d value =>
    obtain ⟨n₁, hn₁, hd₁, rfl⟩ := h₁.of_matched
    obtain ⟨n₂, hn₂, hd₂, rfl⟩ := h₂.of_matched
    rw [hc.advance_inj hn₁ hn₂ (hd₁.symm.trans hd₂)]
  | mismatch => rw [h₁.of_mismatch, h₂.of_mismatch]
  | aborted => cases h₁

end Agrees

end PegMatcher
