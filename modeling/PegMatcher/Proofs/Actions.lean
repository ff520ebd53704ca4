import PegMatcher.Action
import PegMatcher.Proofs.Elements
/-
What actions make of the elements of a vector.

Actions see a vector through its elements only, so that what they do is said here in terms
of the list of these.  A relation between values that vectors and texts respect is one that
every action of the fixed kinds respects.
-/
namespace PegMatcher

variable {π : Type}

theorem Value.pair?_of_toList {w : ValueVector π} {head rest : Value π}
    (h : w.toList = [head, rest]) : (vector w).pair? = some (head, rest) := by
  have hlen : w.length = 2 := by rw [w.length_eq, h]; rfl
  have hhead : w.get? 0 = some head := by rw [w.get?_eq, h]; rfl
  have hrest : w.get? 1 = some rest := by rw [w.get?_eq, h]; rfl
  rw [pair?, if_pos hlen, hhead, hrest]

/-- The pairs are the vectors of two elements. -/
theorem Value.pair?_eq_some {v head rest : Value π} :
    v.pair? = some (head, rest) ↔ ∃ w, v = .vector w ∧ w.toList = [head, rest] := by
  constructor
  · intro h
    cases v with
    | vector w =>
      by_cases hlen : w.length = 2
      · rw [w.length_eq] at hlen
        obtain ⟨a, b, hab⟩ := List.length_eq_two.1 hlen
        rw [pair?_of_toList hab] at h
        cases h
        exact ⟨w, rfl, hab⟩
      · rw [pair?, if_neg hlen] at h
        cases h
    | _ => cases h
  · rintro ⟨w, rfl, h⟩
    exact pair?_of_toList h

section Related

variable {R : Value π → Value π → Prop} {v w : ValueVector π}

theorem ValueVector.get?_rel (h : List.Forall₂ R v.toList w.toList) (i : Nat) :
    Option.Rel R (v.get? i) (w.get? i) := by
  rw [v.get?_eq, w.get?_eq]
  exact rel_getElem? h i

theorem Value.pair?_rel (h : List.Forall₂ R v.toList w.toList) :
    Option.Rel (fun a b => R a.1 b.1 ∧ R a.2 b.2) (vector v).pair? (vector w).pair? := by
  by_cases hlen : v.length = 2
  · rw [v.length_eq] at hlen
    obtain ⟨a, b, hv⟩ := List.length_eq_two.1 hlen
    rw [hv] at h
    obtain ⟨a', _, ha, hrest, hw⟩ := List.forall₂_cons_left_iff.1 h
    obtain ⟨b', _, hb, hnil, rfl⟩ := List.forall₂_cons_left_iff.1 hrest
    rw [List.forall₂_nil_left_iff.1 hnil] at hw
    rw [pair?_of_toList hv, pair?_of_toList hw]
    exact .some ⟨ha, hb⟩
  · have hlen' : w.length ≠ 2 := by
      rw [w.length_eq, ← h.length_eq, ← v.length_eq]
      exact hlen
    rw [pair?, if_neg hlen, pair?, if_neg hlen']
    exact .none

end Related

variable [Payload π]

namespace Action

variable (kind : Kind) (v : Value π)

theorem apply_extract (index : Nat) :
    ((extract index).apply kind v).1 = (v.get? index).getD v := by
  rw [apply]
  cases v.get? index <;> rfl

/-- What is no vector has no first element. -/
theorem apply_firstOrSelf : (firstOrSelf.apply kind v).1 = (v.get? 0).getD v := by
  cases v <;> rfl

theorem apply_collapse :
    (collapse.apply kind v).1 = (v.pair?.map fun pair => join kind pair.1 pair.2).getD v := by
  rw [apply]
  cases v.pair? <;> rfl

/-- A vector of two elements is collapsed by joining them. -/
theorem apply_collapse_pair (head rest : Value π) :
    collapse.apply kind (kind.collect [head, rest]) = (join kind head rest, none) := by
  have hpair : (kind.collect [head, rest]).pair? = some (head, rest) :=
    Value.pair?_of_toList (Kind.toList_create kind _)
  rw [apply, hpair]

theorem apply_concat_vector (w : ValueVector π) :
    (concat.apply kind (.vector w)).1 = .str (Value.vector w).text := rfl

variable {v}

/-- What is no vector is its own text or has the wrong shape. -/
theorem apply_concat_scalar (h : ∀ w, v ≠ .vector w) : (concat.apply kind v).1 = v := by
  cases v with
  | str s => exact congrArg Value.str (Value.text_str s)
  | vector w => exact absurd rfl (h w)
  | _ => rfl

theorem text_join (head rest : Value π) :
    (join kind head rest).text = head.text ++ rest.text := by
  cases rest with
  | vector w => simp [join, Value.text_vector]
  | _ => simp [join]

/-- A collapsed or concatenated value has the text it had, whatever its shape. -/
theorem text_apply {action : Action π} (h : action = .collapse ∨ action = .concat)
    (v : Value π) : (action.apply kind v).1.text = v.text := by
  rcases h with rfl | rfl
  · rw [apply_collapse]
    cases hpair : v.pair? with
    | none => rfl
    | some pair =>
      obtain ⟨head, rest⟩ := pair
      obtain ⟨w, rfl, hw⟩ := Value.pair?_eq_some.1 hpair
      refine (text_join kind head rest).trans ?_
      simp [Value.text_vector, hw]
  · cases v with
    | vector | str => exact Value.text_str _
    | _ => rfl

/-- A relation between values built in two representations: related values are the same scalar or
vectors of related elements, they have the same text, and vectors built from them are related. -/
structure Congruence (κ₀ κ₁ : Kind) (R : Value π → Value π → Prop) : Prop where
  form : ∀ {v w}, R v w →
    (∃ a b, v = .vector a ∧ w = .vector b ∧ List.Forall₂ R a.toList b.toList) ∨
      (∀ u, v ≠ .vector u) ∧ v = w
  text : ∀ {v w}, R v w → v.text = w.text
  str : ∀ s, R (.str s) (.str s)
  collect : ∀ {vs ws}, List.Forall₂ R vs ws → R (κ₀.collect vs) (κ₁.collect ws)
  insertBefore : ∀ {a b v w}, R a b → R (.vector v) (.vector w) →
    R (.vector (κ₀.insertBefore a v)) (.vector (κ₁.insertBefore b w))

namespace Congruence

variable {κ₀ κ₁ : Kind} {R : Value π → Value π → Prop} {v w : Value π}

theorem get? (hR : Congruence κ₀ κ₁ R) (h : R v w) (i : Nat) :
    Option.Rel R (v.get? i) (w.get? i) := by
  rcases hR.form h with ⟨a, b, rfl, rfl, hab⟩ | ⟨hv, rfl⟩
  · exact ValueVector.get?_rel hab i
  · cases v with
    | vector u => exact absurd rfl (hv u)
    | _ => exact .none

theorem getD_get? (hR : Congruence κ₀ κ₁ R) (h : R v w) (i : Nat) :
    R ((v.get? i).getD v) ((w.get? i).getD w) := by
  have hrel := hR.get? h i
  generalize v.get? i = item, w.get? i = item' at hrel
  cases hrel with
  | none => exact h
  | some hitem => exact hitem

theorem join (hR : Congruence κ₀ κ₁ R) {head head' rest rest' : Value π} (hhead : R head head')
    (hrest : R rest rest') : R (Action.join κ₀ head rest) (Action.join κ₁ head' rest') := by
  rcases hR.form hrest with ⟨a, b, rfl, rfl, -⟩ | ⟨hscalar, rfl⟩
  · exact hR.insertBefore hhead hrest
  · cases rest with
    | null => exact hR.collect (.cons hhead .nil)
    | str s =>
      rw [Action.join, Action.join, hR.text hhead]
      exact hR.str _
    | vector u => exact absurd rfl (hscalar u)
    | _ => exact hR.collect (.cons hhead (.cons hrest .nil))

/-- Actions respect a relation that the functions they map respect. -/
theorem apply (hR : Congruence κ₀ κ₁ R) {action : Action π}
    (hmap : ∀ f, action = .map f → ∀ v w, R v w → R (f v κ₀) (f w κ₁)) (h : R v w) :
    R (action.apply κ₀ v).1 (action.apply κ₁ w).1 := by
  cases action with
  | extract index =>
    rw [apply_extract, apply_extract]
    exact hR.getD_get? h index
  | firstOrSelf =>
    rw [apply_firstOrSelf, apply_firstOrSelf]
    exact hR.getD_get? h 0
  | collapse =>
    rw [apply_collapse, apply_collapse]
    rcases hR.form h with ⟨a, b, rfl, rfl, hab⟩ | ⟨hscalar, rfl⟩
    · have hpair := Value.pair?_rel hab
      generalize (Value.vector a).pair? = pair, (Value.vector b).pair? = pair' at hpair
      cases hpair with
      | none => exact h
      | some hparts => exact hR.join hparts.1 hparts.2
    · cases v with
      | vector u => exact absurd rfl (hscalar u)
      | _ => exact h
  | concat =>
    have htext := hR.text h
    rcases hR.form h with ⟨a, b, rfl, rfl, -⟩ | ⟨hscalar, rfl⟩
    · rw [apply_concat_vector, apply_concat_vector, htext]
      exact hR.str _
    · rw [apply_concat_scalar κ₀ hscalar, apply_concat_scalar κ₁ hscalar]
      exact h
  | map f => exact hmap f rfl v w h

end Congruence
end Action
end PegMatcher
