import Mathlib.Data.List.Forall2
import PegMatcher.Proofs.Actions
import PegMatcher.Proofs.Elements
/-
Values that are the same tree in either representation.

Two values are alike when they are the same but for the representation of their vectors,
and no chain of cells in them is improper.  Such values have the same text, are written the
same when arrays are written as lists, and are equal unless something in them differs from
itself.  Every action takes alike values to alike values, whatever the representations in
use.
-/
namespace PegMatcher

variable {π : Type}

namespace Value

/-- No chain of cells in the value is improper. -/
inductive Proper : Value π → Prop
  | scalar {v} (h : ∀ w, v ≠ .vector w) : Proper v
  | vector {v} (hv : v.improperTail = none) (h : ∀ a ∈ v.toList, Proper a) : Proper (.vector v)

inductive Alike : Value π → Value π → Prop
  | scalar {v} (h : ∀ w, v ≠ .vector w) : Alike v v
  | vector {v w} (hv : v.improperTail = none) (hw : w.improperTail = none)
      (hlen : v.toList.length = w.toList.length)
      (h : ∀ pair ∈ v.toList.zip w.toList, Alike pair.1 pair.2) : Alike (.vector v) (.vector w)

/-- A value is part of another one, or the same. -/
inductive Occurs (a : Value π) : Value π → Prop
  | self : Occurs a a
  | element {v b} (hb : b ∈ v.toList) (h : Occurs a b) : Occurs a (.vector v)

/-! ## Alike vectors -/

theorem alike_vector_iff {v w : ValueVector π} : (Value.vector v).Alike (.vector w) ↔
    v.improperTail = none ∧ w.improperTail = none ∧ List.Forall₂ Alike v.toList w.toList := by
  rw [List.forall₂_iff_zip]
  constructor
  · intro h
    cases h with
    | scalar h => exact absurd rfl (h v)
    | vector hv hw hlen h => exact ⟨hv, hw, hlen, fun {a b} hab => h (a, b) hab⟩
  · rintro ⟨hv, hw, hlen, h⟩
    exact .vector hv hw hlen fun pair hpair => h hpair

theorem alike_collect {vs ws : List (Value π)} (h : List.Forall₂ Alike vs ws) (κ₀ κ₁ : Kind) :
    (κ₀.collect vs).Alike (κ₁.collect ws) := by
  refine alike_vector_iff.2 ⟨Kind.improperTail_create _ _, Kind.improperTail_create _ _, ?_⟩
  rw [Kind.toList_create, Kind.toList_create]
  exact h

/-- Induction over two alike values, which have their elements pairwise alike. -/
@[elab_as_elim]
theorem Alike.induct {motive : Value π → Value π → Prop} {v w : Value π} (h : v.Alike w)
    (scalar : ∀ v : Value π, (∀ w, v ≠ .vector w) → motive v v)
    (vector : ∀ v w : ValueVector π, v.improperTail = none → w.improperTail = none →
      List.Forall₂ (fun a b => a.Alike b ∧ motive a b) v.toList w.toList →
        motive (.vector v) (.vector w)) : motive v w := by
  induction h with
  | scalar h => exact scalar _ h
  | vector hv hw hlen h ih =>
    refine vector _ _ hv hw (List.forall₂_iff_zip.2 ⟨hlen, fun {a b} hab => ?_⟩)
    exact ⟨h (a, b) hab, ih (a, b) hab⟩

theorem Proper.alike {v : Value π} (h : v.Proper) : v.Alike v := by
  induction h with
  | scalar h => exact .scalar h
  | vector hv _ ih => exact alike_vector_iff.2 ⟨hv, hv, List.forall₂_same.2 ih⟩

theorem Alike.symm {v w : Value π} (h : v.Alike w) : w.Alike v := by
  refine h.induct (fun v hv => .scalar hv) fun v w hv hw hitems => ?_
  exact alike_vector_iff.2 ⟨hw, hv, (hitems.imp fun _ _ hab => hab.2).flip⟩

/-! ## Text, written form and equality -/

variable [Payload π] {v w : Value π}

theorem Alike.text_eq (h : v.Alike w) : v.text = w.text := by
  refine h.induct (fun v _ => rfl) fun v w _ _ hitems => ?_
  have htexts : v.toList.map text = w.toList.map text :=
    map_eq_map_of_forall₂ (hitems.imp fun _ _ hab => hab.2)
  rw [text_vector, text_vector, htexts]

theorem Alike.print_eq {p : Printer} (hp : p.arraysAsLists = true) (h : v.Alike w) :
    p.print v = p.print w := by
  refine h.induct (fun v _ => rfl) fun v w hv hw hitems => ?_
  have hprints : v.toList.map p.print = w.toList.map p.print :=
    map_eq_map_of_forall₂ (hitems.imp fun _ _ hab => hab.2)
  rw [p.print_vector_list hp, p.print_vector_list hp, hprints, hv, hw]

/-- Alike values are equal when nothing in them differs from itself. -/
theorem Alike.same_eq_true (h : v.Alike w) : (∀ x, (Value.float x).Occurs v → x.isNaN = false) →
    (∀ q, (Value.custom q).Occurs v → Payload.same q q = true) → v.same w = true := by
  refine h.induct (fun v hv hfloat hcustom => ?_) fun v w hv hw hitems hfloat hcustom => ?_
  · cases v with
    | float x => simpa [same, sameScalar] using (x.same_self_iff).2 (hfloat x .self)
    | custom q => simpa [same, sameScalar] using hcustom q .self
    | vector v => exact absurd rfl (hv v)
    | _ => simp [same, sameScalar]
  · obtain ⟨hlen, hpairs⟩ := List.forall₂_iff_zip.1 hitems
    have hsame : List.Forall₂ Same v.toList w.toList := by
      refine List.forall₂_iff_zip.2 ⟨hlen, fun {a b} hab => ?_⟩
      have ha : a ∈ v.toList := (List.of_mem_zip hab).1
      exact (hpairs hab).2 (fun x hx => hfloat x (.element ha hx))
        fun q hq => hcustom q (.element ha hq)
    refine same_vector_iff.2 ⟨hsame, ?_⟩
    rw [hv, hw]
    exact .none

end Value

/-! ## Actions -/

variable [Payload π] {κ₀ κ₁ : Kind}

/-- Actions take alike values to alike values, whatever representations they build. -/
theorem Value.alike_congruence : Action.Congruence κ₀ κ₁ (Value.Alike (π := π)) where
  form h := by
    cases h with
    | scalar h => exact .inr ⟨h, rfl⟩
    | @vector v w hv hw hlen h =>
      exact .inl ⟨v, w, rfl, rfl, (alike_vector_iff.1 (.vector hv hw hlen h)).2.2⟩
  text h := h.text_eq
  str _ := .scalar (by simp)
  collect h := alike_collect h κ₀ κ₁
  insertBefore ha h := by
    obtain ⟨hv, hw, hitems⟩ := alike_vector_iff.1 h
    refine alike_vector_iff.2 ⟨?_, ?_, ?_⟩
    · rw [Kind.improperTail_insertBefore, hv, ite_self]
    · rw [Kind.improperTail_insertBefore, hw, ite_self]
    · rw [Kind.toList_insertBefore, Kind.toList_insertBefore]
      exact .cons ha hitems

end PegMatcher
