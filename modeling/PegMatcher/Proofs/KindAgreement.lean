import PegMatcher.Proofs.Building
import PegMatcher.Proofs.Elements
/-
Where the two representations agree.

Of the same list, and by reversing the same vector, both representations make equal vectors:
they have the same elements, and no tail follows them.  Putting an element in front is another
matter.  A chain is shared as the tail of the new cell, with what follows it when it is
improper, while an array takes over the elements only.  What follows the elements counts in
comparisons, so the two results are equal just when nothing does.
-/
namespace PegMatcher

variable {π : Type}

namespace ValueVector

variable {R : Value π → Value π → Prop} {v w : ValueVector π}

/-- Vectors of the same elements agree when these are related to themselves. -/
theorem agree_of_toList_eq (helements : v.toList = w.toList) (hself : ∀ a ∈ v.toList, R a a)
    (hlast : Option.Rel R v.improperTail w.improperTail) : v.Agree R w where
  elements := by
    rw [← helements]
    exact List.forall₂_same.2 hself
  last := hlast

theorem Agree.isNone_improperTail (h : v.Agree R w) :
    v.improperTail.isNone = w.improperTail.isNone := by
  have hlast := h.last
  generalize v.improperTail = last, w.improperTail = last' at hlast
  cases hlast <;> rfl

end ValueVector

theorem Value.int_same [Payload π] (n : Int64) : (Value.int n : Value π).Same (.int n) := by
  show (Value.int n).same (.int n) = true
  simp [Value.same, Value.sameScalar]

namespace Kind

variable [Payload π] {v : Value π} {vs : List (Value π)} {x : ValueVector π}

theorem create_same (hvs : ∀ a ∈ vs, a.Same a) (kind other : Kind) :
    (Value.vector (kind.create vs)).Same (.vector (other.create vs)) := by
  refine Value.same_vector_iff.2 (ValueVector.agree_of_toList_eq ?_ ?_ ?_)
  · rw [toList_create, toList_create]
  · rwa [toList_create]
  · rw [improperTail_create, improperTail_create]
    exact .none

theorem reverse_same (hx : ∀ a ∈ x.toList, a.Same a) (kind other : Kind) :
    (Value.vector (kind.reverse x)).Same (.vector (other.reverse x)) := by
  refine Value.same_vector_iff.2 (ValueVector.agree_of_toList_eq ?_ ?_ ?_)
  · rw [toList_reverse, toList_reverse]
  · simpa using hx
  · rw [improperTail_reverse, improperTail_reverse]
    exact .none

theorem insertBefore_same_iff (hv : v.Same v) (hx : x.Agree Value.Same x) (kind other : Kind) :
    (Value.vector (kind.insertBefore v x)).Same (.vector (other.insertBefore v x)) ↔
      kind = other ∨ x.improperTail = none := by
  rw [Value.same_vector_iff]
  constructor
  · intro hagree
    have htails := hagree.isNone_improperTail
    rw [improperTail_insertBefore, improperTail_insertBefore] at htails
    cases kind <;> cases other <;> simp_all
  · intro h
    have hself : ∀ a ∈ v :: x.toList, a.Same a :=
      List.forall_mem_cons.2 ⟨hv, List.forall₂_same.1 hx.elements⟩
    refine ValueVector.agree_of_toList_eq ?_ ?_ ?_
    · rw [toList_insertBefore, toList_insertBefore]
    · rwa [toList_insertBefore]
    · rw [improperTail_insertBefore, improperTail_insertBefore]
      rcases h with rfl | hnone
      · -- the same representation leaves the same tail, or none
        split
        · exact hx.last
        · exact .none
      · rw [hnone, ite_self, ite_self]
        exact .none

/-- Vectors that either representation makes of the same list, or by reversing the same vector,
are equal.  With an element put in front of the same vector they are equal just when nothing
follows its elements. -/
theorem agreement (hv : v.Same v) (hvs : ∀ a ∈ vs, a.Same a)
    (hx : (Value.vector x).Same (.vector x)) (kind other : Kind) :
    (Value.vector (kind.create vs)).Same (.vector (other.create vs)) ∧
      (Value.vector (kind.reverse x)).Same (.vector (other.reverse x)) ∧
      ((Value.vector (kind.insertBefore v x)).Same (.vector (other.insertBefore v x)) ↔
        kind = other ∨ x.improperTail = none) := by
  have hagree := Value.same_vector_iff.1 hx
  have helements := List.forall₂_same.1 hagree.elements
  exact ⟨create_same hvs kind other, reverse_same helements kind other,
    insertBefore_same_iff hv hagree kind other⟩

/-- With 0 in front, the array of 1 and the list `(1)` are equal whatever makes them, and so are
the two representations of either in reverse. -/
theorem one_agreement :
    (Value.vector (array.insertBefore (.int 0) (.array [.int 1]) : ValueVector Empty)).Same
        (.vector (cons.insertBefore (.int 0) (.array [.int 1]))) ∧
      (Value.vector (array.reverse (.array [.int 1]) : ValueVector Empty)).Same
        (.vector (cons.reverse (.array [.int 1]))) := by
  have hvector : (Value.vector (.array [.int 1]) : Value Empty).Same (.vector (.array [.int 1])) :=
    Value.same_vector_iff.2 ⟨.cons (Value.int_same 1) .nil, .none⟩
  obtain ⟨-, hreverse, hinsert⟩ :=
    agreement (Value.int_same 0) (List.forall_mem_nil _) hvector .array .cons
  exact ⟨hinsert.2 (.inr rfl), hreverse⟩

/-- Of the dotted pair `(1 . 2)` with 0 in front, the chain goes on to 2 and the array does not:
they differ, although all that went into them is equal to itself. -/
theorem dotted_disagreement :
    (Value.int 0 : Value Empty).Same (.int 0) ∧
      (Value.vector (.cons (.int 1) (.int 2)) : Value Empty).Same
        (.vector (.cons (.int 1) (.int 2))) ∧
      ¬(Value.vector (array.insertBefore (.int 0) (.cons (.int 1) (.int 2))) : Value Empty).Same
        (.vector (cons.insertBefore (.int 0) (.cons (.int 1) (.int 2)))) := by
  have hpair : (ValueVector.cons (.int 1) (.int 2) : ValueVector Empty).Agree Value.Same
      (.cons (.int 1) (.int 2)) := ⟨.cons (Value.int_same 1) .nil, .some (Value.int_same 2)⟩
  refine ⟨Value.int_same 0, Value.same_vector_iff.2 hpair, fun hsame => ?_⟩
  cases (insertBefore_same_iff (Value.int_same 0) hpair .array .cons).1 hsame with
  | inl hkind => cases hkind
  | inr hnone => cases hnone

end Kind
end PegMatcher
