import PegMatcher.ValueVector.Lemmas
/-
Vectors behave as lists.

Elements are counted, looked up and handed out one by one.  Each of these walks along the cells
of a chain in its own way, and along an array in another, and all of them tell the same list.
What follows an improper chain is in none of them.  The operations that build vectors do to
this list what their names say, whatever the representation of the vector that they are given,
`Kind.refines_lists`.
-/
namespace PegMatcher

variable {π : Type}

/-! ## Handing out the elements -/

/-- The cell that a value is, as a tail. -/
def Value.cell? : Value π → Option (Value π × Value π)
  | .vector (.cons head tail) => some (head, tail)
  | _ => none

namespace ValueVector

/-- How far the elements of a vector have been handed out: the items of an array that are left,
or the next cell of a chain, if there is one. -/
inductive Iter (π : Type)
  | items (rest : List (Value π))
  | cells (cell : Option (Value π × Value π))

def iter : ValueVector π → Iter π
  | .array items => .items items
  | .nil => .cells none
  | .cons head tail => .cells (some (head, tail))

namespace Iter

def next : Iter π → Option (Value π × Iter π)
  | .items [] => none
  | .items (item :: rest) => some (item, .items rest)
  | .cells none => none
  | .cells (some (head, tail)) => some (head, .cells tail.cell?)

/-- The elements that are handed out until there are no more. -/
inductive Yields : Iter π → List (Value π) → Prop
  | done {it} (h : it.next = none) : Yields it []
  | more {it item it' items} (h : it.next = some (item, it')) (rest : Yields it' items) :
      Yields it (item :: items)

theorem yields_items (items : List (Value π)) : (Iter.items items).Yields items := by
  induction items with
  | nil => exact .done rfl
  | cons item items ih => exact .more rfl ih

/-- From a tail on, the heads of the cells that continue the chain are handed out. -/
theorem yields_cells (tail : Value π) : (Iter.cells tail.cell?).Yields tail.spine := by
  fun_induction Value.spine tail with
  | case1 head tail ih => exact .more rfl ih
  | case2 v h =>
    rw [Value.cell?.eq_2 v h]
    exact .done rfl

end Iter

theorem iter_yields (x : ValueVector π) : x.iter.Yields x.toList := by
  cases x with
  | array items => exact Iter.yields_items items
  | nil => exact .done rfl
  | cons head tail =>
    rw [toList_cons]
    exact .more rfl (Iter.yields_cells tail)

/-! ## The list of a vector -/

/-- All that can be read of the elements of a vector is read off a list. -/
structure Refines (x : ValueVector π) (items : List (Value π)) : Prop where
  yields : x.iter.Yields items
  length_eq : x.length = items.length
  get?_eq : ∀ i, x.get? i = items[i]?
  /-- There is no element from the length on. -/
  get?_eq_none_iff : ∀ i, x.get? i = none ↔ x.length ≤ i
  index_eq_ok_iff : ∀ i a, x.index i = .ok a ↔ items[i]? = some a
  index_eq_error_iff : ∀ i, x.index i = .error ⟨i, x.length⟩ ↔ x.length ≤ i

theorem refines_toList (x : ValueVector π) : x.Refines x.toList := by
  have hnone : ∀ i, x.get? i = none ↔ x.length ≤ i := by
    intro i
    rw [get?_eq, length_eq, List.getElem?_eq_none_iff]
  refine ⟨x.iter_yields, x.length_eq, x.get?_eq, hnone, fun i a => ?_, fun i => ?_⟩
  · rw [← get?_eq, index]
    cases x.get? i <;> simp
  · rw [← hnone, index]
    cases x.get? i <;> simp

theorem refines_of_toList_eq {x : ValueVector π} {items : List (Value π)} (h : x.toList = items) :
    x.Refines items := h ▸ x.refines_toList

end ValueVector

namespace Kind

/-- A vector of either representation is the list of its elements.  Vectors are made of a list,
extended by a first element and reversed as lists are, in the representation that is asked for,
whatever they are given; a made or reversed vector has no improper tail. -/
theorem refines_lists (kind : Kind) (v : Value π) (vs : List (Value π)) (x : ValueVector π) :
    x.Refines x.toList ∧
      ((kind.create vs).Refines vs ∧ (kind.create vs).improperTail = none ∧
        (kind.create vs).kind = kind) ∧
      ((kind.insertBefore v x).Refines (v :: x.toList) ∧ (kind.insertBefore v x).kind = kind) ∧
      ((kind.reverse x).Refines x.toList.reverse ∧ (kind.reverse x).improperTail = none ∧
        (kind.reverse x).kind = kind) ∧
      ∀ other : Kind, (other.reverse (kind.reverse x)).Refines x.toList := by
  have htwice : ∀ other : Kind, (other.reverse (kind.reverse x)).toList = x.toList := by
    intro other
    rw [toList_reverse, toList_reverse, List.reverse_reverse]
  refine ⟨x.refines_toList, ⟨?_, improperTail_create kind vs, kind_create kind vs⟩,
    ⟨?_, kind_insertBefore kind v x⟩, ⟨?_, improperTail_reverse kind x, kind_reverse kind x⟩,
    fun other => ValueVector.refines_of_toList_eq (htwice other)⟩
  · exact ValueVector.refines_of_toList_eq (toList_create kind vs)
  · exact ValueVector.refines_of_toList_eq (toList_insertBefore kind v x)
  · exact ValueVector.refines_of_toList_eq (toList_reverse kind x)

end Kind
end PegMatcher
