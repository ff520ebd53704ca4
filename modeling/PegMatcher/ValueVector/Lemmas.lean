import PegMatcher.ValueVector.Kind
/-
Vectors as lists of their elements.  Length, indexing and the building operations are
characterised by what they do to that list.
-/
namespace PegMatcher

variable {π : Type}

namespace Value

/-- The heads of the cells starting at a value. -/
def spine : Value π → List (Value π)
  | .vector (.cons head tail) => head :: tail.spine
  | _ => []

@[simp] theorem spine_vector_nil : (.vector .nil : Value π).spine = [] := rfl

@[simp] theorem spine_vector_array (items : List (Value π)) :
    (.vector (.array items) : Value π).spine = [] := rfl

@[simp] theorem spine_vector_cons (head tail : Value π) :
    (.vector (.cons head tail) : Value π).spine = head :: tail.spine := rfl

/-- Everything that walks a chain meets a cell, or stops. -/
theorem cell_cases (v : Value π) :
    (∃ head tail, v = .vector (.cons head tail)) ∨ v.isCell = false := by
  rcases v with _ | _ | _ | _ | _ | w | _ <;> try exact .inr rfl
  rcases w with _ | _ | ⟨head, tail⟩
  · exact .inr rfl
  · exact .inr rfl
  · exact .inl ⟨head, tail, rfl⟩

theorem toList_spineItems (v : Value π) (acc : Array (Value π)) :
    (v.spineItems acc).toList = acc.toList ++ v.spine := by
  fun_induction spineItems acc v with
  | case1 acc head tail ih => simp [ih, spine]
  | case2 acc v h => simp [spine]

theorem spineLength_eq (v : Value π) (count : Nat) :
    v.spineLength count = count + v.spine.length := by
  fun_induction spineLength count v with
  | case1 count head tail ih => simp only [ih, spine, List.length_cons]; omega
  | case2 count v h => simp [spine]

theorem spineGet?_eq (v : Value π) (i : Nat) : v.spineGet? i = v.spine[i]? := by
  fun_induction spineGet? v i with
  | case1 head tail => rfl
  | case2 head tail i ih => simp [ih, spine]
  | case3 v i h₁ h₂ =>
    rcases v.cell_cases with ⟨head, tail, rfl⟩ | h
    · cases i with
      | zero => exact (h₁ head tail rfl rfl).elim
      | succ i => exact (h₂ head tail i rfl rfl).elim
    · rw [spine.eq_2 v (fun head tail hv => by simp [hv, isCell] at h)]; rfl

end Value

namespace ValueVector

@[simp] theorem toList_array (items : List (Value π)) : (array items).toList = items := rfl

@[simp] theorem toList_nil : (nil : ValueVector π).toList = [] := rfl

@[simp] theorem toList_cons (head tail : Value π) :
    (cons head tail).toList = head :: tail.spine := by
  simp [toList, Value.toList_spineItems]

theorem length_eq (v : ValueVector π) : v.length = v.toList.length := by
  cases v with
  | array items => rfl
  | nil => rfl
  | cons head tail => simp only [length, Value.spineLength_eq, toList_cons, List.length_cons]; omega

theorem get?_eq (v : ValueVector π) (i : Nat) : v.get? i = v.toList[i]? := by
  cases v with
  | array items => rfl
  | nil => rfl
  | cons head tail =>
    cases i with
    | zero => simp [get?, toList_cons]
    | succ i => simp [get?, toList_cons, Value.spineGet?_eq]

/-- A chain continues a spine with its elements; an array does not. -/
theorem spine_vector (v : ValueVector π) (h : v.kind = .cons) :
    (Value.vector v).spine = v.toList := by
  cases v with
  | array items => cases h
  | nil => rfl
  | cons head tail => rw [toList_cons, Value.spine_vector_cons]

end ValueVector

namespace Kind

@[simp] theorem kind_create (kind : Kind) (items : List (Value π)) :
    (kind.create items).kind = kind := by
  cases kind with
  | array => rfl
  | cons => cases items <;> rfl

@[simp] theorem toList_create (kind : Kind) (items : List (Value π)) :
    (kind.create items).toList = items := by
  cases kind with
  | array => rfl
  | cons =>
    induction items with
    | nil => rfl
    | cons head rest ih =>
      have hkind : (create .cons rest : ValueVector π).kind = .cons := kind_create _ _
      change (ValueVector.cons head (.vector (create .cons rest))).toList = _
      rw [ValueVector.toList_cons, ValueVector.spine_vector _ hkind, ih]

@[simp] theorem improperTail_create (kind : Kind) (items : List (Value π)) :
    (kind.create items).improperTail = none := by
  cases kind with
  | array => rfl
  | cons =>
    induction items with
    | nil => rfl
    | cons head rest ih =>
      cases rest with
      | nil => rfl
      | cons next more => exact ih

@[simp] theorem kind_insertBefore (kind : Kind) (x : Value π) (v : ValueVector π) :
    (kind.insertBefore x v).kind = kind := by
  cases kind <;> cases v <;> rfl

@[simp] theorem toList_insertBefore (kind : Kind) (x : Value π) (v : ValueVector π) :
    (kind.insertBefore x v).toList = x :: v.toList := by
  cases kind with
  | array => rfl
  | cons =>
    cases v with
    | array items => exact toList_create .cons (x :: items)
    | nil => rfl
    | cons head tail =>
      change (ValueVector.cons x (.vector (.cons head tail))).toList = _
      rw [ValueVector.toList_cons, ValueVector.spine_vector _ rfl]

theorem reverse_array_eq (v : ValueVector π) : reverse .array v = .array v.toList.reverse := by
  cases v with
  | array items =>
    by_cases hshort : items.length ≤ 1
    · have hself : items.reverse = items := by
        rcases items with _ | ⟨item, _ | ⟨next, more⟩⟩
        · rfl
        · rfl
        · exact absurd hshort (by simp)
      rw [reverse, if_pos hshort, ValueVector.toList_array, hself]
    · rw [reverse, if_neg hshort, ValueVector.toList_array]
  | nil => rfl
  | cons head tail => rfl

/-- Prepending the elements of a list one by one reverses it onto the chain. -/
theorem reverse_cons_eq (v : ValueVector π) :
    reverse .cons v = create .cons v.toList.reverse := by
  simp [reverse, create, List.foldr_reverse]

@[simp] theorem kind_reverse (kind : Kind) (v : ValueVector π) :
    (kind.reverse v).kind = kind := by
  cases kind with
  | array => rw [reverse_array_eq]; rfl
  | cons => rw [reverse_cons_eq, kind_create]

@[simp] theorem toList_reverse (kind : Kind) (v : ValueVector π) :
    (kind.reverse v).toList = v.toList.reverse := by
  cases kind with
  | array => rw [reverse_array_eq, ValueVector.toList_array]
  | cons => rw [reverse_cons_eq, toList_create]

@[simp] theorem improperTail_reverse (kind : Kind) (v : ValueVector π) :
    (kind.reverse v).improperTail = none := by
  cases kind with
  | array => rw [reverse_array_eq]; rfl
  | cons => rw [reverse_cons_eq, improperTail_create]

end Kind
end PegMatcher
