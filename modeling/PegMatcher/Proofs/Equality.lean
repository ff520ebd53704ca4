import PegMatcher.Proofs.Actions
import PegMatcher.Proofs.Building
/-
Equality of values is equality of their trees.

The tree of a value forgets how vectors are represented and keeps their elements in order and
what follows an improper chain.  Values without floats and payloads are equal exactly when their
trees are, and then nothing that looks at values tells them apart: what is read of equal values
is the same or equal, and what is built of them, in either representation, is equal.
-/
namespace PegMatcher

variable {π : Type}

/-! ## Trees -/

/-- A value without the representation of its vectors. -/
inductive Tree (π : Type)
  | null
  | char (c : Char)
  | str (s : String)
  | int (n : Int64)
  | float (x : Binary64)
  | vector (items : List (Tree π)) (last : Option (Tree π))
  | custom (payload : π)

namespace Value

theorem sizeOf_lt_of_mem_spine {v a : Value π} (h : a ∈ v.spine) : sizeOf a < sizeOf v := by
  fun_induction spineEnd? v with
  | case1 => cases h
  | case2 head tail ih =>
    rw [spine_vector_cons] at h
    simp only [vector.sizeOf_spec, ValueVector.cons.sizeOf_spec]
    rcases List.mem_cons.1 h with rfl | h
    · omega
    · have hlt := ih h
      omega
  | case3 v hnil hcons =>
    rw [spine.eq_2 v hcons] at h
    cases h

theorem sizeOf_le_of_spineEnd? {v a : Value π} (h : v.spineEnd? = some a) :
    sizeOf a ≤ sizeOf v := by
  fun_induction spineEnd? v with
  | case1 => cases h
  | case2 head tail ih =>
    simp only [vector.sizeOf_spec, ValueVector.cons.sizeOf_spec]
    have hle := ih h
    omega
  | case3 v => exact Option.some.inj h ▸ Nat.le_refl _

end Value

namespace ValueVector

theorem sizeOf_lt_of_mem {v : ValueVector π} {a : Value π} (h : a ∈ v.toList) :
    sizeOf a < sizeOf v := by
  cases v with
  | array items =>
    have hlt := List.sizeOf_lt_of_mem h
    simp only [array.sizeOf_spec]
    rw [toList_array] at hlt
    omega
  | nil => cases h
  | cons head tail =>
    rw [toList_cons] at h
    simp only [cons.sizeOf_spec]
    rcases List.mem_cons.1 h with rfl | h
    · omega
    · have hlt := Value.sizeOf_lt_of_mem_spine h
      omega

theorem sizeOf_lt_of_improperTail {v : ValueVector π} {a : Value π} (h : v.improperTail = some a) :
    sizeOf a < sizeOf v := by
  cases v with
  | array | nil => cases h
  | cons head tail =>
    simp only [cons.sizeOf_spec]
    have hle := Value.sizeOf_le_of_spineEnd? h
    omega

end ValueVector

/-- The tree of a value: a vector is the list of the trees of its elements and the tree of what
follows them, if anything does. -/
def Value.tree : Value π → Tree π
  | .null => .null
  | .char c => .char c
  | .str s => .str s
  | .int n => .int n
  | .float x => .float x
  | .vector v => .vector (v.toList.attach.map fun a => a.1.tree)
      (v.improperTail.attach.map fun a => a.1.tree)
  | .custom payload => .custom payload
termination_by v => sizeOf v
decreasing_by
  · have hlt := ValueVector.sizeOf_lt_of_mem a.2
    simp only [vector.sizeOf_spec]
    omega
  · have hlt := ValueVector.sizeOf_lt_of_improperTail a.2
    simp only [vector.sizeOf_spec]
    omega

namespace Value

theorem tree_vector (v : ValueVector π) :
    (vector v).tree = .vector (v.toList.map tree) (v.improperTail.map tree) := by
  rw [tree]
  simp

theorem tree_vector_eq_iff {v w : ValueVector π} :
    (vector v).tree = (vector w).tree ↔ v.Agree (fun a b => a.tree = b.tree) w := by
  rw [tree_vector, tree_vector, Tree.vector.injEq]
  exact ⟨fun h => .of_map_eq h.1 h.2, fun h => ⟨h.map_toList_eq, h.map_improperTail_eq⟩⟩

end Value

variable [Payload π]

/-! ## Equality of trees -/

namespace Value

/-- Values without floats and payloads are equal exactly when their trees are. -/
theorem Plain.same_iff {v : Value π} (hv : v.Plain) :
    ∀ w : Value π, w.Plain → (v.Same w ↔ v.tree = w.tree) := by
  refine hv.induct ?_ ?_ ?_ ?_ ?_
  · intro w hw
    cases w <;> simp [Same, same, sameScalar, tree]
  · intro c w hw
    cases w <;> simp [Same, same, sameScalar, tree]
  · intro s w hw
    cases w <;> simp [Same, same, sameScalar, tree]
  · intro n w hw
    cases w <;> simp [Same, same, sameScalar, tree]
  · intro v hv w hw
    cases w with
    | vector w =>
      rw [same_vector_iff, tree_vector_eq_iff]
      constructor
      · exact fun h => h.imp hv hw.holds fun a b ha hb => (ha.2 b hb).1
      · exact fun h => h.imp hv hw.holds fun a b ha hb => (ha.2 b hb).2
    | _ => simp [Same, same, tree]

/-! ## Equal values -/

/-- Two values without floats and payloads are equal. -/
structure Equal (v w : Value π) : Prop where
  left : v.Plain
  right : w.Plain
  same : v.Same w

namespace Equal

variable {v w : Value π}

theorem vector_iff {v w : ValueVector π} : Equal (.vector v) (.vector w) ↔ v.Agree Equal w := by
  constructor
  · intro h
    exact (same_vector_iff.1 h.same).imp h.left.holds h.right.holds fun a b ha hb hab =>
      ⟨ha, hb, hab⟩
  · intro h
    exact ⟨.of_holds (h.holds_left fun _ _ hab => hab.left),
      .of_holds (h.flip.holds_left fun _ _ hab => hab.right),
      same_vector_iff.2 (h.mono fun _ _ hab => hab.same)⟩

/-- Equal values are vectors of any representation, or the same scalar. -/
theorem form (h : v.Equal w) :
    (∃ a b, v = .vector a ∧ w = .vector b) ∨ (∀ u, v ≠ .vector u) ∧ v = w := by
  have htree := (h.left.same_iff w h.right).1 h.same
  cases v with
  | vector v =>
    cases w with
    | vector w => exact .inl ⟨v, w, rfl, rfl⟩
    | _ => simp [tree] at htree
  | _ => cases w <;> simp_all [tree]

/-- Induction over two equal values, which hold values pairwise equal. -/
@[elab_as_elim]
theorem induct {motive : Value π → Value π → Prop} {v w : Value π} (h : v.Equal w)
    (scalar : ∀ v : Value π, (∀ u, v ≠ .vector u) → motive v v)
    (vector : ∀ v w : ValueVector π, v.Agree motive w → motive (.vector v) (.vector w)) :
    motive v w := by
  have hscalar : ∀ v w : Value π, (∀ u, v ≠ .vector u) → v.Equal w → motive v w := by
    intro v w hv hvw
    rcases hvw.form with ⟨a, _, rfl, -⟩ | ⟨-, rfl⟩
    · exact absurd rfl (hv a)
    · exact scalar v hv
  suffices hall : ∀ w, v.Equal w → motive v w from hall w h
  refine h.left.induct ?_ ?_ ?_ ?_ ?_
  · exact fun w => hscalar _ w nofun
  · exact fun _ w => hscalar _ w nofun
  · exact fun _ w => hscalar _ w nofun
  · exact fun _ w => hscalar _ w nofun
  · intro v hv w hw
    rcases hw.form with ⟨a, b, heq, rfl⟩ | ⟨hne, -⟩
    · cases heq
      have hagree := vector_iff.1 hw
      exact vector v b (hagree.imp hv hw.right.holds fun a b ha _ hab => ha.2 b hab)
    · exact absurd rfl (hne v)

theorem text_eq (h : v.Equal w) : v.text = w.text := by
  refine h.induct (fun v _ => rfl) fun v w hagree => ?_
  rw [text_vector, text_vector, hagree.map_toList_eq]

/-- Where arrays are written as lists, equal values are written the same. -/
theorem print_eq {p : Printer} (hp : p.arraysAsLists = true) (h : v.Equal w) :
    p.print v = p.print w := by
  refine h.induct (fun v _ => rfl) fun v w hagree => ?_
  rw [p.print_vector_list hp, p.print_vector_list hp, hagree.map_toList_eq,
    hagree.map_improperTail_eq]

/-- Actions of the fixed kinds take equal values to equal values. -/
theorem congruence (kind : Kind) : Action.Congruence kind kind (Equal (π := π)) where
  form h := by
    rcases h.form with ⟨a, b, rfl, rfl⟩ | hscalar
    · exact .inl ⟨a, b, rfl, rfl, (vector_iff.1 h).elements⟩
    · exact .inr hscalar
  text h := h.text_eq
  str _ := ⟨.str, .str, by simp [Same, Value.same, sameScalar]⟩
  collect h := vector_iff.2 (.create h kind)
  insertBefore ha h := vector_iff.2 (.insertBefore ha (vector_iff.1 h) kind)

end Equal
end Value

/-! ## What equal values have in common -/

/-- What is read of two vectors is equal, and so are the vectors that are built of them in one
representation. -/
structure ValueVector.Interchangeable (v w : ValueVector π) : Prop where
  length_eq : v.length = w.length
  get? : ∀ i, Option.Rel Value.Same (v.get? i) (w.get? i)
  elements : List.Forall₂ Value.Same v.toList w.toList
  improperTail : Option.Rel Value.Same v.improperTail w.improperTail
  insertBefore : ∀ (kind : Kind) (a b : Value π), a.Same b →
    (Value.vector (kind.insertBefore a v)).Same (.vector (kind.insertBefore b w))
  reverse : ∀ kind : Kind, (Value.vector (kind.reverse v)).Same (.vector (kind.reverse w))

/-- Nothing tells two values apart but the representation of their vectors. -/
structure Value.Interchangeable (v w : Value π) : Prop where
  vectors : ∀ a, v = .vector a → ∃ b, w = .vector b ∧ a.Interchangeable b
  get? : ∀ i, Option.Rel Same (v.get? i) (w.get? i)
  text_eq : v.text = w.text
  print_eq : (Printer.mk true).print v = (Printer.mk true).print w
  apply : ∀ (kind : Kind) (action : Action π), (∀ f, action ≠ .map f) →
    (action.apply kind v).1.Same (action.apply kind w).1

theorem ValueVector.Agree.interchangeable {v w : ValueVector π} (h : v.Agree Value.Same w) :
    v.Interchangeable w where
  length_eq := by
    rw [v.length_eq, w.length_eq]
    exact h.elements.length_eq
  get? := get?_rel h.elements
  elements := h.elements
  improperTail := h.last
  insertBefore kind _ _ hab := Value.same_vector_iff.2 (h.insertBefore hab kind)
  reverse kind := Value.same_vector_iff.2 (h.reverse kind)

namespace Value

theorem Equal.interchangeable {v w : Value π} (h : v.Equal w) : v.Interchangeable w where
  vectors := by
    intro a ha
    rcases h.form with ⟨a', b, rfl, rfl⟩ | ⟨hne, -⟩
    · cases ha
      exact ⟨b, rfl, (same_vector_iff.1 h.same).interchangeable⟩
    · exact absurd ha (hne a)
  get? i := rel_imp ((congruence .array).get? h i) fun _ _ _ _ hab => hab.same
  text_eq := h.text_eq
  print_eq := h.print_eq rfl
  apply kind action haction :=
    ((congruence kind).apply (fun f hf => absurd hf (haction f)) h).same

/-- Values without floats and payloads are equal exactly when their trees are the same, so that
equality is an equivalence of them, and equal values are interchangeable. -/
theorem equality_exact :
    (∀ v w : Value π, v.Plain → w.Plain → (v.same w = true ↔ v.tree = w.tree)) ∧
      Equivalence (fun v w : {v : Value π // v.Plain} => v.1.same w.1 = true) ∧
      ∀ v w : Value π, v.Plain → w.Plain → v.same w = true → v.Interchangeable w := by
  have hiff : ∀ v w : Value π, v.Plain → w.Plain → (v.Same w ↔ v.tree = w.tree) :=
    fun v w hv hw => hv.same_iff w hw
  refine ⟨hiff, ⟨?_, ?_, ?_⟩, fun v w hv hw h => (Equal.mk hv hw h).interchangeable⟩
  · exact fun v => (hiff _ _ v.2 v.2).2 rfl
  · exact fun {v w} h => (hiff _ _ w.2 v.2).2 ((hiff _ _ v.2 w.2).1 h).symm
  · intro u v w huv hvw
    have htree := ((hiff _ _ u.2 v.2).1 huv).trans ((hiff _ _ v.2 w.2).1 hvw)
    exact (hiff _ _ u.2 w.2).2 htree

/-- An improper pair beside a list, in arrays. -/
def pairAndListArrays : Value Empty :=
  .vector (.array [.vector (.cons (.int 1) (.str "a")), .vector (.array [.char 'b', .null])])

/-- The same in cells only. -/
def pairAndListCells : Value Empty :=
  .vector (.cons (.vector (.cons (.int 1) (.str "a"))) (.vector (.cons
    (.vector (.cons (.char 'b') (.vector (.cons .null (.vector .nil))))) (.vector .nil))))

theorem pairAndList_interchangeable : pairAndListArrays.Plain ∧ pairAndListCells.Plain ∧
    pairAndListArrays.same pairAndListCells = true ∧
    pairAndListArrays.Interchangeable pairAndListCells := by
  have hlist : (Value.vector (.array [.char 'b', .null]) : Value Empty).Plain :=
    .array (List.forall_mem_cons.2 ⟨.char, List.forall_mem_cons.2 ⟨.null, nofun⟩⟩)
  have hv : pairAndListArrays.Plain :=
    .array (List.forall_mem_cons.2 ⟨.cons .int .str, List.forall_mem_cons.2 ⟨hlist, nofun⟩⟩)
  have hw : pairAndListCells.Plain :=
    .cons (.cons .int .str) (.cons (.cons .char (.cons .null .nil)) .nil)
  obtain ⟨hexact, -, hinterchangeable⟩ := equality_exact (π := Empty)
  have hsame := (hexact _ _ hv hw).2 (by
    simp [pairAndListArrays, pairAndListCells, tree_vector, tree, spine, spineEnd?,
      ValueVector.improperTail])
  exact ⟨hv, hw, hsame, hinterchangeable _ _ hv hw hsame⟩

end Value
end PegMatcher
