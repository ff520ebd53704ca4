import PegMatcher.Proofs.Actions
import PegMatcher.Proofs.Building
/-
Lists that collapse from their end.

A right recursive rule pairs each element with what is behind it, and collapsing the pairs starts
at the innermost one.  What comes out is decided there: behind nothing the elements become a
vector, behind a vector they are put in front of its elements, behind text they become text, and
behind anything else a vector that ends with it.  From the second pair on there is a vector or a
text already, so that every further element is put in front of it, and no element is taken
apart, however it looks itself.
-/
namespace PegMatcher

variable {π : Type}

namespace Kind

/-! ## Elements in front of a vector -/

variable {kind : Kind} {heads : List (Value π)} {v : ValueVector π}

theorem toList_foldr_insertBefore :
    (heads.foldr kind.insertBefore v).toList = heads ++ v.toList := by
  induction heads with
  | nil => rfl
  | cons head heads ih => rw [List.foldr_cons, toList_insertBefore, ih, List.cons_append]

theorem kind_foldr_insertBefore (h : heads ≠ []) :
    (heads.foldr kind.insertBefore v).kind = kind := by
  obtain ⟨head, more, rfl⟩ := List.exists_cons_of_ne_nil h
  rw [List.foldr_cons, kind_insertBefore]

/-- A chain keeps what follows the vector, an array does not. -/
theorem improperTail_foldr_insertBefore (h : heads ≠ []) :
    (heads.foldr kind.insertBefore v).improperTail =
      if kind = .cons then v.improperTail else none := by
  induction heads with
  | nil => exact absurd rfl h
  | cons head heads ih =>
    rw [List.foldr_cons, improperTail_insertBefore]
    cases heads with
    | nil => rfl
    | cons next heads =>
      rw [ih (List.cons_ne_nil next heads)]
      split <;> rfl

theorem foldr_insertBefore_create (kind : Kind) (heads items : List (Value π)) :
    heads.foldr kind.insertBefore (kind.create items) = kind.create (heads ++ items) := by
  induction heads with
  | nil => rfl
  | cons head heads ih => rw [List.foldr_cons, ih, insertBefore_create, List.cons_append]

end Kind

namespace Action

variable [Payload π]

/-! ## Pairs inside pairs -/

/-- Every head is paired with what the heads behind it and the rest collapsed into, and the pair
is collapsed. -/
def collapseOnto (kind : Kind) (heads : List (Value π)) (rest : Value π) : Value π :=
  heads.foldr (fun head rest => (collapse.apply kind (kind.collect [head, rest])).1) rest

section
variable (kind : Kind) (heads : List (Value π))

theorem collapseOnto_cons (head rest : Value π) :
    collapseOnto kind (head :: heads) rest = join kind head (collapseOnto kind heads rest) :=
  congrArg Prod.fst (apply_collapse_pair kind head _)

theorem collapseOnto_vector (v : ValueVector π) :
    collapseOnto kind heads (.vector v) = .vector (heads.foldr kind.insertBefore v) := by
  induction heads with
  | nil => rfl
  | cons head heads ih => rw [collapseOnto_cons, ih, join, List.foldr_cons]

theorem collapseOnto_str (s : String) :
    collapseOnto kind heads (.str s) = .str (String.join (heads.map Value.text) ++ s) := by
  induction heads with
  | nil => simp [collapseOnto]
  | cons head heads ih =>
    rw [collapseOnto_cons, ih, join, List.map_cons, String.join_cons, String.append_assoc]

/-- When the last pair collapses into a list, the other heads are put in front of it. -/
theorem collapseOnto_snoc {last rest : Value π} {items : List (Value π)}
    (h : join kind last rest = kind.collect items) :
    collapseOnto kind (heads ++ [last]) rest = kind.collect (heads ++ items) := by
  have hlast : collapseOnto kind [last] rest = kind.collect items :=
    (collapseOnto_cons kind [] last rest).trans h
  rw [collapseOnto, List.foldr_append]
  change collapseOnto kind heads (collapseOnto kind [last] rest) = _
  rw [hlast, Kind.collect, collapseOnto_vector, Kind.foldr_insertBefore_create]
  rfl

end

/-- Some heads collapse onto nothing as the vector of them, onto a vector as a vector of them and
its elements, onto text as their texts and it, and onto anything else as the vector of them and
it; all vectors are of the kind in use, and a chain keeps what followed the vector. -/
theorem collapse_folds_right (kind : Kind) {heads : List (Value π)} (hheads : heads ≠ []) :
    collapseOnto kind heads .null = kind.collect heads ∧
    (∀ r, ∃ v, collapseOnto kind heads (.vector r) = .vector v ∧ v.kind = kind ∧
      v.toList = heads ++ r.toList ∧
        v.improperTail = if kind = .cons then r.improperTail else none) ∧
    (∀ s, collapseOnto kind heads (.str s) =
      .str (String.join (heads.map Value.text) ++ s)) ∧
    ∀ rest, rest ≠ .null → (∀ r, rest ≠ .vector r) → (∀ s, rest ≠ .str s) →
      collapseOnto kind heads rest = kind.collect (heads ++ [rest]) := by
  refine ⟨?_, fun r => ?_, collapseOnto_str kind heads, fun rest hnull hvector hstr => ?_⟩
  · obtain ⟨first, last, rfl⟩ := (List.eq_nil_or_concat' heads).resolve_left hheads
    exact collapseOnto_snoc kind first rfl
  · exact ⟨_, collapseOnto_vector kind heads r, Kind.kind_foldr_insertBefore hheads,
      Kind.toList_foldr_insertBefore, Kind.improperTail_foldr_insertBefore hheads⟩
  · obtain ⟨first, last, rfl⟩ := (List.eq_nil_or_concat' heads).resolve_left hheads
    have hjoin : join kind last rest = kind.collect [last, rest] := by
      cases rest with
      | null => exact absurd rfl hnull
      | vector r => exact absurd rfl (hvector r)
      | str s => exact absurd rfl (hstr s)
      | _ => rfl
    rw [List.append_assoc]
    exact collapseOnto_snoc kind first hjoin

/-- The null value and an empty chain in front of a dotted pair and of a character: neither is
lost, and the chain is not joined with what is behind it. -/
theorem nullAndChain_collapsed :
    (∃ v, collapseOnto .cons [.null, .vector .nil] (.vector (.cons (.int 1) (.int 2))) =
      (.vector v : Value Empty) ∧ v.toList = [.null, .vector .nil, .int 1] ∧
        v.improperTail = some (.int 2)) ∧
    collapseOnto .cons [.null, .vector .nil] (.char 'x') =
      (Kind.cons.collect [.null, .vector .nil, .char 'x'] : Value Empty) := by
  obtain ⟨-, hvector, -, hother⟩ := collapse_folds_right (π := Empty) .cons
    (List.cons_ne_nil .null [.vector .nil])
  obtain ⟨v, hv, -, helements, htail⟩ := hvector (.cons (.int 1) (.int 2))
  exact ⟨⟨v, hv, helements, htail⟩, hother (.char 'x') nofun nofun nofun⟩

end Action
end PegMatcher
