import PegMatcher.Run.Match
/-
What a cursor promises.

A run begins at a cursor and reaches others from it by advancing, forth and back, while
the state of the input moves on.  `Cursor.Reads c i xs` says that from the state `i` the
cursor `c` stands before the elements `xs` and the end of the input: advancing shows them
one by one, and advancing again over what was read before gives the same cursors and
reads nothing.  Every place a run can get to is then given by two numbers, how far the
cursor is from `c` and how far the input has been read.
-/
namespace PegMatcher

variable {γ ε σ : Type} [Cursor γ ε σ]

namespace Cursor

theorem advance_succ (n : Nat) (c : γ) (i : σ) :
    advance (n + 1) c i = next (advance n c i).1 (advance n c i).2 := by
  induction n generalizing c i with
  | zero => rfl
  | succ n ih => exact ih (next c i).1 (next c i).2

/-- From this state of the input, the cursor stands before these elements and the end. -/
structure Reads (c : γ) (i : σ) (xs : List ε) : Prop where
  peek_eq : ∀ n, n ≤ xs.length → peek (advance n c i).1 = xs[n]?
  position_eq : ∀ n, n ≤ xs.length → position (advance n c i).1 = position c + n
  /-- Advancing over what was read before reads nothing. -/
  next_eq : ∀ n m, n < xs.length → n ≤ m → m ≤ xs.length →
    next (advance n c i).1 (advance m c i).2 =
      ((advance (n + 1) c i).1, (advance (max m (n + 1)) c i).2)

namespace Reads

variable {c : γ} {i : σ} {xs : List ε}

/-- Different places within the input have different cursors. -/
theorem advance_inj (h : Reads c i xs) {m n : Nat} (hm : m ≤ xs.length) (hn : n ≤ xs.length)
    (he : (advance m c i).1 = (advance n c i).1) : m = n := by
  have hp := h.position_eq m hm
  rw [he, h.position_eq n hn] at hp
  omega

end Reads
end Cursor

/-! ## Runs of elements -/

/-- A list of elements begins with a run the same as `items`, and `rest` follows. -/
inductive Spells [Element ε] : (items xs rest : List ε) → Prop
  | nil {xs} : Spells [] xs xs
  | cons {expected item items xs rest} (same : Element.same item expected = true)
      (tail : Spells items xs rest) : Spells (expected :: items) (item :: xs) rest

namespace Spells

variable [Element ε]

theorem eq_drop {items xs rest : List ε} (h : Spells items xs rest) :
    items.length ≤ xs.length ∧ rest = xs.drop items.length := by
  induction h with
  | nil => exact ⟨Nat.zero_le _, rfl⟩
  | cons _ _ ih => exact ⟨Nat.succ_le_succ ih.1, ih.2⟩

end Spells

variable [Element ε] {c : γ} {i : σ} {xs : List ε}

/-- Skipping a run of elements gets to the place behind it, when the input has it. -/
theorem skipItems_spelled (h : Cursor.Reads c i xs) {items : List ε} {k m : Nat}
    {rest : List ε} (hkm : k ≤ m) (hm : m ≤ xs.length) (hs : Spells items (xs.drop k) rest) :
    skipItems items (Cursor.advance k c i).1 (Cursor.advance m c i).2 =
      (some (Cursor.advance (k + items.length) c i).1,
        (Cursor.advance (max m (k + items.length)) c i).2) := by
  induction items generalizing k m with
  | nil => rw [skipItems, List.length_nil, Nat.add_zero, Nat.max_eq_left hkm]
  | cons expected items ih =>
    have hlen := hs.eq_drop.1
    rw [List.length_drop, List.length_cons] at hlen
    have hk : k < xs.length := by omega
    rw [List.drop_eq_getElem_cons hk] at hs
    cases hs with
    | cons same tail =>
      rw [skipItems, h.peek_eq k (by omega), List.getElem?_eq_getElem hk]
      dsimp only
      rw [if_pos same, h.next_eq k m hk hkm hm]
      rw [ih (by omega) (by omega) tail, List.length_cons]
      rw [show k + 1 + items.length = k + (items.length + 1) by omega]
      rw [show max (max m (k + 1)) (k + (items.length + 1)) = max m (k + (items.length + 1))
        by omega]

/-- Skipping a run that the input does not have reads some way ahead. -/
theorem skipItems_unspelled (h : Cursor.Reads c i xs) {items : List ε} {k m : Nat}
    (hkm : k ≤ m) (hm : m ≤ xs.length) (hs : ∀ rest, ¬Spells items (xs.drop k) rest) :
    ∃ m', m ≤ m' ∧ m' ≤ xs.length ∧
      skipItems items (Cursor.advance k c i).1 (Cursor.advance m c i).2 =
        (none, (Cursor.advance m' c i).2) := by
  induction items generalizing k m with
  | nil => exact absurd .nil (hs _)
  | cons expected items ih =>
    rw [skipItems, h.peek_eq k (by omega)]
    by_cases hk : k < xs.length
    · rw [List.getElem?_eq_getElem hk]
      rw [List.drop_eq_getElem_cons hk] at hs
      by_cases same : Element.same xs[k] expected = true
      · dsimp only
        rw [if_pos same, h.next_eq k m hk hkm hm]
        obtain ⟨m', hm', hl, he⟩ := ih (by omega) (show max m (k + 1) ≤ xs.length by omega)
          fun rest tail => hs rest (.cons same tail)
        exact ⟨m', by omega, hl, he⟩
      · dsimp only
        rw [if_neg same]
        exact ⟨m, Nat.le_refl m, hm, rfl⟩
    · rw [List.getElem?_eq_none (by omega)]
      exact ⟨m, Nat.le_refl m, hm, rfl⟩

end PegMatcher
