import PegMatcher.Proofs.Reading.Basic
/-
Inputs that several cursors share.

Cursors over one input see the same element at the same position, in whatever order they
are advanced and however far the input was read by others.  `Cursor.Shared Over` promises
this of all cursors with `Over i c x`, which says that in the state `i` the cursor `c` is
over the input with element `x n` at position `n`.  The input need not come to an end.

The places that a cursor gets to are again given by two numbers, how far it is advanced
and how far the input has been read, `Cursor.Steady`; here advancing may go on at the end
of the input, where nothing changes any more.
-/
namespace PegMatcher
namespace Cursor

variable {γ ε σ : Type} [Cursor γ ε σ]

/-- Advancing over what was read before finds the same cursors and reads nothing. -/
def Steady (c : γ) (i : σ) : Prop :=
  ∀ n m, n ≤ m → next (advance n c i).1 (advance m c i).2 =
    ((advance (n + 1) c i).1, (advance (max m (n + 1)) c i).2)

/-- The input ends after these elements. -/
def Ends (x : Nat → Option ε) (xs : List ε) : Prop := ∀ n, n ≤ xs.length → x n = xs[n]?

theorem Ends.eq_none {x : Nat → Option ε} {xs : List ε} (h : Ends x xs) : x xs.length = none := by
  rw [h _ (Nat.le_refl _), List.getElem?_eq_none (Nat.le_refl _)]

/-- Cursors that are over some input, and go on to be over it when any of them advances. -/
structure Shared (Over : σ → γ → (Nat → Option ε) → Prop) : Prop where
  peek_eq {i c x} (h : Over i c x) : peek c = x (position c)
  passed {i c x} (h : Over i c x) : ∀ n < position c, (x n).isSome
  position_next {i c x} (h : Over i c x) (hc : (peek c).isSome) :
    position (next c i).1 = position c + 1
  next_end {i c x} (h : Over i c x) (hc : peek c = none) : next c i = (c, i)
  over_next {i c x} (h : Over i c x) : Over (next c i).2 (next c i).1 x
  stays {i c x d y} (h : Over i c x) (hd : Over i d y) : Over (next d i).2 c x
  next_next {i c x} (h : Over i c x) : next c (next c i).2 = next c i
  /-- An advance that reads nothing leads to the same cursor after other advances. -/
  next_stays {i c x d y c'} (h : Over i c x) (hd : Over i d y) (hc : next c i = (c', i)) :
    next c (next d i).2 = (c', (next d i).2)

namespace Shared

/-- Cursors over an input without state only need to stay over it. -/
theorem of_unit {γ : Type} [Cursor γ ε Unit] {Over : Unit → γ → (Nat → Option ε) → Prop}
    (peek_eq : ∀ {c x}, Over () c x → peek c = x (position c))
    (passed : ∀ {c x}, Over () c x → ∀ n < position c, (x n).isSome)
    (position_next : ∀ {c x}, Over () c x → (peek c).isSome →
      position (next c ()).1 = position c + 1)
    (next_end : ∀ {c x}, Over () c x → peek c = none → next c () = (c, ()))
    (over_next : ∀ {c x}, Over () c x → Over () (next c ()).1 x) : Shared Over where
  peek_eq := peek_eq
  passed := passed
  position_next := position_next
  next_end := next_end
  over_next := over_next
  stays h _ := h
  next_next _ := rfl
  next_stays _ _ hc := hc

variable {Over : σ → γ → (Nat → Option ε) → Prop} (hs : Shared Over) {i : σ} {c d : γ}
  {x y : Nat → Option ε}
include hs

theorem advance_stays (hc : Over i c x) (hd : Over i d y) (m : Nat) :
    Over (advance m c i).2 (advance m c i).1 x ∧ Over (advance m c i).2 d y := by
  induction m with
  | zero => exact ⟨hc, hd⟩
  | succ m ih =>
    rw [advance_succ]
    exact ⟨hs.over_next ih.1, hs.stays ih.2 ih.1⟩

theorem over_advance (hc : Over i c x) {k m : Nat} (hkm : k ≤ m) :
    Over (advance m c i).2 (advance k c i).1 x := by
  induction hkm with
  | refl => exact (hs.advance_stays hc hc k).1
  | @step m _ ih =>
    rw [advance_succ m]
    exact hs.stays ih (hs.advance_stays hc hc m).1

theorem steady (hc : Over i c x) : Steady c i := by
  intro n m hnm
  rcases Nat.lt_or_eq_of_le hnm with hlt | rfl
  · rw [Nat.max_eq_left (show n + 1 ≤ m from hlt)]
    -- the first advance over element `n` is remembered ever after
    induction hlt with
    | refl =>
      have hagain := hs.next_next (hs.over_advance hc (Nat.le_refl n))
      rw [← advance_succ] at hagain
      exact hagain
    | @step m hm ih =>
      have hnext := ih (Nat.le_of_succ_le hm)
      have hbehind := hs.over_advance hc (Nat.le_of_succ_le hm)
      have hlast := hs.over_advance hc (Nat.le_refl m)
      rw [advance_succ m]
      exact hs.next_stays hbehind hlast hnext
  · rw [Nat.max_eq_right (Nat.le_succ n)]
    exact (advance_succ n c i).symm

/-- Advancing moves on by one position for each step that is not at the end. -/
theorem exists_advance (hc : Over i c x) (n : Nat) :
    ∃ k ≤ n, advance n c i = advance k c i ∧ position (advance k c i).1 = position c + k := by
  induction n with
  | zero => exact ⟨0, Nat.le_refl 0, rfl, rfl⟩
  | succ n ih =>
    obtain ⟨k, hk, heq, hp⟩ := ih
    have hnext : advance (n + 1) c i = next (advance k c i).1 (advance k c i).2 := by
      rw [advance_succ, heq]
    have hover := hs.over_advance hc (Nat.le_refl k)
    by_cases hsome : (peek (advance k c i).1).isSome
    · refine ⟨k + 1, Nat.succ_le_succ hk, by rw [hnext, advance_succ], ?_⟩
      rw [advance_succ, hs.position_next hover hsome, hp, Nat.add_assoc]
    · have hnone : peek (advance k c i).1 = none := by simpa using hsome
      refine ⟨k, Nat.le_succ_of_le hk, ?_, hp⟩
      rw [hnext, hs.next_end hover hnone]

variable {xs : List ε} (hx : Ends x xs)
include hx

/-- A cursor is never beyond the end of its input. -/
theorem position_le (hc : Over i c x) : position c ≤ xs.length := by
  refine Nat.le_of_not_lt fun hlt => ?_
  have hsome := hs.passed hc xs.length hlt
  rw [hx.eq_none] at hsome
  cases hsome

theorem peek_of_ends (hc : Over i c x) : peek c = xs[position c]? :=
  (hs.peek_eq hc).trans (hx _ (hs.position_le hx hc))

/-- A cursor over an input that ends stands before what is left of it. -/
theorem reads (hc : Over i c x) : Reads c i (xs.drop (position c)) := by
  have hposition (n : Nat) (hn : position c + n ≤ xs.length) :
      position (advance n c i).1 = position c + n := by
    induction n with
    | zero => rfl
    | succ n ih =>
      have hp := ih (by omega)
      have hover := hs.over_advance hc (Nat.le_refl n)
      have hpeek := hs.peek_of_ends hx hover
      rw [hp, List.getElem?_eq_getElem (by omega)] at hpeek
      rw [advance_succ, hs.position_next hover (Option.isSome_iff_exists.2 ⟨_, hpeek⟩), hp]
      rfl
  have hle := hs.position_le hx hc
  refine ⟨fun n hn => ?_, fun n hn => ?_, fun n m _ hnm _ => hs.steady hc n m hnm⟩
  · rw [List.length_drop] at hn
    rw [hs.peek_of_ends hx (hs.over_advance hc (Nat.le_refl n)), hposition n (by omega),
      List.getElem?_drop]
  · rw [List.length_drop] at hn
    exact hposition n (by omega)

end Shared
end Cursor
end PegMatcher
