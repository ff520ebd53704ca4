import PegMatcher.Proofs.Reading.Shared
import PegMatcher.Cursor.Slice
/-
A cursor over elements in memory stands before the elements from its position on, and
shares them with every other cursor over them.
-/
namespace PegMatcher
namespace SliceCursor

variable {ε : Type}

/-- The cursor stands among the elements or at their end. -/
structure Over (i : Unit) (c : SliceCursor ε) (x : Nat → Option ε) : Prop where
  position_le : c.position ≤ c.items.size
  item_eq : ∀ n, x n = c.items[n]?

theorem over_start (items : Array ε) : Over () (start items) fun n => items[n]? :=
  ⟨Nat.zero_le _, fun _ => rfl⟩

theorem ends_toArray (xs : List ε) : Cursor.Ends (fun n => xs.toArray[n]?) xs :=
  fun _ _ => List.getElem?_toArray

theorem shared : Cursor.Shared (Over (ε := ε)) := by
  refine .of_unit ?_ ?_ ?_ ?_ ?_
  · exact fun h => (h.item_eq _).symm
  · intro c x h n hn
    have hlt : n < c.items.size := Nat.lt_of_lt_of_le hn h.position_le
    rw [h.item_eq, Array.getElem?_eq_getElem hlt]
    rfl
  · intro c x h hc
    have hlt : c.position < c.items.size := by simpa [Cursor.peek, peek] using hc
    show c.next.position = _
    rw [next, if_pos hlt]
    rfl
  · intro c x h hc
    have hge : ¬c.position < c.items.size := by simpa [Cursor.peek, peek] using hc
    show (c.next, ()) = _
    rw [next, if_neg hge]
  · intro c x h
    show Over () c.next x
    unfold next
    split
    · exact ⟨‹_›, h.item_eq⟩
    · exact h

theorem reads (c : SliceCursor ε) (h : c.position ≤ c.items.size) :
    Cursor.Reads c () c.rest := by
  have hover : Over () c fun n => c.items[n]? := ⟨h, fun _ => rfl⟩
  exact shared.reads (fun _ _ => Array.getElem?_toList.symm) hover

theorem reads_start (items : Array ε) : Cursor.Reads (start items) () items.toList :=
  reads (start items) (Nat.zero_le _)

end SliceCursor
end PegMatcher
