import Mathlib.Data.String.Basic
import PegMatcher.Proofs.Reading.Shared
import PegMatcher.Cursor.Text
/-
A cursor that was reached from the start of a string stands before the characters not
yet passed.  The byte offset it carries is the width of the characters before it, so
that looking there finds a whole character.  This holds after any number of steps,
`TextCursor.advance_stands`, also when there are more steps than characters.
-/
namespace PegMatcher
namespace TextCursor

/-- The cursor that has `n` characters of a string before it. -/
def place (text : String) (n : Nat) : TextCursor :=
  ⟨text, String.utf8Len (text.toList.take n), n⟩

theorem peek_place (text : String) (n : Nat) : (place text n).peek = text.toList[n]? := by
  have h := String.get?_of_valid (text.toList.take n) (text.toList.drop n)
  rw [List.take_append_drop, String.ofList_toList, List.head?_drop] at h
  exact h

theorem next_place (text : String) {n : Nat} (h : n < text.toList.length) :
    (place text n).next = place text (n + 1) := by
  unfold next
  rw [peek_place, List.getElem?_eq_getElem h]
  show TextCursor.mk text _ _ = place text (n + 1)
  unfold place
  rw [List.take_succ_eq_append_getElem h, String.utf8Len_append]
  simp

/-- The cursor stands before a character of its string or at the end, with the byte offset
that belongs to its position. -/
structure Over (i : Unit) (c : TextCursor) (x : Nat → Option Char) : Prop where
  position_le : c.position ≤ c.text.toList.length
  eq_place : c = place c.text c.position
  char_eq : ∀ n, x n = c.text.toList[n]?

theorem over_start (text : String) : Over () (start text) fun n => text.toList[n]? :=
  ⟨Nat.zero_le _, rfl, fun _ => rfl⟩

theorem Over.peek_eq {c : TextCursor} {x : Nat → Option Char} (h : Over () c x) :
    c.peek = c.text.toList[c.position]? :=
  (congrArg peek h.eq_place).trans (peek_place c.text c.position)

theorem Over.next_eq {c : TextCursor} {x : Nat → Option Char} (h : Over () c x)
    (hlt : c.position < c.text.toList.length) : c.next = place c.text (c.position + 1) :=
  (congrArg next h.eq_place).trans (next_place c.text hlt)

theorem shared : Cursor.Shared Over := by
  refine .of_unit ?_ ?_ ?_ ?_ ?_
  · exact fun h => h.peek_eq.trans (h.char_eq _).symm
  · intro c x h n hn
    have hlt : n < c.text.toList.length := Nat.lt_of_lt_of_le hn h.position_le
    rw [h.char_eq, List.getElem?_eq_getElem hlt]
    rfl
  · intro c x h hc
    rw [show Cursor.peek c = c.text.toList[c.position]? from h.peek_eq] at hc
    show c.next.position = _
    rw [h.next_eq (by simpa using hc)]
    rfl
  · intro c x h hc
    show (c.next, ()) = _
    unfold next
    rw [show c.peek = none from hc]
  · intro c x h
    show Over () c.next x
    by_cases hlt : c.position < c.text.toList.length
    · rw [h.next_eq hlt]
      exact ⟨hlt, rfl, h.char_eq⟩
    · have hc : c.peek = none := h.peek_eq.trans (List.getElem?_eq_none (Nat.le_of_not_lt hlt))
      unfold next
      rw [hc]
      exact h

theorem reads_start (text : String) : Cursor.Reads (start text) () text.toList :=
  shared.reads (fun _ _ => rfl) (over_start text)

/-! ## Any number of steps from the start

The position and the offset advance together, one by characters and the other by their width,
so that the offset of a cursor always lies between two characters. -/

theorem next_place_end (text : String) :
    (place text text.toList.length).next = place text text.toList.length := by
  have hpeek : (place text text.toList.length).peek = none := by
    rw [peek_place, List.getElem?_eq_none (Nat.le_refl _)]
  unfold next
  rw [hpeek]

theorem advance_start (text : String) (n : Nat) :
    (Cursor.advance n (start text) ()).1 = place text (min n text.toList.length) := by
  induction n with
  | zero => rw [Nat.zero_min]; rfl
  | succ n ih =>
    rw [Cursor.advance_succ, ih]
    show (place text (min n text.toList.length)).next = _
    rcases Nat.lt_or_ge n text.toList.length with hlt | hge
    · rw [Nat.min_eq_left (Nat.le_of_lt hlt), Nat.min_eq_left hlt, next_place text hlt]
    · rw [Nat.min_eq_right hge, Nat.min_eq_right (Nat.le_succ_of_le hge), next_place_end]

theorem rest_place (text : String) (n : Nat) :
    (place text n).rest = String.ofList (text.toList.drop n) := by
  have hparts := String.extract_of_valid (text.toList.take n) (text.toList.drop n) []
  rw [List.append_nil, List.take_append_drop, String.ofList_toList] at hparts
  have hend : text.rawEndPos =
      ⟨String.utf8Len (text.toList.take n) + String.utf8Len (text.toList.drop n)⟩ := by
    rw [← String.utf8Len_append, List.take_append_drop, String.utf8Len_toList]
    rfl
  rw [rest, show (place text n).text = text from rfl, hend]
  exact hparts

theorem isValid_place (text : String) (n : Nat) :
    String.Pos.Raw.IsValid text ⟨(place text n).offset⟩ := by
  refine String.Pos.Raw.isValid_iff_exists_append.2
    ⟨String.ofList (text.toList.take n), String.ofList (text.toList.drop n), ?_, ?_⟩
  · rw [← String.ofList_append, List.take_append_drop, String.ofList_toList]
  · rw [String.rawEndPos_ofList]
    rfl

/-- A cursor over a text with so many characters before it.  Its offset is the width of these
characters in bytes, so that cutting the text there leaves whole characters. -/
structure Stands (text : String) (before : Nat) (c : TextCursor) : Prop where
  text_eq : c.text = text
  position_eq : c.position = before
  offset_eq : c.offset = (String.ofList (text.toList.take before)).utf8ByteSize
  boundary : String.Pos.Raw.IsValid text ⟨c.offset⟩
  rest_eq : c.rest = String.ofList (text.toList.drop before)
  peek_eq : c.peek = text.toList[before]?
  ended_iff : c.peek = none ↔ c.position = text.length

/-- Each step takes the cursor over one character, until all of them are before it. -/
theorem advance_stands (text : String) (n : Nat) :
    Stands text (min n text.length) (Cursor.advance n (start text) ()).1 := by
  rw [advance_start, String.length_toList]
  refine ⟨rfl, rfl, (String.utf8ByteSize_ofList _).symm, isValid_place text _, rest_place text _,
    peek_place text _, ?_⟩
  rw [peek_place, List.getElem?_eq_none_iff, String.length_toList]
  show text.length ≤ min n text.length ↔ min n text.length = text.length
  omega

example : (Cursor.advance 3 (start "żó") ()).1 = ⟨"żó", 4, 2⟩ := by decide

end TextCursor
end PegMatcher
