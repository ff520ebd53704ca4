import Mathlib.Data.List.TakeWhile
import PegMatcher.Diagnostic
import PegMatcher.Proofs.HonestFailure
import PegMatcher.Proofs.Interchange
import PegMatcher.Proofs.Places
import PegMatcher.Proofs.Reading.Text
/-
What a diagnostic shows of the source.

The rows around a place are those of the lines from two above to two below, as far as there
are any, in order, and the pointer stands under the line at fault.  The column of the pointer is
that of the character at the position, unless this is a line feed or among the carriage returns
that are not shown.  Where a run over the text of the source got stuck, the pointer therefore
stands under the character that the diagnostic names.
-/
namespace PegMatcher

namespace Text

/-! ## Carriage returns -/

/-- A line is what is shown of it and the carriage returns behind that. -/
theorem eq_trimReturns (line : List Char) :
    ∃ returns, line = trimReturns line ++ List.replicate returns '\r' := by
  have hreturns : line.reverse.takeWhile (· = '\r') =
      List.replicate (line.reverse.takeWhile (· = '\r')).length '\r' :=
    List.eq_replicate_of_mem fun c hc => by simpa using List.mem_takeWhile_imp hc
  refine ⟨(line.reverse.takeWhile (· = '\r')).length, ?_⟩
  rw [← List.reverse_inj, List.reverse_append, List.reverse_replicate, ← hreturns, trimReturns,
    List.reverse_reverse, List.takeWhile_append_dropWhile]

theorem getLast?_trimReturns (line : List Char) : (trimReturns line).getLast? ≠ some '\r' := by
  intro hlast
  have hkept := List.head?_dropWhile_not (· = '\r') line.reverse
  rw [trimReturns, List.getLast?_reverse] at hlast
  rw [hlast] at hkept
  simp at hkept

/-- What stands before a character that is shown is shown. -/
theorem trimReturns_append {left right : List Char} (h : ∃ c ∈ right, c ≠ '\r') :
    trimReturns (left ++ right) = left ++ trimReturns right := by
  have hkept : (right.reverse.dropWhile (· = '\r')).isEmpty = false := by
    simpa [List.isEmpty_eq_false_iff, List.dropWhile_eq_nil_iff] using h
  rw [trimReturns, List.reverse_append, List.dropWhile_append, hkept]
  simp [trimReturns]

theorem head?_trimReturns {right : List Char} (h : ∃ c ∈ right, c ≠ '\r') :
    (trimReturns right).head? = right.head? := by
  obtain ⟨returns, hright⟩ := eq_trimReturns right
  cases htrim : trimReturns right with
  | nil =>
    obtain ⟨c, hc, hne⟩ := h
    rw [hright, htrim, List.nil_append] at hc
    exact absurd (List.eq_of_mem_replicate hc) hne
  | cons first rest =>
    rw [htrim] at hright
    rw [hright]
    rfl

/-- The character at a position is among the carriage returns that end its line. -/
def Trimmed (source : String) (position : Nat) : Prop :=
  source.toList[position]? = some '\r' ∧
    ∀ c ∈ (source.toList.drop position).takeWhile (· ≠ '\n'), c = '\r'

/-- A character that is shown is on the line that its position cuts, behind the cut. -/
theorem Cut.getElem?_shown {source : String} {position : Nat} (cut : Cut source.toList position)
    {c : Char} (hc : source.toList[position]? = some c) (hfeed : c ≠ '\n')
    (hshown : ¬Trimmed source position) :
    (trimReturns (cut.left ++ cut.right))[cut.left.length]? = some c := by
  have hright : cut.right.head? = some c := by
    rw [← cut.takeWhile_behind, List.head?_takeWhile, List.head?_drop, hc]
    simp [hfeed]
  have hkept : ∃ c ∈ cut.right, c ≠ '\r' := by
    rw [← cut.takeWhile_behind] at hright ⊢
    by_contra hall
    push Not at hall
    have hreturn := hall c (List.mem_of_mem_head? hright)
    exact hshown ⟨hreturn ▸ hc, hall⟩
  rw [trimReturns_append hkept, List.getElem?_append_right (Nat.le_refl _), Nat.sub_self,
    ← List.head?_eq_getElem?, head?_trimReturns hkept, hright]

end Text

namespace Diagnostic

open Text

/-! ## Rows -/

/-- The row of line `number` of a source. -/
def row (source : String) (place : Place) (number : Nat) : String :=
  gutter number place.line ++ String.ofList (trimReturns ((lines source)[number - 1]?.getD []))

/-- The column that a pointer points at. -/
def caret (place : Place) : Nat := (pointer place).toList.idxOf '^'

theorem toList_gutter (number faulty : Nat) : ∃ mark : List Char, mark.length = 4 ∧
    (gutter number faulty).toList = mark ++ (Nat.toDigits 10 number ++ " | ".toList) := by
  refine ⟨(if number = faulty then "  > " else "    ").toList, by split <;> rfl, ?_⟩
  rw [gutter, String.toList_append, String.toList_append, Decimal.ofNat, String.toList_ofList,
    List.append_assoc]

theorem toList_pointer (place : Place) : (pointer place).toList =
    List.replicate ((gutter place.line place.line).length + place.offset) ' ' ++
      "^--- here".toList := by
  rw [pointer, String.toList_append, String.toList_ofList]

theorem caret_eq (place : Place) :
    caret place = (gutter place.line place.line).length + place.offset := by
  have hblank : ∀ n, '^' ∉ List.replicate n ' ' := fun n hmem =>
    absurd (List.eq_of_mem_replicate hmem) (by decide)
  rw [caret, toList_pointer, List.idxOf_append_of_notMem (hblank _), List.length_replicate]
  rfl

/-- A row begins with its number where a pointer is blank. -/
theorem row_ne_pointer (source : String) (place other : Place) (number : Nat) :
    row source place number ≠ pointer other := by
  intro heq
  -- the four characters of the mark stand before the number
  have hat := congrArg (fun s => s.toList[4]?) heq
  obtain ⟨mark, hmark, hgutter⟩ := toList_gutter number place.line
  obtain ⟨mark', hmark', hgutter'⟩ := toList_gutter other.line other.line
  have hnumber : Nat.toDigits 10 number ≠ [] := Nat.toDigits_ne_nil
  obtain ⟨digit, digits, hdigits⟩ := List.exists_cons_of_ne_nil hnumber
  have hdigit : digit.isDigit = true :=
    Nat.isDigit_of_mem_toDigits (by decide) (Nat.le_refl 10) (hdigits ▸ List.mem_cons_self)
  have hlong : 4 < (gutter other.line other.line).length + other.offset := by
    rw [← String.length_toList, hgutter', List.length_append, List.length_append, hmark']
    simp
    omega
  simp [row, hgutter, hdigits, hmark, toList_pointer, hlong] at hat
  rw [hat] at hdigit
  exact absurd hdigit (by decide)

theorem rowsFrom_eq (place : Place) (number : Nat) (lines : List (List Char)) :
    rowsFrom place number lines = (List.range' number lines.length).flatMap
      fun n => lineRows place n (lines[n - number]?.getD []) := by
  induction lines generalizing number with
  | nil => rfl
  | cons line lines ih =>
    have hrest : ∀ n ∈ List.range' (number + 1) lines.length,
        lineRows place n (lines[n - (number + 1)]?.getD []) =
          lineRows place n ((line :: lines)[n - number]?.getD []) := by
      intro n hn
      have hlt : number + 1 ≤ n := (List.mem_range'_1.1 hn).1
      rw [show n - number = n - (number + 1) + 1 by omega, List.getElem?_cons_succ]
    rw [rowsFrom, ih, List.flatMap_congr hrest, List.length_cons, List.range'_succ,
      List.flatMap_cons, Nat.sub_self]
    rfl

variable {source : String} {place : Place}

/-! ## The rows around a place -/

/-- The numbers from `a` to `b`. -/
def numbers (a b : Nat) : List Nat := List.range' a (b + 1 - a)

theorem mem_numbers {a b n : Nat} : n ∈ numbers a b ↔ a ≤ n ∧ n ≤ b := by
  rw [numbers, List.mem_range'_1]
  omega

theorem numbers_append {a b c : Nat} (hab : a ≤ b + 1) (hbc : b ≤ c) :
    numbers a c = numbers a b ++ numbers (b + 1) c := by
  have hjoin : List.range' a (b + 1 - a) ++ List.range' (a + (b + 1 - a)) (c - b) = _ :=
    List.range'_append_1
  rw [show a + (b + 1 - a) = b + 1 by omega, show b + 1 - a + (c - b) = c + 1 - a by omega] at hjoin
  rw [numbers, ← hjoin, numbers, numbers, Nat.add_sub_add_right]

theorem numbers_self (a : Nat) : numbers a a = [a] := by
  rw [numbers, Nat.add_sub_cancel_left]
  rfl

/-- The number of the first line that is shown around a place. -/
def first (place : Place) : Nat := max 1 (place.line - 2)

/-- The number of the last line that is shown around a place. -/
def last (source : String) (place : Place) : Nat := min (lines source).length (place.line + 2)

/-- What is shown of the lines with these numbers. -/
def shownOf (source : String) (place : Place) (numbers : List Nat) : List String :=
  numbers.flatMap fun n => lineRows place n ((lines source)[n - 1]?.getD [])

theorem shownOf_append (source : String) (place : Place) (ns ms : List Nat) :
    shownOf source place (ns ++ ms) = shownOf source place ns ++ shownOf source place ms :=
  List.flatMap_append

theorem shownOf_far {ns : List Nat}
    (h : ∀ n ∈ ns, n < place.line - 2 ∨ place.line + 2 < n) : shownOf source place ns = [] :=
  List.flatMap_eq_nil_iff.2 fun n hn => if_pos (h n hn)

theorem shownOf_near {ns : List Nat}
    (h : ∀ n ∈ ns, place.line - 2 ≤ n ∧ n ≤ place.line + 2 ∧ n ≠ place.line) :
    shownOf source place ns = ns.map (row source place) := by
  rw [List.map_eq_flatMap]
  refine List.flatMap_congr fun n hn => ?_
  obtain ⟨hlow, hhigh, hne⟩ := h n hn
  rw [lineRows, if_neg (by omega)]
  exact if_neg hne

theorem shownOf_faulty :
    shownOf source place [place.line] = [row source place place.line, pointer place] := by
  rw [shownOf, List.flatMap_singleton, lineRows, if_neg (by omega)]
  exact if_pos rfl

theorem contextRows_eq_shownOf (source : String) (place : Place) :
    contextRows source place = shownOf source place (numbers 1 (lines source).length) :=
  rowsFrom_eq place 1 (lines source)

/-- The rows up to the line at fault, the pointer, and the rows below. -/
theorem contextRows_eq (hpos : 1 ≤ place.line) (hle : place.line ≤ (lines source).length) :
    contextRows source place = (numbers (first place) place.line).map (row source place) ++
      pointer place :: (numbers (place.line + 1) (last source place)).map (row source place) := by
  have hfirst : first place = max 1 (place.line - 2) := rfl
  have hlast : last source place = min (lines source).length (place.line + 2) := rfl
  obtain ⟨above, habove⟩ : ∃ above, place.line = above + 1 := Nat.exists_eq_add_of_le' hpos
  -- the lines are cut before the first one shown, around the one at fault, and behind the last
  have hfar : numbers 1 (lines source).length = numbers 1 (first place - 1) ++
      numbers (first place) (lines source).length := by
    have happend := numbers_append (show 1 ≤ first place - 1 + 1 by omega)
      (show first place - 1 ≤ (lines source).length by omega)
    rwa [Nat.sub_add_cancel (by omega)] at happend
  have hrest : numbers (first place) (lines source).length =
      numbers (first place) place.line ++ (numbers (place.line + 1) (last source place) ++
        numbers (last source place + 1) (lines source).length) := by
    rw [numbers_append (show first place ≤ place.line + 1 by omega) hle,
      numbers_append (show place.line + 1 ≤ last source place + 1 by omega)
        (show last source place ≤ (lines source).length by omega)]
  have hnear : numbers (first place) place.line = numbers (first place) above ++ [place.line] := by
    rw [numbers_append (show first place ≤ above + 1 by omega) (show above ≤ place.line by omega),
      ← habove, numbers_self]
  have hfarAbove : shownOf source place (numbers 1 (first place - 1)) = [] := by
    refine shownOf_far fun n hn => .inl ?_
    have hmem := mem_numbers.1 hn
    omega
  have hfarBelow : shownOf source place
      (numbers (last source place + 1) (lines source).length) = [] := by
    refine shownOf_far fun n hn => .inr ?_
    have hmem := mem_numbers.1 hn
    omega
  have hshownAbove : shownOf source place (numbers (first place) above) =
      (numbers (first place) above).map (row source place) := by
    refine shownOf_near fun n hn => ?_
    have hmem := mem_numbers.1 hn
    omega
  have hshownBelow : shownOf source place (numbers (place.line + 1) (last source place)) =
      (numbers (place.line + 1) (last source place)).map (row source place) := by
    refine shownOf_near fun n hn => ?_
    have hmem := mem_numbers.1 hn
    omega
  rw [contextRows_eq_shownOf, hfar, hrest, hnear]
  simp only [shownOf_append, hfarAbove, hshownAbove, shownOf_faulty, hshownBelow, hfarBelow]
  simp

/-- The rows around a place are the lines near it, each with its number and without the carriage
returns at its end, and one pointer, right after the line at fault. -/
structure ShowsContext (source : String) (place : Place) : Prop where
  rows_eq : contextRows source place = (numbers (first place) place.line).map (row source place) ++
    pointer place :: (numbers (place.line + 1) (last source place)).map (row source place)
  pointer_once : (contextRows source place).count (pointer place) = 1
  row_eq : ∀ number line, (lines source)[number - 1]? = some line → ∃ shown returns,
    row source place number = gutter number place.line ++ String.ofList shown ∧
      line = shown ++ List.replicate returns '\r' ∧ shown.getLast? ≠ some '\r'

theorem showsContext (hpos : 1 ≤ place.line) (hle : place.line ≤ (lines source).length) :
    ShowsContext source place := by
  have hrows (ns : List Nat) : (ns.map (row source place)).count (pointer place) = 0 := by
    refine List.count_eq_zero.2 fun hmem => ?_
    obtain ⟨n, -, hn⟩ := List.mem_map.1 hmem
    exact row_ne_pointer source place place n hn
  refine ⟨contextRows_eq hpos hle, ?_, fun number line hline => ?_⟩
  · rw [contextRows_eq hpos hle, List.count_append, List.count_cons_self, hrows, hrows]
  · obtain ⟨returns, hreturns⟩ := eq_trimReturns line
    refine ⟨trimReturns line, returns, ?_, hreturns, getLast?_trimReturns line⟩
    rw [row, hline, Option.getD_some]

/-! ## What stands above the pointer -/

theorem row_caret {position : Nat} {c : Char} (hc : source.toList[position]? = some c)
    (hfeed : c ≠ '\n') (hshown : ¬Trimmed source position) :
    (row source (locate source position) (locate source position).line).toList[
      caret (locate source position)]? = some c := by
  obtain ⟨cut⟩ := exists_cut source.toList position
  have hlt : position < source.toList.length := (List.getElem?_eq_some_iff.1 hc).1
  have hlength := cut.length_before
  have hoffset : position - (ended cut.above).length = cut.left.length := by omega
  have hline : (lines source)[cut.above.length + 1 - 1]? = some (cut.left ++ cut.right) := by
    rw [lines, cut.lines_eq]
    simp
  rw [caret_eq, cut.locate_eq, hoffset, row, hline, String.toList_append, String.toList_ofList,
    List.getElem?_append_right (by rw [String.length_toList]; exact Nat.le_add_right _ _),
    String.length_toList, Nat.add_sub_cancel_left]
  exact cut.getElem?_shown hc hfeed hshown

variable {π : Type} [Payload π]

/-- Where calls over the text of a source got stuck, the diagnostic names the character of the
source there. -/
theorem found_of_error {p : Parser TextCursor Char π} {trials : List (Trial TextCursor Unit)}
    {s : RunState TextCursor Unit π} (h : p.History (.fresh ()) trials s)
    (htrials : ∀ t ∈ trials,
      ∃ n, t.cursor = (Cursor.advance n (TextCursor.start source) ()).1)
    {d : Diagnostic} (hd : p.error? s = some d) :
    d.position ≤ source.length ∧
      d.found = source.toList[d.position]?.map fun c => String.ofList [c] := by
  have hover : ∀ t ∈ trials, TextCursor.Over t.input t.cursor fun n => source.toList[n]? := by
    intro t ht
    obtain ⟨n, hn⟩ := htrials t ht
    rw [hn]
    exact TextCursor.shared.over_advance (TextCursor.over_start source) (Nat.le_refl n)
  obtain ⟨f, hf, rfl⟩ := Option.map_eq_some_iff.1 hd
  obtain ⟨t, ht, hblamed⟩ :=
    h.blamed TextCursor.shared [] rfl (fun t ht => ⟨_, hover t ht⟩) nofun f hf
  have hthere := hblamed.still_over _ (hover t (ht.resolve_right nofun))
  have hends : Cursor.Ends (fun n => source.toList[n]?) source.toList := fun _ _ => rfl
  have hpeek := TextCursor.shared.peek_eq hthere
  refine ⟨?_, congrArg (Option.map Element.display) hpeek⟩
  rw [← String.length_toList]
  exact TextCursor.shared.position_le hends hthere

/-- The report of an error over a source shows the lines around it, with one pointer, and what
stands above the caret is the character at its position, unless this is a line feed or a carriage
return that is not shown.  After calls over the source it is the character that the report names
as unexpected. -/
theorem pointer_under_found (source : String) :
    (∀ d : Diagnostic, ShowsContext source (locate source d.position) ∧
      ∀ c, source.toList[d.position]? = some c → c ≠ '\n' → ¬Trimmed source d.position →
        (row source (locate source d.position) (locate source d.position).line).toList[
          caret (locate source d.position)]? = some c) ∧
      ∀ (p : Parser TextCursor Char π) (trials : List (Trial TextCursor Unit))
        (s : RunState TextCursor Unit π), p.History (.fresh ()) trials s →
        (∀ t ∈ trials, ∃ n, t.cursor = (Cursor.advance n (TextCursor.start source) ()).1) →
        ∀ d, p.error? s = some d → d.position ≤ source.length ∧
          ∀ c, source.toList[d.position]? = some c → c ≠ '\n' → ¬Trimmed source d.position →
            d.found = some (String.ofList [c]) ∧
              (row source (locate source d.position) (locate source d.position).line).toList[
                caret (locate source d.position)]? = some c := by
  refine ⟨fun d => ?_, fun p trials s h htrials d hd => ?_⟩
  · have hpos := line_locate_pos source d.position
    have hle := line_locate_le source d.position
    exact ⟨showsContext hpos hle, fun c hc hfeed hshown => row_caret hc hfeed hshown⟩
  · obtain ⟨hle, hfound⟩ := found_of_error h htrials hd
    refine ⟨hle, fun c hc hfeed hshown => ⟨?_, row_caret hc hfeed hshown⟩⟩
    rw [hfound, hc, Option.map_some]

/-- Looking for a group from the second line of a text, where one is opened and not closed: the
carriage return is left out of the row, and above the caret is the letter behind the group. -/
theorem openGroup_rendered :
    contextRows "x\r\n((y\r" ⟨2, 2⟩ = ["    1 | x", "  > 2 | ((y", "          ^--- here"] ∧
      ∃ (p : Parser TextCursor Char Empty) (s : RunState TextCursor Unit Empty) (d : Diagnostic),
        p.History (.fresh ()) [⟨⟨0⟩, p.start, ()⟩] s ∧ p.error? s = some d ∧ d.position = 5 ∧
          d.found = some (String.ofList ['y']) ∧
          (row "x\r\n((y\r" ⟨2, 2⟩ 2).toList[caret ⟨2, 2⟩]? = some 'y' := by
  have habreast : Cursor.Abreast SliceCursor.Over TextCursor.Over () ()
      (.start "x\r\n((y\r".toList.toArray) (.start "x\r\n((y\r") :=
    ⟨_, _, "x\r\n((y\r".toList, SliceCursor.over_start _, TextCursor.over_start _,
      fun _ _ => List.getElem?_toArray, fun _ _ => rfl, rfl⟩
  have hbuffer : ∃ r : Report Empty, groups.ReportsAt ⟨.array, none⟩ ⟨0⟩
      (Cursor.advance 3 (SliceCursor.start "x\r\n((y\r".toList.toArray) ()) r ∧
        r.error = some ⟨5, some (String.ofList ['y']), ⟨2⟩, groups.describe ⟨2⟩⟩ :=
    ⟨_, ⟨_, _, ⟨20, rfl⟩, rfl⟩, rfl⟩
  obtain ⟨r, hreport, herror⟩ := hbuffer
  have hiff := Grammar.reportsAt_iff SliceCursor.shared TextCursor.shared habreast groups
    ⟨.array, none⟩ 3 ⟨0⟩ r
  obtain ⟨o, s, hs, rfl⟩ := hiff.1 hreport
  have hstart : ∀ t ∈ [(⟨⟨0⟩, (Cursor.advance 3 (TextCursor.start "x\r\n((y\r") ()).1, ()⟩ :
      Trial TextCursor Unit)],
        ∃ n, t.cursor = (Cursor.advance n (TextCursor.start "x\r\n((y\r") ()).1 :=
    fun t ht => ⟨3, List.mem_singleton.1 ht ▸ rfl⟩
  have hhistory := Parser.History.matchRule hs .nil
  have hunder := ((pointer_under_found "x\r\n((y\r").2 _ _ s hhistory hstart _ herror).2 'y'
    (by decide) (by decide) fun htrimmed => absurd htrimmed.1 (by decide)
  exact ⟨by decide, _, s, _, hhistory, herror, rfl, hunder⟩

end Diagnostic
end PegMatcher
