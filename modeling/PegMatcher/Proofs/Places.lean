import Mathlib.Algebra.Ring.Nat
import PegMatcher.Diagnostic
/-
Where the positions of a source are among its lines.

A position cuts the source in two, and the cut runs through one line.  What stands before the
position are the lines above, each with its line feed, and the part of that line before the
cut; the place of the position is the number of the line and the length of this part.  Beyond
the end the last line is cut behind its last character and the offset goes on counting.

Flattening a place counts the characters before it, a line feed after each line above.  It
gives the position back, and it is increasing on places that are on their lines; so there is
one such place for each position, and the places of positions are in order.
-/
namespace PegMatcher
namespace Text

/-! ## Cutting a text through a line -/

/-- No line has a line feed in it. -/
theorem not_mem_of_mem_splitOn {chars line : List Char} (h : line ∈ chars.splitOn '\n') :
    '\n' ∉ line := by
  induction chars generalizing line with
  | nil => simp_all
  | cons c chars ih =>
    rw [List.splitOn_cons_eq_if_modifyHead] at h
    split at h
    · rcases List.mem_cons.1 h with rfl | h
      · exact List.not_mem_nil
      · exact ih h
    · rename_i hc
      cases hsplit : chars.splitOn '\n' with
      | nil => exact absurd hsplit (List.splitOn_ne_nil _ _)
      | cons first rest =>
        rw [hsplit, List.modifyHead_cons] at h
        rcases List.mem_cons.1 h with rfl | h
        · have hfirst := ih (hsplit ▸ List.mem_cons_self)
          have hne : '\n' ≠ c := fun heq => hc (beq_iff_eq.2 heq.symm)
          exact List.not_mem_cons_of_ne_of_not_mem hne hfirst
        · exact ih (hsplit ▸ List.mem_cons_of_mem _ h)

/-- Lines with a line feed after each. -/
def ended (above : List (List Char)) : List Char := (above.map (· ++ ['\n'])).flatten

/-- Lines with a line feed before each. -/
def begun (below : List (List Char)) : List Char := (below.map ('\n' :: ·)).flatten

theorem intercalate_cons (line : List Char) (below : List (List Char)) :
    ['\n'].intercalate (line :: below) = line ++ begun below := by
  induction below generalizing line with
  | nil => simp [begun, List.intercalate]
  | cons next below ih =>
    have hnext := ih next
    simp_all [begun, List.intercalate]

theorem intercalate_append (above : List (List Char)) (line : List Char)
    (below : List (List Char)) :
    ['\n'].intercalate (above ++ line :: below) = ended above ++ (line ++ begun below) := by
  induction above with
  | nil => exact intercalate_cons line below
  | cons first above ih =>
    cases above with
    | nil => simp_all [ended, List.intercalate]
    | cons second above => simp_all [ended, List.intercalate]

/-- A text cut at a position: the lines above, the two parts of the line that the cut runs
through, and the lines below. -/
structure Cut (chars : List Char) (position : Nat) where
  above : List (List Char)
  left : List Char
  right : List Char
  below : List (List Char)
  before_eq : chars.take position = ended above ++ left
  behind_eq : chars.drop position = right ++ begun below
  plain : ∀ line ∈ above ++ (left ++ right) :: below, '\n' ∉ line

/-- Every position cuts a text: it cuts off the last line of what stands before it and the
first line of what stands behind it. -/
theorem exists_cut (chars : List Char) (position : Nat) : Nonempty (Cut chars position) := by
  have hbefore := List.dropLast_concat_getLast (List.splitOn_ne_nil '\n' (chars.take position))
  obtain ⟨right, below, hbehind⟩ :=
    List.exists_cons_of_ne_nil (List.splitOn_ne_nil '\n' (chars.drop position))
  generalize ((chars.take position).splitOn '\n').dropLast = above,
    ((chars.take position).splitOn '\n').getLast _ = left at hbefore
  have habove : ∀ line ∈ above ++ [left], '\n' ∉ line := fun line hline =>
    not_mem_of_mem_splitOn (hbefore ▸ hline)
  have hbelow : ∀ line ∈ right :: below, '\n' ∉ line := fun line hline =>
    not_mem_of_mem_splitOn (hbehind ▸ hline)
  have hjoined : ∀ part : List Char, ['\n'].intercalate (part.splitOn '\n') = part := fun part =>
    List.intercalate_splitOn '\n'
  refine ⟨⟨above, left, right, below, ?_, ?_, ?_⟩⟩
  · rw [← hjoined (chars.take position), ← hbefore, intercalate_append, begun, List.map_nil,
      List.flatten_nil, List.append_nil]
  · rw [← hjoined (chars.drop position), hbehind, intercalate_cons]
  · simp only [List.mem_append, List.mem_cons] at habove hbelow ⊢
    grind

namespace Cut

variable {chars : List Char} {position : Nat} (cut : Cut chars position)

theorem lines_eq : chars.splitOn '\n' = cut.above ++ (cut.left ++ cut.right) :: cut.below := by
  have hchars : chars = ['\n'].intercalate (cut.above ++ (cut.left ++ cut.right) :: cut.below) := by
    rw [intercalate_append, List.append_assoc, ← List.append_assoc, ← cut.before_eq,
      ← cut.behind_eq, List.take_append_drop]
  have hlines := List.splitOn_intercalate '\n' cut.plain (by simp)
  exact (congrArg (List.splitOn '\n') hchars).trans hlines

/-- The part of the line behind the cut is what stands before the next line feed. -/
theorem takeWhile_behind : (chars.drop position).takeWhile (· ≠ '\n') = cut.right := by
  have hright : ∀ c ∈ cut.right, decide (c ≠ '\n') = true := by
    have hline := cut.plain (cut.left ++ cut.right) (by simp)
    intro c hc
    have hne : c ≠ '\n' := fun heq => hline (by simp_all)
    simpa using hne
  have hbelow : (begun cut.below).takeWhile (· ≠ '\n') = [] := by
    cases cut.below <;> simp [begun]
  rw [cut.behind_eq, List.takeWhile_append_of_pos hright, hbelow, List.append_nil]

theorem length_before : min position chars.length = (ended cut.above).length + cut.left.length := by
  rw [← List.length_take, cut.before_eq, List.length_append]

end Cut

/-! ## Places -/

/-- The number of characters before line `number`, with a line feed after each line. -/
def lineStart (lines : List (List Char)) (number : Nat) : Nat :=
  ((lines.take (number - 1)).map fun line => line.length + 1).sum

/-- The number of characters before a place. -/
def Place.flatten (place : Place) (lines : List (List Char)) : Nat :=
  lineStart lines place.line + place.offset

/-- The place is on one of the lines: before one of its characters, or behind the last. -/
structure Place.On (place : Place) (lines : List (List Char)) : Prop where
  line_pos : 1 ≤ place.line
  line_le : place.line ≤ lines.length
  offset_le : ∀ line, lines[place.line - 1]? = some line → place.offset ≤ line.length

/-- Places in the order of reading. -/
def Place.Before (a b : Place) : Prop :=
  a.line < b.line ∨ a.line = b.line ∧ a.offset < b.offset

section
variable {lines : List (List Char)} {m n : Nat}

theorem lineStart_succ {line : List Char} (hn : 1 ≤ n) (hline : lines[n - 1]? = some line) :
    lineStart lines (n + 1) = lineStart lines n + (line.length + 1) := by
  have htake : lines.take n = lines.take (n - 1) ++ [line] := by
    obtain ⟨k, rfl⟩ := Nat.exists_eq_add_of_le' hn
    rw [Nat.add_sub_cancel] at hline
    rw [List.take_add_one, hline, Nat.add_sub_cancel]
    rfl
  simp [lineStart, htake]

theorem lineStart_mono (h : m ≤ n) : lineStart lines m ≤ lineStart lines n := by
  have hsplit : lines.take (n - 1) =
      lines.take (m - 1) ++ (lines.drop (m - 1)).take (n - 1 - (m - 1)) := by
    rw [← List.take_add]
    congr 1
    omega
  rw [lineStart, lineStart, hsplit, List.map_append, List.sum_append]
  exact Nat.le_add_right _ _

end

namespace Place

variable {a b : Place} {lines : List (List Char)}

theorem before_trichotomy (a b : Place) : a.Before b ∨ a = b ∨ b.Before a := by
  obtain ⟨line, offset⟩ := a
  obtain ⟨line', offset'⟩ := b
  simp only [Before, mk.injEq]
  omega

/-- A place on its line flattens to less than any place further on. -/
theorem On.flatten_lt (ha : a.On lines) (h : a.Before b) : a.flatten lines < b.flatten lines := by
  unfold flatten
  rcases h with hline | ⟨hline, hoffset⟩
  · have hlt : a.line - 1 < lines.length := by
      have hpos := ha.line_pos
      have hle := ha.line_le
      omega
    have hget := List.getElem?_eq_getElem hlt
    have hend := ha.offset_le _ hget
    have hnext := lineStart_succ ha.line_pos hget
    have hstart : lineStart lines (a.line + 1) ≤ lineStart lines b.line := lineStart_mono hline
    omega
  · rw [hline]
    omega

/-- There is only one place on a line that flattens to a position. -/
theorem On.eq_of_flatten (ha : a.On lines) (hb : b.On lines)
    (h : a.flatten lines = b.flatten lines) : a = b := by
  rcases before_trichotomy a b with hab | hab | hba
  · have hlt := ha.flatten_lt hab
    omega
  · exact hab
  · have hlt := hb.flatten_lt hba
    omega

end Place

/-! ## The places of positions -/

section
variable {position number start index : Nat}

theorem locateFrom_of_le (h : position ≤ index) (chars : List Char) :
    locateFrom position number start index chars = ⟨number, position - start⟩ := by
  cases chars with
  | nil => rfl
  | cons c chars => exact if_pos h

/-- Characters that are no line feeds are passed over on their line. -/
theorem locateFrom_line {line : List Char} (hline : '\n' ∉ line)
    (h : index + line.length ≤ position) (chars : List Char) :
    locateFrom position number start index (line ++ chars) =
      locateFrom position number start (index + line.length) chars := by
  induction line generalizing index with
  | nil => rfl
  | cons c line ih =>
    have hc : c ≠ '\n' := fun heq => hline (heq ▸ List.mem_cons_self)
    have hrest : '\n' ∉ line := fun hmem => hline (List.mem_cons_of_mem _ hmem)
    rw [List.length_cons] at h ⊢
    rw [List.cons_append, locateFrom, if_neg (by omega), if_neg hc, ih hrest (by omega)]
    congr 1
    omega

/-- The line feed behind each line leads to the next one, which starts there. -/
theorem locateFrom_ended {above : List (List Char)} (hplain : ∀ line ∈ above, '\n' ∉ line)
    (h : index + (ended above).length ≤ position) (chars : List Char) :
    locateFrom position number index index (ended above ++ chars) =
      locateFrom position (number + above.length) (index + (ended above).length)
        (index + (ended above).length) chars := by
  induction above generalizing number index with
  | nil => rfl
  | cons line above ih =>
    obtain ⟨hline, hplain⟩ := List.forall_mem_cons.1 hplain
    have hended : ended (line :: above) = line ++ '\n' :: ended above := by simp [ended]
    have hlength : (ended (line :: above)).length = line.length + 1 + (ended above).length := by
      rw [hended, List.length_append, List.length_cons]
      omega
    have hnext : index + (ended (line :: above)).length =
        index + line.length + 1 + (ended above).length := by omega
    rw [hnext, hended, List.append_assoc, List.cons_append, locateFrom_line hline (by omega),
      locateFrom, if_neg (by omega), if_pos rfl, ih hplain (by omega), List.length_cons]
    congr 1
    omega

end

section
variable {source : String} {position : Nat}

/-- The scan goes through the lines above and up to the cut, or to the end before it. -/
theorem Cut.locate_eq (cut : Cut source.toList position) :
    locate source position = ⟨cut.above.length + 1, position - (ended cut.above).length⟩ := by
  have hsource : source.toList =
      ended cut.above ++ (cut.left ++ source.toList.drop position) := by
    rw [← List.append_assoc, ← cut.before_eq, List.take_append_drop]
  have hscan := congrArg (locateFrom position 1 0 0) hsource
  have hplain : ∀ line ∈ cut.above, '\n' ∉ line := fun line hline =>
    cut.plain line (List.mem_append_left _ hline)
  have hleft : '\n' ∉ cut.left := fun hmem =>
    cut.plain (cut.left ++ cut.right) (by simp) (List.mem_append_left _ hmem)
  have hlength := cut.length_before
  rw [locate, hscan, locateFrom_ended hplain (by omega), locateFrom_line hleft (by omega),
    Nat.zero_add, Nat.add_comm 1]
  rcases Nat.le_total position source.toList.length with hle | hge
  · exact locateFrom_of_le (by omega) _
  · rw [List.drop_eq_nil_of_le hge]
    rfl

theorem Cut.lineStart_eq (cut : Cut source.toList position) :
    lineStart (lines source) (cut.above.length + 1) = (ended cut.above).length := by
  have htake : (lines source).take cut.above.length = cut.above := by
    rw [lines, cut.lines_eq, List.take_left']
    rfl
  simp [lineStart, htake, ended, List.length_flatten, Function.comp_def]

/-- The cut is behind the last character when the position is beyond the end. -/
theorem Cut.below_eq_nil (cut : Cut source.toList position) (h : source.length ≤ position) :
    cut.right = [] ∧ cut.below = [] := by
  have hbehind := cut.behind_eq
  rw [List.drop_eq_nil_of_le (by rwa [String.length_toList])] at hbehind
  have hnil := List.append_eq_nil_iff.1 hbehind.symm
  refine ⟨hnil.1, ?_⟩
  cases hbelow : cut.below with
  | nil => rfl
  | cons line below => simp [hbelow, begun] at hnil

theorem flatten_locate (source : String) (position : Nat) :
    (locate source position).flatten (lines source) = position := by
  obtain ⟨cut⟩ := exists_cut source.toList position
  have hlength := cut.length_before
  rw [cut.locate_eq, Place.flatten, cut.lineStart_eq]
  show (ended cut.above).length + (position - (ended cut.above).length) = position
  omega

theorem line_locate_pos (source : String) (position : Nat) :
    1 ≤ (locate source position).line := by
  obtain ⟨cut⟩ := exists_cut source.toList position
  rw [cut.locate_eq]
  exact Nat.le_add_left 1 _

theorem line_locate_le (source : String) (position : Nat) :
    (locate source position).line ≤ (lines source).length := by
  obtain ⟨cut⟩ := exists_cut source.toList position
  rw [cut.locate_eq, lines, cut.lines_eq]
  simp

theorem locate_on (h : position ≤ source.length) :
    (locate source position).On (lines source) := by
  refine ⟨line_locate_pos source position, line_locate_le source position, fun line hline => ?_⟩
  obtain ⟨cut⟩ := exists_cut source.toList position
  have hlength := cut.length_before
  rw [String.length_toList, Nat.min_eq_left h] at hlength
  rw [cut.locate_eq] at hline ⊢
  have hget : some (cut.left ++ cut.right) = some line := by
    rw [← hline, lines, cut.lines_eq]
    simp
  obtain rfl := Option.some.inj hget
  rw [List.length_append]
  show position - (ended cut.above).length ≤ _
  omega

theorem line_locate_beyond (h : source.length ≤ position) :
    (locate source position).line = (lines source).length := by
  obtain ⟨cut⟩ := exists_cut source.toList position
  rw [cut.locate_eq, lines, cut.lines_eq, (cut.below_eq_nil h).2]
  simp

theorem locate_before {p q : Nat} (h : p < q) : (locate source p).Before (locate source q) := by
  have hp := flatten_locate source p
  have hq := flatten_locate source q
  rcases Place.before_trichotomy (locate source p) (locate source q) with hbefore | heq | hafter
  · exact hbefore
  · rw [heq] at hp
    omega
  · -- the place of `q` is not on a line only if it is behind the last one, where `p` cannot be
    by_cases hend : q ≤ source.length
    · have hlt := (locate_on hend).flatten_lt hafter
      omega
    · have hline : (locate source q).line = (lines source).length :=
        line_locate_beyond (Nat.le_of_not_le hend)
      have hle := line_locate_le source p
      rcases hafter with hlt | ⟨heq, hlt⟩
      · omega
      · unfold Place.flatten at hp hq
        rw [heq] at hq
        omega

end

/-- The place of a position is on one of the lines of the source.  Up to the end of the source
it is the one place that flattens to the position, so that no two positions have one place and
the places are in the order of the positions.  Beyond the end it is on the last line, as far
behind its start as the position is. -/
theorem locate_inverse (source : String) :
    (∀ p, 1 ≤ (locate source p).line ∧ (locate source p).line ≤ (lines source).length) ∧
      (∀ p, p ≤ source.length → ∀ place : Place, place = locate source p ↔
        place.On (lines source) ∧ place.flatten (lines source) = p) ∧
      Function.Injective (locate source) ∧
      (∀ p q, p < q → (locate source p).Before (locate source q)) ∧
      ∀ p, source.length < p → (locate source p).line = (lines source).length ∧
        lineStart (lines source) (lines source).length + (locate source p).offset = p := by
  refine ⟨fun p => ⟨line_locate_pos source p, line_locate_le source p⟩, fun p hp place => ?_,
    fun p q heq => ?_, fun p q => locate_before, fun p hp => ?_⟩
  · constructor
    · rintro rfl
      exact ⟨locate_on hp, flatten_locate source p⟩
    · rintro ⟨hon, hflatten⟩
      exact hon.eq_of_flatten (locate_on hp) (hflatten.trans (flatten_locate source p).symm)
  · rw [← flatten_locate source p, heq, flatten_locate source q]
  · have hline := line_locate_beyond (Nat.le_of_lt hp)
    have hflatten := flatten_locate source p
    rw [Place.flatten, hline] at hflatten
    exact ⟨hline, hflatten⟩

/-- Two line feeds one after the other: the second one is on a line without characters. -/
theorem lineFeeds_located :
    locate "ab\n\ncd" 3 = ⟨2, 0⟩ ∧ (locate "ab\n\ncd" 3).Before (locate "ab\n\ncd" 5) ∧
      lineStart (lines "ab\n\ncd") 3 + (locate "ab\n\ncd" 9).offset = 9 := by
  obtain ⟨-, hplace, -, hbefore, hbeyond⟩ := locate_inverse "ab\n\ncd"
  have hon : Place.On ⟨2, 0⟩ (lines "ab\n\ncd") := ⟨by decide, by decide, fun _ _ => Nat.zero_le _⟩
  have hfirst := (hplace 3 (by decide) ⟨2, 0⟩).2 ⟨hon, by decide⟩
  exact ⟨hfirst.symm, hbefore 3 5 (by decide), (hbeyond 9 (by decide)).2⟩

end Text
end PegMatcher
