import Mathlib.Data.Nat.Find
import PegMatcher.Proofs.Building
/-
Which fault of a grammar is reported.

Building looks at all slots before it looks at any rule as a whole.  A slot is at fault when it
is empty, or when its rule refers to a number that no slot has.  A rule is at fault when its
bounds are the wrong way round, or when it takes an element that the sequence below it does not
have.  However many faults there are, the one reported is that of the least slot at fault, or of
the least rule at fault when no slot is, and a builder without faults gives just its rules and
its names.

Both checks go through a list and end at the first fault they meet, so both are instances of
one notion of the first fault of a list.
-/
namespace PegMatcher

variable {ε π : Type}

/-! ## The fault of the least number -/

/-- The fault of the least number that has one. -/
def IsFirst (faulty : Nat → Fault → Prop) (fault : Fault) : Prop :=
  ∃ n, faulty n fault ∧ ∀ m < n, ∀ other, ¬faulty m other

/-- Where there are faults, one of them comes first. -/
theorem forall_not_isFirst {faulty : Nat → Fault → Prop} :
    (∀ fault, ¬IsFirst faulty fault) ↔ ∀ n fault, ¬faulty n fault := by
  classical
  constructor
  · intro hno n fault hfault
    have hfaulty : ∃ n, ∃ fault, faulty n fault := ⟨n, fault, hfault⟩
    obtain ⟨first, hfirst⟩ := Nat.find_spec hfaulty
    exact hno first ⟨_, hfirst, fun m hm other hother =>
      Nat.find_min hfaulty hm ⟨other, hother⟩⟩
  · intro hno fault hfirst
    obtain ⟨n, hfault, -⟩ := hfirst
    exact hno n fault hfault

/-- The first fault that a check finds in a list whose entries are numbered from `index` on. -/
def FirstIn {α : Type} (check : Nat → α → Option Fault) (index : Nat) (list : List α) :
    Fault → Prop :=
  IsFirst fun n fault => ∃ a, list[n]? = some a ∧ check (index + n) a = some fault

section
variable {α : Type} {check : Nat → α → Option Fault} {index : Nat} {a : α} {list : List α}
  {fault : Fault}

theorem not_firstIn_nil : ¬FirstIn check index [] fault := by
  intro h
  obtain ⟨n, ⟨a, ha, -⟩, -⟩ := h
  cases ha

/-- A check ends at the head of a list, or it goes on behind it. -/
theorem firstIn_cons : FirstIn check index (a :: list) fault ↔ check index a = some fault ∨
    check index a = none ∧ FirstIn check (index + 1) list fault := by
  constructor
  · intro h
    obtain ⟨n, ⟨a', ha', hfault⟩, hbefore⟩ := h
    cases n with
    | zero =>
      cases ha'
      exact .inl hfault
    | succ n =>
      have hnone : check index a = none :=
        Option.eq_none_iff_forall_ne_some.2 fun other hother =>
          hbefore 0 n.succ_pos other ⟨a, rfl, hother⟩
      refine .inr ⟨hnone, n, ⟨a', ha', ?_⟩, fun m hm other ⟨a'', ha'', hother⟩ => ?_⟩
      · rwa [Nat.succ_add_eq_add_succ]
      · refine hbefore (m + 1) (Nat.succ_lt_succ hm) other ⟨a'', ha'', ?_⟩
        rwa [← Nat.succ_add_eq_add_succ]
  · intro h
    rcases h with hfault | ⟨hnone, n, ⟨a', ha', hfault⟩, hbefore⟩
    · exact ⟨0, ⟨a, rfl, hfault⟩, fun m hm => absurd hm m.not_lt_zero⟩
    · refine ⟨n + 1, ⟨a', ha', ?_⟩, fun m hm other ⟨a'', ha'', hother⟩ => ?_⟩
      · rwa [← Nat.succ_add_eq_add_succ]
      · cases m with
        | zero =>
          cases ha''
          cases hnone.symm.trans hother
        | succ m =>
          refine hbefore m (Nat.lt_of_succ_lt_succ hm) other ⟨a'', ha'', ?_⟩
          rwa [Nat.succ_add_eq_add_succ]

end

namespace Builder

variable {b : Builder ε π} {fault : Fault}

/-! ## What can be wrong -/

/-- What is wrong with a slot, whatever the slots beside it hold. -/
inductive SlotFault (b : Builder ε π) (n : Nat) : Fault → Prop
  | unfilled (slot : b.slots[n]? = some none) : SlotFault b n (.undefinedPlaceholder ⟨n⟩)
  /-- Of the children that no slot has, the first one is to blame. -/
  | beyond {rule before child after} (slot : b.slots[n]? = some (some rule))
      (children : rule.children = before ++ child :: after)
      (known : ∀ earlier ∈ before, earlier.index < b.size) (unknown : b.size ≤ child.index) :
      SlotFault b n (.unknownRule child)

/-- What is wrong with a rule whose children are there. -/
inductive RuleFault (b : Builder ε π) (n : Nat) : Fault → Prop
  | bounds {item min max} (slot : b.slots[n]? = some (some (.repetition item min (some max))))
      (inverted : max < min) : RuleFault b n (.invertedBounds ⟨n⟩ min max)
  | extract {item index items}
      (slot : b.slots[n]? = some (some (.handler item (.extract index))))
      (below : b.slots[item.index]? = some (some (.sequence items)))
      (beyond : items.length ≤ index) : RuleFault b n (.extractBeyond ⟨n⟩ index items.length)

/-! ## The check of the slots -/

/-- The fault of a slot of a builder of some size. -/
def slotFault? (size index : Nat) : Option (Rule ε π) → Option Fault
  | none => some (.undefinedPlaceholder ⟨index⟩)
  | some rule => (rule.children.find? fun child => size ≤ child.index).map .unknownRule

theorem filledSlots_eq_error {size index : Nat} {slots : List (Option (Rule ε π))} :
    filledSlots size index slots = .error fault ↔ FirstIn (slotFault? size) index slots fault := by
  induction slots generalizing index with
  | nil => exact ⟨nofun, fun h => absurd h not_firstIn_nil⟩
  | cons slot slots ih =>
    rw [firstIn_cons, ← ih]
    cases slot with
    | none => simp [filledSlots, slotFault?]
    | some rule =>
      rw [filledSlots, slotFault?]
      cases rule.children.find? fun child => decide (size ≤ child.index) with
      | some child => simp
      | none => cases filledSlots size (index + 1) slots <;> simp

theorem slotFault_iff {n : Nat} : b.SlotFault n fault ↔
    ∃ slot, b.slots.toList[n]? = some slot ∧ slotFault? b.size n slot = some fault := by
  rw [Array.getElem?_toList]
  constructor
  · intro h
    cases h with
    | unfilled hslot => exact ⟨none, hslot, rfl⟩
    | @beyond rule before child after hslot hchildren hknown hunknown =>
      refine ⟨some rule, hslot, ?_⟩
      have hfind : (rule.children.find? fun child => b.size ≤ child.index) = some child := by
        refine List.find?_eq_some_iff_append.2 ⟨decide_eq_true hunknown, before, after,
          hchildren, fun earlier hearlier => ?_⟩
        simpa using hknown earlier hearlier
      rw [slotFault?, hfind]
      rfl
  · intro h
    obtain ⟨_ | rule, hslot, hfault⟩ := h
    · cases hfault
      exact .unfilled hslot
    · obtain ⟨child, hfind, rfl⟩ := Option.map_eq_some_iff.1 hfault
      obtain ⟨hunknown, before, after, hchildren, hknown⟩ := List.find?_eq_some_iff_append.1 hfind
      refine .beyond hslot hchildren (fun earlier hearlier => ?_) (of_decide_eq_true hunknown)
      simpa using hknown earlier hearlier

/-- The check of the slots ends at the first slot at fault. -/
theorem isFirst_slotFault :
    filledSlots b.size 0 b.slots.toList = .error fault ↔ IsFirst b.SlotFault fault := by
  rw [filledSlots_eq_error, FirstIn]
  simp only [Nat.zero_add, ← slotFault_iff]

/-- The slots pass the check when none is at fault. -/
theorem exists_filledSlots (b : Builder ε π) :
    (∃ rules, filledSlots b.size 0 b.slots.toList = .ok rules) ↔
      ∀ n fault, ¬b.SlotFault n fault := by
  simp only [← forall_not_isFirst, ← isFirst_slotFault]
  cases filledSlots b.size 0 b.slots.toList with
  | ok rules => simp
  | error fault => simp

/-! ## The check of the rules -/

theorem firstFault?_eq_some {rules : Array (Rule ε π)} {index : Nat} {list : List (Rule ε π)} :
    firstFault? rules index list = some fault ↔
      FirstIn (fun n => ruleFault? rules ⟨n⟩) index list fault := by
  induction list generalizing index with
  | nil => exact ⟨nofun, fun h => absurd h not_firstIn_nil⟩
  | cons rule list ih =>
    rw [firstIn_cons, ← ih, firstFault?]
    cases ruleFault? rules ⟨index⟩ rule <;> simp

theorem ruleFault_iff {rules : List (Rule ε π)} (hslots : b.slots.toList = rules.map some)
    {n : Nat} : b.RuleFault n fault ↔
      ∃ rule, rules[n]? = some rule ∧ ruleFault? rules.toArray ⟨n⟩ rule = some fault := by
  have hslot (m : Nat) (rule : Rule ε π) :
      b.slots[m]? = some (some rule) ↔ rules[m]? = some rule := by
    rw [← Array.getElem?_toList, hslots, List.getElem?_map]
    simp
  constructor
  · intro h
    cases h with
    | bounds hrule hlt => exact ⟨_, (hslot _ _).1 hrule, if_pos hlt⟩
    | extract hrule hitem hle =>
      refine ⟨_, (hslot _ _).1 hrule, ?_⟩
      rw [ruleFault?, List.getElem?_toArray, (hslot _ _).1 hitem]
      exact if_pos hle
  · intro h
    obtain ⟨rule, hrule, hfault⟩ := h
    rw [← hslot] at hrule
    unfold ruleFault? at hfault
    split at hfault
    · split at hfault
      · cases hfault
        exact .bounds hrule ‹_›
      · cases hfault
    · rw [List.getElem?_toArray] at hfault
      split at hfault
      · rename_i hitem
        split at hfault
        · cases hfault
          exact .extract hrule ((hslot _ _).2 hitem) ‹_›
        · cases hfault
      · cases hfault
    · cases hfault

/-- The check of the rules ends at the first rule at fault. -/
theorem isFirst_ruleFault {rules : List (Rule ε π)}
    (h : filledSlots b.size 0 b.slots.toList = .ok rules) :
    firstFault? rules.toArray 0 rules = some fault ↔ IsFirst b.RuleFault fault := by
  rw [firstFault?_eq_some, FirstIn]
  simp only [Nat.zero_add, ← ruleFault_iff (filledSlots_ok h).1]

/-! ## Building -/

theorem build_eq_error : b.build = .error fault ↔
    IsFirst b.SlotFault fault ∨ (∀ n other, ¬b.SlotFault n other) ∧ IsFirst b.RuleFault fault := by
  rw [← isFirst_slotFault, ← exists_filledSlots, build]
  cases hslots : filledSlots b.size 0 b.slots.toList with
  | error first => simp
  | ok rules =>
    rw [← isFirst_ruleFault hslots]
    dsimp only
    cases firstFault? rules.toArray 0 rules <;> simp

/-- A grammar is what its builder collected. -/
theorem eq_of_slots {g g' : Grammar ε π}
    (hrules : ∀ n, (g.rule? ⟨n⟩).map some = (g'.rule? ⟨n⟩).map some)
    (hnames : g.names = g'.names) : g = g' := by
  obtain ⟨rules, names⟩ := g
  obtain ⟨rules', names'⟩ := g'
  obtain rfl : rules = rules' := Array.ext_getElem? fun n =>
    (Option.map_inj_right fun _ _ => Option.some.inj).1 (hrules n)
  obtain rfl : names = names' := hnames
  rfl

/-- Building reports the fault of the least slot at fault, whatever the rules are like, or of the
least rule at fault when no slot is.  Without faults it succeeds, with the rules in the slots at
their numbers and the names that were given. -/
theorem build_reports_first_fault (b : Builder ε π) :
    (∀ fault, b.build = .error fault ↔ IsFirst b.SlotFault fault ∨
      (∀ n other, ¬b.SlotFault n other) ∧ IsFirst b.RuleFault fault) ∧
    ∀ g, b.build = .ok g ↔
      (∀ n fault, ¬b.SlotFault n fault) ∧ (∀ n fault, ¬b.RuleFault n fault) ∧
        (∀ n, b.slots[n]? = (g.rule? ⟨n⟩).map some) ∧ g.names = b.names := by
  refine ⟨fun fault => build_eq_error, fun g => ⟨fun hg => ?_, ?_⟩⟩
  · have hno (fault : Fault) : b.build ≠ .error fault := by
      rw [hg]
      nofun
    have hslots : ∀ n fault, ¬b.SlotFault n fault :=
      forall_not_isFirst.1 fun first hfirst => hno first (build_eq_error.2 (.inl hfirst))
    have hrules : ∀ n fault, ¬b.RuleFault n fault :=
      forall_not_isFirst.1 fun first hfirst =>
        hno first (build_eq_error.2 (.inr ⟨hslots, hfirst⟩))
    exact ⟨hslots, hrules, slots_of_build hg, (build_ok hg).2.1⟩
  · intro hfree
    obtain ⟨hslots, hrules, hg, hnames⟩ := hfree
    cases hbuild : b.build with
    | error fault =>
      rcases build_eq_error.1 hbuild with ⟨n, hfault, -⟩ | ⟨-, n, hfault, -⟩
      · exact absurd hfault (hslots n fault)
      · exact absurd hfault (hrules n fault)
    | ok g' =>
      have hsame : g' = g := eq_of_slots
        (fun n => (slots_of_build hbuild n).symm.trans (hg n))
        ((build_ok hbuild).2.1.trans hnames.symm)
      rw [hsame]

/-- The second slot has children that are not there, and is reported for the first of them, before
the bounds of the first rule and before the empty slot. -/
example : (after [.add (.repetition ⟨0⟩ 3 (some 2)), .add (.sequence [⟨0⟩, ⟨9⟩, ⟨7⟩]),
    .placeholder] : Builder Char Empty).build = .error (.unknownRule ⟨9⟩) := rfl

end Builder
end PegMatcher
