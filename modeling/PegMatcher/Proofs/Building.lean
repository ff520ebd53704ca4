import Mathlib.Logic.Relation
import PegMatcher.Grammar.Builder
import PegMatcher.Run.Parser
import PegMatcher.Cursor.Slice
/-
What a successful build promises: the grammar holds the collected rules at their numbers,
and every rule refers to rules of the grammar only.

A rule number can also be made up by hand.  `Builder.Composed` are the builders that come
from calls whose rules refer only to numbers that earlier calls gave.  It makes a difference
which numbers count: a call that makes a slot hands out the number of that slot, while naming
a rule returns the number that it was given, whether there is such a rule or not.
-/
namespace PegMatcher

variable {ε π : Type}

/-- Every child of a rule is a rule of the grammar. -/
def Grammar.Closed (g : Grammar ε π) : Prop :=
  ∀ id rule, g.rule? id = some rule → ∀ child ∈ rule.children, g.contains child = true

theorem Grammar.contains_iff {g : Grammar ε π} {id : RuleId} :
    g.contains id = true ↔ ∃ rule, g.rule? id = some rule := by
  unfold contains rule? size
  rw [decide_eq_true_iff, ← Option.isSome_iff_exists, isSome_getElem?]

theorem Grammar.contains_iff_lt {g : Grammar ε π} {id : RuleId} :
    g.contains id = true ↔ id.index < g.size := decide_eq_true_iff

theorem Grammar.mem_of_rule? {g : Grammar ε π} {id : RuleId} {rule : Rule ε π}
    (h : g.rule? id = some rule) : rule ∈ g.rules.toList := by
  rw [rule?, ← Array.getElem?_toList] at h
  exact List.mem_of_getElem? h

/-- One rule is a child of another. -/
def Grammar.Child (g : Grammar ε π) (id child : RuleId) : Prop :=
  ∃ rule, g.rule? id = some rule ∧ child ∈ rule.children

/-- Whatever is below a rule of a closed grammar is a rule of it. -/
theorem Grammar.Closed.contains_below {g : Grammar ε π} (hg : g.Closed) {id target : RuleId}
    (hid : g.contains id = true) (h : Relation.ReflTransGen g.Child id target) :
    g.contains target = true := by
  induction h with
  | refl => exact hid
  | tail _ hchild _ =>
    obtain ⟨rule, hrule, hmem⟩ := hchild
    exact hg _ rule hrule _ hmem

namespace Builder

theorem filledSlots_ok {size index : Nat} {slots : List (Option (Rule ε π))}
    {rules : List (Rule ε π)} (h : filledSlots size index slots = .ok rules) :
    slots = rules.map some ∧ ∀ rule ∈ rules, ∀ child ∈ rule.children, child.index < size := by
  induction slots generalizing index rules with
  | nil => cases h; exact ⟨rfl, nofun⟩
  | cons slot slots ih =>
    cases slot with
    | none => cases h
    | some rule =>
      rw [filledSlots] at h
      split at h
      · cases h
      · rename_i hchildren
        split at h
        · rename_i tail htail
          cases h
          obtain ⟨rfl, hrest⟩ := ih htail
          refine ⟨rfl, fun r hr => ?_⟩
          rcases List.mem_cons.1 hr with rfl | hr
          · intro child hchild
            simpa using List.find?_eq_none.1 hchildren child hchild
          · exact hrest r hr
        · cases h

/-- Rules that pass the first check of a builder refer to each other only. -/
theorem children_lt_of_filledSlots {b : Builder ε π} {rules : List (Rule ε π)}
    (h : filledSlots b.size 0 b.slots.toList = .ok rules) :
    ∀ rule ∈ rules, ∀ child ∈ rule.children, child.index < rules.length := by
  obtain ⟨hslots, hchildren⟩ := filledSlots_ok h
  have hsize : b.size = rules.length := by
    rw [size, ← Array.length_toList, hslots, List.length_map]
  exact fun rule hrule child hchild => hsize ▸ hchildren rule hrule child hchild

theorem build_ok {b : Builder ε π} {g : Grammar ε π} (h : b.build = .ok g) :
    b.slots.toList = g.rules.toList.map some ∧ g.names = b.names ∧ g.Closed := by
  unfold build at h
  split at h
  · cases h
  · rename_i rules hrules
    split at h
    · cases h
    · cases h
      refine ⟨(filledSlots_ok hrules).1, rfl, fun id rule hrule child hchild => ?_⟩
      have hmem : rule ∈ rules := by
        rw [Grammar.rule?, List.getElem?_toArray] at hrule
        exact List.mem_of_getElem? hrule
      have hlt := children_lt_of_filledSlots hrules rule hmem child hchild
      exact Grammar.contains_iff_lt.2 hlt

theorem firstFault?_eq_none {rules : Array (Rule ε π)} {index : Nat} {list : List (Rule ε π)}
    (h : firstFault? rules index list = none) {n : Nat} {rule : Rule ε π}
    (hn : list[n]? = some rule) : ruleFault? rules ⟨index + n⟩ rule = none := by
  induction list generalizing index n with
  | nil => cases hn
  | cons first rest ih =>
    rw [firstFault?] at h
    split at h
    · cases h
    · cases n with
      | zero =>
        cases hn
        assumption
      | succ n =>
        rw [← Nat.succ_add_eq_add_succ]
        exact ih h hn

/-- No rule of a built grammar is at fault. -/
theorem ruleFault?_of_build {b : Builder ε π} {g : Grammar ε π} (h : b.build = .ok g)
    {id : RuleId} {rule : Rule ε π} (hrule : g.rule? id = some rule) :
    ruleFault? g.rules id rule = none := by
  unfold build at h
  split at h
  · cases h
  · split at h
    · cases h
    · rename_i hnone
      cases h
      rw [Grammar.rule?, List.getElem?_toArray] at hrule
      simpa using firstFault?_eq_none hnone hrule

/-- The bounds of a repetition of a built grammar are in order. -/
theorem bounds_of_build {b : Builder ε π} {g : Grammar ε π} (h : b.build = .ok g)
    {id item : RuleId} {min max : Nat}
    (hrule : g.rule? id = some (.repetition item min (some max))) : min ≤ max := by
  have hfault := ruleFault?_of_build h hrule
  rw [ruleFault?] at hfault
  split at hfault
  · cases hfault
  · exact Nat.le_of_not_lt ‹_›

/-- In a built grammar an element taken out of a sequence is one that the sequence has. -/
theorem extract_of_build {b : Builder ε π} {g : Grammar ε π} (h : b.build = .ok g)
    {id item : RuleId} {index : Nat} {items : List RuleId}
    (hrule : g.rule? id = some (.handler item (.extract index)))
    (hitem : g.rule? item = some (.sequence items)) : index < items.length := by
  have hfault := ruleFault?_of_build h hrule
  rw [ruleFault?, show g.rules[item.index]? = some (.sequence items) from hitem] at hfault
  dsimp only at hfault
  split at hfault
  · cases hfault
  · exact Nat.lt_of_not_le ‹_›

/-- A slot of the builder holds the rule that the grammar has under that number. -/
theorem slots_of_build {b : Builder ε π} {g : Grammar ε π} (h : b.build = .ok g) (n : Nat) :
    b.slots[n]? = (g.rule? ⟨n⟩).map some := by
  rw [Grammar.rule?, ← Array.getElem?_toList, ← Array.getElem?_toList, (build_ok h).1,
    List.getElem?_map]

/-! ## Calls of the builder -/

/-- A call that changes the builder. -/
inductive Call (ε π : Type)
  | add (rule : Rule ε π)
  | placeholder
  | define (placeholder target : RuleId)
  | name (id : RuleId) (text : String)

/-- The children of a rule that a call adds. -/
def Call.children : Call ε π → List RuleId
  | add rule => rule.children
  | _ => []

/-- What a call answers. -/
inductive Answer
  | number (id : RuleId)
  | definition (result : Except Fault Unit)

def Answer.number? : Answer → Option RuleId
  | number id => some id
  | definition _ => none

/-- What a call answers, and the builder after it. -/
def perform (b : Builder ε π) : Call ε π → Answer × Builder ε π
  | .add rule => (.number (b.add rule).1, (b.add rule).2)
  | .placeholder => (.number b.addPlaceholder.1, b.addPlaceholder.2)
  | .define placeholder target =>
    (.definition (b.define placeholder target).1, (b.define placeholder target).2)
  | .name id text => (.number (b.name id text).1, (b.name id text).2)

def after (calls : List (Call ε π)) : Builder ε π :=
  calls.foldl (fun b call => (b.perform call).2) empty

theorem define_cases (b : Builder ε π) (placeholder target : RuleId) :
    (∃ fault, b.define placeholder target = (.error fault, b)) ∨
      b.define placeholder target = (.ok (),
        ⟨b.slots.setIfInBounds placeholder.index (some (.placeholder target)), b.names⟩) := by
  unfold define
  split
  · exact .inl ⟨_, rfl⟩
  · split
    · exact .inl ⟨_, rfl⟩
    · split
      · exact .inl ⟨_, rfl⟩
      · exact .inl ⟨_, rfl⟩
      · exact .inl ⟨_, rfl⟩
      · exact .inr rfl

/-- A definition that fails leaves the builder as it was. -/
theorem define_error {b : Builder ε π} {placeholder target : RuleId} {fault : Fault}
    (h : (b.define placeholder target).1 = .error fault) :
    (b.define placeholder target).2 = b := by
  rcases b.define_cases placeholder target with ⟨_, hdefine⟩ | hdefine
  · rw [hdefine]
  · rw [hdefine] at h
    cases h

/-- A rule in a slot after a call was there before, or the call added it, or it is the
placeholder that the call defined. -/
theorem slot_perform {b : Builder ε π} {call : Call ε π} {n : Nat} {rule : Rule ε π}
    (h : (b.perform call).2.slots[n]? = some (some rule)) :
    b.slots[n]? = some (some rule) ∨ (n = b.size ∧ call = .add rule) ∨
      ∃ target, rule = .placeholder target := by
  cases call with
  | add added =>
    rw [perform, add, Array.getElem?_push] at h
    split at h
    · cases h
      exact .inr (.inl ⟨‹_›, rfl⟩)
    · exact .inl h
  | placeholder =>
    rw [perform, addPlaceholder, Array.getElem?_push] at h
    split at h
    · cases h
    · exact .inl h
  | define placeholder target =>
    rw [perform] at h
    rcases b.define_cases placeholder target with ⟨fault, hdefine⟩ | hdefine
    · rw [hdefine] at h
      exact .inl h
    · rw [hdefine, Array.getElem?_setIfInBounds] at h
      split at h
      · split at h
        · cases h
          exact .inr (.inr ⟨target, rfl⟩)
        · cases h
      · exact .inl h
  | name id text => exact .inl h

/-- The number that a call returns. -/
def returned (b : Builder ε π) (call : Call ε π) : Option RuleId := (b.perform call).1.number?

/-- The number that a call hands out for the slot that it makes. -/
def issued (b : Builder ε π) : Call ε π → Option RuleId
  | .add rule => b.returned (.add rule)
  | .placeholder => b.returned .placeholder
  | _ => none

/-- A call hands out the number of the slot it makes, and no call removes a slot. -/
theorem size_perform (b : Builder ε π) (call : Call ε π) :
    b.size ≤ (b.perform call).2.size ∧
      ∀ id, b.issued call = some id → id.index < (b.perform call).2.size := by
  cases call with
  | add rule =>
    rw [show (b.perform (.add rule)).2.size = b.size + 1 from Array.size_push ..]
    exact ⟨Nat.le_succ _, fun id hid => Option.some.inj hid ▸ Nat.lt_succ_self _⟩
  | placeholder =>
    rw [show (b.perform .placeholder).2.size = b.size + 1 from Array.size_push ..]
    exact ⟨Nat.le_succ _, fun id hid => Option.some.inj hid ▸ Nat.lt_succ_self _⟩
  | define placeholder target =>
    refine ⟨Nat.le_of_eq ?_, nofun⟩
    rw [perform]
    rcases b.define_cases placeholder target with ⟨fault, hdefine⟩ | hdefine
    · rw [hdefine]
    · rw [hdefine]
      exact Array.size_setIfInBounds.symm
  | name id text => exact ⟨Nat.le_refl _, nofun⟩

/-- The numbers given so far and the builder, when the rules that were added refer to numbers
that had been given before. -/
inductive Composed (given : Builder ε π → Call ε π → Option RuleId) :
    List RuleId → Builder ε π → Prop
  | empty : Composed given [] empty
  | call {ids b} (before : Composed given ids b) (call : Call ε π)
      (known : ∀ child ∈ call.children, child ∈ ids) :
      Composed given ((given b call).toList ++ ids) (b.perform call).2

theorem Composed.lt_size {ids : List RuleId} {b : Builder ε π} (h : Composed issued ids b) :
    ∀ id ∈ ids, id.index < b.size := by
  induction h with
  | empty => nofun
  | @call ids b before call known ih =>
    obtain ⟨hsize, hissued⟩ := b.size_perform call
    intro id hid
    rcases List.mem_append.1 hid with hid | hid
    · exact hissued id (Option.mem_toList.1 hid)
    · exact Nat.lt_of_lt_of_le (ih id hid) hsize

/-- Only placeholders refer to later slots. -/
theorem Composed.children_earlier {ids : List RuleId} {b : Builder ε π}
    (h : Composed issued ids b) {n : Nat} {rule : Rule ε π}
    (hrule : b.slots[n]? = some (some rule)) :
    (∃ target, rule = .placeholder target) ∨ ∀ child ∈ rule.children, child.index < n := by
  induction h generalizing n rule with
  | empty => cases hrule
  | @call ids b before call known ih =>
    rcases slot_perform hrule with hrule | ⟨rfl, rfl⟩ | hrule
    · exact ih hrule
    · exact .inr fun child hchild => before.lt_size child (known child hchild)
    · exact .inl hrule

end Builder

/-! ## A grammar of nested groups -/

/-- Values of the predefined kinds only. -/
instance : Payload Empty := ⟨nofun, nofun, nofun, nofun⟩

/-- A group is an opening parenthesis, any number of groups, and a closing one; rule 7 is
a group that something follows. -/
def groupCalls : List (Builder.Call Char Empty) :=
  [.placeholder, .add (.literal '('), .add (.literal ')'), .add (Rule.zeroOrMore ⟨0⟩),
    .add (.sequence [⟨1⟩, ⟨3⟩, ⟨2⟩]), .define ⟨0⟩ ⟨4⟩, .add .any, .add (.lookahead ⟨5⟩ false),
    .add (.sequence [⟨0⟩, ⟨6⟩])]

def groups : Grammar Char Empty :=
  ⟨#[.placeholder ⟨4⟩, .literal '(', .literal ')', Rule.zeroOrMore ⟨0⟩,
    .sequence [⟨1⟩, ⟨3⟩, ⟨2⟩], .any, .lookahead ⟨5⟩ false, .sequence [⟨0⟩, ⟨6⟩]], []⟩

theorem build_groupCalls : (Builder.after groupCalls).build = .ok groups := rfl

theorem composed_groupCalls :
    ∃ ids, Builder.Composed Builder.issued ids (Builder.after groupCalls) := by
  have opening : Builder.Composed Builder.issued _ _ :=
    Builder.Composed.empty.call (.placeholder : Builder.Call Char Empty) nofun
  have closing := (opening.call (.add (.literal '(')) nofun).call (.add (.literal ')')) nofun
  have group := (closing.call (.add (Rule.zeroOrMore ⟨0⟩)) (by decide)).call
    (.add (.sequence [⟨1⟩, ⟨3⟩, ⟨2⟩])) (by decide)
  have ahead := ((group.call (.define ⟨0⟩ ⟨4⟩) nofun).call (.add .any) nofun).call
    (.add (.lookahead ⟨5⟩ false)) (by decide)
  exact ⟨_, ahead.call (.add (.sequence [⟨0⟩, ⟨6⟩])) (by decide)⟩

/-- Looks for a group at the start of the input, without a depth limit. -/
def groupParser (input : Array Char) : Parser (SliceCursor Char) Char Empty :=
  ⟨groups, ⟨0⟩, .start input, ⟨.array, none⟩⟩

end PegMatcher
