import Mathlib.Data.List.Forall2
import PegMatcher.Value.Equality
import PegMatcher.Value.Lemmas
import PegMatcher.Value.Printer
/-
Vectors by what is in them.

A vector is determined by its representation, its elements and what follows them.  A printer
writes just these: how the vector opens, its elements with blanks between them, and behind a
dot what follows an improper chain.

Values without floats and payloads are the ones that can be told apart by their written form.
An induction over them has what a vector holds at hand, whatever cells hold it.
-/
namespace PegMatcher

variable {π : Type}

/-! ## What determines a vector -/

namespace Value

/-- A value is the chain of its cells over what ends them. -/
theorem chain_spine (v : Value π) :
    Kind.chain v.spine (v.spineEnd?.getD (.vector .nil)) = v := by
  fun_induction spineEnd? v with
  | case1 => rfl
  | case2 head tail ih =>
    rw [spine_vector_cons]
    exact congrArg (fun rest => Value.vector (.cons head rest)) ih
  | case3 v _ hcons =>
    rw [spine.eq_2 v hcons]
    rfl

end Value

namespace ValueVector

variable {v w : ValueVector π}

/-- Nothing follows where there are no elements. -/
theorem improperTail_of_toList_nil (h : v.toList = []) : v.improperTail = none := by
  cases v with
  | array | nil => rfl
  | cons head tail =>
    rw [toList_cons] at h
    cases h

/-- A chain of cells is its elements over what follows them. -/
theorem chain_toList (h : v.kind = .cons) :
    Kind.chain v.toList (v.improperTail.getD (.vector .nil)) = .vector v := by
  have hend : (Value.vector v).spineEnd? = v.improperTail := by
    cases v with
    | array => cases h
    | nil | cons => rfl
  rw [← v.spine_vector h, ← hend]
  exact Value.chain_spine (.vector v)

theorem eq_of_elements (hkind : v.kind = w.kind) (hlist : v.toList = w.toList)
    (htail : v.improperTail = w.improperTail) : v = w := by
  cases hv : v.kind with
  | array =>
    have hw : w.kind = .array := hkind ▸ hv
    cases v with
    | array =>
      cases w with
      | array => exact congrArg array hlist
      | nil | cons => cases hw
    | nil | cons => cases hv
  | cons =>
    have hchain := chain_toList hv
    rw [hlist, htail, chain_toList (hkind ▸ hv)] at hchain
    exact (Value.vector.inj hchain).symm

end ValueVector

/-- An array takes over the elements only, a chain what follows them too. -/
theorem Kind.improperTail_insertBefore (kind : Kind) (x : Value π) (v : ValueVector π) :
    (kind.insertBefore x v).improperTail = if kind = .cons then v.improperTail else none := by
  cases kind with
  | array => rfl
  | cons =>
    cases v with
    | array items => exact improperTail_create .cons (x :: items)
    | nil | cons => rfl

theorem Kind.insertBefore_create (kind : Kind) (a : Value π) (items : List (Value π)) :
    kind.insertBefore a (kind.create items) = kind.create (a :: items) := by
  cases kind with
  | array => rfl
  | cons => cases items <;> rfl

/-! ## What vectors hold -/

/-- All the elements of a vector are such, and so is what follows them. -/
structure ValueVector.Holds (P : Value π → Prop) (v : ValueVector π) : Prop where
  elements : ∀ a ∈ v.toList, P a
  last : ∀ a, v.improperTail = some a → P a

/-- Two vectors hold related elements in the same order, and related values or none follow. -/
structure ValueVector.Agree (R : Value π → Value π → Prop) (v w : ValueVector π) : Prop where
  elements : List.Forall₂ R v.toList w.toList
  last : Option.Rel R v.improperTail w.improperTail

theorem rel_getElem? {α : Type} {R : α → α → Prop} {as bs : List α}
    (h : List.Forall₂ R as bs) (i : Nat) : Option.Rel R as[i]? bs[i]? := by
  induction h generalizing i with
  | nil => exact .none
  | cons hab _ ih =>
    cases i with
    | zero => exact .some hab
    | succ i => exact ih i

theorem rel_imp {α β : Type} {R S : α → β → Prop} {a : Option α} {b : Option β}
    (h : Option.Rel R a b) (himp : ∀ x y, a = some x → b = some y → R x y → S x y) :
    Option.Rel S a b := by
  cases h with
  | none => exact .none
  | some hxy => exact .some (himp _ _ rfl rfl hxy)

theorem map_eq_map_of_forall₂ {α β : Type} {f : α → β} {as bs : List α}
    (h : List.Forall₂ (fun a b => f a = f b) as bs) : as.map f = bs.map f := by
  rw [← List.forall₂_eq_eq_eq, List.forall₂_map_left_iff, List.forall₂_map_right_iff]
  exact h

namespace ValueVector.Agree

variable {P Q : Value π → Prop} {R S : Value π → Value π → Prop} {v w : ValueVector π}

theorem flip (h : v.Agree R w) : w.Agree (fun b a => R a b) v where
  elements := h.elements.flip
  last := by
    have hlast := h.last
    generalize v.improperTail = last, w.improperTail = last' at hlast
    cases hlast with
    | none => exact .none
    | some hab => exact .some hab

theorem mono (h : v.Agree R w) (himp : ∀ a b, R a b → S a b) : v.Agree S w :=
  ⟨h.elements.imp himp, rel_imp h.last fun a b _ _ => himp a b⟩

/-- Vectors that hold such values are related by whatever these values are related by. -/
theorem imp (h : v.Agree R w) (hv : v.Holds P) (hw : w.Holds Q)
    (himp : ∀ a b, P a → Q b → R a b → S a b) : v.Agree S w where
  elements := by
    obtain ⟨hlen, hpairs⟩ := List.forall₂_iff_zip.1 h.elements
    refine List.forall₂_iff_zip.2 ⟨hlen, fun {a b} hab => ?_⟩
    have hmem := List.of_mem_zip hab
    exact himp a b (hv.elements a hmem.1) (hw.elements b hmem.2) (hpairs hab)
  last := rel_imp h.last fun a b ha hb => himp a b (hv.last a ha) (hw.last b hb)

theorem holds_left (h : v.Agree R w) (hP : ∀ a b, R a b → P a) : v.Holds P where
  elements := by
    have hboth := h.elements.imp fun a b hab => And.intro (hP a b hab) hab
    exact ((List.forall₂_and_left _ _).1 hboth).1
  last a ha := by
    have hlast := h.last
    generalize w.improperTail = last at hlast
    rw [ha] at hlast
    cases hlast with
    | some hab => exact hP _ _ hab

theorem create {vs ws : List (Value π)} (h : List.Forall₂ R vs ws) (kind : Kind) :
    (kind.create vs).Agree R (kind.create ws) where
  elements := by
    rw [Kind.toList_create, Kind.toList_create]
    exact h
  last := by
    rw [Kind.improperTail_create, Kind.improperTail_create]
    exact .none

theorem insertBefore {a b : Value π} (hab : R a b) (h : v.Agree R w) (kind : Kind) :
    (kind.insertBefore a v).Agree R (kind.insertBefore b w) where
  elements := by
    rw [Kind.toList_insertBefore, Kind.toList_insertBefore]
    exact .cons hab h.elements
  last := by
    rw [Kind.improperTail_insertBefore, Kind.improperTail_insertBefore]
    cases kind with
    | array => exact .none
    | cons => exact h.last

theorem reverse (h : v.Agree R w) (kind : Kind) : (kind.reverse v).Agree R (kind.reverse w) where
  elements := by
    rw [Kind.toList_reverse, Kind.toList_reverse]
    exact List.forall₂_reverse_iff.2 h.elements
  last := by
    rw [Kind.improperTail_reverse, Kind.improperTail_reverse]
    exact .none

variable {β : Type} {f : Value π → β}

theorem map_toList_eq (h : v.Agree (fun a b => f a = f b) w) :
    v.toList.map f = w.toList.map f := map_eq_map_of_forall₂ h.elements

theorem map_improperTail_eq (h : v.Agree (fun a b => f a = f b) w) :
    v.improperTail.map f = w.improperTail.map f := by
  have hlast := h.last
  generalize v.improperTail = last, w.improperTail = last' at hlast
  cases hlast with
  | none => rfl
  | some hab => exact congrArg some hab

/-- Vectors have the same images of their elements and of what follows only when these agree. -/
theorem of_map_eq (helements : v.toList.map f = w.toList.map f)
    (hlast : v.improperTail.map f = w.improperTail.map f) :
    v.Agree (fun a b => f a = f b) w where
  elements := by
    rw [← List.forall₂_eq_eq_eq, List.forall₂_map_left_iff, List.forall₂_map_right_iff]
      at helements
    exact helements
  last := by
    generalize v.improperTail = last, w.improperTail = last' at hlast
    cases last with
    | none =>
      cases last' with
      | none => exact .none
      | some => cases hlast
    | some =>
      cases last' with
      | none => cases hlast
      | some => exact .some (Option.some.inj hlast)

end ValueVector.Agree

/-! ## Values without floats and payloads -/

/-- No float and no payload is in the value, nested to any depth. -/
inductive Value.Plain : Value π → Prop
  | null : Plain .null
  | char {c} : Plain (.char c)
  | str {s} : Plain (.str s)
  | int {n} : Plain (.int n)
  | array {items} (h : ∀ a ∈ items, Plain a) : Plain (.vector (.array items))
  | nil : Plain (.vector .nil)
  | cons {head tail} (hhead : Plain head) (htail : Plain tail) :
      Plain (.vector (.cons head tail))

namespace Value.Plain

variable {P : Value π → Prop} {v : Value π}

/-- All that is in the cells starting at a value, and what ends them. -/
structure Chained (P : Value π → Prop) (v : Value π) : Prop where
  cells : ∀ a ∈ v.spine, P a
  ending : ∀ a, v.spineEnd? = some a → P a

theorem Chained.of_end (hspine : v.spine = []) (hend : v.spineEnd? = some v) (h : P v) :
    Chained P v where
  cells a ha := by
    rw [hspine] at ha
    cases ha
  ending a ha := Option.some.inj (hend.symm.trans ha) ▸ h

theorem Chained.holds {head tail : Value π} (hhead : P head) (htail : Chained P tail) :
    (ValueVector.cons head tail).Holds P where
  elements := by
    rw [ValueVector.toList_cons]
    exact List.forall_mem_cons.2 ⟨hhead, htail.cells⟩
  last := htail.ending

theorem of_chained (h : Chained Plain v) : v.Plain := by
  fun_induction spineEnd? v with
  | case1 => exact .nil
  | case2 head tail ih =>
    have hcells := h.cells
    rw [spine_vector_cons] at hcells
    obtain ⟨hhead, htail⟩ := List.forall_mem_cons.1 hcells
    exact .cons hhead (ih ⟨htail, h.ending⟩)
  | case3 v hnil hcons => exact h.ending v (spineEnd?.eq_3 v hnil hcons)

/-- Induction over a plain value, with all that a vector holds plain and done before it. -/
@[elab_as_elim]
theorem induct {motive : Value π → Prop} {v : Value π} (h : v.Plain) (null : motive .null)
    (char : ∀ c, motive (.char c)) (str : ∀ s, motive (.str s)) (int : ∀ n, motive (.int n))
    (vector : ∀ v : ValueVector π, v.Holds (fun a => a.Plain ∧ motive a) →
      motive (.vector v)) : motive v := by
  suffices hall : motive v ∧ Chained (fun a => a.Plain ∧ motive a) v from hall.1
  induction h with
  | null => exact ⟨null, .of_end rfl rfl ⟨.null, null⟩⟩
  | char => exact ⟨char _, .of_end rfl rfl ⟨.char, char _⟩⟩
  | str => exact ⟨str _, .of_end rfl rfl ⟨.str, str _⟩⟩
  | int => exact ⟨int _, .of_end rfl rfl ⟨.int, int _⟩⟩
  | @array items h ih =>
    have hvector := vector (.array items) ⟨fun a ha => ⟨h a ha, (ih a ha).1⟩, nofun⟩
    exact ⟨hvector, .of_end rfl rfl ⟨.array h, hvector⟩⟩
  | nil => exact ⟨vector .nil ⟨nofun, nofun⟩, ⟨nofun, nofun⟩⟩
  | cons hhead htail ihhead ihtail =>
    have hholds := ihtail.2.holds ⟨hhead, ihhead.1⟩
    refine ⟨vector _ hholds, ⟨?_, ihtail.2.ending⟩⟩
    rw [spine_vector_cons]
    exact List.forall_mem_cons.2 ⟨⟨hhead, ihhead.1⟩, ihtail.2.cells⟩

/-- All that a plain vector holds is plain. -/
theorem holds {v : ValueVector π} (h : (Value.vector v).Plain) : v.Holds Plain := by
  generalize hw : Value.vector v = w at h
  refine h.induct (motive := fun w => Value.vector v = w → v.Holds Plain) ?_ ?_ ?_ ?_ ?_ hw
  · nofun
  · exact fun _ => nofun
  · exact fun _ => nofun
  · exact fun _ => nofun
  · intro u hu heq
    cases heq
    exact ⟨fun a ha => (hu.elements a ha).1, fun a ha => (hu.last a ha).1⟩

/-- A vector is plain when all that it holds is. -/
theorem of_holds {v : ValueVector π} (h : v.Holds Plain) : (Value.vector v).Plain := by
  cases v with
  | array items => exact .array h.elements
  | nil => exact .nil
  | cons head tail =>
    have helements := h.elements
    rw [ValueVector.toList_cons] at helements
    obtain ⟨hhead, hcells⟩ := List.forall_mem_cons.1 helements
    exact .cons hhead (of_chained ⟨hcells, h.last⟩)

end Value.Plain

/-! ## How vectors are written -/

namespace Printer

/-- What follows the first item of a vector when its items are written so: the other items, the
one behind an improper chain, and the closing parenthesis. -/
def more (items : List String) (last : Option String) : String :=
  String.join (items.map (" " ++ ·)) ++ last.elim "" (" . " ++ ·) ++ ")"

/-- What follows the opening of a vector. -/
def inside (items : List String) (last : Option String) : String :=
  match items with
  | [] => ")"
  | item :: items => item ++ more items last

theorem more_cons (item : String) (items : List String) (last : Option String) :
    more (item :: items) last = " " ++ item ++ more items last := by
  rw [more, more, List.map_cons, String.join_cons]
  simp only [String.append_assoc]

theorem more_last (last : String) : more [] (some last) = " . " ++ last ++ ")" :=
  congrArg (· ++ ")") String.empty_append

end Printer

section Written

variable [Payload π] (p : Printer)

mutual
theorem Value.printOnto_eq (out : String) (v : Value π) :
    v.printOnto p out = out ++ p.print v := by
  cases v with
  | vector v =>
    rw [Printer.print, Value.printOnto, Value.printOnto, ValueVector.printOnto_eq out v,
      ValueVector.printOnto_eq "" v, String.empty_append]
  | _ => simp [Printer.print, Value.printOnto]

theorem Value.printSpineOnto_eq (out : String) (v : Value π) :
    v.printSpineOnto p out =
      out ++ Printer.more (v.spine.map p.print) (v.spineEnd?.map p.print) := by
  match v with
  | .vector (.cons head tail) =>
    rw [Value.printSpineOnto, Value.printSpineOnto_eq _ tail, Value.printOnto_eq _ head,
      Value.spine_vector_cons, List.map_cons, Printer.more_cons]
    simp only [String.append_assoc]
    rfl
  | .vector .nil => rfl
  | .vector (.array items) =>
    have hprint : p.print (.vector (.array items)) =
        p.openArray ++ Printer.inside (items.map p.print) none := by
      rw [Printer.print, Value.printOnto, ValueVector.printOnto,
        ValueVector.printItemsOnto_eq _ items, String.empty_append]
    rw [Value.printSpineOnto, ValueVector.printItemsOnto_eq _ items]
    change _ = out ++ Printer.more [] (some (p.print (.vector (.array items))))
    rw [Printer.more_last, hprint]
    simp only [String.append_assoc]
  | .null | .char _ | .str _ | .int _ | .float _ | .custom _ =>
    simp [Value.printSpineOnto, Value.spine, Value.spineEnd?, Printer.more_last, Printer.print,
      Value.printOnto, String.append_assoc]

theorem ValueVector.printOnto_eq (out : String) (v : ValueVector π) :
    v.printOnto p out = out ++ ((if v.kind = .array then p.openArray else "(") ++
      Printer.inside (v.toList.map p.print) (v.improperTail.map p.print)) := by
  cases v with
  | nil => rfl
  | array items =>
    rw [ValueVector.printOnto, ValueVector.printItemsOnto_eq _ items, String.append_assoc]
    rfl
  | cons head tail =>
    rw [ValueVector.printOnto, Value.printSpineOnto_eq _ tail, Value.printOnto_eq _ head,
      ValueVector.toList_cons, List.map_cons, Printer.inside]
    simp only [String.append_assoc]
    rfl

theorem ValueVector.printItemsOnto_eq (out : String) (items : List (Value π)) :
    ValueVector.printItemsOnto p out items = out ++ Printer.inside (items.map p.print) none := by
  cases items with
  | nil => rfl
  | cons item items =>
    rw [ValueVector.printItemsOnto, ValueVector.printMoreOnto_eq _ items,
      Value.printOnto_eq _ item, List.map_cons, Printer.inside, String.append_assoc]

theorem ValueVector.printMoreOnto_eq (out : String) (items : List (Value π)) :
    ValueVector.printMoreOnto p out items = out ++ Printer.more (items.map p.print) none := by
  cases items with
  | nil => rfl
  | cons item items =>
    rw [ValueVector.printMoreOnto, ValueVector.printMoreOnto_eq _ items,
      Value.printOnto_eq _ item, List.map_cons, Printer.more_cons]
    simp only [String.append_assoc]
end

/-- A vector is written through the written forms of what it holds. -/
theorem Printer.print_vector (v : ValueVector π) : p.print (.vector v) =
    (if v.kind = .array then p.openArray else "(") ++
      Printer.inside (v.toList.map p.print) (v.improperTail.map p.print) := by
  rw [Printer.print, Value.printOnto, ValueVector.printOnto_eq, String.empty_append]

/-- Where arrays are written as lists, the representation is not written. -/
theorem Printer.print_vector_list (hp : p.arraysAsLists = true) (v : ValueVector π) :
    p.print (.vector v) =
      "(" ++ Printer.inside (v.toList.map p.print) (v.improperTail.map p.print) := by
  have hopen : p.openArray = "(" := if_pos hp
  rw [p.print_vector, hopen, ite_self]

end Written

/-! ## How vectors are compared -/

section Compared

variable [Payload π]

/-- Two values are equal. -/
abbrev Value.Same (v w : Value π) : Prop := v.same w = true

theorem ValueVector.itemsSame_iff {xs ys : List (Value π)} :
    itemsSame xs ys = true ↔ List.Forall₂ Value.Same xs ys := by
  induction xs generalizing ys with
  | nil => cases ys <;> simp [itemsSame]
  | cons x xs ih => cases ys <;> simp [itemsSame, ih]

/-- Cells are compared by their heads and by what ends them. -/
theorem Value.spineSame_iff {v : Value π} {items : List (Value π)} {last : Option (Value π)} :
    v.spineSame items last = true ↔ List.Forall₂ Value.Same v.spine items ∧
      Option.Rel Value.Same v.spineEnd? last := by
  fun_induction Value.spineEnd? v generalizing items with
  | case1 => cases items <;> cases last <;> simp [Value.spineSame]
  | case2 head tail ih =>
    cases items with
    | nil => simp [Value.spineSame]
    | cons item items => simp [Value.spineSame, ih, and_assoc]
  | case3 v hnil hcons =>
    cases v with
    | vector v =>
      cases v with
      | nil => exact absurd rfl hnil
      | cons head tail => exact absurd rfl (hcons head tail)
      | array own =>
        cases items with
        | cons => simp [Value.spineSame]
        | nil =>
          cases last with
          | none => simp [Value.spineSame]
          | some y => cases y <;> simp [Value.spineSame, Value.Same, Value.same, ValueVector.same]
    | _ => cases items <;> cases last <;> simp [Value.spineSame, Value.spine, Value.same]

/-- Vectors are compared by their elements and by what follows them. -/
theorem Value.same_vector_iff {v w : ValueVector π} :
    (Value.vector v).Same (.vector w) ↔ v.Agree Value.Same w := by
  suffices hsame : (Value.vector v).same (.vector w) = true ↔
      List.Forall₂ Value.Same v.toList w.toList ∧
        Option.Rel Value.Same v.improperTail w.improperTail from
    hsame.trans ⟨fun h => ⟨h.1, h.2⟩, fun h => ⟨h.elements, h.last⟩⟩
  rw [Value.same]
  generalize w.toList = items, w.improperTail = last
  cases v with
  | array own => cases last <;> simp [ValueVector.same, ValueVector.itemsSame_iff,
      ValueVector.improperTail]
  | nil => cases items <;> cases last <;> simp [ValueVector.same, ValueVector.improperTail]
  | cons head tail =>
    cases items with
    | nil => simp [ValueVector.same]
    | cons item items =>
      simp [ValueVector.same, Value.spineSame_iff, ValueVector.improperTail, and_assoc]

end Compared
end PegMatcher
