import PegMatcher.Proofs.Simulation.Report
import PegMatcher.Proofs.Reading.Slice
import PegMatcher.Proofs.Reading.Text
import PegMatcher.Proofs.Reading.Memoization
/-
The three kinds of cursors are interchangeable.

Cursors over elements in memory, over the characters of a string and over a source that is
asked on demand behave the same when their inputs have the same elements: from the same
number of advances every match has the same report.  A source may answer again after it has
answered nothing; that is beyond the end of its input and no cursor gets there.
-/
namespace PegMatcher

variable {γ₀ σ₀ γ₁ σ₁ ε π : Type} [Cursor γ₀ ε σ₀] [Cursor γ₁ ε σ₁]

namespace Cursor

/-- Cursors at the same position of inputs with the same elements. -/
def Abreast (Over₀ : σ₀ → γ₀ → (Nat → Option ε) → Prop)
    (Over₁ : σ₁ → γ₁ → (Nat → Option ε) → Prop) (i : σ₀) (j : σ₁) (c : γ₀) (d : γ₁) : Prop :=
  ∃ x y xs, Over₀ i c x ∧ Over₁ j d y ∧ Ends x xs ∧ Ends y xs ∧ position c = position d

variable {Over₀ : σ₀ → γ₀ → (Nat → Option ε) → Prop} {Over₁ : σ₁ → γ₁ → (Nat → Option ε) → Prop}
  {i : σ₀} {j : σ₁} {c : γ₀} {d : γ₁}

/-- Advancing keeps cursors abreast, also at the end of their inputs. -/
theorem Abreast.next (h₀ : Shared Over₀) (h₁ : Shared Over₁)
    (h : Abreast Over₀ Over₁ i j c d) :
    Abreast Over₀ Over₁ (next c i).2 (next d j).2 (next c i).1 (next d j).1 :=
  Apart.next h₀ h₁ (k := 0) h

theorem Abreast.advance (h₀ : Shared Over₀) (h₁ : Shared Over₁)
    (h : Abreast Over₀ Over₁ i j c d) (n : Nat) :
    Abreast Over₀ Over₁ (advance n c i).2 (advance n d j).2 (advance n c i).1
      (advance n d j).1 := by
  induction n with
  | zero => exact h
  | succ n ih =>
    rw [advance_succ, advance_succ]
    exact ih.next h₀ h₁

theorem Abreast.bridge (h₀ : Shared Over₀) (h₁ : Shared Over₁) :
    Bridge (Abreast Over₀ Over₁) 0 0 :=
  Apart.bridge h₀ h₁ (k := 0)

end Cursor

variable [Element ε] [ElementValue ε π] [Payload π]

/-- Cursors abreast have the same reports, from where they are and from as many advances. -/
theorem Grammar.reportsAt_iff {Over₀ : σ₀ → γ₀ → (Nat → Option ε) → Prop}
    {Over₁ : σ₁ → γ₁ → (Nat → Option ε) → Prop} (h₀ : Cursor.Shared Over₀)
    (h₁ : Cursor.Shared Over₁) {i : σ₀} {j : σ₁} {c : γ₀} {d : γ₁}
    (h : Cursor.Abreast Over₀ Over₁ i j c d) (g : Grammar ε π) (config : Config) (n : Nat)
    (id : RuleId) (r : Report π) :
    g.ReportsAt config id (Cursor.advance n c i) r ↔
      g.ReportsAt config id (Cursor.advance n d j) r := by
  have hK := Cursor.Abreast.bridge h₀ h₁
  have hplaces := h.advance h₀ h₁ n
  constructor
  · exact fun hr => hr.copied hK hplaces
  · exact fun hr => hr.copied hK.symm hplaces

/-- After any number of advances, every rule of every grammar has the same reports over
elements in memory and over a source that answers these elements before it first answers
nothing; over the characters of a text, a text cursor has these reports too. -/
theorem cursors_interchangeable {π : Type} [Payload π] (config : Config) (n : Nat) (id : RuleId)
    (r : Report π) :
    (∀ {ε : Type} [Element ε] [ElementValue ε π] (g : Grammar ε π) {xs : List ε}
      {answer : Nat → Option ε} {starts : Set (StreamCursor ε)} {streams : Streams ε},
      Cursor.Ends answer xs → streams.Sound starts →
        (g.ReportsAt config id (Cursor.advance n (SliceCursor.start xs.toArray) ()) r ↔
          g.ReportsAt config id
            (Cursor.advance n (streams.start answer).1 (streams.start answer).2) r)) ∧
    ∀ (g : Grammar Char π) (text : String),
      g.ReportsAt config id (Cursor.advance n (SliceCursor.start text.toList.toArray) ()) r ↔
        g.ReportsAt config id (Cursor.advance n (TextCursor.start text) ()) r := by
  have hitems {ε : Type} (xs : List ε) : Cursor.Ends (fun n => xs.toArray[n]?) xs :=
    fun _ _ => List.getElem?_toArray
  refine ⟨?_, fun g text => ?_⟩
  · intro ε _ _ g xs answer starts streams hends hsound
    have hstream := (StreamCursor.over_start answer hsound).1
    have hposition : (streams.start answer).1.position = 0 := by rw [StreamCursor.start_eq]
    exact Grammar.reportsAt_iff SliceCursor.shared (StreamCursor.shared _)
      ⟨_, _, xs, SliceCursor.over_start xs.toArray, hstream, hitems xs, hends, hposition.symm⟩
      g config n id r
  · exact Grammar.reportsAt_iff SliceCursor.shared TextCursor.shared
      ⟨_, _, text.toList, SliceCursor.over_start text.toList.toArray, TextCursor.over_start text,
        hitems text.toList, fun _ _ => rfl, rfl⟩ g config n id r

/-- Looking for the end of the input after one letter: the stop is an end for good, for the
source as for a buffer. -/
theorem resuming_interchangeable : Cursor.Ends Walk.resuming ['a'] ∧
    (Streams.empty : Streams Char).Sound ∅ ∧
    (⟨#[.endOfInput], []⟩ : Grammar Char Empty).ReportsAt .standard ⟨0⟩
      (Cursor.advance 2 (Streams.empty.start Walk.resuming).1 (Streams.empty.start Walk.resuming).2)
      ⟨.matched 1 .null, 0, 0, none, none⟩ := by
  have hends : Cursor.Ends Walk.resuming ['a'] := by
    intro n hn
    rcases Nat.le_one_iff_eq_zero_or_eq_one.1 hn with rfl | rfl <;> rfl
  have hbuffer : (⟨#[.endOfInput], []⟩ : Grammar Char Empty).ReportsAt .standard ⟨0⟩
      (Cursor.advance 2 (SliceCursor.start #['a']) ()) ⟨.matched 1 .null, 0, 0, none, none⟩ :=
    ⟨_, _, ⟨1, rfl⟩, rfl⟩
  have hiff := (cursors_interchangeable .standard 2 ⟨0⟩ ⟨.matched 1 .null, 0, 0, none, none⟩).1
    (⟨#[.endOfInput], []⟩ : Grammar Char Empty) hends StreamCursor.sound_empty
  exact ⟨hends, StreamCursor.sound_empty, hiff.1 hbuffer⟩

end PegMatcher
