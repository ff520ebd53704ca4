import PegMatcher.Proofs.Interchange
import PegMatcher.Proofs.Building
/-
A match does not look behind.

From a place with `k` elements before it every rule makes the report that it makes when the
input begins there, with the positions `k` further ahead.  Nothing a rule does depends on where
it is: whether a round of a repetition moved on and which failure is the furthest are seen from
the distance of two positions.
-/
namespace PegMatcher

variable {γ₀ σ₀ γ₁ σ₁ ε π : Type} [Cursor γ₀ ε σ₀] [Cursor γ₁ ε σ₁]

/-- Advancing `k` times from the start gets to where the elements without the first `k`
start. -/
theorem Cursor.apart_advance {Over₀ : σ₀ → γ₀ → (Nat → Option ε) → Prop}
    {Over₁ : σ₁ → γ₁ → (Nat → Option ε) → Prop} (h₀ : Shared Over₀) {i : σ₀} {j : σ₁} {c : γ₀}
    {d : γ₁} {x y : Nat → Option ε} {xs : List ε} {k : Nat} (hk : k ≤ xs.length)
    (hx : Ends x xs) (hy : Ends y (xs.drop k)) (hc : Over₀ i c x) (hd : Over₁ j d y)
    (hstart : position c = 0) (hstart' : position d = 0) :
    Apart k Over₀ Over₁ (advance k c i).2 j (advance k c i).1 d := by
  have hreads := h₀.reads hx hc
  rw [hstart, List.drop_zero] at hreads
  refine ⟨x, y, xs, h₀.over_advance hc (Nat.le_refl k), hd, hx, hy, ?_⟩
  rw [hreads.position_eq k hk, hstart, hstart']

variable [Element ε] [ElementValue ε π] [Payload π]

namespace Grammar

/-- From the first place a rule has the reports that it has from the second one, with the
positions `k` further ahead. -/
def ReportsAhead (g : Grammar ε π) (config : Config) (id : RuleId) (k : Nat) (c : γ₀ × σ₀)
    (d : γ₁ × σ₁) : Prop :=
  ∀ r, g.ReportsAt config id c r ↔ ∃ r', g.ReportsAt config id d r' ∧ r = r'.ahead k

theorem reportsAhead_of_apart {Over₀ : σ₀ → γ₀ → (Nat → Option ε) → Prop}
    {Over₁ : σ₁ → γ₁ → (Nat → Option ε) → Prop} (h₀ : Cursor.Shared Over₀)
    (h₁ : Cursor.Shared Over₁) {k : Nat} {c : γ₀ × σ₀} {d : γ₁ × σ₁}
    (h : Cursor.Apart k Over₀ Over₁ c.2 d.2 c.1 d.1) (g : Grammar ε π) (config : Config)
    (id : RuleId) : g.ReportsAhead config id k c d := by
  have hK : Cursor.Bridge (Cursor.Apart k Over₀ Over₁) k 0 := Cursor.Apart.bridge h₀ h₁
  intro r
  constructor
  · intro hr
    obtain ⟨r', hr', heq⟩ := hr.moved hK h
    rw [Report.ahead_zero] at heq
    exact ⟨r', hr', heq⟩
  · rintro ⟨r', hr', rfl⟩
    obtain ⟨r, hr, heq⟩ := hr'.moved hK.symm h
    rw [Report.ahead_zero] at heq
    exact heq ▸ hr

end Grammar

/-- After `k` advances every rule of every grammar has the reports that it has from the start
of the input without its first `k` elements, `k` positions further ahead.  This holds of
elements in memory, of sources that are asked on demand, and of texts. -/
theorem translation_invariant {π : Type} [Payload π] (config : Config) (id : RuleId) (k : Nat) :
    (∀ {ε : Type} [Element ε] [ElementValue ε π] (g : Grammar ε π) {xs : List ε},
      k ≤ xs.length →
        g.ReportsAhead config id k (Cursor.advance k (SliceCursor.start xs.toArray) ())
          (SliceCursor.start (xs.drop k).toArray, ()) ∧
        ∀ {answer answer' : Nat → Option ε} {starts starts' : Set (StreamCursor ε)}
          {streams streams' : Streams ε}, Cursor.Ends answer xs → Cursor.Ends answer' (xs.drop k) →
          streams.Sound starts → streams'.Sound starts' →
            g.ReportsAhead config id k
              (Cursor.advance k (streams.start answer).1 (streams.start answer).2)
              (streams'.start answer')) ∧
    ∀ (g : Grammar Char π) (text : String), k ≤ text.toList.length →
      g.ReportsAhead config id k (Cursor.advance k (TextCursor.start text) ())
        (TextCursor.start (String.ofList (text.toList.drop k)), ()) := by
  refine ⟨fun {ε} _ _ g xs hk => ⟨?_, ?_⟩, fun g text hk => ?_⟩
  · exact Grammar.reportsAhead_of_apart SliceCursor.shared SliceCursor.shared
      (Cursor.apart_advance SliceCursor.shared hk (SliceCursor.ends_toArray xs)
        (SliceCursor.ends_toArray (xs.drop k))
        (SliceCursor.over_start xs.toArray) (SliceCursor.over_start (xs.drop k).toArray) rfl rfl)
      g config id
  · intro answer answer' starts starts' streams streams' hends hends' hsound hsound'
    exact Grammar.reportsAhead_of_apart (StreamCursor.shared _) (StreamCursor.shared _)
      (Cursor.apart_advance (StreamCursor.shared _) hk hends hends'
        (StreamCursor.over_start answer hsound).1 (StreamCursor.over_start answer' hsound').1
        (StreamCursor.position_start ..) (StreamCursor.position_start ..)) g config id
  · have hrest : Cursor.Ends (fun n => (String.ofList (text.toList.drop k)).toList[n]?)
        (text.toList.drop k) := fun _ _ => by rw [String.toList_ofList]
    exact Grammar.reportsAhead_of_apart TextCursor.shared TextCursor.shared
      (Cursor.apart_advance TextCursor.shared hk (fun _ _ => rfl) hrest
        (TextCursor.over_start text) (TextCursor.over_start _) rfl rfl) g config id

/-- A group behind one character, which is two bytes wide, is reported as at the start of the
text, and of a stream, one position further ahead. -/
theorem groups_translated : 1 ≤ ['é', '(', ')'].length ∧ 1 ≤ "é()".toList.length ∧
    Cursor.Ends (fun n => ['é', '(', ')'][n]?) ['é', '(', ')'] ∧
    Cursor.Ends (fun n => ['(', ')'][n]?) ['(', ')'] ∧ (Streams.empty : Streams Char).Sound ∅ ∧
    ∃ r, groups.ReportsAt ⟨.array, none⟩ ⟨0⟩
        (Cursor.advance 1 (TextCursor.start "é()") ()) (r.ahead 1) ∧
      groups.ReportsAt ⟨.array, none⟩ ⟨0⟩
        (Cursor.advance 1 (Streams.empty.start fun n => ['é', '(', ')'][n]?).1
          (Streams.empty.start fun n => ['é', '(', ')'][n]?).2) (r.ahead 1) ∧
      groups.ReportsAt ⟨.array, none⟩ ⟨0⟩ (SliceCursor.start #['(', ')'], ()) r := by
  have hlist : 1 ≤ ['é', '(', ')'].length := by decide
  have htext : 1 ≤ "é()".toList.length := by decide
  have hends (xs : List Char) : Cursor.Ends (fun n => xs[n]?) xs := fun _ _ => rfl
  have hsound : (Streams.empty : Streams Char).Sound ∅ := StreamCursor.sound_empty
  have htranslated := translation_invariant (π := Empty) ⟨.array, none⟩ ⟨0⟩ 1
  have hstream := (htranslated.1 groups hlist).2 (hends _) (hends _) hsound hsound
  exact ⟨hlist, htext, hends _, hends _, hsound, _,
    (htranslated.2 groups "é()" htext _).2 ⟨_, ⟨_, _, ⟨20, rfl⟩, rfl⟩, rfl⟩,
    (hstream _).2 ⟨_, ⟨_, _, ⟨20, rfl⟩, rfl⟩, rfl⟩, ⟨_, _, ⟨20, rfl⟩, rfl⟩⟩

end PegMatcher
