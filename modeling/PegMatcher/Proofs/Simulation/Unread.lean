import PegMatcher.Proofs.Adequacy
/-
What an evaluation has not read does not influence it.

An edit changes the state of the input where nothing was read yet.  It goes unnoticed by an
advance that reads no further than a bound, so that the same cursor is reached and the edit
stands in the state after it.  The bound is on the state at the end: once something beyond it
was read no later state is within it again, which is why `Evaluates.unread` asks for the last
state only.
-/
namespace PegMatcher

variable {γ ε σ π : Type} [Cursor γ ε σ]

/-- Advances that end within a bound do not notice an edit, and begin within it. -/
structure Cursor.Unread (γ : Type) {ε σ : Type} [Cursor γ ε σ] (edit : σ → σ)
    (Within : σ → Prop) : Prop where
  within {c : γ} {i : σ} (h : Within (next c i).2) : Within i
  next_edit {c : γ} {i : σ} (h : Within (next c i).2) :
    next c (edit i) = ((next c i).1, edit (next c i).2)

variable {edit : σ → σ} {Within : σ → Prop}

theorem skipItems_unread [Element ε] (hu : Cursor.Unread γ edit Within) (items : List ε) {c : γ}
    {i : σ} (h : Within (skipItems items c i).2) :
    Within i ∧ skipItems items c (edit i) =
      ((skipItems items c i).1, edit (skipItems items c i).2) := by
  induction items generalizing c i with
  | nil => exact ⟨h, rfl⟩
  | cons expected items ih =>
    unfold skipItems at h ⊢
    cases hc : Cursor.peek c with
    | none =>
      rw [hc] at h
      exact ⟨h, rfl⟩
    | some item =>
      rw [hc] at h
      by_cases same : Element.same item expected = true
      · simp only [if_pos same] at h ⊢
        obtain ⟨hnext, hskip⟩ := ih h
        rw [hu.next_edit hnext]
        exact ⟨hu.within hnext, hskip⟩
      · simp only [if_neg same] at h ⊢
        exact ⟨h, trivial⟩

variable [Element ε] [ElementValue ε π] [Payload π] {g : Grammar ε π} {config : Config}
  {goal : Goal π} {d : Nat} {c : γ} {i i' : σ} {o : Outcome γ (Value π)}
  {marks : List (Mark γ π)}

/-- An evaluation that ends within the bound begins within it, and goes the same way, with
the same cursors and marks, after an edit. -/
theorem Evaluates.unread (hu : Cursor.Unread γ edit Within)
    (e : Evaluates g config goal d c i o i' marks) :
    Within i' → Within i ∧ Evaluates g config goal d c (edit i) o (edit i') marks := by
  induction e with
  | unknown h => exact fun hw => ⟨hw, .unknown h⟩
  | constant h hv => exact fun hw => ⟨hw, .constant h hv⟩
  | endReached h hc => exact fun hw => ⟨hw, .endReached h hc⟩
  | endMissed h hc => exact fun hw => ⟨hw, .endMissed h hc⟩
  | @element id rule accepts d c i item h ha hc hi =>
    intro hw
    have taken : Evaluates g config (.rule id) d c (edit i) _ _ [] := .element h ha hc hi
    rw [hu.next_edit hw] at taken
    exact ⟨hu.within hw, taken⟩
  | elementMissed h ha hc => exact fun hw => ⟨hw, .elementMissed h ha hc⟩
  | word h hskip =>
    intro hw
    obtain ⟨hwithin, heq⟩ := skipItems_unread hu _ (by rwa [hskip])
    rw [hskip] at heq
    exact ⟨hwithin, .word h heq⟩
  | wordMissed h hskip =>
    intro hw
    obtain ⟨hwithin, heq⟩ := skipItems_unread hu _ (by rwa [hskip])
    rw [hskip] at heq
    exact ⟨hwithin, .wordMissed h heq⟩
  | lookahead h _ ih => exact fun hw => (ih hw).imp_right (.lookahead h)
  | tooDeep h hg hl hd => exact fun hw => ⟨hw, .tooDeep h hg hl hd⟩
  | nested h hg hl _ ih => exact fun hw => (ih hw).imp_right (.nested h hg hl)
  | sequenceDone => exact fun hw => ⟨hw, .sequenceDone⟩
  | sequenceNext _ _ ih₁ ih₂ =>
    intro hw
    -- the first part ends where the rest begins, which is within the bound as well
    obtain ⟨hbetween, rest⟩ := ih₂ hw
    obtain ⟨hwithin, first⟩ := ih₁ hbetween
    exact ⟨hwithin, .sequenceNext first rest⟩
  | sequenceStop _ hs ih => exact fun hw => (ih hw).imp_right (.sequenceStop · hs)
  | choiceNone => exact fun hw => ⟨hw, .choiceNone⟩
  | choiceNext _ _ ih₁ ih₂ =>
    intro hw
    obtain ⟨hbetween, rest⟩ := ih₂ hw
    obtain ⟨hwithin, first⟩ := ih₁ hbetween
    exact ⟨hwithin, .choiceNext first rest⟩
  | choiceStop _ hs ih => exact fun hw => (ih hw).imp_right (.choiceStop · hs)
  | roundsFull hm hn => exact fun hw => ⟨hw, .roundsFull hm hn⟩
  | roundsNext hm _ more _ ih₁ ih₂ =>
    intro hw
    obtain ⟨hbetween, rest⟩ := ih₂ hw
    obtain ⟨hwithin, first⟩ := ih₁ hbetween
    exact ⟨hwithin, .roundsNext hm first more rest⟩
  | roundsLast _ hn still ih => exact fun hw => (ih hw).imp_right (.roundsLast · hn still)
  | roundsEnough hm _ hn ih => exact fun hw => (ih hw).imp_right (.roundsEnough hm · hn)
  | roundsShort hm _ hn ih => exact fun hw => (ih hw).imp_right (.roundsShort hm · hn)
  | roundsAborted hm _ ih => exact fun hw => (ih hw).imp_right (.roundsAborted hm)
  | handledMatched _ ih => exact fun hw => (ih hw).imp_right .handledMatched
  | handledStop _ hs ih => exact fun hw => (ih hw).imp_right (.handledStop · hs)

/-- A match that ends within the bound ends the same after an edit, which is still there. -/
theorem Parser.Returns.unread (hu : Cursor.Unread γ edit Within) {p : Parser γ ε π}
    {id : RuleId} {s s' : RunState γ σ π} (h : p.Returns id c s o s') (hw : Within s'.input) :
    p.Returns id c { s with input := edit s.input } o { s' with input := edit s'.input } := by
  obtain ⟨i', marks, e, rfl⟩ := returns_iff.1 h
  obtain ⟨-, edited⟩ := e.unread hu hw
  exact returns_iff.2 ⟨edit i', marks, edited, (s.after_of_input (edit s.input) _ marks).symm⟩

end PegMatcher
