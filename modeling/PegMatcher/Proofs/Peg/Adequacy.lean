import PegMatcher.Proofs.Adequacy
import PegMatcher.Proofs.Aborts
import PegMatcher.Proofs.Peg.Agrees
import PegMatcher.Proofs.Reading.Slice
/-
Matching against the relation of parsing expression grammars.

Without a depth limit, matching a rule of a built grammar gives exactly the answer of the
relation and nothing else.  With a limit the two directions differ.  Whatever the limit, an
outcome other than an abort is the answer of the relation, `Evaluates.peg`; that the answer
is reached needs that no limit stands in the way, `Peg.evaluates`.
-/
namespace PegMatcher

variable {γ ε σ π : Type} [Cursor γ ε σ] [Element ε] [ElementValue ε π] [Payload π]

/-! ## Every outcome but an abort is an answer of the relation -/

section
variable {g : Grammar ε π} {config : Config} {c₀ : γ} {i₀ : σ} {xs : List ε}
  (h₀ : Cursor.Reads c₀ i₀ xs)
include h₀

theorem Evaluates.peg {goal : Goal π} {d : Nat} {c : γ} {i i' : σ} {o : Outcome γ (Value π)}
    {marks : List (Mark γ π)} (e : Evaluates g config goal d c i o i' marks) :
    ∀ {k m : Nat}, c = (Cursor.advance k c₀ i₀).1 → i = (Cursor.advance m c₀ i₀).2 → k ≤ m →
      m ≤ xs.length →
      (∃ cause, o = .aborted cause) ∨
        ∃ answer, Agrees c₀ i₀ xs k m answer o i' ∧ Peg g config.kind goal (xs.drop k) answer := by
  induction e with
  | unknown | tooDeep => exact fun _ _ _ _ => .inl ⟨_, rfl⟩
  | constant h hv =>
    intro k m hplace hinput hkm hm
    subst hplace hinput
    exact .inr ⟨_, .here hkm hm _, .constant h hv⟩
  | endReached h hc =>
    intro k m hplace hinput hkm hm
    subst hplace hinput
    rw [h₀.peek_eq k (by omega), List.getElem?_eq_none_iff] at hc
    refine .inr ⟨_, .here hkm hm _, ?_⟩
    rw [List.drop_eq_nil_of_le hc]
    exact .endReached h
  | endMissed h hc =>
    intro k m hplace hinput hkm hm
    subst hplace hinput
    rw [h₀.peek_eq k (by omega)] at hc
    obtain ⟨hk, -⟩ := List.getElem?_eq_some_iff.1 hc
    refine .inr ⟨none, .missed hm, ?_⟩
    rw [List.drop_eq_getElem_cons hk]
    exact .endMissed h
  | element h ha hc hi =>
    intro k m hplace hinput hkm hm
    subst hplace hinput
    rw [h₀.peek_eq k (by omega)] at hc
    obtain ⟨hk, rfl⟩ := List.getElem?_eq_some_iff.1 hc
    rw [h₀.next_eq k m hk hkm hm]
    refine .inr ⟨_, .matched (Nat.le_succ k) (Nat.le_max_right ..) (Nat.le_max_left ..)
      (by omega), ?_⟩
    rw [List.drop_eq_getElem_cons hk]
    exact .element h ha hi
  | elementMissed h ha hc =>
    intro k m hplace hinput hkm hm
    subst hplace hinput
    refine .inr ⟨none, .missed hm, .elementMissed h ha fun x hx => ?_⟩
    rw [List.head?_drop] at hx
    exact hc x ((h₀.peek_eq k (by omega)).trans hx)
  | @word id items value d c i c' i' h hw =>
    intro k m hplace hinput hkm hm
    subst hplace hinput
    by_cases hs : ∃ rest, Spells items (xs.drop k) rest
    · obtain ⟨rest, hs⟩ := hs
      obtain ⟨hlen, rfl⟩ := hs.eq_drop
      rw [List.length_drop] at hlen
      rw [skipItems_spelled h₀ hkm hm hs] at hw
      cases hw
      refine .inr ⟨_, .matched (Nat.le_add_right ..) (Nat.le_max_right ..) (Nat.le_max_left ..)
        (by omega), ?_⟩
      rw [← List.drop_drop]
      exact .word h hs
    · obtain ⟨m', -, -, he⟩ := skipItems_unspelled h₀ hkm hm (not_exists.1 hs)
      rw [he] at hw
      cases hw
  | @wordMissed id items value d c i i' h hw =>
    intro k m hplace hinput hkm hm
    subst hplace hinput
    by_cases hs : ∃ rest, Spells items (xs.drop k) rest
    · obtain ⟨rest, hs⟩ := hs
      rw [skipItems_spelled h₀ hkm hm hs] at hw
      cases hw
    · obtain ⟨m', hm', hx, he⟩ := skipItems_unspelled h₀ hkm hm (not_exists.1 hs)
      rw [he] at hw
      cases hw
      exact .inr ⟨none, .mismatch hm' hx, .wordMissed h (not_exists.1 hs)⟩
  | @lookahead id item negated d c i o i' marks h _ ih =>
    intro k m hplace hinput hkm hm
    subst hplace hinput
    rcases ih rfl rfl hkm hm with ⟨cause, rfl⟩ | ⟨answer, ha, child⟩
    · exact .inl ⟨cause, rfl⟩
    · exact .inr ⟨_, ha.look hkm negated, .lookahead h child⟩
  | nested h hg _ _ ih =>
    intro k m hc hi hkm hm
    exact (ih hc hi hkm hm).imp id fun ⟨answer, ha, body⟩ => ⟨answer, ha, .nested h hg body⟩
  | sequenceDone =>
    intro k m hplace hinput hkm hm
    subst hplace hinput
    exact .inr ⟨_, .here hkm hm _, .sequenceDone⟩
  | sequenceNext _ _ ih₁ ih₂ =>
    intro k m hc hi hkm hm
    rcases ih₁ hc hi hkm hm with ⟨cause, ⟨⟩⟩ | ⟨answer, ha, first⟩
    cases ha with
    | matched hk hkm' hm' hx =>
      refine (ih₂ rfl rfl hkm' hx).imp id fun ⟨answer, ha, rest⟩ => ?_
      exact ⟨answer, ha.weaken hk hm', .sequenceNext first rest⟩
  | sequenceStop _ ho ih =>
    intro k m hc hi hkm hm
    refine (ih hc hi hkm hm).imp id fun ⟨answer, ha, first⟩ => ?_
    cases ha with
    | matched => exact absurd rfl (ho _ _)
    | mismatch hm' hx => exact ⟨none, .mismatch hm' hx, .sequenceStop first⟩
  | choiceNone =>
    intro k m hplace hinput hkm hm
    subst hplace hinput
    exact .inr ⟨none, .missed hm, .choiceNone⟩
  | choiceNext _ _ ih₁ ih₂ =>
    intro k m hplace hi hkm hm
    subst hplace
    rcases ih₁ rfl hi hkm hm with ⟨cause, ⟨⟩⟩ | ⟨answer, ha, first⟩
    cases ha with
    | mismatch hm' hx =>
      refine (ih₂ rfl rfl (Nat.le_trans hkm hm') hx).imp id fun ⟨answer, ha, rest⟩ => ?_
      exact ⟨answer, ha.weaken (Nat.le_refl k) hm', .choiceNext first rest⟩
  | choiceStop _ ho ih =>
    intro k m hc hi hkm hm
    refine (ih hc hi hkm hm).imp id fun ⟨answer, ha, first⟩ => ?_
    cases ha with
    | matched hk hkm' hm' hx =>
      exact ⟨_, .matched hk hkm' hm' hx, .choiceTaken first⟩
    | mismatch => exact absurd rfl ho
  | roundsFull hx hn =>
    intro k m hplace hinput hkm hm
    subst hplace hinput
    exact .inr ⟨_, .full hkm hm _ _, .roundsFull hx hn⟩
  | roundsNext hx _ more _ ih₁ ih₂ =>
    intro k m hplace hi hkm hm
    subst hplace
    rcases ih₁ rfl hi hkm hm with ⟨cause, ⟨⟩⟩ | ⟨answer, ha, first⟩
    cases ha with
    | matched hk hkm' hm' hx' =>
      rw [h₀.position_eq k (by omega), h₀.position_eq _ (by omega)] at more
      refine (ih₂ rfl rfl hkm' hx').imp id fun ⟨answer, ha, rest⟩ => ?_
      refine ⟨answer, ha.weaken hk hm', .roundsNext hx first (fun hmax hn => ?_) rest⟩
      have := more hmax hn
      rw [List.length_drop, List.length_drop]
      omega
  | roundsLast _ hn still ih =>
    intro k m hplace hi hkm hm
    subst hplace
    rcases ih rfl hi hkm hm with ⟨cause, ⟨⟩⟩ | ⟨answer, ha, first⟩
    cases ha with
    | matched hk hkm' hm' hx' =>
      rw [h₀.position_eq k (by omega), h₀.position_eq _ (by omega)] at still
      refine .inr ⟨_, .matched hk hkm' hm' hx', .roundsLast first hn ?_⟩
      rw [List.length_drop, List.length_drop]
      omega
  | roundsEnough hx _ hn ih =>
    intro k m hplace hi hkm hm
    subst hplace
    rcases ih rfl hi hkm hm with ⟨cause, ⟨⟩⟩ | ⟨answer, ha, first⟩
    cases ha with
    | mismatch hm' hx' =>
      exact .inr ⟨_, .matched (Nat.le_refl k) (Nat.le_trans hkm hm') hm' hx',
        .roundsEnough hx first hn⟩
  | roundsShort hx _ hn ih =>
    intro k m hc hi hkm hm
    rcases ih hc hi hkm hm with ⟨cause, ⟨⟩⟩ | ⟨answer, ha, first⟩
    cases ha with
    | mismatch hm' hx' => exact .inr ⟨none, .mismatch hm' hx', .roundsShort hx first hn⟩
  | roundsAborted => exact fun _ _ _ _ => .inl ⟨_, rfl⟩
  | handledMatched _ ih =>
    intro k m hc hi hkm hm
    rcases ih hc hi hkm hm with ⟨cause, ⟨⟩⟩ | ⟨answer, ha, child⟩
    cases ha with
    | matched hk hkm' hm' hx => exact .inr ⟨_, .matched hk hkm' hm' hx, .handledMatched child⟩
  | handledStop _ ho ih =>
    intro k m hc hi hkm hm
    refine (ih hc hi hkm hm).imp id fun ⟨answer, ha, child⟩ => ?_
    cases ha with
    | matched => exact absurd rfl (ho _ _)
    | mismatch hm' hx => exact ⟨none, .mismatch hm' hx, .handledMissed child⟩

/-! ## Without a limit every answer of the relation is reached -/

theorem Peg.evaluates (hl : config.maxDepth = none) {goal : Goal π} {ys : List ε}
    {answer : PegAnswer ε π} (p : Peg g config.kind goal ys answer) :
    ∀ {k m : Nat} (d : Nat), ys = xs.drop k → k ≤ m → m ≤ xs.length →
      ∃ o i' marks, Agrees c₀ i₀ xs k m answer o i' ∧
        Evaluates g config goal d (Cursor.advance k c₀ i₀).1 (Cursor.advance m c₀ i₀).2 o i'
          marks := by
  have hlimit : ∀ d limit, config.maxDepth = some limit → d < limit := by
    intro d limit hm
    rw [hl] at hm
    cases hm
  induction p with
  | constant h hv =>
    intro k m d hys hkm hm
    subst hys
    exact ⟨_, _, _, .here hkm hm _, .constant h hv⟩
  | endReached h =>
    intro k m d hys hkm hm
    have hk : xs.length ≤ k := List.drop_eq_nil_iff.1 hys.symm
    rw [hys]
    refine ⟨_, _, _, .here hkm hm _, .endReached h ?_⟩
    rw [h₀.peek_eq k (by omega), List.getElem?_eq_none hk]
  | @endMissed id x ys h =>
    intro k m d hys hkm hm
    have hc : Cursor.peek (Cursor.advance k c₀ i₀).1 = some x := by
      rw [h₀.peek_eq k (by omega), ← List.head?_drop, ← hys]
      rfl
    exact ⟨_, _, _, .missed hm, .endMissed h hc⟩
  | @element id rule accepts x ys h ha hx =>
    intro k m d hys hkm hm
    have hk : k < xs.length := List.length_lt_of_drop_ne_nil (by rw [← hys]; nofun)
    rw [List.drop_eq_getElem_cons hk] at hys
    cases hys
    have hc : Cursor.peek (Cursor.advance k c₀ i₀).1 = some xs[k] := by
      rw [h₀.peek_eq k (by omega), List.getElem?_eq_getElem hk]
    have e : Evaluates g config (.rule id) d _ (Cursor.advance m c₀ i₀).2 _ _ _ :=
      .element h ha hc hx
    rw [h₀.next_eq k m hk hkm hm] at e
    exact ⟨_, _, _, .matched (Nat.le_succ k) (Nat.le_max_right ..) (Nat.le_max_left ..)
      (by omega), e⟩
  | elementMissed h ha hx =>
    intro k m d hys hkm hm
    subst hys
    refine ⟨_, _, _, .missed hm, .elementMissed h ha fun item hc => hx item ?_⟩
    rw [List.head?_drop, ← hc, h₀.peek_eq k (by omega)]
  | word h hw =>
    intro k m d hys hkm hm
    subst hys
    obtain ⟨hlen, rfl⟩ := hw.eq_drop
    rw [List.length_drop] at hlen
    rw [List.drop_drop]
    exact ⟨_, _, _, .matched (Nat.le_add_right ..) (Nat.le_max_right ..) (Nat.le_max_left ..)
      (by omega), .word h (skipItems_spelled h₀ hkm hm hw)⟩
  | wordMissed h hw =>
    intro k m d hys hkm hm
    subst hys
    obtain ⟨m', hm', hx, he⟩ := skipItems_unspelled h₀ hkm hm hw
    exact ⟨_, _, _, .mismatch hm' hx, .wordMissed h he⟩
  | @lookahead id item negated ys answer h _ ih =>
    intro k m d hys hkm hm
    subst hys
    obtain ⟨_, _, _, ha, child⟩ := ih d rfl hkm hm
    exact ⟨_, _, _, ha.look hkm negated, .lookahead h child⟩
  | nested h hg _ ih =>
    intro k m d hys hkm hm
    obtain ⟨o, i', marks, ha, e⟩ := ih (d + 1) hys hkm hm
    exact ⟨_, _, _, ha, .nested h hg (hlimit d) e⟩
  | sequenceDone =>
    intro k m d hys hkm hm
    subst hys
    exact ⟨_, _, _, .here hkm hm _, .sequenceDone⟩
  | sequenceNext _ _ ih₁ ih₂ =>
    intro k m d hys hkm hm
    obtain ⟨_, _, _, ha, first⟩ := ih₁ d hys hkm hm
    cases ha with
    | matched hk hkm' hm' hx =>
      obtain ⟨_, _, _, ha, rest⟩ := ih₂ d rfl hkm' hx
      exact ⟨_, _, _, ha.weaken hk hm', .sequenceNext first rest⟩
  | sequenceStop _ ih =>
    intro k m d hys hkm hm
    obtain ⟨_, _, _, ha, first⟩ := ih d hys hkm hm
    cases ha with
    | mismatch hm' hx => exact ⟨_, _, _, .mismatch hm' hx, .sequenceStop first nofun⟩
  | choiceNone =>
    exact fun _ _ _ hm => ⟨_, _, _, .missed hm, .choiceNone⟩
  | choiceTaken _ ih =>
    intro k m d hys hkm hm
    obtain ⟨_, _, _, ha, first⟩ := ih d hys hkm hm
    cases ha with
    | matched hk hkm' hm' hx => exact ⟨_, _, _, .matched hk hkm' hm' hx, .choiceStop first nofun⟩
  | choiceNext _ _ ih₁ ih₂ =>
    intro k m d hys hkm hm
    obtain ⟨_, _, _, ha, first⟩ := ih₁ d hys hkm hm
    cases ha with
    | mismatch hm' hx =>
      obtain ⟨_, _, _, ha, rest⟩ := ih₂ d hys (Nat.le_trans hkm hm') hx
      exact ⟨_, _, _, ha.weaken (Nat.le_refl k) hm', .choiceNext first rest⟩
  | roundsFull hx hn =>
    intro k m d hys hkm hm
    subst hys
    exact ⟨_, _, _, .full hkm hm _ _, .roundsFull hx hn⟩
  | roundsNext hx _ more _ ih₁ ih₂ =>
    intro k m d hys hkm hm
    subst hys
    obtain ⟨_, _, _, ha, first⟩ := ih₁ d rfl hkm hm
    cases ha with
    | matched hk hkm' hm' hx' =>
      obtain ⟨_, _, _, ha, rest⟩ := ih₂ d rfl hkm' hx'
      refine ⟨_, _, _, ha.weaken hk hm', .roundsNext hx first (fun hmax hn => ?_) rest⟩
      have := more hmax hn
      rw [List.length_drop, List.length_drop] at this
      rw [h₀.position_eq k (by omega), h₀.position_eq _ (by omega)]
      omega
  | roundsLast _ hn still ih =>
    intro k m d hys hkm hm
    subst hys
    obtain ⟨_, _, _, ha, first⟩ := ih d rfl hkm hm
    cases ha with
    | matched hk hkm' hm' hx' =>
      refine ⟨_, _, _, .matched hk hkm' hm' hx', .roundsLast first hn ?_⟩
      rw [List.length_drop, List.length_drop] at still
      rw [h₀.position_eq k (by omega), h₀.position_eq _ (by omega)]
      omega
  | roundsEnough hx _ hn ih =>
    intro k m d hys hkm hm
    subst hys
    obtain ⟨_, _, _, ha, first⟩ := ih d rfl hkm hm
    cases ha with
    | mismatch hm' hx' =>
      exact ⟨_, _, _, .matched (Nat.le_refl k) (Nat.le_trans hkm hm') hm' hx',
        .roundsEnough hx first hn⟩
  | roundsShort hx _ hn ih =>
    intro k m d hys hkm hm
    obtain ⟨_, _, _, ha, first⟩ := ih d hys hkm hm
    cases ha with
    | mismatch hm' hx' => exact ⟨_, _, _, .mismatch hm' hx', .roundsShort hx first hn⟩
  | handledMatched _ ih =>
    intro k m d hys hkm hm
    obtain ⟨_, _, _, ha, child⟩ := ih d hys hkm hm
    cases ha with
    | matched hk hkm' hm' hx =>
      exact ⟨_, _, _, .matched hk hkm' hm' hx, .handledMatched child⟩
  | handledMissed _ ih =>
    intro k m d hys hkm hm
    obtain ⟨_, _, _, ha, child⟩ := ih d hys hkm hm
    cases ha with
    | mismatch hm' hx => exact ⟨_, _, _, .mismatch hm' hx, .handledStop child nofun⟩

end

/-! ## Matching a rule -/

section
variable {p : Parser γ ε π} {id : RuleId} {c : γ} {s : RunState γ σ π} {xs : List ε}
  (hc : Cursor.Reads c s.input xs)
include hc

/-- Matching gives an answer of the relation or aborts. -/
theorem Parser.Returns.peg {o : Outcome γ (Value π)} {s' : RunState γ σ π}
    (h : p.Returns id c s o s') :
    (∃ cause, o = .aborted cause) ∨ ∃ answer, Agrees c s.input xs 0 0 answer o s'.input ∧
      Peg p.grammar p.config.kind (.rule id) xs answer := by
  obtain ⟨i', marks, e, rfl⟩ := Parser.returns_iff.1 h
  exact e.peg hc rfl rfl (Nat.le_refl 0) (Nat.zero_le _)

/-- Without a limit, matching reaches every answer of the relation. -/
theorem Peg.returns (hl : p.config.maxDepth = none) {answer : PegAnswer ε π}
    (h : Peg p.grammar p.config.kind (.rule id) xs answer) :
    ∃ o s', Agrees c s.input xs 0 0 answer o s'.input ∧ p.Returns id c s o s' := by
  obtain ⟨o, i', marks, ha, e⟩ :=
    h.evaluates hc hl s.depth rfl (Nat.le_refl 0) (Nat.zero_le _)
  exact ⟨o, s.after marks i', ha, Parser.returns_iff.2 ⟨i', marks, e, rfl⟩⟩

end

omit [Cursor γ ε σ] in
/-- The relation has at most one answer for a rule. -/
theorem Peg.unique {g : Grammar ε π} {kind : Kind} {id : RuleId} {xs : List ε}
    {a₁ a₂ : PegAnswer ε π} (h₁ : Peg g kind (.rule id) xs a₁)
    (h₂ : Peg g kind (.rule id) xs a₂) : a₁ = a₂ := by
  let p : Parser (SliceCursor ε) ε π := ⟨g, id, .start xs.toArray, ⟨kind, none⟩⟩
  have hc : Cursor.Reads p.start (RunState.fresh () : RunState (SliceCursor ε) Unit π).input xs :=
    SliceCursor.reads_start xs.toArray
  obtain ⟨o₁, s₁, ha₁, hr₁⟩ := Peg.returns (p := p) hc rfl h₁
  obtain ⟨o₂, s₂, ha₂, hr₂⟩ := Peg.returns (p := p) hc rfl h₂
  obtain ⟨rfl, rfl⟩ := hr₁.unique hr₂
  exact ha₁.unique hc ha₂

/-- Without a depth limit, matching a rule of a built grammar at a cursor before a finite
input gives the answers of the relation, and never aborts; the relation itself has one
answer at most. -/
theorem Parser.returns_iff_peg {b : Builder ε π} {p : Parser γ ε π} {id : RuleId} {c : γ}
    {s : RunState γ σ π} {xs : List ε} (hb : b.build = .ok p.grammar)
    (hl : p.config.maxDepth = none) (hid : p.grammar.contains id = true)
    (hc : Cursor.Reads c s.input xs) :
    (∀ c' value, (∃ s', p.Returns id c s (.matched c' value) s') ↔
        ∃ n ≤ xs.length, c' = (Cursor.advance n c s.input).1 ∧
          p.grammar.Yields p.config.kind id xs (xs.drop n) value) ∧
      ((∃ s', p.Returns id c s .mismatch s') ↔ p.grammar.Refuses p.config.kind id xs) ∧
      (∀ cause s', ¬p.Returns id c s (.aborted cause) s') ∧
      ∀ ys value, p.grammar.Yields p.config.kind id xs ys value →
        ¬p.grammar.Refuses p.config.kind id xs ∧ (∃ n ≤ xs.length, ys = xs.drop n) ∧
          ∀ ys' value', p.grammar.Yields p.config.kind id xs ys' value' →
            ys' = ys ∧ value' = value := by
  refine ⟨fun c' value => ⟨?_, ?_⟩, ⟨?_, ?_⟩, ?_, fun ys value h => ⟨?_, ?_, ?_⟩⟩
  · intro hmatched
    obtain ⟨s', hr⟩ := hmatched
    obtain ⟨cause, ⟨⟩⟩ | ⟨answer, ha, h⟩ := hr.peg hc
    obtain ⟨n, hn, rfl, rfl⟩ := ha.of_matched
    exact ⟨n, hn, rfl, h⟩
  · intro hyields
    obtain ⟨n, hn, rfl, h⟩ := hyields
    obtain ⟨o, s', ha, hr⟩ := Peg.returns hc hl h
    obtain ⟨k, hk, hdrop, rfl⟩ := ha.of_some
    -- equal rests of the input are at equal places
    have hlength := congrArg List.length hdrop
    rw [List.length_drop, List.length_drop] at hlength
    rw [show n = k by omega]
    exact ⟨s', hr⟩
  · intro hmissed
    obtain ⟨s', hr⟩ := hmissed
    obtain ⟨cause, ⟨⟩⟩ | ⟨answer, ha, h⟩ := hr.peg hc
    rw [ha.of_mismatch] at h
    exact h
  · intro h
    obtain ⟨o, s', ha, hr⟩ := Peg.returns hc hl h
    rw [ha.of_none] at hr
    exact ⟨s', hr⟩
  · intro cause s' hr
    obtain ⟨i', marks, e, -⟩ := Parser.returns_iff.1 hr
    exact e.not_aborted (Builder.build_ok hb).2.2 hl (Goal.within_rule.2 hid) cause rfl
  · exact fun hnone => nomatch Peg.unique h hnone
  · obtain ⟨o, s', ha, -⟩ := Peg.returns hc hl h
    obtain ⟨n, hn, hdrop, -⟩ := ha.of_some
    exact ⟨n, hn, hdrop⟩
  · intro ys' value' h'
    exact Prod.mk.inj (Option.some.inj (Peg.unique h' h))

/-- The parentheses are a group, and the character behind them is left. -/
theorem groups_yields : ((Builder.after groupCalls).build = .ok groups ∧
    groups.contains ⟨0⟩ = true ∧
    Cursor.Reads (SliceCursor.start #['(', '(', ')', ')', '!']) () ['(', '(', ')', ')', '!']) ∧
    ∃ n ≤ 5, (⟨#['(', '(', ')', ')', '!'], 4⟩ : SliceCursor Char) =
        (Cursor.advance n (SliceCursor.start #['(', '(', ')', ')', '!']) ()).1 ∧
      groups.Yields .array ⟨0⟩ ['(', '(', ')', ')', '!']
        (['(', '(', ')', ')', '!'].drop n)
        (.vector (.array [.char '(', .vector (.array [.vector (.array
          [.char '(', .vector (.array []), .char ')'])]), .char ')'])) := by
  have hc := SliceCursor.reads_start #['(', '(', ')', ')', '!']
  have hid : groups.contains ⟨0⟩ = true := rfl
  have hmatch := (Parser.returns_iff_peg (p := groupParser #['(', '(', ')', ')', '!'])
    (s := .fresh ()) build_groupCalls rfl hid hc).1
  exact ⟨⟨build_groupCalls, hid, hc⟩, (hmatch _ _).1 ⟨_, 20, rfl⟩⟩

end PegMatcher
