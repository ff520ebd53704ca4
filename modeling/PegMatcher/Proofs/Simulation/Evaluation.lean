import PegMatcher.Proofs.Simulation.Relations
/-
Evaluations go the same way on both sides of a bridge.

An evaluation at a cursor has a copy at every cursor across the bridge, for every grammar
that corresponds, and the two outcomes are of the same kind at related cursors with related
values.  The copy may start less deep, where it has more room below the depth limit, unless
the evaluation ended at that limit.
-/
namespace PegMatcher

variable {γ₀ σ₀ γ₁ σ₁ ε π : Type} [Cursor γ₁ ε σ₁] [Element ε] [ElementValue ε π] [Payload π]

/-- What an evaluation across the bridge does in the place of another one: from there on
every pair of related cursors stays related. -/
def Evaluates.Copied (K : σ₀ → σ₁ → γ₀ → γ₁ → Prop) (R : Value π → Value π → Prop)
    (ahead behind shift : Nat) (g : Grammar ε π) (config : Config) (goal : Goal π)
    (depth : Nat) (d : γ₁) (i : σ₀) (j : σ₁) (o : Outcome γ₀ (Value π)) (i' : σ₀)
    (marks : List (Mark γ₀ π)) : Prop :=
  ∃ o' j' marks', Evaluates g config goal depth d j o' j' marks' ∧
    (∀ e f, K i j e f → K i' j' e f) ∧ o.Related (K i' j') R ahead behind o' ∧
    Mark.Related (K i' j') shift marks marks'

variable {K : σ₀ → σ₁ → γ₀ → γ₁ → Prop} {R : Value π → Value π → Prop}
  {ahead behind shift : Nat} {g₀ g₁ : Grammar ε π} {config₀ config₁ : Config}

namespace Evaluates.Copied

variable {goal goal' : Goal π} {depth depth' : Nat} {d d' : γ₁} {i i₁ i' : σ₀} {j : σ₁}
  {o o₁ : Outcome γ₀ (Value π)} {marks marks₁ marks₂ : List (Mark γ₀ π)}

theorem of_matched {c : γ₀} {v : Value π}
    (h : Copied K R ahead behind shift g₁ config₁ goal depth d i j (.matched c v) i' marks) :
    ∃ c' w j' marks', Evaluates g₁ config₁ goal depth d j (.matched c' w) j' marks' ∧
      (∀ e f, K i j e f → K i' j' e f) ∧ K i' j' c c' ∧ R v w ∧
      Mark.Related (K i' j') shift marks marks' := by
  obtain ⟨o', j', marks', e, hstay, ho, hm⟩ := h
  cases ho with
  | matched hc hv => exact ⟨_, _, j', marks', e, hstay, hc, hv, hm⟩

theorem of_mismatch
    (h : Copied K R ahead behind shift g₁ config₁ goal depth d i j .mismatch i' marks) :
    ∃ j' marks', Evaluates g₁ config₁ goal depth d j .mismatch j' marks' ∧
      (∀ e f, K i j e f → K i' j' e f) ∧ Mark.Related (K i' j') shift marks marks' := by
  obtain ⟨o', j', marks', e, hstay, ho, hm⟩ := h
  cases ho with
  | mismatch => exact ⟨j', marks', e, hstay, hm⟩

/-- What only passes on how a part of it ends is copied with that part. -/
theorem pass (h : Copied K R ahead behind shift g₁ config₁ goal depth d i j o i' marks)
    (hpass : ∀ {o' j' marks'}, o.Related (K i' j') R ahead behind o' →
      Evaluates g₁ config₁ goal depth d j o' j' marks' →
        Evaluates g₁ config₁ goal' depth' d' j o' j' marks') :
    Copied K R ahead behind shift g₁ config₁ goal' depth' d' i j o i' marks := by
  obtain ⟨o', j', marks', e, hstay, ho, hm⟩ := h
  exact ⟨o', j', marks', hpass ho e, hstay, ho, hm⟩

/-- Two parts one after the other. -/
theorem seq {j₁ : σ₁} {marks₁' : List (Mark γ₁ π)}
    (hstay : ∀ e f, K i j e f → K i₁ j₁ e f) (hm : Mark.Related (K i₁ j₁) shift marks₁ marks₁')
    (h : Copied K R ahead behind shift g₁ config₁ goal depth d i₁ j₁ o i' marks₂)
    (hjoin : ∀ {o' j' marks'}, Evaluates g₁ config₁ goal depth d j₁ o' j' marks' →
      Evaluates g₁ config₁ goal' depth' d' j o' j' (marks₁' ++ marks')) :
    Copied K R ahead behind shift g₁ config₁ goal' depth' d' i j o i' (marks₁ ++ marks₂) := by
  obtain ⟨o', j', marks', e, hstay', ho, hm'⟩ := h
  exact ⟨o', j', marks₁' ++ marks', hjoin e, fun _ _ hc => hstay' _ _ (hstay _ _ hc), ho,
    (hm.imp hstay').append hm'⟩

/-- What reads nothing and leaves no mark. -/
theorem still {o' : Outcome γ₁ (Value π)} (e : Evaluates g₁ config₁ goal depth d j o' j [])
    (ho : o.Related (K i j) R ahead behind o') :
    Copied K R ahead behind shift g₁ config₁ goal depth d i j o i [] :=
  ⟨o', j, [], e, fun _ _ => id, ho, .nil⟩

end Evaluates.Copied

variable [Cursor γ₀ ε σ₀]

/-- An evaluation is copied at every cursor across the bridge and at every smaller depth.
One that ended at the depth limit is copied at the same depth only. -/
theorem Evaluates.copied (hK : Cursor.Bridge K ahead behind)
    (hg : Grammar.Corresponds R config₀.kind config₁.kind g₀ g₁)
    (hl : config₀.maxDepth = config₁.maxDepth) {goal : Goal π} {depth : Nat} {c : γ₀}
    {i i' : σ₀} {o : Outcome γ₀ (Value π)} {marks : List (Mark γ₀ π)}
    (e : Evaluates g₀ config₀ goal depth c i o i' marks) :
    ∀ {goal' depth' d j}, goal.Corresponds R config₀.kind config₁.kind goal' →
      depth = depth' + shift → K i j c d → (o.TooDeep → shift = 0) →
      Copied K R ahead behind shift g₁ config₁ goal' depth' d i j o i' marks := by
  -- induction on the evaluation to be copied: the copy of each part starts in the state that
  -- the one before left, where every pair of cursors is still related
  induction e with
  | unknown h =>
    intro goal' depth' d j hgoal hd hc ho
    cases hgoal
    exact .still (.unknown (hg.unknown h)) (.aborted .unknownRule)
  | constant h hv =>
    intro goal' depth' d j hgoal hd hc ho
    cases hgoal
    obtain ⟨r, h', hr⟩ := hg.rule h
    obtain ⟨w, hw, hvw⟩ := hr.constant hv
    exact .still (.constant h' hw) (.matched hc hvw)
  | endReached h hpeek =>
    intro goal' depth' d j hgoal hd hc ho
    cases hgoal
    obtain ⟨r, h', hr⟩ := hg.rule h
    rw [hr.endOfInput rfl] at h'
    exact .still (.endReached h' ((hK.peek_eq hc).symm.trans hpeek)) (.matched hc hg.null)
  | endMissed h hpeek =>
    intro goal' depth' d j hgoal hd hc ho
    cases hgoal
    subst hd
    obtain ⟨r, h', hr⟩ := hg.rule h
    rw [hr.endOfInput rfl] at h'
    exact ⟨_, j, _, .endMissed h' ((hK.peek_eq hc).symm.trans hpeek), fun _ _ => id, .mismatch,
      .failed hc .nil⟩
  | element h ha hpeek hi =>
    intro goal' depth' d j hgoal hd hc ho
    cases hgoal
    obtain ⟨r, h', hr⟩ := hg.rule h
    have hsome : (Cursor.peek _).isSome := Option.isSome_iff_exists.2 ⟨_, hpeek⟩
    exact ⟨_, _, _, .element h' (hr.accepts ha) ((hK.peek_eq hc).symm.trans hpeek) hi,
      fun _ _ he => hK.stays hc he, .matched (hK.moves hc hsome) (hg.element _), .nil⟩
  | elementMissed h ha hpeek =>
    intro goal' depth' d j hgoal hd hc ho
    cases hgoal
    subst hd
    obtain ⟨r, h', hr⟩ := hg.rule h
    rw [hK.peek_eq hc] at hpeek
    exact ⟨_, j, _, .elementMissed h' (hr.accepts ha) hpeek, fun _ _ => id, .mismatch,
      .failed hc .nil⟩
  | @word id items value depth c i c' i' h hw =>
    intro goal' depth' d j hgoal hd hc ho
    cases hgoal
    obtain ⟨r, h', hr⟩ := hg.rule h
    obtain ⟨w, rfl, hvw⟩ := hr.word rfl
    obtain ⟨hrel, hstay⟩ := skipItems_bridge hK items hc
    rw [hw] at hrel hstay
    obtain ⟨d', hd', hcd⟩ : ∃ d', (skipItems items d j).1 = some d' ∧
        K i' (skipItems items d j).2 c' d' := by
      generalize (skipItems items d j).1 = r at hrel
      cases hrel with
      | some hcd => exact ⟨_, rfl, hcd⟩
    exact ⟨_, _, _, .word h' (Prod.ext hd' rfl), hstay, .matched hcd hvw, .nil⟩
  | @wordMissed id items value depth c i i' h hw =>
    intro goal' depth' d j hgoal hd hc ho
    cases hgoal
    subst hd
    obtain ⟨r, h', hr⟩ := hg.rule h
    obtain ⟨w, rfl, -⟩ := hr.word rfl
    obtain ⟨hrel, hstay⟩ := skipItems_bridge hK items hc
    rw [hw] at hrel hstay
    have hnone : (skipItems items d j).1 = none := by
      generalize (skipItems items d j).1 = r at hrel
      cases hrel
      rfl
    exact ⟨_, _, _, .wordMissed h' (Prod.ext hnone rfl), hstay, .mismatch,
      .failed (hstay _ _ hc) .nil⟩
  | lookahead h _ ih =>
    intro goal' depth' d j hgoal hd hc ho
    cases hgoal
    obtain ⟨r, h', hr⟩ := hg.rule h
    rw [hr.lookahead rfl] at h'
    obtain ⟨o', j', marks', e, hstay, ho', hm⟩ :=
      ih .rule hd hc fun hdeep => ho (Outcome.look_tooDeep.2 hdeep)
    exact ⟨_, j', marks', .lookahead h' e, hstay, ho'.look hg.null (hstay _ _ hc) _, hm⟩
  | tooDeep h hgoal' hlimit hle =>
    intro goal' depth' d j hgoal hd hc ho
    cases hgoal
    -- less deep there would be room left
    cases ho ⟨_, _, rfl⟩
    subst hd
    obtain ⟨r, h', hr⟩ := hg.rule h
    obtain ⟨goal'', hg'', -⟩ := hr.inside hgoal'
    rw [hl] at hlimit
    exact ⟨_, j, _, .tooDeep h' hg'' hlimit hle, fun _ _ => id,
      .aborted (.tooDeep (hK.position_eq hc)), .said (.replied .nil)⟩
  | nested h hgoal' hlimit _ ih =>
    intro goal' depth' d j hgoal hd hc ho
    cases hgoal
    subst hd
    obtain ⟨r, h', hr⟩ := hg.rule h
    obtain ⟨goal'', hg'', hcorr⟩ := hr.inside hgoal'
    have hroom : ∀ limit, config₁.maxDepth = some limit → depth' < limit := fun limit heq =>
      Nat.lt_of_le_of_lt (Nat.le_add_right ..) (hlimit limit (hl.trans heq))
    obtain ⟨o', j', marks', e, hstay, ho', hm⟩ :=
      ih hcorr (Nat.add_right_comm depth' shift 1) hc ho
    refine ⟨o', j', _, .nested h' hg'' hroom e, hstay, ho', ?_⟩
    rw [Nat.add_right_comm]
    exact .entered hm
  | sequenceDone =>
    intro goal' depth' d j hgoal hd hc ho
    cases hgoal with
    | sequence hvs => exact .still .sequenceDone (.matched hc (hg.collect (List.rel_reverse hvs)))
  | sequenceNext _ _ ih₁ ih₂ =>
    intro goal' depth' d j hgoal hd hc ho
    cases hgoal with
    | sequence hvs =>
      obtain ⟨d₁, w, j₁, marks₁', e, hstay, hc₁, hvw, hm⟩ := (ih₁ .rule hd hc nofun).of_matched
      exact .seq hstay hm (ih₂ (.sequence (.cons hvw hvs)) hd hc₁ ho) (.sequenceNext e)
  | sequenceStop _ hs ih =>
    intro goal' depth' d j hgoal hd hc ho
    cases hgoal with
    | sequence hvs =>
      exact (ih .rule hd hc ho).pass fun hrel e => .sequenceStop e (hrel.not_matched hs)
  | choiceNone =>
    intro goal' depth' d j hgoal hd hc ho
    cases hgoal
    exact .still .choiceNone .mismatch
  | choiceNext _ _ ih₁ ih₂ =>
    intro goal' depth' d j hgoal hd hc ho
    cases hgoal
    obtain ⟨j₁, marks₁', e, hstay, hm⟩ := (ih₁ .rule hd hc nofun).of_mismatch
    exact .seq hstay hm (ih₂ .choice hd (hstay _ _ hc) ho) (.choiceNext e)
  | choiceStop _ hs ih =>
    intro goal' depth' d j hgoal hd hc ho
    cases hgoal
    exact (ih .rule hd hc ho).pass fun hrel e => .choiceStop e (hrel.not_mismatch hs)
  | @roundsFull id item min max vs n depth c i hx hn =>
    intro goal' depth' d j hgoal hd hc ho
    cases hgoal with
    | @rounds _ _ _ _ _ ws hvs =>
      have hlen := hvs.length_eq
      refine .still (.roundsFull hx (hlen ▸ hn)) ?_
      by_cases henough : min ≤ vs.length
      · rw [if_pos henough, if_pos (hlen ▸ henough)]
        exact .matched hc (hg.collect (List.rel_reverse hvs))
      · rw [if_neg henough, if_neg (hlen ▸ henough)]
        exact .mismatch
  | roundsNext hx _ more _ ih₁ ih₂ =>
    intro goal' depth' d j hgoal hd hc ho
    cases hgoal with
    | rounds hvs =>
      have hlen := hvs.length_eq
      rw [hlen] at hx more
      obtain ⟨d₁, w, j₁, marks₁', e, hstay, hc₁, hvw, hm⟩ := (ih₁ .rule hd hc nofun).of_matched
      refine .seq hstay hm (ih₂ (.rounds (.cons hvw hvs)) hd hc₁ ho) (.roundsNext hx e ?_)
      -- whether a round moved on is seen from the distance of its two ends
      intro hnone hmin
      have hmore := more hnone hmin
      have hbefore := hK.position_eq hc
      have hafter := hK.position_eq hc₁
      omega
  | roundsLast _ hn still ih =>
    intro goal' depth' d j hgoal hd hc ho
    cases hgoal with
    | rounds hvs =>
      rw [hvs.length_eq] at hn
      obtain ⟨d₁, w, j₁, marks₁', e, hstay, hc₁, hvw, hm⟩ := (ih .rule hd hc nofun).of_matched
      have hbefore := hK.position_eq hc
      have hafter := hK.position_eq hc₁
      refine ⟨_, j₁, marks₁', .roundsLast e hn (by omega), hstay, .matched hc₁ ?_, hm⟩
      exact hg.collect (List.rel_reverse (.cons hvw hvs))
  | roundsEnough hx _ hn ih =>
    intro goal' depth' d j hgoal hd hc ho
    cases hgoal with
    | rounds hvs =>
      rw [hvs.length_eq] at hx hn
      obtain ⟨j₁, marks₁', e, hstay, hm⟩ := (ih .rule hd hc nofun).of_mismatch
      exact ⟨_, j₁, marks₁', .roundsEnough hx e hn, hstay,
        .matched (hstay _ _ hc) (hg.collect (List.rel_reverse hvs)), hm⟩
  | roundsShort hx _ hn ih =>
    intro goal' depth' d j hgoal hd hc ho
    cases hgoal with
    | rounds hvs =>
      rw [hvs.length_eq] at hx hn
      obtain ⟨j₁, marks₁', e, hstay, hm⟩ := (ih .rule hd hc nofun).of_mismatch
      refine ⟨_, j₁, _, .roundsShort hx e hn, hstay, .mismatch, hm.append ?_⟩
      subst hd
      exact .failed (hstay _ _ hc) .nil
  | roundsAborted hx _ ih =>
    intro goal' depth' d j hgoal hd hc ho
    cases hgoal with
    | rounds hvs =>
      rw [hvs.length_eq] at hx
      refine (ih .rule hd hc ho).pass fun hrel e => ?_
      cases hrel with
      | aborted => exact .roundsAborted hx e
  | handledMatched _ ih =>
    intro goal' depth' d j hgoal hd hc ho
    cases hgoal with
    | handled hactions =>
      obtain ⟨d₁, w, j₁, marks₁', e, hstay, hc₁, hvw, hm⟩ := (ih .rule hd hc nofun).of_matched
      exact ⟨_, j₁, _, .handledMatched e, hstay, .matched hc₁ (hactions _ _ hvw),
        hm.append (.warnings _ _)⟩
  | handledStop _ hs ih =>
    intro goal' depth' d j hgoal hd hc ho
    cases hgoal
    exact (ih .rule hd hc ho).pass fun hrel e => .handledStop e (hrel.not_matched hs)

/-! ## Copies of an evaluation under the same grammar -/

namespace Evaluates

variable {g : Grammar ε π} {config : Config} {goal : Goal π} {id : RuleId} {depth : Nat}

/-- A rule that does not match at a place does not match there later on, at any smaller
depth, whoever reads the input. -/
theorem misses_across (hK : Cursor.Bridge K ahead behind) {c : γ₀} {d : γ₁} {i i' : σ₀} {j : σ₁}
    {marks : List (Mark γ₀ π)} (hc : K i j c d) {less : Nat} (hle : less ≤ depth)
    (e : Evaluates g config (.rule id) depth c i .mismatch i' marks) :
    ∃ j' marks', Evaluates g config (.rule id) less d j .mismatch j' marks' := by
  have hcorr := g.corresponds_eq config.kind
  have hdepth : depth = less + (depth - less) := by omega
  obtain ⟨j', marks', e', -⟩ := (e.copied hK hcorr rfl .rule hdepth hc nofun).of_mismatch
  exact ⟨j', marks', e'⟩

/-- An evaluation at a steady cursor gets to cursors that advancing gets to. -/
theorem reached {γ σ : Type} [Cursor γ ε σ] {c : γ} {i i' : σ} {o : Outcome γ (Value π)}
    {marks : List (Mark γ π)} (hc : Cursor.Steady c i)
    (e : Evaluates g config goal depth c i o i' marks) :
    Cursor.ReachedFrom c i i' c ∧
      (∀ c' v, o = .matched c' v → Cursor.ReachedFrom c i i' c') ∧
      ∀ f, .failed f ∈ marks → Cursor.ReachedFrom c i i' f.cursor := by
  have hcorr := g.corresponds_eq config.kind
  have hgoal := goal.corresponds_eq config.kind
  have hstart : Cursor.ReachedFrom c i i c := ⟨0, 0, Nat.le_refl 0, rfl, rfl⟩
  obtain ⟨o', j', marks', -, hstay, ho, hm⟩ :=
    e.copied hc.bridge hcorr rfl hgoal (Nat.add_zero depth).symm ⟨rfl, rfl, hstart⟩ fun _ => rfl
  refine ⟨(hstay c c ⟨rfl, rfl, hstart⟩).2.2, ?_, fun f hf => ?_⟩
  · rintro c' v rfl
    cases ho with
    | matched hc' => exact hc'.2.2
  · obtain ⟨f', -, hf', -⟩ := hm.failed_mem hf
    exact hf'.2.2

/-- Cursors stay over their inputs while anything is evaluated. -/
theorem stays {γ σ : Type} [Cursor γ ε σ] {Over : σ → γ → (Nat → Option ε) → Prop}
    (hs : Cursor.Shared Over) {x y : Nat → Option ε} {c d : γ} {i i' : σ}
    {o : Outcome γ (Value π)} {marks : List (Mark γ π)}
    (e : Evaluates g config goal depth c i o i' marks) (hc : Over i c x) (hd : Over i d y) :
    Over i' d y := by
  obtain ⟨_, m, -, -, rfl⟩ := (e.reached (hs.steady hc)).1
  exact (hs.advance_stays hc hd m).2

theorem over_matched {γ σ : Type} [Cursor γ ε σ] {Over : σ → γ → (Nat → Option ε) → Prop}
    (hs : Cursor.Shared Over) {x : Nat → Option ε} {c c' : γ} {v : Value π} {i i' : σ}
    {marks : List (Mark γ π)} (e : Evaluates g config goal depth c i (.matched c' v) i' marks)
    (hc : Over i c x) : Over i' c' x := by
  obtain ⟨n, m, hnm, rfl, rfl⟩ := (e.reached (hs.steady hc)).2.1 c' v rfl
  exact hs.over_advance hc hnm

/-- A match ends where it starts or further along. -/
theorem position_le {γ σ : Type} [Cursor γ ε σ] {Over : σ → γ → (Nat → Option ε) → Prop}
    (hs : Cursor.Shared Over) {x : Nat → Option ε} {c c' : γ} {v : Value π} {i i' : σ}
    {marks : List (Mark γ π)} (e : Evaluates g config goal depth c i (.matched c' v) i' marks)
    (hc : Over i c x) : Cursor.position c ≤ Cursor.position c' := by
  obtain ⟨n, m, -, rfl, -⟩ := (e.reached (hs.steady hc)).2.1 c' v rfl
  obtain ⟨k, -, heq, hp⟩ := hs.exists_advance hc n
  rw [heq, hp]
  exact Nat.le_add_right ..

end Evaluates

end PegMatcher
