import Mathlib.Data.List.Forall2
import PegMatcher.Proofs.DepthLimit
import PegMatcher.Proofs.Reading.Shared
/-
What relates two runs that go the same way.

The two may read different inputs, through different cursors, as long as a bridge `K` keeps
their cursors at the same elements.  Their grammars may differ in what becomes of a match,
as long as a relation `R` between values is kept, and nothing else.  Positions may be apart
by a distance, which is given by the two numbers `ahead` and `behind` so that either run
may be the one ahead.
-/
namespace PegMatcher

variable {γ₀ σ₀ γ₁ σ₁ ε π : Type} [Cursor γ₀ ε σ₀] [Cursor γ₁ ε σ₁]

/-! ## Cursors -/

/-- Cursors `c` and `d` with `K i j c d` are at the same element, and advancing them
together keeps that for them and for all others. -/
structure Cursor.Bridge (K : σ₀ → σ₁ → γ₀ → γ₁ → Prop) (ahead behind : Nat) : Prop where
  peek_eq {i j c d} (h : K i j c d) : peek c = peek d
  position_eq {i j c d} (h : K i j c d) : position c + behind = position d + ahead
  moves {i j c d} (h : K i j c d) (hc : (peek c).isSome) :
    K (next c i).2 (next d j).2 (next c i).1 (next d j).1
  stays {i j c d e f} (h : K i j c d) (he : K i j e f) : K (next c i).2 (next d j).2 e f

/-- A bridge leads back as well. -/
theorem Cursor.Bridge.symm {K : σ₀ → σ₁ → γ₀ → γ₁ → Prop} {ahead behind : Nat}
    (hK : Bridge K ahead behind) : Bridge (fun j i d c => K i j c d) behind ahead where
  peek_eq h := (hK.peek_eq h).symm
  position_eq h := (hK.position_eq h).symm
  moves h hd := hK.moves h (by rwa [hK.peek_eq h])
  stays h he := hK.stays h he

/-- The cursors that are at the same place of an input that both read. -/
def Cursor.SamePlace (Over₀ : σ₀ → γ₀ → (Nat → Option ε) → Prop)
    (Over₁ : σ₁ → γ₁ → (Nat → Option ε) → Prop) (i : σ₀) (j : σ₁) (c : γ₀) (d : γ₁) : Prop :=
  ∃ x, Over₀ i c x ∧ Over₁ j d x ∧ position c = position d

theorem Cursor.bridge_refl {γ σ : Type} [Cursor γ ε σ] :
    Bridge (fun (i j : σ) (c d : γ) => i = j ∧ c = d) 0 0 where
  peek_eq h := congrArg peek h.2
  position_eq h := congrArg position h.2
  moves := by
    rintro i _ c _ ⟨rfl, rfl⟩ _
    exact ⟨rfl, rfl⟩
  stays := by
    rintro i _ c _ e _ ⟨rfl, rfl⟩ ⟨-, rfl⟩
    exact ⟨rfl, rfl⟩

/-- A cursor reached from another one by advancing, after the input was read that far. -/
def Cursor.ReachedFrom {γ σ : Type} [Cursor γ ε σ] (c₀ : γ) (i₀ : σ) (i : σ) (c : γ) : Prop :=
  ∃ n m, n ≤ m ∧ c = (advance n c₀ i₀).1 ∧ i = (advance m c₀ i₀).2

/-- The cursors reached from one that is steady. -/
theorem Cursor.Steady.bridge {γ σ : Type} [Cursor γ ε σ] {c₀ : γ} {i₀ : σ} (h : Steady c₀ i₀) :
    Bridge (fun (i j : σ) (c d : γ) => i = j ∧ c = d ∧ ReachedFrom c₀ i₀ i c) 0 0 where
  peek_eq h := congrArg peek h.2.1
  position_eq h := congrArg position h.2.1
  moves := by
    rintro i _ c _ ⟨rfl, rfl, n, m, hnm, rfl, rfl⟩ _
    rw [h n m hnm]
    exact ⟨rfl, rfl, n + 1, max m (n + 1), Nat.le_max_right .., rfl, rfl⟩
  stays := by
    rintro i _ c _ e _ ⟨rfl, rfl, n, m, hnm, rfl, hm⟩ ⟨-, rfl, k, l, hkl, rfl, hl⟩
    -- both places are within the larger of the two distances read
    have hi : i = (advance (max m l) c₀ i₀).2 := by
      rcases Nat.le_total m l with hle | hle
      · rwa [Nat.max_eq_right hle]
      · rwa [Nat.max_eq_left hle]
    rw [hi, h n (max m l) (by omega)]
    exact ⟨rfl, rfl, k, max (max m l) (n + 1), by omega, rfl, rfl⟩

namespace Cursor.Shared

variable {Over₀ : σ₀ → γ₀ → (Nat → Option ε) → Prop} {Over₁ : σ₁ → γ₁ → (Nat → Option ε) → Prop}
  (h₀ : Shared Over₀) (h₁ : Shared Over₁) {i : σ₀} {j : σ₁} {c : γ₀} {d : γ₁}
include h₀ h₁

/-- Advancing cursors at the same element keeps the distance of their positions, also at the
end of their inputs. -/
theorem position_next_apart {x y : Nat → Option ε} (ahead behind : Nat) (hc : Over₀ i c x)
    (hd : Over₁ j d y) (hpeek : peek c = peek d) (hp : position c + behind = position d + ahead) :
    position (next c i).1 + behind = position (next d j).1 + ahead := by
  cases hcurrent : peek c with
  | none =>
    rw [h₀.next_end hc hcurrent, h₁.next_end hd (hpeek.symm.trans hcurrent)]
    exact hp
  | some item =>
    have hsome : (peek c).isSome := Option.isSome_iff_exists.2 ⟨item, hcurrent⟩
    rw [h₀.position_next hc hsome, h₁.position_next hd (hpeek ▸ hsome)]
    omega

theorem samePlace_peek_eq (h : SamePlace Over₀ Over₁ i j c d) : peek c = peek d := by
  obtain ⟨x, hc, hd, hp⟩ := h
  rw [h₀.peek_eq hc, h₁.peek_eq hd, hp]

theorem samePlace_next (h : SamePlace Over₀ Over₁ i j c d) :
    SamePlace Over₀ Over₁ (next c i).2 (next d j).2 (next c i).1 (next d j).1 := by
  have hpeek := h₀.samePlace_peek_eq h₁ h
  obtain ⟨x, hc, hd, hp⟩ := h
  exact ⟨x, h₀.over_next hc, h₁.over_next hd,
    h₀.position_next_apart h₁ 0 0 hc hd hpeek hp⟩

theorem bridge : Bridge (SamePlace Over₀ Over₁) 0 0 where
  peek_eq h := h₀.samePlace_peek_eq h₁ h
  position_eq := by
    rintro i j c d ⟨x, hc, hd, hp⟩
    exact hp
  moves h _ := h₀.samePlace_next h₁ h
  stays := by
    rintro i j c d e f ⟨x, hc, hd, -⟩ ⟨y, he, hf, hp⟩
    exact ⟨y, h₀.stays he hc, h₁.stays hf hd, hp⟩

end Cursor.Shared

/-- The cursors that are at the same element of inputs that end, where the first input has
`k` elements more at its start. -/
def Cursor.Apart (k : Nat) (Over₀ : σ₀ → γ₀ → (Nat → Option ε) → Prop)
    (Over₁ : σ₁ → γ₁ → (Nat → Option ε) → Prop) (i : σ₀) (j : σ₁) (c : γ₀) (d : γ₁) : Prop :=
  ∃ x y xs, Over₀ i c x ∧ Over₁ j d y ∧ Ends x xs ∧ Ends y (xs.drop k) ∧
    position c = position d + k

namespace Cursor.Apart

variable {Over₀ : σ₀ → γ₀ → (Nat → Option ε) → Prop} {Over₁ : σ₁ → γ₁ → (Nat → Option ε) → Prop}
  (h₀ : Shared Over₀) (h₁ : Shared Over₁) {k : Nat} {i : σ₀} {j : σ₁} {c : γ₀} {d : γ₁}
include h₀ h₁

theorem peek_eq (h : Apart k Over₀ Over₁ i j c d) : peek c = peek d := by
  obtain ⟨x, y, xs, hc, hd, hx, hy, hp⟩ := h
  rw [h₀.peek_of_ends hx hc, h₁.peek_of_ends hy hd, hp, List.getElem?_drop, Nat.add_comm]

/-- Advancing keeps cursors apart by the same distance, also at the end of their inputs. -/
theorem next (h : Apart k Over₀ Over₁ i j c d) :
    Apart k Over₀ Over₁ (next c i).2 (next d j).2 (next c i).1 (next d j).1 := by
  have hpeek := h.peek_eq h₀ h₁
  obtain ⟨x, y, xs, hc, hd, hx, hy, hp⟩ := h
  exact ⟨x, y, xs, h₀.over_next hc, h₁.over_next hd, hx, hy,
    h₀.position_next_apart h₁ k 0 hc hd hpeek hp⟩

theorem bridge : Bridge (Apart k Over₀ Over₁) k 0 where
  peek_eq h := h.peek_eq h₀ h₁
  position_eq := by
    rintro i j c d ⟨x, y, xs, -, -, -, -, hp⟩
    exact hp
  moves h _ := h.next h₀ h₁
  stays := by
    rintro i j c d e f ⟨x, y, xs, hc, hd, -⟩ ⟨x', y', xs', he, hf, hrest⟩
    exact ⟨x', y', xs', h₀.stays he hc, h₁.stays hf hd, hrest⟩

end Cursor.Apart

/-- Skipping a run of elements succeeds on both sides or on neither. -/
theorem skipItems_bridge [Element ε] {K : σ₀ → σ₁ → γ₀ → γ₁ → Prop} {ahead behind : Nat}
    (hK : Cursor.Bridge K ahead behind) (items : List ε) {i : σ₀} {j : σ₁} {c : γ₀} {d : γ₁}
    (h : K i j c d) :
    Option.Rel (K (skipItems items c i).2 (skipItems items d j).2) (skipItems items c i).1
        (skipItems items d j).1 ∧
      ∀ e f, K i j e f → K (skipItems items c i).2 (skipItems items d j).2 e f := by
  induction items generalizing i j c d with
  | nil => exact ⟨.some h, fun _ _ => id⟩
  | cons expected items ih =>
    unfold skipItems
    rw [← hK.peek_eq h]
    cases hc : Cursor.peek c with
    | none => exact ⟨.none, fun _ _ => id⟩
    | some item =>
      by_cases same : Element.same item expected = true
      · have hsome : (Cursor.peek c).isSome := Option.isSome_iff_exists.2 ⟨item, hc⟩
        obtain ⟨hrel, hstay⟩ := ih (hK.moves h hsome)
        simp only [if_pos same]
        exact ⟨hrel, fun e f he => hstay e f (hK.stays h he)⟩
      · simp only [if_neg same]
        exact ⟨.none, fun _ _ => id⟩

/-! ## Outcomes and marks -/

/-- The same cause, at positions that are the given distance apart. -/
inductive Abort.Moved (ahead behind : Nat) : Abort → Abort → Prop
  | tooDeep {limit p q} (h : p + behind = q + ahead) :
      Moved ahead behind (.tooDeep limit p) (.tooDeep limit q)
  | unknownRule {id} : Moved ahead behind (.unknownRule id) (.unknownRule id)

theorem Abort.moved_zero {cause cause' : Abort} : cause.Moved 0 0 cause' ↔ cause = cause' := by
  constructor
  · intro h
    cases h with
    | tooDeep h => exact congrArg _ h
    | unknownRule => rfl
  · rintro rfl
    cases cause with
    | tooDeep => exact .tooDeep rfl
    | unknownRule => exact .unknownRule

/-- Outcomes of the same kind, matched at related cursors with related values. -/
inductive Outcome.Related (S : γ₀ → γ₁ → Prop) (R : Value π → Value π → Prop)
    (ahead behind : Nat) : Outcome γ₀ (Value π) → Outcome γ₁ (Value π) → Prop
  | matched {c d v w} (hc : S c d) (hv : R v w) :
      Related S R ahead behind (.matched c v) (.matched d w)
  | mismatch : Related S R ahead behind .mismatch .mismatch
  | aborted {cause cause'} (h : cause.Moved ahead behind cause') :
      Related S R ahead behind (.aborted cause) (.aborted cause')

namespace Outcome

variable {S : γ₀ → γ₁ → Prop} {R : Value π → Value π → Prop} {ahead behind : Nat}
  {o : Outcome γ₀ (Value π)} {o' : Outcome γ₁ (Value π)}

theorem Related.look (h : o.Related S R ahead behind o') (hnull : R .null .null) {c : γ₀}
    {d : γ₁} (hc : S c d) (negated : Bool) :
    (o.look negated c).Related S R ahead behind (o'.look negated d) := by
  cases h with
  | matched =>
    cases negated
    · exact .matched hc hnull
    · exact .mismatch
  | mismatch =>
    cases negated
    · exact .mismatch
    · exact .matched hc hnull
  | aborted hcause => exact .aborted hcause

theorem Related.not_matched (h : o.Related S R ahead behind o')
    (ho : ∀ c v, o ≠ .matched c v) : ∀ d w, o' ≠ .matched d w := by
  cases h with
  | matched => exact absurd rfl (ho _ _)
  | mismatch | aborted => nofun

theorem Related.not_mismatch (h : o.Related S R ahead behind o') (ho : o ≠ .mismatch) :
    o' ≠ .mismatch := by
  cases h with
  | mismatch => exact absurd rfl ho
  | matched | aborted => nofun

end Outcome

/-- Marks of the same depths, `shift` apart, and of failures of the same rules at related
cursors.  What is said may differ. -/
inductive Mark.Related (S : γ₀ → γ₁ → Prop) (shift : Nat) :
    List (Mark γ₀ π) → List (Mark γ₁ π) → Prop
  | nil : Related S shift [] []
  | entered {depth marks marks'} (rest : Related S shift marks marks') :
      Related S shift (.entered (depth + shift) :: marks) (.entered depth :: marks')
  | failed {c d id depth marks marks'} (hc : S c d) (rest : Related S shift marks marks') :
      Related S shift (.failed ⟨c, id, depth + shift⟩ :: marks)
        (.failed ⟨d, id, depth⟩ :: marks')
  | said {message marks marks'} (rest : Related S shift marks marks') :
      Related S shift (.said message :: marks) marks'
  | replied {message marks marks'} (rest : Related S shift marks marks') :
      Related S shift marks (.said message :: marks')

namespace Mark

variable {S T : γ₀ → γ₁ → Prop} {shift : Nat} {marks more : List (Mark γ₀ π)}
  {marks' more' : List (Mark γ₁ π)}

theorem Related.imp (h : Related S shift marks marks') (hS : ∀ c d, S c d → T c d) :
    Related T shift marks marks' := by
  induction h with
  | nil => exact .nil
  | entered _ ih => exact .entered ih
  | failed hc _ ih => exact .failed (hS _ _ hc) ih
  | said _ ih => exact .said ih
  | replied _ ih => exact .replied ih

theorem Related.append (h : Related S shift marks marks') (hmore : Related S shift more more') :
    Related S shift (marks ++ more) (marks' ++ more') := by
  induction h with
  | nil => exact hmore
  | entered _ ih => exact .entered ih
  | failed hc _ ih => exact .failed hc ih
  | said _ ih => exact .said ih
  | replied _ ih => exact .replied ih

theorem Related.warnings (warnings warnings' : List (Warning π)) :
    Related S shift (warnings.map (.said ∘ .reshaping)) (warnings'.map (.said ∘ .reshaping)) := by
  induction warnings with
  | nil =>
    induction warnings' with
    | nil => exact .nil
    | cons _ _ ih => exact .replied ih
  | cons _ _ ih => exact .said ih

theorem Related.failed_mem (h : Related S shift marks marks') {f : Failure γ₀}
    (hf : .failed f ∈ marks) : ∃ f', .failed f' ∈ marks' ∧ S f.cursor f'.cursor ∧
      f.rule = f'.rule ∧ f.depth = f'.depth + shift := by
  induction h with
  | nil => cases hf
  | entered _ ih =>
    obtain ⟨f', hf', hrest⟩ := ih (by simpa using hf)
    exact ⟨f', List.mem_cons_of_mem _ hf', hrest⟩
  | said _ ih => exact ih (by simpa using hf)
  | replied _ ih =>
    obtain ⟨f', hf', hrest⟩ := ih hf
    exact ⟨f', List.mem_cons_of_mem _ hf', hrest⟩
  | failed hc _ ih =>
    rcases List.mem_cons.1 hf with hf | hf
    · cases hf
      exact ⟨_, List.mem_cons_self, hc, rfl, rfl⟩
    · obtain ⟨f', hf', hrest⟩ := ih hf
      exact ⟨f', List.mem_cons_of_mem _ hf', hrest⟩

end Mark

/-! ## Grammars -/

/-- Goals about the same rules, after results and with actions that keep `R`. -/
inductive Goal.Corresponds [Payload π] (R : Value π → Value π → Prop) (κ₀ κ₁ : Kind) :
    Goal π → Goal π → Prop
  | rule {id} : Corresponds R κ₀ κ₁ (.rule id) (.rule id)
  | sequence {vs ws items} (h : List.Forall₂ R vs ws) :
      Corresponds R κ₀ κ₁ (.sequence vs items) (.sequence ws items)
  | choice {items} : Corresponds R κ₀ κ₁ (.choice items) (.choice items)
  | rounds {id item min max vs ws} (h : List.Forall₂ R vs ws) :
      Corresponds R κ₀ κ₁ (.rounds id item min max vs) (.rounds id item min max ws)
  | handled {item action action'}
      (h : ∀ v w, R v w → R (action.apply κ₀ v).1 (action'.apply κ₁ w).1) :
      Corresponds R κ₀ κ₁ (.handled item action) (.handled item action')

/-- Rules of the same form that go on with the same rules. -/
structure Rule.Corresponds [Element ε] [ElementValue ε π] [Payload π]
    (R : Value π → Value π → Prop) (κ₀ κ₁ : Kind) (r₀ r₁ : Rule ε π) : Prop where
  constant {v} (h : r₀.constant? κ₀ = some v) : ∃ w, r₁.constant? κ₁ = some w ∧ R v w
  endOfInput (h : r₀ = .endOfInput) : r₁ = .endOfInput
  accepts {accepts} (h : r₀.accepts? = some accepts) : r₁.accepts? = some accepts
  word {items v} (h : r₀ = .word items v) :
    ∃ w, r₁ = .word items w ∧ R (κ₀.wordValue items v) (κ₁.wordValue items w)
  lookahead {item negated} (h : r₀ = .lookahead item negated) : r₁ = .lookahead item negated
  inside {id goal} (h : r₀.inside? id = some goal) :
    ∃ goal', r₁.inside? id = some goal' ∧ goal.Corresponds R κ₀ κ₁ goal'

/-- Grammars with corresponding rules, where `R` relates what both make of a match. -/
structure Grammar.Corresponds [Element ε] [ElementValue ε π] [Payload π]
    (R : Value π → Value π → Prop) (κ₀ κ₁ : Kind) (g₀ g₁ : Grammar ε π) : Prop where
  unknown {id} (h : g₀.rule? id = none) : g₁.rule? id = none
  rule {id r₀} (h : g₀.rule? id = some r₀) :
    ∃ r₁, g₁.rule? id = some r₁ ∧ r₀.Corresponds R κ₀ κ₁ r₁
  null : R .null .null
  element (item : ε) : R (ElementValue.value item) (ElementValue.value item)
  collect {vs ws} (h : List.Forall₂ R vs ws) : R (κ₀.collect vs) (κ₁.collect ws)

/-- A rule under two kinds corresponds to itself, when `R` relates what becomes of its
constants, its elements and its actions. -/
theorem Rule.corresponds_self [Element ε] [ElementValue ε π] [Payload π]
    {R : Value π → Value π → Prop} {κ₀ κ₁ : Kind} {r : Rule ε π}
    (element : ∀ item : ε, R (ElementValue.value item) (ElementValue.value item))
    (collect : ∀ {vs ws}, List.Forall₂ R vs ws → R (κ₀.collect vs) (κ₁.collect ws))
    (empty : ∀ {v}, r = .empty v → R v v)
    (word : ∀ {items v}, r = .word items (some v) → R v v)
    (handler : ∀ {item action}, r = .handler item action →
      ∀ v w, R v w → R (action.apply κ₀ v).1 (action.apply κ₁ w).1) :
    r.Corresponds R κ₀ κ₁ r := by
  refine ⟨fun {v} hv => ?_, id, id, fun {items v} hw => ?_, id, fun {_ goal} hg => ?_⟩
  · cases r with
    | empty value =>
      cases hv
      exact ⟨_, rfl, empty rfl⟩
    | emptyVector =>
      cases hv
      have hempty : R (κ₀.collect []) (κ₁.collect []) := collect .nil
      refine ⟨_, rfl, ?_⟩
      cases κ₀ <;> cases κ₁ <;> exact hempty
    | _ => cases hv
  · subst hw
    refine ⟨v, rfl, ?_⟩
    cases v with
    | some v => exact word rfl
    | none =>
      refine collect (List.forall₂_map_left_iff.2 (List.forall₂_map_right_iff.2 ?_))
      exact List.forall₂_same.2 fun item _ => element item
  · refine ⟨goal, hg, ?_⟩
    cases r with
    | sequence =>
      cases hg
      exact .sequence .nil
    | firstOf =>
      cases hg
      exact .choice
    | repetition =>
      cases hg
      exact .rounds .nil
    | placeholder =>
      cases hg
      exact .rule
    | handler =>
      cases hg
      exact .handled (handler rfl)
    | _ => cases hg

/-- A grammar under two kinds corresponds to itself, when `R` relates what becomes of its
constants, its elements and its actions. -/
theorem Grammar.corresponds_self [Element ε] [ElementValue ε π] [Payload π]
    {R : Value π → Value π → Prop} {κ₀ κ₁ : Kind} {g : Grammar ε π} (null : R .null .null)
    (element : ∀ item : ε, R (ElementValue.value item) (ElementValue.value item))
    (collect : ∀ {vs ws}, List.Forall₂ R vs ws → R (κ₀.collect vs) (κ₁.collect ws))
    (empty : ∀ {id v}, g.rule? id = some (.empty v) → R v v)
    (word : ∀ {id items v}, g.rule? id = some (.word items (some v)) → R v v)
    (handler : ∀ {id item action}, g.rule? id = some (.handler item action) →
      ∀ v w, R v w → R (action.apply κ₀ v).1 (action.apply κ₁ w).1) :
    g.Corresponds R κ₀ κ₁ g where
  unknown := id
  null := null
  element := element
  collect := collect
  rule {_ r} h := by
    refine ⟨r, h, Rule.corresponds_self element collect ?_ ?_ ?_⟩
    · exact fun heq => empty (heq ▸ h)
    · exact fun heq => word (heq ▸ h)
    · exact fun heq => handler (heq ▸ h)

theorem Goal.corresponds_eq [Payload π] (goal : Goal π) (κ : Kind) :
    goal.Corresponds Eq κ κ goal := by
  have hself (vs : List (Value π)) : List.Forall₂ Eq vs vs := List.forall₂_refl vs
  cases goal with
  | rule => exact .rule
  | sequence results => exact .sequence (hself results)
  | choice => exact .choice
  | rounds _ _ _ _ results => exact .rounds (hself results)
  | handled => exact .handled fun v _ heq => heq ▸ rfl

theorem Grammar.corresponds_eq [Element ε] [ElementValue ε π] [Payload π] (g : Grammar ε π)
    (κ : Kind) : g.Corresponds Eq κ κ g := by
  refine g.corresponds_self rfl (fun _ => rfl) (fun {vs ws} h => ?_) (fun _ => rfl)
    (fun _ => rfl) ?_
  · rw [List.forall₂_eq_eq_eq] at h
    rw [h]
  · rintro id item action _ v _ rfl
    rfl

end PegMatcher
