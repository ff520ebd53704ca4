import PegMatcher.Proofs.Simulation.Evaluation
import PegMatcher.Proofs.Reading.Slice
import PegMatcher.Proofs.Actions
/-
Lossless text.

When the constants of a grammar over characters have no text, its words have their own
text, and its actions only collapse and concatenate, the text of a match is what the match
consumed.  What a goal has collected so far comes first: the text of the outcome is the text
of the results before and then the characters passed.
-/
namespace PegMatcher

/-! ## The elements between two positions -/

/-- The elements `xs` lie between the positions `p` and `q` of an input. -/
structure Between {ε : Type} (x : Nat → Option ε) (p q : Nat) (xs : List ε) : Prop where
  position_eq : q = p + xs.length
  element_eq : ∀ n, n < xs.length → x (p + n) = xs[n]?

namespace Between

variable {ε : Type} {x : Nat → Option ε} {p q r : Nat} {xs ys : List ε}

theorem nil : Between x p p [] := ⟨rfl, nofun⟩

theorem one {item : ε} (h : x p = some item) : Between x p (p + 1) [item] := by
  refine ⟨rfl, fun n hn => ?_⟩
  have hn : n = 0 := Nat.lt_one_iff.1 hn
  subst hn
  exact h

theorem append (h : Between x p q xs) (h' : Between x q r ys) : Between x p r (xs ++ ys) := by
  obtain ⟨rfl, hx⟩ := h
  obtain ⟨rfl, hy⟩ := h'
  refine ⟨by rw [List.length_append]; omega, fun n hn => ?_⟩
  rw [List.length_append] at hn
  by_cases hlt : n < xs.length
  · rw [List.getElem?_append_left hlt]
    exact hx n hlt
  · rw [List.getElem?_append_right (Nat.le_of_not_lt hlt), ← hy _ (by omega)]
    congr 1
    omega

end Between

variable {γ σ π : Type} [Cursor γ Char σ] [Payload π]

/-- Skipping a run of characters passes just these. -/
theorem skipItems_between {Over : σ → γ → (Nat → Option Char) → Prop} (hs : Cursor.Shared Over)
    {x : Nat → Option Char} {items : List Char} {c c' : γ} {i i' : σ} (hc : Over i c x)
    (h : skipItems items c i = (some c', i')) :
    Between x (Cursor.position c) (Cursor.position c') items := by
  induction items generalizing c i with
  | nil =>
    cases h
    exact .nil
  | cons expected items ih =>
    unfold skipItems at h
    cases hpeek : Cursor.peek c with
    | none =>
      rw [hpeek] at h
      cases h
    | some item =>
      rw [hpeek] at h
      by_cases same : Element.same item expected = true
      · simp only [if_pos same] at h
        have heq : item = expected := of_decide_eq_true same
        have hsome : (Cursor.peek c).isSome := Option.isSome_iff_exists.2 ⟨item, hpeek⟩
        have hhere : x (Cursor.position c) = some expected := by
          rw [← hs.peek_eq hc, hpeek, heq]
        have hrest := ih (hs.over_next hc) h
        rw [hs.position_next hc hsome] at hrest
        exact (Between.one hhere).append hrest
      · simp only [if_neg same] at h
        cases h

/-! ## Rules that keep the text -/

/-- Constants without text, words with their own text, and no actions but those that keep
the text. -/
def Rule.Lossless : Rule Char π → Prop
  | .empty value => value.text = ""
  | .word items value => ∀ v, value = some v → v.text = String.ofList items
  | .handler _ action => action = .collapse ∨ action = .concat
  | _ => True

def Grammar.Lossless (g : Grammar Char π) : Prop :=
  ∀ id rule, g.rule? id = some rule → rule.Lossless

namespace Goal

/-- The text of the results that a goal starts with. -/
def textBefore : Goal π → String
  | .sequence results _ | .rounds _ _ _ _ results => String.join (results.reverse.map Value.text)
  | _ => ""

/-- One more result, and characters after it. -/
theorem text_snoc {results : List (Value π)} {value : Value π} {xs : List Char}
    (h : value.text = "" ++ String.ofList xs) (ys : List Char) :
    String.join ((value :: results).reverse.map Value.text) ++ String.ofList ys =
      String.join (results.reverse.map Value.text) ++ String.ofList (xs ++ ys) := by
  simp [h, String.append_assoc]

def Lossless : Goal π → Prop
  | .handled _ action => action = .collapse ∨ action = .concat
  | _ => True

theorem lossless_inside {id : RuleId} {rule : Rule Char π} {goal : Goal π} (h : rule.Lossless)
    (hgoal : rule.inside? id = some goal) : goal.Lossless ∧ goal.textBefore = "" := by
  cases rule with
  | sequence | firstOf | repetition | placeholder =>
    cases hgoal
    exact ⟨trivial, rfl⟩
  | handler =>
    cases hgoal
    exact ⟨h, rfl⟩
  | _ => cases hgoal

end Goal

theorem Kind.text_wordValue (kind : Kind) {items : List Char} {value : Option (Value π)}
    (h : ∀ v, value = some v → v.text = String.ofList items) :
    (kind.wordValue items value).text = String.ofList items := by
  cases value with
  | some v => exact h v rfl
  | none =>
    show (kind.collect (items.map Value.char)).text = _
    rw [text_collect, List.map_map]
    clear h
    induction items with
    | nil => rfl
    | cons c items ih =>
      rw [List.map_cons, String.join_cons, ih]
      exact (congrArg (· ++ _) (Value.text_char c)).trans String.ofList_append.symm

/-! ## The text of a match -/

theorem Evaluates.text_eq {g : Grammar Char π} {config : Config} (hg : g.Lossless)
    {Over : σ → γ → (Nat → Option Char) → Prop} (hs : Cursor.Shared Over)
    {x : Nat → Option Char} {goal : Goal π} {depth : Nat} {c : γ} {i i' : σ}
    {o : Outcome γ (Value π)} {marks : List (Mark γ π)}
    (e : Evaluates g config goal depth c i o i' marks) :
    Over i c x → goal.Lossless → ∀ c' v, o = .matched c' v →
      ∃ xs, Between x (Cursor.position c) (Cursor.position c') xs ∧
        v.text = goal.textBefore ++ String.ofList xs := by
  induction e with
  | @constant id rule value depth c i h hv =>
    rintro hc _ _ _ ⟨⟩
    refine ⟨[], .nil, ?_⟩
    cases rule with
    | empty =>
      cases hv
      exact hg id _ h
    | emptyVector =>
      cases hv
      cases config.kind <;> rfl
    | _ => cases hv
  | endReached =>
    rintro _ _ _ _ ⟨⟩
    exact ⟨[], .nil, rfl⟩
  | element h ha hpeek hi =>
    rintro hc _ _ _ ⟨⟩
    have hsome : (Cursor.peek _).isSome := Option.isSome_iff_exists.2 ⟨_, hpeek⟩
    rw [hs.position_next hc hsome]
    refine ⟨_, .one ((hs.peek_eq hc).symm.trans hpeek), ?_⟩
    exact (Value.text_char _).trans (String.empty_append).symm
  | @word id items value depth c i c' i' h hw =>
    rintro hc _ _ _ ⟨⟩
    refine ⟨items, skipItems_between hs hc hw, ?_⟩
    exact (config.kind.text_wordValue (hg id _ h)).trans String.empty_append.symm
  | lookahead =>
    -- a lookahead that matches is back where it began, without a text
    intro _ _ c' v ho
    obtain ⟨rfl, rfl⟩ := Outcome.of_look_matched ho
    exact ⟨[], .nil, rfl⟩
  | nested h hgoal _ _ ih =>
    intro hc _ c' v ho
    obtain ⟨hlossless, hbefore⟩ := Goal.lossless_inside (hg _ _ h) hgoal
    obtain ⟨xs, hxs, htext⟩ := ih hc hlossless c' v ho
    exact ⟨xs, hxs, htext.trans (congrArg (· ++ _) hbefore)⟩
  | sequenceDone =>
    rintro _ _ _ _ ⟨⟩
    exact ⟨[], .nil, (config.kind.text_collect _).trans String.append_empty.symm⟩
  | sequenceNext first _ ih₁ ih₂ =>
    intro hc _ c' v ho
    obtain ⟨xs, hxs, htext⟩ := ih₁ hc trivial _ _ rfl
    obtain ⟨ys, hys, hrest⟩ := ih₂ (first.over_matched hs hc) trivial c' v ho
    exact ⟨xs ++ ys, hxs.append hys, hrest.trans (Goal.text_snoc htext ys)⟩
  | choiceNext first _ _ ih =>
    intro hc _ c' v ho
    exact ih (first.stays hs hc hc) trivial c' v ho
  | choiceStop _ _ ih => exact fun hc _ c' v ho => ih hc trivial c' v ho
  | roundsFull hm hn =>
    intro _ _ c' v ho
    split at ho
    · cases ho
      exact ⟨[], .nil, (config.kind.text_collect _).trans String.append_empty.symm⟩
    · cases ho
  | roundsNext _ first _ _ ih₁ ih₂ =>
    intro hc _ c' v ho
    obtain ⟨xs, hxs, htext⟩ := ih₁ hc trivial _ _ rfl
    obtain ⟨ys, hys, hrest⟩ := ih₂ (first.over_matched hs hc) trivial c' v ho
    exact ⟨xs ++ ys, hxs.append hys, hrest.trans (Goal.text_snoc htext ys)⟩
  | roundsLast first hn still ih =>
    rintro hc _ _ _ ⟨⟩
    obtain ⟨xs, hxs, htext⟩ := ih hc trivial _ _ rfl
    refine ⟨xs ++ [], hxs.append .nil, (config.kind.text_collect _).trans ?_⟩
    exact String.append_empty.symm.trans (Goal.text_snoc htext [])
  | roundsEnough =>
    rintro _ _ _ _ ⟨⟩
    exact ⟨[], .nil, (config.kind.text_collect _).trans String.append_empty.symm⟩
  | handledMatched _ ih =>
    rintro hc hlossless _ _ ⟨⟩
    obtain ⟨xs, hxs, htext⟩ := ih hc trivial _ _ rfl
    exact ⟨xs, hxs, (Action.text_apply config.kind hlossless _).trans htext⟩
  | sequenceStop _ ho | handledStop _ ho => exact fun _ _ c' v hmatched => absurd hmatched (ho c' v)
  | _ => exact fun _ _ _ _ => nofun

/-- The text of a match is the sequence of characters from where it started to where it
ended, in either representation of vectors and whatever the limit. -/
theorem Parser.match_lossless {p : Parser γ Char π} (hg : p.grammar.Lossless)
    {Over : σ → γ → (Nat → Option Char) → Prop} (hs : Cursor.Shared Over)
    {x : Nat → Option Char} {id : RuleId} {c c' : γ} {v : Value π} {s s' : RunState γ σ π}
    (hc : Over s.input c x) (h : p.Returns id c s (.matched c' v) s') :
    ∃ xs, v.text = String.ofList xs ∧ c' = (Cursor.advance xs.length c s.input).1 ∧
      Cursor.position c' = Cursor.position c + xs.length ∧
      ∀ n < xs.length, x (Cursor.position c + n) = xs[n]? := by
  obtain ⟨i', marks, e, -⟩ := returns_iff.1 h
  obtain ⟨xs, hxs, htext⟩ := e.text_eq hg hs hc trivial c' v rfl
  obtain ⟨n, -, -, hcursor, -⟩ := (e.reached (hs.steady hc)).2.1 c' v rfl
  obtain ⟨k, -, heq, hp⟩ := hs.exists_advance hc n
  rw [heq] at hcursor
  have hk : k = xs.length := by
    have hlen := hxs.position_eq
    rw [hcursor, hp] at hlen
    omega
  refine ⟨xs, htext.trans String.empty_append, ?_, hxs.position_eq, hxs.element_eq⟩
  rw [← hk]
  exact hcursor

/-- A run of characters as one string, of a head and the rest of its repetition. -/
def spelling : Grammar Char Empty :=
  ⟨#[.any, Rule.zeroOrMore ⟨0⟩, .sequence [⟨0⟩, ⟨1⟩], .handler ⟨2⟩ .collapse,
    .handler ⟨3⟩ .concat], []⟩

theorem spelling_lossless : spelling.Lossless ∧ ∃ s' xs,
    (⟨spelling, ⟨4⟩, .start #['a', 'b'], ⟨.cons, some 9⟩⟩ :
      Parser (SliceCursor Char) Char Empty).Returns ⟨4⟩ (.start #['a', 'b']) (.fresh ())
        (.matched ⟨#['a', 'b'], 2⟩ (.str "ab")) s' ∧
    (.str "ab" : Value Empty).text = String.ofList xs ∧ xs.length = 2 := by
  have hg : spelling.Lossless := by
    intro id rule h
    have hmem := Grammar.mem_of_rule? h
    simp only [spelling, List.mem_cons, List.not_mem_nil, or_false] at hmem
    rcases hmem with rfl | rfl | rfl | rfl | rfl
    · trivial
    · trivial
    · trivial
    · exact .inl rfl
    · exact .inr rfl
  have hr : (⟨spelling, ⟨4⟩, .start #['a', 'b'], ⟨.cons, some 9⟩⟩ :
      Parser (SliceCursor Char) Char Empty).Returns ⟨4⟩ (.start #['a', 'b']) (.fresh ())
        (.matched ⟨#['a', 'b'], 2⟩ (.str "ab")) _ := ⟨10, rfl⟩
  obtain ⟨xs, htext, -, hlen, -⟩ :=
    Parser.match_lossless hg SliceCursor.shared (SliceCursor.over_start _) hr
  refine ⟨hg, _, xs, hr, htext, ?_⟩
  have hlen : 2 = 0 + xs.length := hlen
  omega

end PegMatcher
