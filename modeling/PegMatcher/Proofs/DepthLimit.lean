import Mathlib.Order.Bounds.Defs
import PegMatcher.Proofs.Aborts
import PegMatcher.Proofs.Adequacy
/-
The depth limit is a threshold.

An evaluation enters depths that its limit permits.  Under another limit it stays as it is
or is cut, `Evaluates.relimit`: it is cut at the first depth that the other limit does not
permit, so that the deepest nesting that a run reports decides which of the two it is.
-/
namespace PegMatcher

variable {γ ε σ π : Type}

/-- A limit permits the depths up to it; no limit permits every depth. -/
def Permits (limit : Option Nat) (depth : Nat) : Prop :=
  ∀ bound, limit = some bound → depth ≤ bound

/-- The order of limits, where no limit is the largest. -/
def LimitLe : Option Nat → Option Nat → Prop
  | _, none => True
  | some l, some l' => l ≤ l'
  | none, some _ => False

theorem Permits.mono {limit larger : Option Nat} {depth : Nat} (h : Permits limit depth)
    (hle : LimitLe limit larger) : Permits larger depth := by
  intro bound heq
  subst heq
  cases limit with
  | none => cases hle
  | some l => exact Nat.le_trans (h l rfl) hle

def Config.limited (config : Config) (limit : Option Nat) : Config :=
  { config with maxDepth := limit }

/-- The parser with another depth limit. -/
def Parser.limited (p : Parser γ ε π) (limit : Option Nat) : Parser γ ε π :=
  { p with config := p.config.limited limit }

/-- An attempt that ended at the depth limit. -/
def Outcome.TooDeep (o : Outcome γ (Value π)) : Prop :=
  ∃ limit position, o = .aborted (.tooDeep limit position)

theorem Outcome.look_tooDeep {negated : Bool} {c : γ} {o : Outcome γ (Value π)} :
    (o.look negated c).TooDeep ↔ o.TooDeep := by
  simp only [TooDeep, look_eq_aborted]

variable [Cursor γ ε σ] [Element ε] [ElementValue ε π] [Payload π] {g : Grammar ε π}
  {config : Config} {goal : Goal π} {d : Nat} {c : γ} {i i' : σ} {o : Outcome γ (Value π)}
  {marks : List (Mark γ π)}

namespace Evaluates

/-- The limit permits every depth that an evaluation enters. -/
theorem permits (e : Evaluates g config goal d c i o i' marks) :
    ∀ depth, .entered depth ∈ marks → Permits config.maxDepth depth := by
  induction e with
  | nested _ _ hl _ ih =>
    intro depth hmem
    rcases List.mem_cons.1 hmem with hentered | hmem
    · rw [Mark.entered.inj hentered]
      exact hl
    · exact ih depth hmem
  | lookahead _ _ ih => exact ih
  | sequenceNext _ _ ih₁ ih₂ | choiceNext _ _ ih₁ ih₂ =>
    exact fun depth hmem => (List.mem_append.1 hmem).elim (ih₁ depth) (ih₂ depth)
  | roundsNext _ _ _ _ ih₁ ih₂ =>
    exact fun depth hmem => (List.mem_append.1 hmem).elim (ih₁ depth) (ih₂ depth)
  | sequenceStop _ _ ih | choiceStop _ _ ih | handledStop _ _ ih => exact ih
  | roundsLast _ _ _ ih => exact ih
  | roundsEnough _ _ _ ih => exact ih
  | roundsAborted _ _ ih => exact ih
  | roundsShort _ _ _ ih =>
    exact fun depth hmem => (List.mem_append.1 hmem).elim (ih depth) (by simp)
  | handledMatched _ ih =>
    exact fun depth hmem => (List.mem_append.1 hmem).elim (ih depth) (by simp)
  | _ => simp

/-- Under another limit, an evaluation that leaves these marks ends at the limit instead,
because it enters a depth beyond. -/
def Cut (g : Grammar ε π) (config : Config) (limit : Option Nat) (goal : Goal π) (d : Nat)
    (c : γ) (i : σ) (marks : List (Mark γ π)) : Prop :=
  ∃ bound depth, limit = some bound ∧ .entered depth ∈ marks ∧ bound < depth ∧
    ∃ position j marks', Evaluates g (config.limited limit) goal d c i
      (.aborted (.tooDeep bound position)) j marks'

/-- What passes aborts on is cut where a part of it is. -/
theorem Cut.imp {limit : Option Nat} {goal₂ : Goal π} {d₂ : Nat} {c₂ : γ} {i₂ : σ}
    {marks₂ : List (Mark γ π)} (h : Cut g config limit goal d c i marks)
    (hm : ∀ depth, .entered depth ∈ marks → .entered depth ∈ marks₂)
    (pass : ∀ {cause j marks'},
      Evaluates g (config.limited limit) goal d c i (.aborted cause) j marks' →
        ∃ marks'', Evaluates g (config.limited limit) goal₂ d₂ c₂ i₂ (.aborted cause) j marks'') :
    Cut g config limit goal₂ d₂ c₂ i₂ marks₂ := by
  obtain ⟨bound, depth, hl, hmem, hlt, position, j, marks', run⟩ := h
  obtain ⟨marks'', run⟩ := pass run
  exact ⟨bound, depth, hl, hm depth hmem, hlt, position, j, marks'', run⟩

theorem relimit (limit : Option Nat) (e : Evaluates g config goal d c i o i' marks) :
    ¬o.TooDeep → Evaluates g (config.limited limit) goal d c i o i' marks ∨
      Cut g config limit goal d c i marks := by
  induction e with
  | unknown h => exact fun _ => .inl (.unknown h)
  | constant h hv => exact fun _ => .inl (.constant h hv)
  | endReached h hc => exact fun _ => .inl (.endReached h hc)
  | endMissed h hc => exact fun _ => .inl (.endMissed h hc)
  | element h ha hc hi => exact fun _ => .inl (.element h ha hc hi)
  | elementMissed h ha hc => exact fun _ => .inl (.elementMissed h ha hc)
  | word h hw => exact fun _ => .inl (.word h hw)
  | wordMissed h hw => exact fun _ => .inl (.wordMissed h hw)
  | lookahead h _ ih =>
    intro ho
    rcases ih (fun hd => ho (Outcome.look_tooDeep.2 hd)) with child | cut
    · exact .inl (.lookahead h child)
    · exact .inr (cut.imp (fun _ => id) fun run => ⟨_, .lookahead h run⟩)
  | tooDeep => exact fun ho => absurd ⟨_, _, rfl⟩ ho
  | @nested _ _ _ d _ _ _ _ _ h hg _ _ ih =>
    intro ho
    by_cases hl : ∀ bound, limit = some bound → d < bound
    · rcases ih ho with body | cut
      · exact .inl (.nested h hg hl body)
      · exact .inr (cut.imp (fun _ => .tail _) fun run => ⟨_, .nested h hg hl run⟩)
    · obtain ⟨bound, hb, hd⟩ := exists_le_of_not_lt hl
      exact .inr ⟨bound, _, hb, .head _, Nat.lt_succ_of_le hd, _, _, _, .tooDeep h hg hb hd⟩
  | sequenceDone => exact fun _ => .inl .sequenceDone
  | sequenceNext _ _ ih₁ ih₂ =>
    intro ho
    rcases ih₁ nofun with first | cut
    · rcases ih₂ ho with rest | cut
      · exact .inl (.sequenceNext first rest)
      · exact .inr (cut.imp (fun _ => List.mem_append_right _)
          fun run => ⟨_, .sequenceNext first run⟩)
    · exact .inr (cut.imp (fun _ => List.mem_append_left _)
        fun run => ⟨_, .sequenceStop run nofun⟩)
  | sequenceStop _ hs ih =>
    intro ho
    rcases ih ho with first | cut
    · exact .inl (.sequenceStop first hs)
    · exact .inr (cut.imp (fun _ => id) fun run => ⟨_, .sequenceStop run nofun⟩)
  | choiceNone => exact fun _ => .inl .choiceNone
  | choiceNext _ _ ih₁ ih₂ =>
    intro ho
    rcases ih₁ nofun with first | cut
    · rcases ih₂ ho with rest | cut
      · exact .inl (.choiceNext first rest)
      · exact .inr (cut.imp (fun _ => List.mem_append_right _)
          fun run => ⟨_, .choiceNext first run⟩)
    · exact .inr (cut.imp (fun _ => List.mem_append_left _)
        fun run => ⟨_, .choiceStop run nofun⟩)
  | choiceStop _ hs ih =>
    intro ho
    rcases ih ho with first | cut
    · exact .inl (.choiceStop first hs)
    · exact .inr (cut.imp (fun _ => id) fun run => ⟨_, .choiceStop run nofun⟩)
  | roundsFull hm hn => exact fun _ => .inl (.roundsFull hm hn)
  | roundsNext hm _ more _ ih₁ ih₂ =>
    intro ho
    rcases ih₁ nofun with first | cut
    · rcases ih₂ ho with rest | cut
      · exact .inl (.roundsNext hm first more rest)
      · exact .inr (cut.imp (fun _ => List.mem_append_right _)
          fun run => ⟨_, .roundsNext hm first more run⟩)
    · exact .inr (cut.imp (fun _ => List.mem_append_left _)
        fun run => ⟨_, .roundsAborted hm run⟩)
  | roundsLast _ hn still ih =>
    intro _
    rcases ih nofun with first | cut
    · exact .inl (.roundsLast first hn still)
    · exact .inr (cut.imp (fun _ => id) fun run => ⟨_, .roundsAborted nofun run⟩)
  | roundsEnough hm _ hn ih =>
    intro _
    rcases ih nofun with first | cut
    · exact .inl (.roundsEnough hm first hn)
    · exact .inr (cut.imp (fun _ => id) fun run => ⟨_, .roundsAborted hm run⟩)
  | roundsShort hm _ hn ih =>
    intro _
    rcases ih nofun with first | cut
    · exact .inl (.roundsShort hm first hn)
    · exact .inr (cut.imp (fun _ => List.mem_append_left _)
        fun run => ⟨_, .roundsAborted hm run⟩)
  | roundsAborted hm _ ih =>
    intro ho
    rcases ih ho with first | cut
    · exact .inl (.roundsAborted hm first)
    · exact .inr (cut.imp (fun _ => id) fun run => ⟨_, .roundsAborted hm run⟩)
  | handledMatched _ ih =>
    intro _
    rcases ih nofun with child | cut
    · exact .inl (.handledMatched child)
    · exact .inr (cut.imp (fun _ => List.mem_append_left _)
        fun run => ⟨_, .handledStop run nofun⟩)
  | handledStop _ hs ih =>
    intro ho
    rcases ih ho with child | cut
    · exact .inl (.handledStop child hs)
    · exact .inr (cut.imp (fun _ => id) fun run => ⟨_, .handledStop run nofun⟩)

end Evaluates

/-! ## Runs under two limits -/

namespace Parser

variable {p : Parser γ ε π} {id : RuleId} {s s' : RunState γ σ π} {limit other : Option Nat}

/-- From a reset state, a limit that permits the deepest nesting of a run does not change
it, and any other limit ends it. -/
theorem Returns.relimit (h : (p.limited limit).Returns id c s.reset o s') (ho : ¬o.TooDeep)
    (other : Option Nat) :
    (Permits other s'.maxDepth → (p.limited other).Returns id c s.reset o s') ∧
      ∀ bound, other = some bound → bound < s'.maxDepth → ∃ position s'',
        (p.limited other).Returns id c s.reset (.aborted (.tooDeep bound position)) s'' := by
  obtain ⟨i', marks, e, rfl⟩ := returns_iff.1 h
  rcases e.relimit other ho with run | ⟨bound, depth, hb, hmem, hlt, position, j, marks', run⟩
  · refine ⟨fun _ => returns_iff.2 ⟨i', marks, run, rfl⟩, fun bound hb hlt => ?_⟩
    -- the evaluation under the other limit enters permitted depths only
    have hle : (s.reset.after marks i').maxDepth ≤ bound :=
      RunState.maxDepth_reset_le.2 fun depth hmem => run.permits depth hmem bound hb
    omega
  · have hdeepest : depth ≤ (s.reset.after marks i').maxDepth :=
      RunState.maxDepth_reset_le.1 (Nat.le_refl _) depth hmem
    have hbelow : bound < (s.reset.after marks i').maxDepth := by omega
    refine ⟨fun hp => absurd (hp bound hb) (Nat.not_le_of_lt hbelow), fun bound' hb' _ => ?_⟩
    rw [Option.some.inj (hb'.symm.trans hb)]
    exact ⟨position, _, returns_iff.2 ⟨j, marks', run, rfl⟩⟩

theorem Returns.permits (h : (p.limited limit).Returns id c s.reset o s') :
    Permits limit s'.maxDepth := by
  obtain ⟨i', marks, e, rfl⟩ := returns_iff.1 h
  intro bound heq
  subst heq
  exact RunState.maxDepth_reset_le.2 fun depth hmem => e.permits depth hmem bound rfl

theorem Returns.limit_of_tooDeep {bound position : Nat}
    (h : (p.limited limit).Returns id c s (.aborted (.tooDeep bound position)) s') :
    limit = some bound := by
  obtain ⟨i', marks, e, -⟩ := returns_iff.1 h
  exact e.limit_of_tooDeep rfl

/-- A run under a limit against the same run under another one: it is aborted for depth
exactly when it nests deeper than the limit, and else nothing changes. -/
theorem Returns.tooDeep_iff (h : (p.limited limit).Returns id c s.reset o s')
    (ho : ¬o.TooDeep) (bound : Nat) :
    (∃ position s'', (p.limited other).Returns id c s.reset
        (.aborted (.tooDeep bound position)) s'') ↔ other = some bound ∧ bound < s'.maxDepth := by
  constructor
  · intro haborted
    obtain ⟨position, s'', hr⟩ := haborted
    have hb := hr.limit_of_tooDeep
    refine ⟨hb, Nat.lt_of_not_le fun hle => ho ?_⟩
    have hsame := (h.relimit ho other).1 fun bound' hb' => by
      rw [← Option.some.inj (hb.symm.trans hb')]
      exact hle
    exact ⟨bound, position, (hsame.unique hr).1⟩
  · intro hdeeper
    obtain ⟨hb, hlt⟩ := hdeeper
    exact (h.relimit ho other).2 bound hb hlt

/-- The depth limit is an exact threshold.  A larger limit keeps every outcome and the
state after it, a smaller one aborts a run exactly when it is below the deepest nesting of
that run, and what an unlimited run reports is the least limit that does not abort it.  An
abort of any rule that a run comes to is the outcome of the run. -/
theorem limit_exact (p : Parser γ ε π) (id : RuleId) (c : γ) (s : RunState γ σ π)
    (hle : LimitLe limit other) :
    (∀ o s', (p.limited limit).Returns id c s.reset o s' → ¬o.TooDeep →
        (p.limited other).Returns id c s.reset o s') ∧
      (∀ o s', (p.limited other).Returns id c s.reset o s' → ¬o.TooDeep →
        ∀ bound, (∃ position s'', (p.limited limit).Returns id c s.reset
            (.aborted (.tooDeep bound position)) s'') ↔
          limit = some bound ∧ bound < s'.maxDepth) ∧
      (∀ o s', (p.limited none).Returns id c s.reset o s' →
        IsLeast {bound | ∃ o' s'', (p.limited (some bound)).Returns id c s.reset o' s'' ∧
          ¬o'.TooDeep} s'.maxDepth) ∧
      ∀ target depth start input cause j marks,
        Tries p.grammar (p.config.limited limit) target depth start input (.rule id) 0 c s.input →
        Evaluates p.grammar (p.config.limited limit) (.rule target) depth start input
          (.aborted cause) j marks →
        (∃ s', (p.limited limit).Returns id c s.reset (.aborted cause) s') ∧
          ∀ o s', (p.limited limit).Returns id c s.reset o s' → o = .aborted cause := by
  refine ⟨fun o s' h ho => ?_, fun o s' h ho => h.tooDeep_iff ho, fun o s' h => ?_, ?_⟩
  · exact (h.relimit ho other).1 (h.permits.mono hle)
  · have ho : ¬o.TooDeep := by
      intro haborted
      obtain ⟨bound, position, rfl⟩ := haborted
      cases h.limit_of_tooDeep
    refine ⟨⟨o, s', (h.relimit ho _).1 fun bound hb => ?_, ho⟩, ?_⟩
    · exact Nat.le_of_eq (Option.some.inj hb)
    · rintro bound ⟨o', s'', h', ho'⟩
      refine Nat.le_of_not_lt fun hlt => ?_
      obtain ⟨position, s₃, hr⟩ := (h.relimit ho (some bound)).2 bound rfl hlt
      exact ho' ⟨bound, position, (h'.unique hr).1⟩
  · intro target depth start input cause j marks t e
    obtain ⟨marks', e'⟩ := t.aborts e
    have hr : (p.limited limit).Returns id c s.reset (.aborted cause) _ :=
      returns_iff.2 ⟨j, marks', e', rfl⟩
    exact ⟨⟨_, hr⟩, fun o s' h => (h.unique hr).1⟩

/-- Two nested groups nest eight deep, so that a limit of five stops the run. -/
theorem groups_limit : LimitLe (some 5) (some 8) ∧
    ∃ position s'', ((groupParser #['(', '(', ')', ')']).limited (some 5)).Returns ⟨0⟩
      (.start #['(', '(', ')', ')']) (RunState.fresh ()).reset
      (.aborted (.tooDeep 5 position)) s'' := by
  have hle : LimitLe (some 5) (some 8) := by show 5 ≤ 8; decide
  have h := (limit_exact (groupParser #['(', '(', ')', ')']) ⟨0⟩ (.start #['(', '(', ')', ')'])
    (.fresh ()) hle).2.1
  exact ⟨hle, (h _ _ ⟨20, rfl⟩ (by rintro ⟨_, _, ⟨⟩⟩) 5).2 ⟨rfl, by decide⟩⟩

end Parser
end PegMatcher
