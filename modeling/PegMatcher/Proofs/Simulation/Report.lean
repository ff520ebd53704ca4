import PegMatcher.Proofs.Simulation.Records
/-
What can be seen of a match without its cursors.

A report has positions in place of cursors, so that matches on different kinds of inputs can
be compared.  Across a bridge, new parsers for the same grammar make the same reports but for
the distance of their positions.
-/
namespace PegMatcher

variable {γ γ₀ σ₀ γ₁ σ₁ ε σ π : Type}

def Outcome.positioned {α : Type} [Cursor γ ε σ] : Outcome γ α → Outcome Nat α
  | .matched c result => .matched (Cursor.position c) result
  | .mismatch => .mismatch
  | .aborted cause => .aborted cause

def Failure.positioned [Cursor γ ε σ] (f : Failure γ) : Failure Nat :=
  ⟨Cursor.position f.cursor, f.rule, f.depth⟩

structure Report (π : Type) where
  outcome : Outcome Nat (Value π)
  depth : Nat
  maxDepth : Nat
  failure : Option (Failure Nat)
  error : Option Diagnostic

/-! ## Reports further ahead -/

def Abort.ahead (k : Nat) : Abort → Abort
  | .tooDeep limit position => .tooDeep limit (position + k)
  | .unknownRule id => .unknownRule id

def Outcome.ahead {α : Type} (k : Nat) : Outcome Nat α → Outcome Nat α
  | .matched position result => .matched (position + k) result
  | .mismatch => .mismatch
  | .aborted cause => .aborted (cause.ahead k)

def Failure.ahead (k : Nat) (f : Failure Nat) : Failure Nat := ⟨f.cursor + k, f.rule, f.depth⟩

def Diagnostic.ahead (k : Nat) (d : Diagnostic) : Diagnostic :=
  ⟨d.position + k, d.found, d.rule, d.expected⟩

namespace Report

/-- The report with every position in it `k` further ahead. -/
def ahead (k : Nat) (r : Report π) : Report π :=
  ⟨r.outcome.ahead k, r.depth, r.maxDepth, r.failure.map (Failure.ahead k),
    r.error.map (Diagnostic.ahead k)⟩

theorem ahead_zero (r : Report π) : r.ahead 0 = r := by
  obtain ⟨o, depth, maxDepth, failure, error⟩ := r
  have houtcome : o.ahead 0 = o := by
    cases o with
    | matched | mismatch => rfl
    | aborted cause => cases cause <;> rfl
  have hfailure : failure.map (Failure.ahead 0) = failure := Option.map_id_fun' ▸ rfl
  have herror : error.map (Diagnostic.ahead 0) = error := Option.map_id_fun' ▸ rfl
  rw [ahead, houtcome, hfailure, herror]

end Report

/-- The same cause at positions that are apart is the same when the distance is made up. -/
theorem Abort.Moved.ahead_eq {ahead behind : Nat} {cause cause' : Abort}
    (h : cause.Moved ahead behind cause') : cause.ahead behind = cause'.ahead ahead := by
  cases h with
  | tooDeep h => exact congrArg (Abort.tooDeep _) h
  | unknownRule => rfl

variable [Cursor γ ε σ] [Cursor γ₀ ε σ₀] [Cursor γ₁ ε σ₁] [Element ε]

def Parser.report (p : Parser γ ε π) (o : Outcome γ (Value π)) (s : RunState γ σ π) : Report π :=
  ⟨o.positioned, s.depth, s.maxDepth, s.failure.map Failure.positioned, p.error? s⟩

namespace Parser

variable {p : Parser γ₀ ε π} {q : Parser γ₁ ε π} {K : σ₀ → σ₁ → γ₀ → γ₁ → Prop} {i : σ₀}
  {j : σ₁} {s : RunState γ₀ σ₀ π} {t : RunState γ₁ σ₁ π} {ahead behind : Nat}

theorem error?_ahead (hK : Cursor.Bridge K ahead behind) (hg : p.grammar = q.grammar)
    (h : s.Related (K i j) t) :
    (p.error? s).map (Diagnostic.ahead behind) = (q.error? t).map (Diagnostic.ahead ahead) := by
  have hkept := h.failure
  unfold error?
  generalize s.failure = kept, t.failure = kept' at hkept ⊢
  cases hkept with
  | none => rfl
  | @some f f' hf =>
    have hposition : Cursor.position f.cursor + behind = Cursor.position f'.cursor + ahead :=
      hK.position_eq hf.cursor
    simp only [Option.map_some, Diagnostic.ahead]
    rw [hposition, hK.peek_eq hf.cursor, hf.rule_eq, hg]

/-- Outcomes and records that are related across a bridge look the same, once the distance of
positions is made up. -/
theorem report_ahead (hK : Cursor.Bridge K ahead behind) (hg : p.grammar = q.grammar)
    (h : s.Related (K i j) t) {o : Outcome γ₀ (Value π)} {o' : Outcome γ₁ (Value π)}
    (ho : o.Related (K i j) Eq ahead behind o') :
    (p.report o s).ahead behind = (q.report o' t).ahead ahead := by
  have houtcome : o.positioned.ahead behind = o'.positioned.ahead ahead := by
    cases ho with
    | @matched c d v _ hc hv =>
      have hposition : Cursor.position c + behind = Cursor.position d + ahead :=
        hK.position_eq hc
      subst hv
      exact congrArg (Outcome.matched · v) hposition
    | mismatch => rfl
    | aborted hcause => exact congrArg Outcome.aborted hcause.ahead_eq
  have hfailure : (s.failure.map Failure.positioned).map (Failure.ahead behind) =
      (t.failure.map Failure.positioned).map (Failure.ahead ahead) := by
    have hkept := h.failure
    generalize s.failure = kept, t.failure = kept' at hkept ⊢
    cases hkept with
    | none => rfl
    | @some f f' hf =>
      have hposition : Cursor.position f.cursor + behind = Cursor.position f'.cursor + ahead :=
        hK.position_eq hf.cursor
      simp only [Option.map_some, Failure.positioned, Failure.ahead]
      rw [hposition, hf.rule_eq, hf.depth_eq]
  rw [report, report, Report.ahead, Report.ahead, houtcome, h.depth_eq, h.maxDepth_eq, hfailure,
    error?_ahead hK hg h]

/-- Outcomes and records that are related across a bridge that keeps positions look the
same. -/
theorem report_eq (hK : Cursor.Bridge K 0 0) (hg : p.grammar = q.grammar)
    (h : s.Related (K i j) t) {o : Outcome γ₀ (Value π)} {o' : Outcome γ₁ (Value π)}
    (ho : o.Related (K i j) Eq 0 0 o') : p.report o s = q.report o' t := by
  have hreports := report_ahead hK hg h ho
  rwa [Report.ahead_zero, Report.ahead_zero] at hreports

end Parser

variable [ElementValue ε π] [Payload π]

namespace Grammar

variable {g : Grammar ε π} {config : Config} {id : RuleId} {r : Report π}

/-- A new parser matches a rule at a place, which is a cursor and a state of its input, and
comes to an end with this report. -/
def ReportsAt (g : Grammar ε π) (config : Config) (id : RuleId) (place : γ × σ)
    (r : Report π) : Prop :=
  ∃ o s', Parser.Returns ⟨g, id, place.1, config⟩ id place.1 (.fresh place.2) o s' ∧
    Parser.report ⟨g, id, place.1, config⟩ o s' = r

variable {K : σ₀ → σ₁ → γ₀ → γ₁ → Prop} {ahead behind : Nat} {c : γ₀ × σ₀} {d : γ₁ × σ₁}

/-- Places across a bridge have the same reports, once the distance of positions is made
up. -/
theorem ReportsAt.moved (hK : Cursor.Bridge K ahead behind) (hc : K c.2 d.2 c.1 d.1)
    (h : g.ReportsAt config id c r) :
    ∃ r', g.ReportsAt config id d r' ∧ r.ahead behind = r'.ahead ahead := by
  obtain ⟨o, s', hr, rfl⟩ := h
  have hstart : (RunState.fresh c.2 : RunState γ₀ σ₀ π).Related (K c.2 d.2)
      (.fresh d.2 : RunState γ₁ σ₁ π) := ⟨rfl, rfl, .none⟩
  obtain ⟨o', t', hr', -, ho, hs⟩ := hr.copied (q := ⟨g, id, d.1, config⟩) (t := .fresh d.2) hK
    (g.corresponds_eq config.kind) rfl hc hstart
  exact ⟨_, ⟨o', t', hr', rfl⟩, Parser.report_ahead hK rfl hs ho⟩

/-- Places across a bridge that keeps positions have the same reports. -/
theorem ReportsAt.copied (hK : Cursor.Bridge K 0 0) (hc : K c.2 d.2 c.1 d.1)
    (h : g.ReportsAt config id c r) : g.ReportsAt config id d r := by
  obtain ⟨r', hr', heq⟩ := h.moved hK hc
  rw [Report.ahead_zero, Report.ahead_zero] at heq
  exact heq ▸ hr'

end Grammar
end PegMatcher
