import PegMatcher.Proofs.DepthLimit
import PegMatcher.Proofs.History
/-
What the messages of a run tell.

A run says how it begins and how it ends.  In between it says where the furthest failure moves
to, which values were reshaped to no effect, and that the depth limit was reached.

A failure is kept when nothing failed further along, and a message is written only when nothing
failed as far along either.  So the messages are about the failures that were further along than
all before them, and the last of them is about the first failure of those that are furthest,
while the failure that is kept is the last of these.

The depth limit is reached once.  All that is around the rule that reached it passes the abort
on and tries nothing more, so that nothing is said after it but how the run ended.
-/
namespace PegMatcher

variable {γ ε σ π : Type} [Cursor γ ε σ]

/-! ## Failures further along than all before them -/

namespace Failure

/-- The failures of a list that were further along than all before them. -/
inductive Records : List (Failure γ) → List (Failure γ) → Prop
  | nil : Records [] []
  | further {failures records f} (h : Records failures records)
      (hf : ∀ e ∈ failures, e.position < f.position) : Records (failures ++ [f]) (records ++ [f])
  | behind {failures records f} (h : Records failures records)
      (hf : ¬∀ e ∈ failures, e.position < f.position) : Records (failures ++ [f]) records

variable {failures records : List (Failure γ)} {f r : Failure γ}

namespace Records

theorem subset (h : Records failures records) : records ⊆ failures := by
  induction h with
  | nil => exact List.Subset.refl _
  | further _ _ ih =>
    exact List.append_subset.2 ⟨List.subset_append_of_subset_left _ ih, List.subset_append_right ..⟩
  | behind _ _ ih => exact List.subset_append_of_subset_left _ ih

theorem increasing (h : Records failures records) :
    records.Pairwise fun e f => e.position < f.position := by
  induction h with
  | nil => exact .nil
  | further h hf ih =>
    refine List.pairwise_append.2 ⟨ih, List.pairwise_singleton .., fun e he => ?_⟩
    exact List.forall_mem_singleton.2 (hf e (h.subset he))
  | behind _ _ ih => exact ih

theorem eq_nil_iff (h : Records failures records) : records = [] ↔ failures = [] := by
  induction h with
  | nil => exact Iff.rfl
  | further => simp
  | behind _ hf ih =>
    refine ⟨fun hnil => absurd ?_ hf, fun hnil => by simp at hnil⟩
    rw [ih.1 hnil]
    exact List.forall_mem_nil _

/-- The last of them is furthest along. -/
theorem le_last (h : Records failures records) (hr : records.getLast? = some r) :
    ∀ e ∈ failures, e.position ≤ r.position := by
  induction h with
  | nil => cases hr
  | further _ hf _ =>
    rw [List.getLast?_concat] at hr
    cases hr
    exact List.forall_mem_append.2
      ⟨fun e he => Nat.le_of_lt (hf e he), List.forall_mem_singleton.2 (Nat.le_refl _)⟩
  | behind _ hf ih =>
    have hle := ih hr
    refine List.forall_mem_append.2 ⟨hle, List.forall_mem_singleton.2 (Nat.le_of_not_lt ?_)⟩
    exact fun hlt => hf fun e he => Nat.lt_of_le_of_lt (hle e he) hlt

/-- The last of them is the first failure where it is. -/
theorem find?_last (h : Records failures records) (hr : records.getLast? = some r) :
    failures.find? (fun e => e.position = r.position) = some r := by
  induction h with
  | nil => cases hr
  | @further failures records f _ hf _ =>
    rw [List.getLast?_concat] at hr
    cases hr
    have hnone : failures.find? (fun e => e.position = r.position) = none :=
      List.find?_eq_none.2 fun e he => by simpa using Nat.ne_of_lt (hf e he)
    rw [List.find?_append, hnone]
    simp
  | behind _ _ ih =>
    rw [List.find?_append, ih hr]
    rfl

end Records
end Failure

/-! ## The messages that marks leave -/

namespace Message

/-- Where the furthest failure moved to, and the rule that moved it. -/
def moved? : Message π → Option (Nat × RuleId)
  | failureMoved position rule => some (position, rule)
  | _ => none

/-- The moves of the furthest failure that some messages tell, in order. -/
def moves (messages : List (Message π)) : List (Nat × RuleId) := messages.filterMap moved?

end Message

/-- What a failure says, given the failure that was kept before it. -/
def Failure.told (kept : Option (Failure γ)) (f : Failure γ) : List (Message π) :=
  match kept with
  | none => [.failureMoved f.position f.rule]
  | some furthest =>
    if furthest.position < f.position then [.failureMoved f.position f.rule] else []

namespace Failure

variable {failures : List (Failure γ)} {kept : Option (Failure γ)} {furthest f : Failure γ}

theorem told_of_lt (h : furthest.position < f.position) :
    f.told (some furthest) = [(.failureMoved f.position f.rule : Message π)] := if_pos h

theorem told_of_not_lt (h : ¬furthest.position < f.position) :
    f.told (some furthest) = ([] : List (Message π)) := if_neg h

/-- A failure says something when it is further along than all before it. -/
theorem Kept.told_eq (h : Kept failures kept) (f : Failure γ) : f.told kept =
    if ∀ e ∈ failures, e.position < f.position then
      [(.failureMoved f.position f.rule : Message π)] else [] := by
  cases kept with
  | none =>
    cases h
    exact (if_pos (List.forall_mem_nil _)).symm
  | some furthest =>
    by_cases hlt : furthest.position < f.position
    · rw [told_of_lt hlt, if_pos]
      exact fun e he => Nat.lt_of_le_of_lt (IsFurthest.le h he) hlt
    · rw [told_of_not_lt hlt, if_neg]
      exact fun hall => hlt (hall furthest (IsFurthest.mem h))

theorem eq_of_mem_told {m : Message π} (h : m ∈ f.told kept) :
    m = .failureMoved f.position f.rule := by
  unfold told at h
  split at h
  · exact List.mem_singleton.1 h
  · split at h
    · exact List.mem_singleton.1 h
    · cases h

end Failure

/-- What is said while marks are put on a state that keeps a failure, in order. -/
def Mark.messages (kept : Option (Failure γ)) : List (Mark γ π) → List (Message π)
  | [] => []
  | .entered _ :: marks => messages kept marks
  | .failed f :: marks => f.told kept ++ messages (f.further kept) marks
  | .said message :: marks => message :: messages kept marks

namespace RunState

theorem log_recordFailure (s : RunState γ σ π) (c : γ) (id : RuleId) :
    (s.recordFailure c id).log = (Failure.told s.failure ⟨c, id, s.depth⟩).reverse ++ s.log := by
  unfold recordFailure
  cases s.failure with
  | none => rfl
  | some f =>
    dsimp only
    by_cases hlt : f.position < Failure.position ⟨c, id, s.depth⟩
    · rw [Failure.told_of_lt hlt]
      exact congrArg log ((if_neg (Nat.not_lt_of_lt hlt)).trans (if_pos hlt))
    · rw [Failure.told_of_not_lt hlt]
      split
      · rfl
      · exact (congrArg log (if_neg hlt)).trans rfl

theorem log_after (s : RunState γ σ π) (marks : List (Mark γ π)) (i : σ) :
    (s.after marks i).log = (Mark.messages s.failure marks).reverse ++ s.log := by
  induction marks generalizing s with
  | nil => rfl
  | cons m marks ih =>
    have hstep : (s.after (m :: marks) i).log =
        (Mark.messages (s.mark m).failure marks).reverse ++ (s.mark m).log := ih (s.mark m)
    rw [hstep]
    cases m with
    | entered => rfl
    | failed f =>
      have hfailure : (s.mark (.failed f)).failure = f.further s.failure := failure_recordFailure ..
      have hlog : (s.mark (.failed f)).log = (f.told s.failure).reverse ++ s.log :=
        log_recordFailure ..
      rw [hfailure, hlog, Mark.messages, List.reverse_append, List.append_assoc]
    | said message =>
      rw [Mark.messages, List.reverse_cons, List.append_assoc]
      rfl

end RunState

namespace Mark

variable {kept : Option (Failure γ)} {marks more : List (Mark γ π)}

theorem messages_append :
    messages kept (marks ++ more) =
      messages kept marks ++ messages ((failures marks).foldl Failure.further kept) more := by
  induction marks generalizing kept with
  | nil => rfl
  | cons m marks ih =>
    cases m with
    | entered => exact ih
    | failed f =>
      rw [List.cons_append, messages, messages, ih, List.append_assoc]
      rfl
    | said message => exact congrArg (message :: ·) ih

theorem mem_messages {m : Message π} (h : m ∈ messages kept marks) :
    (∃ position rule, m = .failureMoved position rule) ∨ .said m ∈ marks := by
  induction marks generalizing kept with
  | nil => cases h
  | cons mark marks ih =>
    cases mark with
    | entered => exact (ih h).imp_right (List.mem_cons_of_mem _)
    | failed f =>
      rcases List.mem_append.1 h with h | h
      · exact .inl ⟨_, _, Failure.eq_of_mem_told h⟩
      · exact (ih h).imp_right (List.mem_cons_of_mem _)
    | said message =>
      rcases List.mem_cons.1 h with rfl | h
      · exact .inr List.mem_cons_self
      · exact (ih h).imp_right (List.mem_cons_of_mem _)

/-- Unless the marks say so themselves, the moves told are those of the failures that were
further along than all before them. -/
theorem moves_messages {before records : List (Failure γ)} (hk : Failure.Kept before kept)
    (hr : Failure.Records before records) (hm : ∀ m, .said m ∈ marks → m.moved? = none) :
    ∃ more, Failure.Records (before ++ failures marks) (records ++ more) ∧
      Message.moves (messages kept marks) = more.map fun f => (f.position, f.rule) := by
  induction marks generalizing kept before records with
  | nil =>
    refine ⟨[], ?_, rfl⟩
    rw [show failures ([] : List (Mark γ π)) = [] from rfl, List.append_nil, List.append_nil]
    exact hr
  | cons mark marks ih =>
    have hrest : ∀ m, .said m ∈ marks → m.moved? = none :=
      fun m h => hm m (List.mem_cons_of_mem _ h)
    cases mark with
    | entered => exact ih hk hr hrest
    | said message =>
      obtain ⟨more, hmore, hmoves⟩ := ih hk hr hrest
      refine ⟨more, hmore, ?_⟩
      rw [messages, Message.moves, List.filterMap_cons_none (hm message List.mem_cons_self)]
      exact hmoves
    | failed f =>
      have hfailures : before ++ failures (.failed f :: marks) = before ++ [f] ++ failures marks :=
        (List.append_cons ..)
      rw [messages, Message.moves, List.filterMap_append, hk.told_eq f, hfailures]
      split
      · obtain ⟨more, hmore, hmoves⟩ := ih (hk.further f) (hr.further ‹_›) hrest
        refine ⟨f :: more, ?_, congrArg ((f.position, f.rule) :: ·) hmoves⟩
        rw [List.append_cons records]
        exact hmore
      · exact ih (hk.further f) (hr.behind ‹_›) hrest

end Mark

/-! ## What an evaluation says -/

/-- The only words among the marks are about values that were reshaped. -/
def Mark.Quiet (marks : List (Mark γ π)) : Prop :=
  ∀ m, .said m ∈ marks → ∃ warning, m = .reshaping warning

/-- What an attempt says when it ends at the depth limit, and there only. -/
def Outcome.lastWords : Outcome γ (Value π) → List (Mark γ π)
  | .aborted (.tooDeep limit position) => [.said (.limitReached limit position)]
  | _ => []

/-- The marks of an attempt that ended this way are quiet but for its last words. -/
def Mark.QuietUntil (o : Outcome γ (Value π)) (marks : List (Mark γ π)) : Prop :=
  ∃ before, marks = before ++ o.lastWords ∧ Quiet before

namespace Mark

variable {marks more : List (Mark γ π)} {o : Outcome γ (Value π)}

theorem Quiet.append (h : Quiet marks) (hm : Quiet more) : Quiet (marks ++ more) :=
  fun m hmem => (List.mem_append.1 hmem).elim (h m) (hm m)

theorem quiet_nil : Quiet ([] : List (Mark γ π)) := nofun

theorem quiet_failed (f : Failure γ) : Quiet ([.failed f] : List (Mark γ π)) := by
  intro m hm
  cases List.mem_singleton.1 hm

theorem quiet_entered (depth : Nat) : Quiet ([.entered depth] : List (Mark γ π)) := by
  intro m hm
  cases List.mem_singleton.1 hm

theorem quiet_warnings (warnings : List (Warning π)) :
    Quiet (warnings.map (.said ∘ .reshaping) : List (Mark γ π)) := by
  intro m hm
  obtain ⟨warning, -, hw⟩ := List.mem_map.1 hm
  exact ⟨warning, (Mark.said.inj hw).symm⟩

theorem Quiet.until (h : Quiet marks) (ho : o.lastWords = []) : QuietUntil o marks :=
  ⟨marks, by rw [ho, List.append_nil], h⟩

/-- What is quiet may come before. -/
theorem QuietUntil.before (h : Quiet marks) (hm : QuietUntil o more) :
    QuietUntil o (marks ++ more) := by
  obtain ⟨before, rfl, hb⟩ := hm
  exact ⟨marks ++ before, (List.append_assoc ..).symm, h.append hb⟩

theorem Quiet.limitReached_not_mem {kept : Option (Failure γ)} (h : Quiet marks)
    (limit position : Nat) : .limitReached limit position ∉ messages kept marks := by
  intro hmem
  rcases mem_messages hmem with ⟨_, _, hmoved⟩ | hsaid
  · cases hmoved
  · obtain ⟨warning, hw⟩ := h _ hsaid
    cases hw

theorem QuietUntil.moved?_eq_none (h : QuietUntil o marks) {m : Message π}
    (hm : .said m ∈ marks) : m.moved? = none := by
  obtain ⟨before, rfl, hb⟩ := h
  rcases List.mem_append.1 hm with hm | hm
  · obtain ⟨warning, rfl⟩ := hb m hm
    rfl
  · unfold Outcome.lastWords at hm
    split at hm
    · cases List.mem_singleton.1 hm
      rfl
    · cases hm

/-- An attempt without last words is quiet. -/
theorem QuietUntil.quiet (h : QuietUntil o marks) (ho : o.lastWords = []) : Quiet marks := by
  obtain ⟨before, rfl, hb⟩ := h
  rw [ho, List.append_nil]
  exact hb

end Mark

theorem Outcome.lastWords_eq_nil {o : Outcome γ (Value π)} (h : ¬o.TooDeep) :
    o.lastWords = [] := by
  unfold lastWords
  split
  · exact absurd ⟨_, _, rfl⟩ h
  · rfl

theorem Outcome.lastWords_look {negated : Bool} {c : γ} {o : Outcome γ (Value π)} :
    (o.look negated c).lastWords = o.lastWords := by
  cases o with
  | aborted => rfl
  | matched | mismatch => cases negated <;> rfl

/-! ## The messages of a run -/

namespace Parser

variable [Element ε]

def opening (p : Parser γ ε π) : Message π :=
  .started p.root (p.grammar.describe p.root) (Cursor.position p.start)

/-- What a run says in order when the match of its root leaves these marks. -/
def messages (p : Parser γ ε π) (s' : RunState γ σ π) (o : Outcome γ (Value π))
    (marks : List (Mark γ π)) : List (Message π) :=
  p.opening :: (Mark.messages none marks ++ [p.closing s' o])

variable {p : Parser γ ε π} {s s' : RunState γ σ π} {o : Outcome γ (Value π)}
  {marks : List (Mark γ π)}

/-- What closes a run does not depend on what was said. -/
theorem closing_note (m : Message π) : p.closing (s.note m) o = p.closing s o := by
  cases o <;> rfl

theorem getLast?_messages : (p.messages s' o marks).getLast? = some (p.closing s' o) := by
  rw [messages, ← List.cons_append, List.getLast?_concat]

theorem moved?_closing : (p.closing s' o).moved? = none := by
  cases o <;> rfl

theorem limitReached_ne_closing (limit position : Nat) :
    .limitReached limit position ≠ p.closing s' o := by
  cases o <;> nofun

theorem limitReached_not_mem (h : Mark.Quiet marks) (limit position : Nat) :
    .limitReached limit position ∉ p.opening :: Mark.messages none marks := by
  intro hmem
  rcases List.mem_cons.1 hmem with hopening | hmem
  · cases hopening
  · exact h.limitReached_not_mem limit position hmem

/-- A run that reached the limit says so once, and then only how it ended. -/
theorem limitReached_last {limit position : Nat}
    (h : Mark.QuietUntil (.aborted (.tooDeep limit position)) marks) :
    ∃ before, p.messages s' (.aborted (.tooDeep limit position)) marks = before ++
        [.limitReached limit position, .aborted (.tooDeep limit position)] ∧
      ∀ l q, .limitReached l q ∉ before := by
  obtain ⟨before, rfl, hquiet⟩ := h
  refine ⟨p.opening :: Mark.messages none before, ?_, limitReached_not_mem hquiet⟩
  rw [messages, Mark.messages_append, List.append_assoc, ← List.cons_append]
  rfl

/-- A run that ended otherwise never says that the limit was reached. -/
theorem limitReached_not_mem_messages (h : Mark.QuietUntil o marks) (ho : ¬o.TooDeep)
    (limit position : Nat) : .limitReached limit position ∉ p.messages s' o marks := by
  have hquiet := h.quiet (Outcome.lastWords_eq_nil ho)
  rw [messages, ← List.cons_append]
  intro hmem
  rcases List.mem_append.1 hmem with hmem | hclosing
  · exact limitReached_not_mem hquiet limit position hmem
  · exact limitReached_ne_closing limit position (List.mem_singleton.1 hclosing)

theorem moves_messages :
    Message.moves (p.messages s' o marks) = Message.moves (Mark.messages none marks) := by
  have hclosing : Message.moves [p.closing s' o] = [] :=
    List.filterMap_cons_none moved?_closing
  show List.filterMap _ (Mark.messages none marks ++ [p.closing s' o]) = _
  rw [List.filterMap_append, ← Message.moves, ← Message.moves, hclosing, List.append_nil]

end Parser

variable [Element ε] [ElementValue ε π] [Payload π]

/-- Only reshaped values are told of until the limit is reached, and then nothing is. -/
theorem Evaluates.quietUntil {g : Grammar ε π} {config : Config} {goal : Goal π} {d : Nat} {c : γ}
    {i i' : σ} {o : Outcome γ (Value π)} {marks : List (Mark γ π)}
    (e : Evaluates g config goal d c i o i' marks) : Mark.QuietUntil o marks := by
  induction e with
  | endMissed | elementMissed | wordMissed => exact (Mark.quiet_failed _).until rfl
  | lookahead _ _ ih =>
    obtain ⟨before, rfl, hb⟩ := ih
    exact ⟨before, by rw [Outcome.lastWords_look], hb⟩
  | tooDeep => exact ⟨[], rfl, Mark.quiet_nil⟩
  | nested _ _ _ _ ih => exact .before (Mark.quiet_entered _) ih
  | sequenceNext _ _ ih₁ ih₂ | choiceNext _ _ ih₁ ih₂ => exact .before (ih₁.quiet rfl) ih₂
  | roundsNext _ _ _ _ ih₁ ih₂ => exact .before (ih₁.quiet rfl) ih₂
  | sequenceStop _ _ ih | choiceStop _ _ ih | handledStop _ _ ih => exact ih
  | roundsFull => exact Mark.quiet_nil.until (by split <;> rfl)
  | roundsLast _ _ _ ih | roundsEnough _ _ _ ih => exact (ih.quiet rfl).until rfl
  | roundsShort _ _ _ ih => exact ((ih.quiet rfl).append (Mark.quiet_failed _)).until rfl
  | roundsAborted _ _ ih => exact ih
  | handledMatched _ ih => exact ((ih.quiet rfl).append (Mark.quiet_warnings _)).until rfl
  | _ => exact Mark.quiet_nil.until rfl

/-! ## Runs -/

namespace Parser

/-- Some messages are all that a run says, and they tell what happened in it. -/
structure Tells (p : Parser γ ε π) (s : RunState γ σ π) (o : Outcome γ (Value π))
    (s' : RunState γ σ π) (messages : List (Message π)) : Prop where
  log_eq : s'.log = messages.reverse ++ s.log
  opens : messages.head? =
    some (.started p.root (p.grammar.describe p.root) (Cursor.position p.start))
  closes_matched : ∀ c v, o = .matched c v →
    messages.getLast? = some (.matched (Cursor.position c) s'.maxDepth)
  closes_failed : o = .mismatch →
    messages.getLast? = some (.failed (p.errorText s') s'.maxDepth)
  closes_aborted : ∀ cause, o = .aborted cause → messages.getLast? = some (.aborted cause)
  moves_increase : (Message.moves messages).Pairwise fun m n => m.1 < n.1
  moves_eq_nil_iff : Message.moves messages = [] ↔ s'.failure = none
  /-- The last move is to where the furthest failure is, by the first failure there. -/
  last_move : ∀ f, s'.failure = some f → ∀ i' failures,
    p.grammar.Fails p.config s.input [(p.root, p.start)] i' failures →
      ∃ first, failures.find? (fun e => e.position = f.position) = some first ∧
        (Message.moves messages).getLast? = some (f.position, first.rule)
  /-- The limit is told of once, and then only how the run ended. -/
  limit_reached : ∀ limit position, o = .aborted (.tooDeep limit position) →
    ∃ before, messages = before ++
        [.limitReached limit position, .aborted (.tooDeep limit position)] ∧
      ∀ l q, .limitReached l q ∉ before
  limit_not_reached : ¬o.TooDeep → ∀ l q, .limitReached l q ∉ messages

variable {p : Parser γ ε π} {s s' : RunState γ σ π} {o o₁ : Outcome γ (Value π)} {i' : σ}
  {marks : List (Mark γ π)}

/-- What a run says and keeps, whatever evaluation of the root is looked at. -/
theorem Runs.says (h : p.Runs s o s')
    (e : Evaluates p.grammar p.config (.rule p.root) 0 p.start s.input o₁ i' marks) :
    o₁ = o ∧ s'.log = (p.messages s' o marks).reverse ++ s.log ∧
      Failure.Kept (Mark.failures marks) s'.failure := by
  obtain ⟨s₁, hr, rfl⟩ := runs_iff.1 h
  have hreturns : p.Returns p.root p.start (p.opened s) o₁ ((p.opened s).after marks i') :=
    returns_iff.2 ⟨i', marks, e, rfl⟩
  obtain ⟨rfl, rfl⟩ := hreturns.unique hr
  have hlog : ((p.opened s).after marks i').log =
      (Mark.messages none marks).reverse ++ p.opening :: s.log := (p.opened s).log_after marks i'
  have hkept : Failure.Kept ([] : List (Failure γ)) none := rfl
  refine ⟨rfl, ?_, ?_⟩
  · rw [Parser.messages, closing_note, RunState.note, hlog]
    simp
  · show Failure.Kept _ ((p.opened s).after marks i').failure
    rw [RunState.failure_after]
    exact hkept.foldl

/-- The moves told are those of the failures further along than all before them. -/
theorem moves_of_evaluates (s' : RunState γ σ π)
    (e : Evaluates p.grammar p.config (.rule p.root) 0 p.start s.input o i' marks) :
    ∃ records, Failure.Records (Mark.failures marks) records ∧
      Message.moves (p.messages s' o marks) = records.map fun f => (f.position, f.rule) := by
  have hkept : Failure.Kept ([] : List (Failure γ)) none := rfl
  obtain ⟨records, hrecords, hmoves⟩ := Mark.moves_messages hkept .nil
    fun _ => e.quietUntil.moved?_eq_none
  exact ⟨records, hrecords, moves_messages.trans hmoves⟩

/-- The last move is to where the furthest failure is, and the first failure there made it. -/
theorem Runs.last_move (h : p.Runs s o s')
    (e : Evaluates p.grammar p.config (.rule p.root) 0 p.start s.input o i' marks)
    {f : Failure γ} (hf : s'.failure = some f) : ∃ first,
      (Mark.failures marks).find? (fun e => e.position = f.position) = some first ∧
        (Message.moves (p.messages s' o marks)).getLast? = some (f.position, first.rule) := by
  obtain ⟨-, -, hkept⟩ := h.says e
  obtain ⟨records, hrecords, hmoves⟩ := moves_of_evaluates s' e
  have hfurthest := hkept.eq_some_iff.1 hf
  have hne : records ≠ [] :=
    fun hnil => List.ne_nil_of_mem hfurthest.mem (hrecords.eq_nil_iff.1 hnil)
  have hlast := List.getLast?_eq_some_getLast hne
  have hmem := hrecords.subset (List.getLast_mem hne)
  have hposition : (records.getLast hne).position = f.position :=
    Nat.le_antisymm (hfurthest.le hmem) (hrecords.le_last hlast f hfurthest.mem)
  refine ⟨records.getLast hne, hposition ▸ hrecords.find?_last hlast, ?_⟩
  rw [hmoves, List.getLast?_map, hlast, ← hposition]
  rfl

/-- The messages that a run adds tell what happened in it: how it began and ended, where the
furthest failure moved to, and whether the depth limit was reached. -/
theorem messages_truthful (h : p.Runs s o s') :
    (∃ failures, p.grammar.Fails p.config s.input [(p.root, p.start)] s'.input failures) ∧
      ∃ messages, p.Tells s o s' messages := by
  obtain ⟨marks, hleaves⟩ := h.leaves
  have e := hleaves.evaluates
  obtain ⟨-, hlog, hkept⟩ := h.says e
  obtain ⟨records, hrecords, hmoves⟩ := moves_of_evaluates s' e
  refine ⟨⟨_, .cons e .nil⟩, p.messages s' o marks, {
    log_eq := hlog
    opens := rfl
    closes_matched := ?matched
    closes_failed := ?failed
    closes_aborted := ?aborted
    moves_increase := ?increase
    moves_eq_nil_iff := ?none
    last_move := ?last
    limit_reached := ?reached
    limit_not_reached := limitReached_not_mem_messages e.quietUntil }⟩
  case matched =>
    intro c v ho
    subst ho
    exact getLast?_messages
  case failed =>
    intro ho
    subst ho
    exact getLast?_messages
  case aborted =>
    intro cause ho
    subst ho
    exact getLast?_messages
  case increase =>
    rw [hmoves, List.pairwise_map]
    exact hrecords.increasing
  case none =>
    rw [hmoves, List.map_eq_nil_iff, hrecords.eq_nil_iff, hkept.eq_none_iff]
  case last =>
    intro f hf i' failures hfails
    cases hfails with
    | cons e' rest =>
      -- another account of the run has the same messages, since the log is the same
      cases rest
      obtain ⟨rfl, hlog', -⟩ := h.says e'
      have hsame := List.reverse_inj.1 (List.append_cancel_right (hlog.symm.trans hlog'))
      rw [List.append_nil, hsame]
      exact h.last_move e' hf
  case reached =>
    intro limit position ho
    subst ho
    exact limitReached_last e.quietUntil

/-- Groups that may nest less deeply than the input asks for. -/
def deepGroups : Parser (SliceCursor Char) Char Empty :=
  (groupParser #['(', '(', ')', '(', '(']).limited (some 8)

/-- Inside the first inner group an opening parenthesis was missed at position 2, and the second
one led to the limit, with nothing said after that but the end. -/
def deepGroupsMessages : List (Message Empty) :=
  [.started ⟨0⟩ (groups.describe ⟨0⟩) 0, .failureMoved 2 ⟨1⟩, .limitReached 8 5,
    .aborted (.tooDeep 8 5)]

theorem deepGroups_messages : ∃ s', deepGroups.Runs (.fresh ()) (.aborted (.tooDeep 8 5)) s' ∧
    deepGroups.Tells (.fresh ()) (.aborted (.tooDeep 8 5)) s' deepGroupsMessages := by
  have hr : deepGroups.Runs (.fresh ()) (.aborted (.tooDeep 8 5))
      ⟨0, 8, some ⟨⟨#['(', '(', ')', '(', '('], 2⟩, ⟨1⟩, 8⟩, deepGroupsMessages.reverse, ()⟩ :=
    ⟨20, rfl⟩
  obtain ⟨-, messages, htells⟩ := messages_truthful hr
  have hsame : deepGroupsMessages = messages :=
    List.reverse_inj.1 (htells.log_eq.trans (List.append_nil _))
  rw [← hsame] at htells
  exact ⟨_, hr, htells⟩

end Parser
end PegMatcher
