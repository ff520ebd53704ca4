import Mathlib.Order.Bounds.Defs
import PegMatcher.Proofs.Reading.Stream
/-
A stream asks its source once for every position.

A walk keeps all cursors derived from the start of one stream.  Any of them may be advanced,
copied or looked at next, however far the others are.  The cursors at one position share its
node and show the answer that the source gave for it, and the source was asked once for every
position up to the furthest that any cursor reached.  A source may answer again after it has
answered nothing, but no cursor passes that position and the source is not asked again.
-/
namespace PegMatcher

variable {ε : Type}

/-- The cursors derived from the start of a stream so far, in the order in which they came
up, and the store of streams. -/
structure Walk (ε : Type) where
  cursors : List (StreamCursor ε)
  streams : Streams ε

namespace Walk

/-- What is done with the cursor of a number. -/
inductive Step
  | next (k : Nat)
  | clone (k : Nat)
  | peek (k : Nat)

def start (streams : Streams ε) (answer : Nat → Option ε) : Walk ε :=
  ⟨[(streams.start answer).1], (streams.start answer).2⟩

/-- Advancing and copying make one more cursor; looking changes nothing. -/
def perform (w : Walk ε) : Step → Walk ε
  | .next k =>
    match w.cursors[k]? with
    | some c => ⟨w.cursors ++ [(c.next w.streams).1], (c.next w.streams).2⟩
    | none => w
  | .clone k =>
    match w.cursors[k]? with
    | some c => ⟨w.cursors ++ [c], w.streams⟩
    | none => w
  | .peek _ => w

def after (streams : Streams ε) (answer : Nat → Option ε) (steps : List Step) : Walk ε :=
  steps.foldl perform (start streams answer)

end Walk

/-- The source first answers nothing to request number `n`. -/
def FirstNone (answer : Nat → Option ε) (n : Nat) : Prop :=
  answer n = none ∧ ∀ m < n, (answer m).isSome

namespace StreamCursor

variable {starts : Set (StreamCursor ε)} {streams : Streams ε} {c : StreamCursor ε}
  {x : Nat → Option ε}

theorem Pulled.requests_eq {requests : Nat} (h : c.Pulled streams x requests) :
    streams.requests c.source = requests := by
  unfold Streams.requests
  rw [h.source_eq]

/-- A new stream has asked its source once. -/
theorem requests_start (streams : Streams ε) (answer : Nat → Option ε) :
    (streams.start answer).2.requests streams.sources.size = 1 := by
  rw [← source_start streams answer]
  exact (pulled_of_start streams answer).requests_eq

theorem Over.position_lt (h : Over starts streams c x) :
    c.position < streams.requests c.source := by
  obtain ⟨requests, hp⟩ := h.pulled
  rw [hp.requests_eq]
  exact hp.position_lt

/-- Advancing stays on the stream and asks the source when it leads further than any cursor
was before. -/
theorem Over.next_requests (h : Over starts streams c x) :
    (c.next streams).1.source = c.source ∧
      (c.next streams).2.requests c.source =
        max (streams.requests c.source) ((c.next streams).1.position + 1) := by
  have hbehind := h.position_lt
  rcases next_cases h.sound h.knows with ⟨-, hnext⟩ | ⟨d, hd, -, hnext⟩ | ⟨hsome, answer, hl, hp⟩
  · rw [hnext]
    exact ⟨rfl, (Nat.max_eq_left hbehind).symm⟩
  · have hover := h.next.1
    obtain ⟨hsource, -⟩ := h.sound.follows h.knows hd
    rw [hnext] at hover ⊢
    have hlt := hover.position_lt
    rw [hsource] at hlt
    exact ⟨hsource, (Nat.max_eq_left hlt).symm⟩
  · have hpulled := pulled_next hl hsome hp
    have hsource : (c.next streams).1.source = c.source := by rw [hl.next_cursor hsome]
    have hposition : (c.next streams).1.position = c.position + 1 := by
      rw [hl.next_cursor hsome]
    have hafter := hpulled.requests_eq
    rw [hsource] at hafter
    refine ⟨hsource, ?_⟩
    rw [hafter, hp.requests_eq, hposition]
    omega

end StreamCursor

namespace Walk

variable {starts : Set (StreamCursor ε)} {streams : Streams ε} {answer : Nat → Option ε}
  {source : Nat} {w : Walk ε}

/-- All cursors are over one source, which was asked as often as the furthest of them needs. -/
structure Memoized (starts : Set (StreamCursor ε)) (answer : Nat → Option ε) (source : Nat)
    (w : Walk ε) : Prop where
  over_source : ∀ c ∈ w.cursors, StreamCursor.Over starts w.streams c answer
  source_eq : ∀ c ∈ w.cursors, c.source = source
  furthest : ∃ c ∈ w.cursors, w.streams.requests source = c.position + 1

theorem memoized_start (answer : Nat → Option ε) (hs : streams.Sound starts) :
    (start streams answer).Memoized (insert (streams.start answer).1 starts) answer
      streams.sources.size := by
  refine ⟨fun c hc => ?_, fun c hc => ?_, _, List.mem_cons_self, ?_⟩
  · rw [List.mem_singleton.1 hc]
    exact (StreamCursor.over_start answer hs).1
  · rw [List.mem_singleton.1 hc]
    exact StreamCursor.source_start streams answer
  · rw [StreamCursor.position_start]
    exact StreamCursor.requests_start streams answer

theorem Memoized.clone (h : w.Memoized starts answer source) {c : StreamCursor ε}
    (hc : c ∈ w.cursors) :
    (⟨w.cursors ++ [c], w.streams⟩ : Walk ε).Memoized starts answer source := by
  have hsame : ∀ d ∈ w.cursors ++ [c], d ∈ w.cursors := by
    intro d hd
    rcases List.mem_append.1 hd with hd | hd
    · exact hd
    · rwa [List.mem_singleton.1 hd]
  obtain ⟨d, hd, hrequests⟩ := h.furthest
  exact ⟨fun d hd => h.over_source d (hsame d hd), fun d hd => h.source_eq d (hsame d hd), d,
    List.mem_append_left _ hd, hrequests⟩

theorem Memoized.next (h : w.Memoized starts answer source) {c : StreamCursor ε}
    (hc : c ∈ w.cursors) :
    (⟨w.cursors ++ [(c.next w.streams).1], (c.next w.streams).2⟩ : Walk ε).Memoized starts answer
      source := by
  obtain ⟨hnew, hothers⟩ := (h.over_source c hc).next
  obtain ⟨hsource, hrequests⟩ := (h.over_source c hc).next_requests
  rw [h.source_eq c hc] at hsource hrequests
  refine ⟨fun d hd => ?_, fun d hd => ?_, ?_⟩
  · rcases List.mem_append.1 hd with hd | hd
    · exact hothers d answer (h.over_source d hd)
    · rw [List.mem_singleton.1 hd]
      exact hnew
  · rcases List.mem_append.1 hd with hd | hd
    · exact h.source_eq d hd
    · rw [List.mem_singleton.1 hd]
      exact hsource
  · show ∃ d ∈ w.cursors ++ [(c.next w.streams).1],
      (c.next w.streams).2.requests source = d.position + 1
    rw [hrequests]
    rcases Nat.le_total ((c.next w.streams).1.position + 1) (w.streams.requests source) with
      hle | hle
    · obtain ⟨d, hd, hbefore⟩ := h.furthest
      exact ⟨d, List.mem_append_left _ hd, (Nat.max_eq_left hle).trans hbefore⟩
    · exact ⟨_, List.mem_append_right _ (List.mem_singleton.2 rfl), Nat.max_eq_right hle⟩

theorem Memoized.perform (h : w.Memoized starts answer source) (step : Step) :
    (w.perform step).Memoized starts answer source := by
  cases step with
  | peek k => exact h
  | clone k =>
    rw [Walk.perform]
    split
    · exact h.clone (List.mem_of_getElem? ‹_›)
    · exact h
  | next k =>
    rw [Walk.perform]
    split
    · exact h.next (List.mem_of_getElem? ‹_›)
    · exact h

theorem memoized_after (answer : Nat → Option ε) (hs : streams.Sound starts) (steps : List Step) :
    (after streams answer steps).Memoized (insert (streams.start answer).1 starts) answer
      streams.sources.size := by
  have hrun (w : Walk ε) (hw : w.Memoized (insert (streams.start answer).1 starts) answer
      streams.sources.size) : (steps.foldl Walk.perform w).Memoized
        (insert (streams.start answer).1 starts) answer streams.sources.size := by
    induction steps generalizing w with
    | nil => exact hw
    | cons step steps ih => exact ih (w.perform step) (hw.perform step)
  exact hrun _ (memoized_start answer hs)

namespace Memoized

variable (h : w.Memoized starts answer source) {c d : StreamCursor ε} (hc : c ∈ w.cursors)
include h hc

theorem peek_eq : Cursor.peek c = answer c.position :=
  (StreamCursor.shared starts).peek_eq (h.over_source c hc)

theorem position_next (hsome : (Cursor.peek c).isSome) :
    (Cursor.next c w.streams).1.position = c.position + 1 :=
  (StreamCursor.shared starts).position_next (h.over_source c hc) hsome

theorem sameNode_iff (hd : d ∈ w.cursors) : c.sameNode d = true ↔ c.position = d.position := by
  have hsound := (h.over_source c hc).sound
  have hsource : c.source = d.source := (h.source_eq c hc).trans (h.source_eq d hd).symm
  unfold StreamCursor.sameNode
  rw [decide_eq_true_iff]
  constructor
  · intro hnode
    rw [hsound.node_inj (h.over_source c hc).knows (h.over_source d hd).knows hnode]
  · intro hposition
    rw [hsound.place_inj (h.over_source c hc).knows (h.over_source d hd).knows hsource hposition]

theorem position_lt : c.position < w.streams.requests source := by
  rw [← h.source_eq c hc]
  exact (h.over_source c hc).position_lt

/-- No cursor passes the first request that is answered with nothing. -/
theorem position_le {n : Nat} (hn : FirstNone answer n) :
    c.position ≤ n ∧ (Cursor.peek c = none ↔ c.position = n) := by
  have hpassed := (StreamCursor.shared starts).passed (h.over_source c hc)
  have hle : c.position ≤ n := by
    refine Nat.le_of_not_lt fun hlt => ?_
    have hsome := hpassed n hlt
    rw [hn.1] at hsome
    cases hsome
  refine ⟨hle, ?_⟩
  rw [h.peek_eq hc]
  constructor
  · intro hnone
    refine Nat.le_antisymm hle (Nat.le_of_not_lt fun hlt => ?_)
    have hsome := hn.2 c.position hlt
    rw [hnone] at hsome
    cases hsome
  · intro heq
    rw [heq]
    exact hn.1

end Memoized

section
variable (h : w.Memoized starts answer source)
include h

theorem Memoized.exists_furthest :
    ∃ furthest, IsGreatest {k | ∃ c ∈ w.cursors, c.position = k} furthest ∧
      w.streams.requests source = 1 + furthest := by
  obtain ⟨c, hc, hrequests⟩ := h.furthest
  refine ⟨c.position, ⟨⟨c, hc, rfl⟩, fun k hk => ?_⟩, hrequests.trans (Nat.add_comm _ _)⟩
  obtain ⟨d, hd, hposition⟩ := hk
  have hlt := h.position_lt hd
  rw [hrequests, hposition] at hlt
  exact Nat.le_of_lt_succ hlt

theorem Memoized.requests_le {n : Nat} (hn : FirstNone answer n) :
    w.streams.requests source ≤ n + 1 := by
  obtain ⟨c, hc, hrequests⟩ := h.furthest
  rw [hrequests]
  exact Nat.succ_le_succ (h.position_le hc hn).1

end

/-- After any steps on the cursors of a stream: a cursor shows the answer to the request that
its position numbers, and none passes the first answer that is nothing; at the end advancing
gives the cursor itself, and anywhere else one at the next position; cursors share a node
exactly when they are at one position; and the source was asked once for each position up to
the furthest, and not again after it answered nothing. -/
theorem pulled_once (answer : Nat → Option ε) (hs : streams.Sound starts) (steps : List Step) :
    let w := after streams answer steps
    let requests := w.streams.requests streams.sources.size
    (∀ c ∈ w.cursors, Cursor.peek c = answer c.position ∧
      (∀ n, FirstNone answer n → c.position ≤ n ∧ (Cursor.peek c = none ↔ c.position = n)) ∧
      (Cursor.peek c = none → Cursor.next c w.streams = (c, w.streams)) ∧
      ((Cursor.peek c).isSome → (Cursor.next c w.streams).1.position = c.position + 1) ∧
      ∀ d ∈ w.cursors, c.sameNode d = true ↔ c.position = d.position) ∧
    (∃ furthest, IsGreatest {k | ∃ c ∈ w.cursors, c.position = k} furthest ∧
      requests = 1 + furthest) ∧
    ∀ n, FirstNone answer n → requests ≤ n + 1 := by
  intro w requests
  have h := memoized_after answer hs steps
  refine ⟨fun c hc => ⟨h.peek_eq hc, fun n hn => h.position_le hc hn, fun hnone => ?_,
    h.position_next hc, fun d hd => h.sameNode_iff hc hd⟩, h.exists_furthest, fun n hn => ?_⟩
  · exact StreamCursor.next_ended hnone
  · exact h.requests_le hn

/-- A letter, a stop, and a letter that only comes after the stop. -/
def resuming (n : Nat) : Option Char := [some 'a', none, some 'b'][n]?.join

/-- Twice from the start, and twice from the cursors at the stop. -/
def resumingSteps : List Step := [.next 0, .next 0, .next 1, .next 3]

/-- The cursors get to the stop and no further, so that only the letter and the stop are asked
for. -/
theorem resuming_pulled_once : (Streams.empty : Streams Char).Sound ∅ ∧ FirstNone resuming 1 ∧
    IsGreatest {k | ∃ c ∈ (after .empty resuming resumingSteps).cursors, c.position = k} 1 ∧
    (after .empty resuming resumingSteps).streams.requests 0 = 2 := by
  have hstop : FirstNone resuming 1 := by
    refine ⟨rfl, fun m hm => ?_⟩
    rw [Nat.lt_one_iff.1 hm]
    rfl
  have hsound : (Streams.empty : Streams Char).Sound ∅ := StreamCursor.sound_empty
  obtain ⟨-, ⟨furthest, hgreatest, hrequests⟩, hasked⟩ := pulled_once resuming hsound resumingSteps
  have hcursor : (after .empty resuming resumingSteps).cursors[1]? = some ⟨1, 0, 1, none⟩ := rfl
  have hreached : 1 ≤ furthest := hgreatest.2 ⟨_, List.mem_of_getElem? hcursor, rfl⟩
  have hbound := hasked 1 hstop
  rw [hrequests] at hbound
  obtain rfl : furthest = 1 := by omega
  exact ⟨hsound, hstop, hgreatest, hrequests⟩

end Walk
end PegMatcher
