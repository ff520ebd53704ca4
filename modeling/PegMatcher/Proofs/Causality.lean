import PegMatcher.Proofs.Interchange
import PegMatcher.Proofs.Simulation.Unread
/-
Parsing a stream is causal.

A run over a stream has asked its source a number of times when it ends.  Every source that
gives the same answers to these requests, whatever it would answer later and whether it ends
or not, makes the run end with the same report after as many requests, `Grammar.causal`.

The store keeps the answers of a source as a function, so that another source with the same
answers so far is an edit of the store that the run never notices.  Which store the stream was
started in makes no difference either, because streams do not share their nodes.
-/
namespace PegMatcher

variable {ε π : Type}

/-! ## Sources with other answers -/

namespace Streams

variable {streams : Streams ε} {answer answer' : Nat → Option ε} {source bound : Nat}

/-- The store in which a source gives other answers. -/
def answering (streams : Streams ε) (source : Nat) (answer : Nat → Option ε) : Streams ε :=
  ⟨streams.sources.modify source fun s => ⟨answer, s.requests⟩, streams.links⟩

/-- A source gives these answers, and was asked no more than this often. -/
def AskedAtMost (answer : Nat → Option ε) (source bound : Nat) (streams : Streams ε) : Prop :=
  ∃ requests ≤ bound, streams.sources[source]? = some ⟨answer, requests⟩

theorem AskedAtMost.requests_answering (h : streams.AskedAtMost answer source bound) :
    (streams.answering source answer').requests source = streams.requests source := by
  obtain ⟨requests, -, hsource⟩ := h
  unfold Streams.requests answering
  rw [Array.getElem?_modify, if_pos rfl, hsource]
  rfl

theorem modify_setIfInBounds {α : Type} (xs : Array α) (f : α → α) (m n : Nat) (a : α) :
    (xs.modify m f).setIfInBounds n (if m = n then f a else a) =
      (xs.setIfInBounds n a).modify m f := by
  refine Array.ext_getElem? fun k => ?_
  rw [Array.getElem?_modify, Array.getElem?_setIfInBounds, Array.getElem?_setIfInBounds,
    Array.getElem?_modify, Array.size_modify]
  by_cases hk : n = k
  · subst hk
    by_cases hm : m = n <;> by_cases hlt : n < xs.size <;> simp [hm, hlt]
  · simp only [if_neg hk]

theorem pull_none {s : Nat} (hs : streams.sources[s]? = none) (position : Nat) :
    streams.pull s position =
      (⟨streams.links.size, s, position, none⟩, ⟨streams.sources, streams.links.push none⟩) := by
  unfold pull
  rw [hs]

theorem pull_some {s : Nat} {t : Source ε} (hs : streams.sources[s]? = some t) (position : Nat) :
    streams.pull s position = (⟨streams.links.size, s, position, t.answer t.requests⟩,
      ⟨streams.sources.setIfInBounds s ⟨t.answer, t.requests + 1⟩, streams.links.push none⟩) := by
  unfold pull
  rw [hs]

/-- A pull within the bound does not notice that the source gives other answers beyond it. -/
theorem pull_answering (hsame : ∀ n < bound, answer' n = answer n) (s position : Nat)
    (h : (streams.pull s position).2.AskedAtMost answer source bound) :
    streams.AskedAtMost answer source bound ∧
      (streams.answering source answer').pull s position =
        ((streams.pull s position).1, (streams.pull s position).2.answering source answer') := by
  have hread : (streams.answering source answer').sources[s]? = if source = s then
      streams.sources[s]?.map fun t => ⟨answer', t.requests⟩ else streams.sources[s]? :=
    Array.getElem?_modify
  cases hs : streams.sources[s]? with
  | none =>
    rw [hs, Option.map_none, ite_self] at hread
    rw [pull_none hs] at h ⊢
    rw [pull_none hread]
    exact ⟨h, rfl⟩
  | some t =>
    have hwrite := modify_setIfInBounds streams.sources
      (fun t : Source ε => ⟨answer', t.requests⟩) source s ⟨t.answer, t.requests + 1⟩
    rw [hs, Option.map_some] at hread
    rw [pull_some hs] at h ⊢
    obtain ⟨requests, hle, hsource⟩ := h
    by_cases heq : source = s
    · subst heq
      have hlt := (Array.getElem?_eq_some_iff.1 hs).1
      rw [if_pos rfl] at hread hwrite
      rw [Array.getElem?_setIfInBounds_self_of_lt hlt] at hsource
      obtain ⟨rfl, rfl⟩ := Source.mk.inj (Option.some.inj hsource)
      refine ⟨⟨t.requests, Nat.le_of_succ_le hle, hs⟩, ?_⟩
      -- the answer that is pulled is within the bound, where both sources agree
      have hagree : answer' t.requests = t.answer t.requests := hsame t.requests hle
      rw [pull_some hread]
      dsimp only
      rw [hagree]
      exact congrArg (fun sources => (_, (⟨sources, _⟩ : Streams ε))) hwrite
    · rw [if_neg heq] at hread hwrite
      rw [Array.getElem?_setIfInBounds_ne (Ne.symm heq)] at hsource
      refine ⟨⟨requests, hle, hsource⟩, ?_⟩
      rw [pull_some hread]
      exact congrArg (fun sources => (_, (⟨sources, _⟩ : Streams ε))) hwrite

end Streams

namespace StreamCursor

variable {streams streams' : Streams ε} {answer answer' : Nat → Option ε}
  {source source' bound : Nat} {c d : StreamCursor ε}

theorem next_answering (hsame : ∀ n < bound, answer' n = answer n)
    (h : (c.next streams).2.AskedAtMost answer source bound) :
    streams.AskedAtMost answer source bound ∧
      c.next (streams.answering source answer') =
        ((c.next streams).1, (c.next streams).2.answering source answer') := by
  have hother : (streams.answering source answer').links = streams.links := rfl
  cases hc : c.current with
  | none =>
    have hnext (streams : Streams ε) : c.next streams = (c, streams) := next_ended hc
    rw [hnext] at h
    rw [hnext, hnext]
    exact ⟨h, rfl⟩
  | some item =>
    have hsome : c.current.isSome := Option.isSome_iff_exists.2 ⟨item, hc⟩
    by_cases hl : ∃ d, streams.links[c.node]? = some (some d)
    · obtain ⟨d, hd⟩ := hl
      rw [next_linked hsome hd] at h
      rw [next_linked hsome hd, next_linked hsome (hother ▸ hd)]
      exact ⟨h, rfl⟩
    · rw [next_unlinked hsome hl] at h
      obtain ⟨hwithin, hpull⟩ := Streams.pull_answering hsame c.source (c.position + 1) h
      rw [next_unlinked hsome hl, next_unlinked hsome (hother ▸ hl), hpull]
      exact ⟨hwithin, rfl⟩

/-- Cursors of streams do not notice answers that nobody has asked for. -/
theorem unread (hsame : ∀ n < bound, answer' n = answer n) :
    Cursor.Unread (StreamCursor ε) (Streams.answering · source answer')
      (Streams.AskedAtMost answer source bound) where
  within h := (next_answering hsame h).1
  next_edit h := (next_answering hsame h).2

/-- Another source with the same first answer starts a stream that looks the same. -/
theorem start_answering (streams : Streams ε) (h : answer' 0 = answer 0) :
    streams.start answer' = ((streams.start answer).1,
      (streams.start answer).2.answering streams.sources.size answer') := by
  have hsources : (streams.start answer').2.sources =
      ((streams.start answer).2.answering streams.sources.size answer').sources := by
    refine Array.ext_getElem? fun n => ?_
    show _ = ((streams.start answer).2.sources.modify _ _)[n]?
    rw [Array.getElem?_modify, start_sources, start_sources]
    by_cases hn : n = streams.sources.size
    · rw [if_pos hn, if_pos hn.symm, if_pos hn]
      rfl
    · rw [if_neg hn, if_neg (Ne.symm hn), if_neg hn]
  have hlinks : (streams.start answer').2.links = (streams.start answer).2.links := by
    rw [start_eq, start_eq]
  have hcursor : (streams.start answer').1 = (streams.start answer).1 := by
    rw [start_eq, start_eq, h]
  exact Prod.ext hcursor (congrArg₂ Streams.mk hsources hlinks)

/-! ## Streams in other stores -/

/-- Cursors of two streams at the same place, after both sources were asked equally often. -/
structure Twins (starts starts' : Set (StreamCursor ε)) (source source' : Nat)
    (streams streams' : Streams ε) (c d : StreamCursor ε) : Prop where
  place : Cursor.SamePlace (Over starts) (Over starts') streams streams' c d
  source_eq : c.source = source
  source_eq' : d.source = source'
  requests_eq : streams.requests source = streams'.requests source'

variable {starts starts' : Set (StreamCursor ε)}

theorem Twins.next (h : Twins starts starts' source source' streams streams' c d) :
    Twins starts starts' source source' (c.next streams).2 (d.next streams').2 (c.next streams).1
      (d.next streams').1 := by
  obtain ⟨⟨x, hc, hd, hp⟩, rfl, rfl, hrequests⟩ := h
  obtain ⟨hsource, hasked⟩ := hc.next_requests
  obtain ⟨hsource', hasked'⟩ := hd.next_requests
  have hposition : (c.next streams).1.position = (d.next streams').1.position := by
    exact (shared starts).position_next_apart (shared starts') 0 0 hc hd
      ((shared starts).samePlace_peek_eq (shared starts') ⟨x, hc, hd, hp⟩) hp
  refine ⟨⟨x, hc.next.1, hd.next.1, hposition⟩, hsource, hsource', ?_⟩
  rw [hasked, hasked', hrequests, hposition]

theorem twins_bridge (starts starts' : Set (StreamCursor ε)) (source source' : Nat) :
    Cursor.Bridge (Twins starts starts' source source') 0 0 where
  peek_eq h := ((shared starts).bridge (shared starts')).peek_eq h.place
  position_eq h := h.place.choose_spec.2.2
  moves h _ := h.next
  stays h he := ⟨((shared starts).bridge (shared starts')).stays h.place he.place, he.source_eq,
    he.source_eq', h.next.requests_eq⟩

theorem twins_start (answer : Nat → Option ε) (hs : streams.Sound starts)
    (hs' : streams'.Sound starts') :
    Twins (insert (streams.start answer).1 starts) (insert (streams'.start answer).1 starts')
      streams.sources.size streams'.sources.size (streams.start answer).2
      (streams'.start answer).2 (streams.start answer).1 (streams'.start answer).1 := by
  refine ⟨⟨answer, (over_start answer hs).1, (over_start answer hs').1, ?_⟩, source_start ..,
    source_start .., ?_⟩
  · exact (position_start streams answer).trans (position_start streams' answer).symm
  · rw [requests_start, requests_start]

end StreamCursor

/-! ## Runs over streams -/

variable [Element ε] [ElementValue ε π] [Payload π]

/-- A new parser runs a root over a new stream of a source with these answers, and comes to an
end with this report after so many requests in all. -/
def Grammar.RunsOver (g : Grammar ε π) (config : Config) (root : RuleId) (streams : Streams ε)
    (answer : Nat → Option ε) (requests : Nat) (r : Report π) : Prop :=
  ∃ o s, Parser.Runs ⟨g, root, (streams.start answer).1, config⟩
      (.fresh (streams.start answer).2) o s ∧
    s.input.requests streams.sources.size = requests ∧
    Parser.report ⟨g, root, (streams.start answer).1, config⟩ o s = r

namespace Grammar

variable {g : Grammar ε π} {config : Config} {root : RuleId} {answer answer' : Nat → Option ε}
  {starts starts' : Set (StreamCursor ε)} {streams streams' : Streams ε} {requests : Nat}
  {r : Report π}

/-- Another source with the same answers to the requests of a run, in the same store. -/
theorem RunsOver.answering (hs : streams.Sound starts)
    (h : g.RunsOver config root streams answer requests r)
    (hsame : ∀ n < requests, answer' n = answer n) :
    g.RunsOver config root streams answer' requests r := by
  obtain ⟨o, s, hr, rfl, rfl⟩ := h
  obtain ⟨s₁, hmatch, rfl⟩ := Parser.runs_iff.1 hr
  obtain ⟨hover, -⟩ := StreamCursor.over_start answer hs
  obtain ⟨marks, hleaves⟩ := hmatch.leaves rfl
  have hend := hleaves.evaluates.stays (StreamCursor.shared _) hover hover
  obtain ⟨requests, hasked⟩ := hend.pulled
  have hrequests := hasked.requests_eq
  have hread := hasked.source_eq
  rw [StreamCursor.source_start] at hrequests hread
  have hwithin : s₁.input.AskedAtMost answer streams.sources.size
      (s₁.input.requests streams.sources.size) := ⟨requests, Nat.le_of_eq hrequests.symm, hread⟩
  have hfirst : answer' 0 = answer 0 :=
    hsame 0 (hrequests ▸ Nat.lt_of_le_of_lt (Nat.zero_le _) hasked.position_lt)
  have hedited := hmatch.unread (StreamCursor.unread hsame) hwithin
  rw [RunsOver, StreamCursor.start_answering streams hfirst]
  exact ⟨o, _, Parser.runs_iff.2 ⟨_, hedited, rfl⟩, hwithin.requests_answering, rfl⟩

/-- The same source, in another store. -/
theorem RunsOver.elsewhere (hs : streams.Sound starts) (hs' : streams'.Sound starts')
    (h : g.RunsOver config root streams answer requests r) :
    g.RunsOver config root streams' answer requests r := by
  obtain ⟨o, s, hr, rfl, rfl⟩ := h
  obtain ⟨s₁, hmatch, rfl⟩ := Parser.runs_iff.1 hr
  have hK := StreamCursor.twins_bridge (insert (streams.start answer).1 starts)
    (insert (streams'.start answer).1 starts') streams.sources.size streams'.sources.size
  have htwins := StreamCursor.twins_start answer hs hs'
  let q : Parser (StreamCursor ε) ε π := ⟨g, root, (streams'.start answer).1, config⟩
  obtain ⟨o', t, hcopy, hstay, ho, ht⟩ := hmatch.copied (q := q)
    (t := q.opened (.fresh (streams'.start answer).2)) hK (g.corresponds_eq config.kind) rfl
    htwins ⟨rfl, rfl, .none⟩
  exact ⟨o', _, Parser.runs_iff.2 ⟨t, hcopy, rfl⟩, (hstay _ _ htwins).requests_eq.symm,
    (Parser.report_eq hK rfl ht ho).symm⟩

/-- A run over a stream depends on the answers that it asked for only.  Every source with
these answers, in whatever store, makes the run end with the same report, after as many
requests. -/
theorem causal (hs : streams.Sound starts) (hs' : streams'.Sound starts')
    (h : g.RunsOver config root streams answer requests r)
    (hsame : ∀ n < requests, answer' n = answer n) :
    g.RunsOver config root streams' answer' requests r :=
  (h.answering hs hsame).elsewhere hs hs'

/-- An opening parenthesis and closing ones without end. -/
def closings (n : Nat) : Option Char := some (if n = 0 then '(' else ')')

/-- A group is found at the start of an endless input after three requests, and so it is when
the input ends there. -/
theorem groups_causal : ∃ r, (Streams.empty : Streams Char).Sound ∅ ∧
    groups.RunsOver ⟨.array, none⟩ ⟨0⟩ .empty closings 3 r ∧
    (∀ n < 3, ['(', ')', ')'][n]? = closings n) ∧
    groups.RunsOver ⟨.array, none⟩ ⟨0⟩ .empty (fun n => ['(', ')', ')'][n]?) 3 r := by
  have hendless : groups.RunsOver ⟨.array, none⟩ ⟨0⟩ .empty closings 3 _ :=
    ⟨_, _, ⟨20, rfl⟩, rfl, rfl⟩
  have hsame : ∀ n < 3, ['(', ')', ')'][n]? = closings n := by decide
  have hsound : (Streams.empty : Streams Char).Sound ∅ := StreamCursor.sound_empty
  exact ⟨_, hsound, hendless, hsame, causal hsound hsound hendless hsame⟩

end Grammar
end PegMatcher
