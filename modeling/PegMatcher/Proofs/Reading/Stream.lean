import Mathlib.Data.Set.Insert
import PegMatcher.Cursor.Stream
import PegMatcher.Proofs.Reading.Shared
/-
Cursors share the streams they are over.

The cursors at hand are those that streams were started with and those that links lead to.
A store is sound for them when every position of a stream that was pulled has one node with
one cursor, and only the last position pulled from a source has a node without a link.
Starting a stream and advancing any cursor keep a store sound, and keep every cursor at
hand over its stream, so that cursors over all streams together share them.

Advancing for the first time pulls an answer and sets the link of the node; advancing again
follows the link.  Links that are set are never set anew, which is why places that were reached
once are found again.
-/
namespace PegMatcher

variable {ε : Type}

namespace StreamCursor

/-- The source of the cursor was asked this often, and answered the elements before the
cursor and the one at it. -/
structure Pulled (c : StreamCursor ε) (streams : Streams ε) (answer : Nat → Option ε)
    (requests : Nat) : Prop where
  source_eq : streams.sources[c.source]? = some ⟨answer, requests⟩
  current_eq : c.current = answer c.position
  passed : ∀ n < c.position, (answer n).isSome
  position_lt : c.position < requests
  /-- A cursor without a successor has the last element that was pulled. -/
  latest : streams.links[c.node]? = some none → requests = c.position + 1

end StreamCursor

namespace Streams

/-- A stream was started with the cursor, or a link leads to it. -/
def Knows (starts : Set (StreamCursor ε)) (streams : Streams ε) (c : StreamCursor ε) : Prop :=
  c ∈ starts ∨ ∃ n : Nat, streams.links[n]? = some (some c)

structure Sound (starts : Set (StreamCursor ε)) (streams : Streams ε) : Prop where
  node_lt {c} (h : streams.Knows starts c) : c.node < streams.links.size
  pulled {c} (h : streams.Knows starts c) : ∃ answer requests, c.Pulled streams answer requests
  follows {c d} (h : streams.Knows starts c) (hd : streams.links[c.node]? = some (some d)) :
    d.source = c.source ∧ d.position = c.position + 1
  node_inj {c d} (hc : streams.Knows starts c) (hd : streams.Knows starts d)
    (h : c.node = d.node) : c = d
  place_inj {c d} (hc : streams.Knows starts c) (hd : streams.Knows starts d)
    (hs : c.source = d.source) (hp : c.position = d.position) : c = d

/-- A store with one more cursor at hand, at a new node and a new place, is sound when the
cursors from before are pulled and followed as they should be. -/
theorem Sound.extend {starts starts' : Set (StreamCursor ε)} {streams streams' : Streams ε}
    {e : StreamCursor ε} (hs : streams.Sound starts)
    (hknows : ∀ d, streams'.Knows starts' d ↔ streams.Knows starts d ∨ d = e)
    (hsize : streams'.links.size = streams.links.size + 1)
    (hnode : e.node = streams.links.size) (hlink : streams'.links[e.node]? = some none)
    (hplace : ∀ d, streams.Knows starts d → d.source = e.source → d.position ≠ e.position)
    (hnew : ∃ answer requests, e.Pulled streams' answer requests)
    (hpulled : ∀ d, streams.Knows starts d →
      ∃ answer requests, d.Pulled streams' answer requests)
    (hfollows : ∀ c d, streams.Knows starts c → streams'.links[c.node]? = some (some d) →
      d.source = c.source ∧ d.position = c.position + 1) : streams'.Sound starts' := by
  have hother {d} (hd : streams.Knows starts d) : d.node ≠ e.node := by
    rw [hnode]
    exact Nat.ne_of_lt (hs.node_lt hd)
  refine ⟨fun {d} hd => ?_, fun {d} hd => ?_, fun {d d'} hd hd' => ?_, fun {d d'} hd hd' heq => ?_,
    fun {d d'} hd hd' hsource hposition => ?_⟩
  · rw [hsize]
    rcases (hknows d).1 hd with hd | rfl
    · exact Nat.lt_succ_of_lt (hs.node_lt hd)
    · rw [hnode]
      exact Nat.lt_succ_self _
  · rcases (hknows d).1 hd with hd | rfl
    · exact hpulled d hd
    · exact hnew
  · rcases (hknows d).1 hd with hd | rfl
    · exact hfollows d d' hd hd'
    · rw [hlink] at hd'
      cases hd'
  · rcases (hknows d).1 hd with hd | rfl
    · rcases (hknows d').1 hd' with hd' | rfl
      · exact hs.node_inj hd hd' heq
      · exact absurd heq (hother hd)
    · rcases (hknows d').1 hd' with hd' | rfl
      · exact absurd heq.symm (hother hd')
      · rfl
  · rcases (hknows d).1 hd with hd | rfl
    · rcases (hknows d').1 hd' with hd' | rfl
      · exact hs.place_inj hd hd' hsource hposition
      · exact absurd hposition (hplace d hd hsource)
    · rcases (hknows d').1 hd' with hd' | rfl
      · exact absurd hposition.symm (hplace d' hd' hsource.symm)
      · rfl

end Streams

namespace StreamCursor

variable {starts : Set (StreamCursor ε)} {streams : Streams ε} {c d : StreamCursor ε}
  {answer x y : Nat → Option ε}

theorem next_ended (hc : c.current = none) : c.next streams = (c, streams) := by
  unfold next
  rw [hc]

theorem next_linked (hc : c.current.isSome) (hd : streams.links[c.node]? = some (some d)) :
    c.next streams = (d, streams) := by
  obtain ⟨item, hitem⟩ := Option.isSome_iff_exists.1 hc
  unfold next
  rw [hitem, hd]

/-- Without a link, advancing pulls and sets the link. -/
theorem next_unlinked (hc : c.current.isSome)
    (hl : ¬∃ d, streams.links[c.node]? = some (some d)) :
    c.next streams = ((streams.pull c.source (c.position + 1)).1,
      ⟨(streams.pull c.source (c.position + 1)).2.sources,
        (streams.pull c.source (c.position + 1)).2.links.setIfInBounds c.node
          (some (streams.pull c.source (c.position + 1)).1)⟩) := by
  obtain ⟨item, hitem⟩ := Option.isSome_iff_exists.1 hc
  unfold next
  rw [hitem]
  rcases hlink : streams.links[c.node]? with _ | _ | d
  · rfl
  · rfl
  · exact absurd ⟨d, hlink⟩ hl

/-! ## Pulling one more element -/

/-- A cursor at the last node pulled so far from its source, which answers `answer`. -/
structure Latest (c : StreamCursor ε) (streams : Streams ε) (answer : Nat → Option ε) :
    Prop where
  current_eq : c.current = answer c.position
  source_eq : streams.sources[c.source]? = some ⟨answer, c.position + 1⟩
  link_eq : streams.links[c.node]? = some none

namespace Latest

variable (h : c.Latest streams answer) (hc : c.current.isSome)
include h hc

/-- Advancing past the last node pulls the next answer. -/
theorem next_eq : c.next streams =
    (⟨streams.links.size, c.source, c.position + 1, answer (c.position + 1)⟩,
      ⟨streams.sources.setIfInBounds c.source ⟨answer, c.position + 2⟩,
        (streams.links.push none).setIfInBounds c.node
          (some ⟨streams.links.size, c.source, c.position + 1, answer (c.position + 1)⟩)⟩) := by
  obtain ⟨x, hx⟩ := Option.isSome_iff_exists.1 hc
  unfold StreamCursor.next Streams.pull
  rw [hx, h.link_eq, h.source_eq]

theorem next_cursor : (c.next streams).1 =
    ⟨streams.links.size, c.source, c.position + 1, answer (c.position + 1)⟩ := by
  rw [h.next_eq hc]

theorem next_sources (s : Nat) : (c.next streams).2.sources[s]? =
    if s = c.source then some ⟨answer, c.position + 2⟩ else streams.sources[s]? := by
  have hlt := (Array.getElem?_eq_some_iff.1 h.source_eq).1
  rw [h.next_eq hc]
  show (streams.sources.setIfInBounds c.source _)[s]? = _
  rw [Array.getElem?_setIfInBounds]
  by_cases hs : s = c.source
  · rw [if_pos hs.symm, if_pos hs, if_pos hlt]
  · rw [if_neg (Ne.symm hs), if_neg hs]

theorem next_links (n : Nat) : (c.next streams).2.links[n]? =
    if n = c.node then some (some (c.next streams).1)
    else if n = streams.links.size then some none else streams.links[n]? := by
  have hlt := (Array.getElem?_eq_some_iff.1 h.link_eq).1
  rw [h.next_cursor hc, h.next_eq hc]
  show ((streams.links.push none).setIfInBounds c.node _)[n]? = _
  rw [Array.getElem?_setIfInBounds, Array.size_push, Array.getElem?_push]
  by_cases hn : n = c.node
  · rw [if_pos hn.symm, if_pos hn, if_pos (Nat.lt_succ_of_lt hlt)]
  · rw [if_neg (Ne.symm hn), if_neg hn]

/-- The link past the last node is set by advancing, and the other links stay. -/
theorem next_link : (c.next streams).2.links[c.node]? = some (some (c.next streams).1) ∧
    ∀ (n : Nat) (d : StreamCursor ε), streams.links[n]? = some (some d) →
      (c.next streams).2.links[n]? = some (some d) := by
  refine ⟨by rw [h.next_links hc, if_pos rfl], fun n d hd => ?_⟩
  have hlt := (Array.getElem?_eq_some_iff.1 hd).1
  have hne : n ≠ c.node := by
    intro hn
    rw [hn, h.link_eq] at hd
    cases hd
  rw [h.next_links hc, if_neg hne, if_neg (Nat.ne_of_lt hlt)]
  exact hd

theorem next_size : (c.next streams).2.links.size = streams.links.size + 1 := by
  rw [h.next_eq hc]
  show ((streams.links.push none).setIfInBounds c.node _).size = _
  rw [Array.size_setIfInBounds, Array.size_push]

end Latest

/-- Advancing stays at the end, follows a link or pulls. -/
theorem next_cases (hs : streams.Sound starts) (hc : streams.Knows starts c) :
    c.current = none ∧ c.next streams = (c, streams) ∨
      (∃ d, streams.links[c.node]? = some (some d) ∧ c.current.isSome ∧
        c.next streams = (d, streams)) ∨
      c.current.isSome ∧ ∃ answer, c.Latest streams answer ∧
        c.Pulled streams answer (c.position + 1) := by
  cases hcurrent : c.current with
  | none => exact .inl ⟨rfl, next_ended hcurrent⟩
  | some item =>
    have hsome : c.current.isSome := Option.isSome_iff_exists.2 ⟨item, hcurrent⟩
    have hlink := Array.getElem?_eq_getElem (hs.node_lt hc)
    cases hd : streams.links[c.node]? with
    | none => exact absurd (hlink.symm.trans hd) nofun
    | some link =>
      cases link with
      | none =>
        obtain ⟨answer, requests, hp⟩ := hs.pulled hc
        cases hp.latest hd
        exact .inr (.inr ⟨rfl, answer, ⟨hp.current_eq, hp.source_eq, hd⟩, hp⟩)
      | some d => exact .inr (.inl ⟨d, rfl, rfl, next_linked hsome hd⟩)

/-! ## What pulling keeps -/

section Pulling

variable (hs : streams.Sound starts) (hc : streams.Knows starts c)
  (h : c.Latest streams answer) (hsome : c.current.isSome)
include hs hc h hsome

omit hs hc in
theorem knows_pull : (c.next streams).2.Knows starts d ↔
    streams.Knows starts d ∨ d = (c.next streams).1 := by
  constructor
  · rintro (hd | ⟨n, hn⟩)
    · exact .inl (.inl hd)
    · rw [h.next_links hsome] at hn
      split at hn
      · exact .inr (Option.some.inj (Option.some.inj hn)).symm
      · split at hn
        · cases hn
        · exact .inl (.inr ⟨n, hn⟩)
  · rintro ((hd | ⟨n, hn⟩) | rfl)
    · exact .inl hd
    · have hlt := (Array.getElem?_eq_some_iff.1 hn).1
      have hne : n ≠ c.node := by
        rintro rfl
        rw [h.link_eq] at hn
        cases hn
      refine .inr ⟨n, ?_⟩
      rw [h.next_links hsome, if_neg hne, if_neg (Nat.ne_of_lt hlt)]
      exact hn
    · exact .inr ⟨c.node, by rw [h.next_links hsome, if_pos rfl]⟩

/-- The link of a node that was there before is set only for the cursor that advances. -/
theorem link_pull (hd : streams.Knows starts d) (hne : d ≠ c) :
    (c.next streams).2.links[d.node]? = streams.links[d.node]? := by
  have hnode : d.node ≠ c.node := fun heq => hne (hs.node_inj hd hc heq)
  have hold : d.node ≠ streams.links.size := Nat.ne_of_lt (hs.node_lt hd)
  rw [h.next_links hsome, if_neg hnode, if_neg hold]

theorem pulled_pull (hp : c.Pulled streams answer (c.position + 1)) {requests : Nat}
    (hd : streams.Knows starts d) (hq : d.Pulled streams y requests) :
    ∃ requests', d.Pulled (c.next streams).2 y requests' := by
  have hlatest : (c.next streams).2.links[d.node]? = some none →
      d ≠ c ∧ requests = d.position + 1 := by
    intro hnone
    by_cases hdc : d = c
    · rw [hdc, h.next_links hsome, if_pos rfl] at hnone
      cases hnone
    · rw [link_pull hs hc h hsome hd hdc] at hnone
      exact ⟨hdc, hq.latest hnone⟩
  by_cases hsource : d.source = c.source
  · have hsame := hq.source_eq
    rw [hsource, hp.source_eq] at hsame
    cases hsame
    refine ⟨c.position + 2, ?_, hq.current_eq, hq.passed, ?_, fun hnone => ?_⟩
    · rw [h.next_sources hsome, if_pos hsource]
    · exact Nat.lt_succ_of_lt hq.position_lt
    · obtain ⟨hdc, hlast⟩ := hlatest hnone
      exact absurd (hs.place_inj hd hc hsource (by omega)) hdc
  · refine ⟨requests, ?_, hq.current_eq, hq.passed, hq.position_lt, fun hnone => ?_⟩
    · rw [h.next_sources hsome, if_neg hsource]
      exact hq.source_eq
    · exact (hlatest hnone).2

omit hs hc in
/-- The new cursor has the last element pulled. -/
theorem pulled_next (hp : c.Pulled streams answer (c.position + 1)) :
    (c.next streams).1.Pulled (c.next streams).2 answer (c.position + 2) := by
  have hcursor := h.next_cursor hsome
  refine ⟨?_, ?_, ?_, ?_, fun _ => ?_⟩
  · rw [h.next_sources hsome, hcursor, if_pos rfl]
  · rw [hcursor]
  · rw [hcursor]
    intro n hn
    rcases Nat.lt_or_eq_of_le (Nat.le_of_lt_succ hn) with hlt | rfl
    · exact hp.passed n hlt
    · rwa [← hp.current_eq]
  · rw [hcursor]
    exact Nat.lt_succ_self _
  · rw [hcursor]

theorem sound_pull (hp : c.Pulled streams answer (c.position + 1)) :
    (c.next streams).2.Sound starts := by
  have hcursor := h.next_cursor hsome
  have hnode : (c.next streams).1.node = streams.links.size := by rw [hcursor]
  refine hs.extend (fun d => knows_pull h hsome) (h.next_size hsome) hnode ?_ ?_ ?_ ?_ ?_
  · have hne : streams.links.size ≠ c.node := (Nat.ne_of_lt (hs.node_lt hc)).symm
    rw [h.next_links hsome, hnode, if_neg hne, if_pos rfl]
  · intro d hd hsource
    obtain ⟨_, requests, hq⟩ := hs.pulled hd
    have hsame := hq.source_eq
    rw [hsource, hcursor, hp.source_eq] at hsame
    cases hsame
    rw [hcursor]
    exact Nat.ne_of_lt hq.position_lt
  · exact ⟨answer, c.position + 2, pulled_next h hsome hp⟩
  · intro d hd
    obtain ⟨y, requests, hq⟩ := hs.pulled hd
    exact ⟨y, pulled_pull hs hc h hsome hp hd hq⟩
  · intro d d' hd hd'
    by_cases hdc : d = c
    · rw [hdc, h.next_links hsome, if_pos rfl] at hd'
      cases hd'
      rw [hcursor, hdc]
      exact ⟨rfl, rfl⟩
    · rw [link_pull hs hc h hsome hd hdc] at hd'
      exact hs.follows hd hd'

end Pulling

/-! ## Cursors over streams -/

/-- The cursor is at hand in a sound store, over a source that answers `x`. -/
structure Over (starts : Set (StreamCursor ε)) (streams : Streams ε) (c : StreamCursor ε)
    (x : Nat → Option ε) : Prop where
  sound : streams.Sound starts
  knows : streams.Knows starts c
  pulled : ∃ requests, c.Pulled streams x requests

theorem Over.next (h : Over starts streams c x) :
    Over starts (c.next streams).2 (c.next streams).1 x ∧
      ∀ d y, Over starts streams d y → Over starts (c.next streams).2 d y := by
  obtain ⟨hs, hc, requests, hq⟩ := h
  rcases next_cases hs hc with ⟨-, hnext⟩ | ⟨d, hd, -, hnext⟩ | ⟨hsome, answer, hl, hp⟩
  · rw [hnext]
    exact ⟨⟨hs, hc, requests, hq⟩, fun _ _ => id⟩
  · rw [hnext]
    have hknows : streams.Knows starts d := .inr ⟨_, hd⟩
    obtain ⟨y, requests', hr⟩ := hs.pulled hknows
    have hsame := hr.source_eq
    rw [(hs.follows hc hd).1, hq.source_eq] at hsame
    cases hsame
    exact ⟨⟨hs, hknows, requests, hr⟩, fun _ _ => id⟩
  · have hsame := hq.source_eq
    rw [hp.source_eq] at hsame
    cases hsame
    have hsound := sound_pull hs hc hl hsome hp
    refine ⟨⟨hsound, (knows_pull hl hsome).2 (.inr rfl), ?_⟩, fun d y hd => ?_⟩
    · exact ⟨c.position + 2, pulled_next hl hsome hp⟩
    · obtain ⟨-, hknows, requests', hr⟩ := hd
      exact ⟨hsound, (knows_pull hl hsome).2 (.inl hknows),
        pulled_pull hs hc hl hsome hp hknows hr⟩

theorem shared (starts : Set (StreamCursor ε)) : Cursor.Shared (Over starts) where
  peek_eq h := h.pulled.elim fun _ hp => hp.current_eq
  passed h := h.pulled.elim fun _ hp => hp.passed
  position_next {streams c x} h hc := by
    have hc : c.current.isSome := hc
    show (c.next streams).1.position = _
    rcases next_cases h.sound h.knows with ⟨hend, -⟩ | ⟨d, hd, -, hnext⟩ | ⟨-, answer, hl, -⟩
    · rw [hend] at hc
      cases hc
    · rw [hnext]
      exact (h.sound.follows h.knows hd).2
    · rw [hl.next_cursor hc]
      rfl
  next_end _ hc := next_ended hc
  over_next h := h.next.1
  stays h hd := hd.next.2 _ _ h
  next_next {streams c x} h := by
    show c.next (c.next streams).2 = c.next streams
    rcases next_cases h.sound h.knows with ⟨-, hnext⟩ | ⟨d, -, -, hnext⟩ | ⟨hsome, answer, hl, -⟩
    · rw [hnext]
      exact hnext
    · rw [hnext]
      exact hnext
    · exact next_linked hsome (hl.next_link hsome).1
  next_stays {streams c x d y c'} h hd hc := by
    show c.next (d.next streams).2 = (c', (d.next streams).2)
    have hc : c.next streams = (c', streams) := hc
    rcases next_cases h.sound h.knows with ⟨hend, hnext⟩ | ⟨e, he, hsome, hnext⟩ |
      ⟨hsome, answer, hl, -⟩
    · rw [hc] at hnext
      cases hnext
      exact next_ended hend
    · rw [hc] at hnext
      cases hnext
      have hlink : (d.next streams).2.links[c.node]? = some (some c') := by
        rcases next_cases hd.sound hd.knows with ⟨-, hn⟩ | ⟨_, -, -, hn⟩ | ⟨hd', _, hl', -⟩
        · rw [hn]
          exact he
        · rw [hn]
          exact he
        · exact (hl'.next_link hd').2 _ _ he
      exact next_linked hsome hlink
    · -- pulling makes a node, so that the store is not the same
      have hsize := hl.next_size hsome
      rw [hc] at hsize
      exact absurd hsize (Nat.ne_of_lt (Nat.lt_succ_self _))

/-! ## Starting a stream -/

theorem sound_empty : (Streams.empty : Streams ε).Sound ∅ := by
  have hknows (c : StreamCursor ε) : ¬(Streams.empty : Streams ε).Knows ∅ c := by
    rintro (h | ⟨n, hn⟩)
    · exact h
    · cases hn
  exact ⟨fun h => absurd h (hknows _), fun h => absurd h (hknows _), fun h => absurd h (hknows _),
    fun h => absurd h (hknows _), fun h => absurd h (hknows _)⟩

section Starting

variable (streams) (answer)

theorem start_eq : streams.start answer =
    (⟨streams.links.size, streams.sources.size, 0, answer 0⟩,
      ⟨(streams.sources.push ⟨answer, 0⟩).setIfInBounds streams.sources.size ⟨answer, 1⟩,
        streams.links.push none⟩) := by
  have hsource : (streams.sources.push ⟨answer, 0⟩)[streams.sources.size]? = some ⟨answer, 0⟩ :=
    Array.getElem?_push_size
  unfold Streams.start Streams.pull
  rw [hsource]

theorem position_start :
    (streams.start answer).1.position = 0 := by rw [start_eq]

theorem source_start :
    (streams.start answer).1.source = streams.sources.size := by rw [start_eq]

theorem start_sources (s : Nat) : (streams.start answer).2.sources[s]? =
    if s = streams.sources.size then some ⟨answer, 1⟩ else streams.sources[s]? := by
  rw [start_eq]
  show ((streams.sources.push _).setIfInBounds streams.sources.size _)[s]? = _
  rw [Array.getElem?_setIfInBounds, Array.size_push, Array.getElem?_push]
  by_cases hs : s = streams.sources.size
  · rw [if_pos hs.symm, if_pos hs, if_pos (Nat.lt_succ_self _)]
  · rw [if_neg (Ne.symm hs), if_neg hs, if_neg hs]

theorem start_links (n : Nat) : (streams.start answer).2.links[n]? =
    if n = streams.links.size then some none else streams.links[n]? := by
  rw [start_eq]
  exact Array.getElem?_push

theorem knows_start : (streams.start answer).2.Knows (insert (streams.start answer).1 starts) d ↔
    streams.Knows starts d ∨ d = (streams.start answer).1 := by
  constructor
  · rintro ((hd | hd) | ⟨n, hn⟩)
    · exact .inr hd
    · exact .inl (.inl hd)
    · rw [start_links] at hn
      split at hn
      · cases hn
      · exact .inl (.inr ⟨n, hn⟩)
  · rintro ((hd | ⟨n, hn⟩) | hd)
    · exact .inl (.inr hd)
    · have hlt := (Array.getElem?_eq_some_iff.1 hn).1
      refine .inr ⟨n, ?_⟩
      rw [start_links, if_neg (Nat.ne_of_lt hlt)]
      exact hn
    · exact .inl (.inl hd)

theorem pulled_of_start :
    (streams.start answer).1.Pulled (streams.start answer).2 answer 1 := by
  refine ⟨?_, ?_, ?_, ?_, fun _ => ?_⟩
  · rw [start_sources, start_eq, if_pos rfl]
  · rw [start_eq]
  · rw [start_eq]
    nofun
  · rw [start_eq]
    exact Nat.zero_lt_one
  · rw [start_eq]

variable {streams} (hs : streams.Sound starts)
include hs

theorem pulled_start {requests : Nat} (hd : streams.Knows starts d)
    (hq : d.Pulled streams y requests) : d.Pulled (streams.start answer).2 y requests := by
  have hsource := (Array.getElem?_eq_some_iff.1 hq.source_eq).1
  refine ⟨?_, hq.current_eq, hq.passed, hq.position_lt, fun hnone => hq.latest ?_⟩
  · rw [start_sources, if_neg (Nat.ne_of_lt hsource)]
    exact hq.source_eq
  · rwa [start_links, if_neg (Nat.ne_of_lt (hs.node_lt hd))] at hnone

theorem sound_start :
    (streams.start answer).2.Sound (insert (streams.start answer).1 starts) := by
  have hnode : (streams.start answer).1.node = streams.links.size := by rw [start_eq]
  have hsize : (streams.start answer).2.links.size = streams.links.size + 1 := by
    rw [start_eq]
    exact Array.size_push ..
  refine hs.extend (fun d => knows_start streams answer) hsize hnode ?_ ?_ ?_ ?_ ?_
  · rw [hnode, start_links, if_pos rfl]
  · intro d hd hsource
    obtain ⟨_, _, hq⟩ := hs.pulled hd
    have hlt := (Array.getElem?_eq_some_iff.1 hq.source_eq).1
    rw [hsource, start_eq] at hlt
    exact absurd hlt (Nat.lt_irrefl _)
  · exact ⟨answer, 1, pulled_of_start streams answer⟩
  · intro d hd
    obtain ⟨y, requests, hq⟩ := hs.pulled hd
    exact ⟨y, requests, pulled_start answer hs hd hq⟩
  · intro d d' hd hd'
    rw [start_links, if_neg (Nat.ne_of_lt (hs.node_lt hd))] at hd'
    exact hs.follows hd hd'

/-- The cursor of a new stream is over its source, and other cursors stay over theirs. -/
theorem over_start :
    Over (insert (streams.start answer).1 starts) (streams.start answer).2
        (streams.start answer).1 answer ∧
      ∀ c x, Over starts streams c x →
        Over (insert (streams.start answer).1 starts) (streams.start answer).2 c x := by
  have hsound := sound_start answer hs
  refine ⟨⟨hsound, .inl (.inl rfl), 1, pulled_of_start streams answer⟩, fun c x h => ?_⟩
  obtain ⟨-, hc, requests, hq⟩ := h
  exact ⟨hsound, (knows_start streams answer).2 (.inl hc), requests,
    pulled_start answer hs hc hq⟩

/-- A new stream reads what its source answers before it first answers nothing. -/
theorem reads_start {xs : List ε} (hx : Cursor.Ends answer xs) :
    Cursor.Reads (streams.start answer).1 (streams.start answer).2 xs := by
  have hreads := (shared _).reads hx (over_start answer hs).1
  rwa [show Cursor.position (streams.start answer).1 = 0 from position_start streams answer,
    List.drop_zero] at hreads

end Starting

end StreamCursor
end PegMatcher
