import ProgressiveHtml.Proofs.Document.Settling
import ProgressiveHtml.Proofs.Document.Watching
import ProgressiveHtml.Proofs.Rendering.Standstill

namespace ProgressiveHtml

/-!
# Readers — streams that are steady

A stream that has nothing to give has gone on as far as it gets.  Until one of the sleeps that it waits
for has ended or a late fragment has gone on, asking it again is in vain.  So it does not matter how often
a reader asks.

* `ChunkStream.Steady` — a stream that may be asked again in vain;
* `Supply.toChunkStream` — a supply of items as a stream of its own;
* `TemplateStream.Standstill` — pieces that are not changed by asking them again;
* `Supply.steady`, `TemplateStream.steady`, `Document.steady` — all streams are steady.
-/

/-! ### Steady streams -/

/-- A stream of which asking takes no time, and which, when it has nothing to give, may be asked again in
    vain: until one of the sleeps that it waits for has ended or a late fragment has gone on, whatever the
    journal says and whichever fragments are woken. -/
structure ChunkStream.Steady {σ : Type} (s : ChunkStream σ) : Prop where
  now (state : σ) (w : EventLoop) : (s.poll state w).2.now = w.now
  again {state left : σ} {w after : EventLoop} (asked : s.poll state w = (.pending left, after))
    (timeline : Timeline) (queue : List Nat)
    (ahead : ∀ alarm ∈ s.alarms left, after.now < alarm.deadline → timeline.now < alarm.deadline) :
    ∃ left' after', s.poll left
      { after with timeline, registry := { after.registry with queue } } = (.pending left', after')

/-- A supply of items as a stream of its own. -/
def Supply.toChunkStream : ChunkStream Supply where
  poll s w :=
    match s.poll w.timeline with
    | (.item item, s, timeline) => (.ready (some item) s, { w with timeline })
    | (.finished, s, timeline) => (.ready none s, { w with timeline })
    | (.waiting, s, timeline) => (.pending s, { w with timeline })
  alarms s := s.alarm?.toList
  release _ w := w

/-- A supply whose next item is not there yet is not changed by asking it again before the sleep in front
    of the item has ended. -/
theorem Supply.stays_poll {s left : Supply} {t timeline : Timeline}
    (asked : s.poll t = (.waiting, left, timeline)) (later : Timeline)
    (ahead : ∀ alarm ∈ left.alarm?, t.now < alarm.deadline → later.now < alarm.deadline) :
    left.poll later = (.waiting, left, later) := by
  rw [poll] at asked
  split at asked
  · rename_i items
    cases never : s.never <;> rw [never] at asked <;> cases asked
    simp only [poll, items, ask, if_true]
  · rename_i sleep item rest items
    rcases slept : sleep.poll (s.ask t) with ⟨_ | sleep', after⟩ <;> rw [slept] at asked <;>
      cases asked
    -- What is left of the sleep is running, and does not end before the later instant.
    have rests := Sleep.rests_poll slept
    rw [s.ask_now] at rests
    cases sleep' with
    | idle => exact rests.elim
    | running alarm =>
      have waits : ¬ alarm.deadline ≤ later.now := Nat.not_le_of_lt (ahead alarm rfl rests)
      simp only [poll, Sleep.poll, ask, if_true, waits, if_false]

/-- A supply is steady. -/
theorem Supply.steady : Supply.toChunkStream.Steady where
  now s w := by
    have same := s.poll_now w.timeline
    show (Awaitable.poll _ s w).2.now = w.now
    unfold toChunkStream
    dsimp only
    split <;> rename_i asked <;> rw [asked] at same <;> exact same
  again {s left w after} asked timeline queue ahead := by
    have same := s.poll_now w.timeline
    have waits : ∃ timeline, s.poll w.timeline = (.waiting, left, timeline) ∧
        after = { w with timeline } := by
      unfold toChunkStream at asked
      dsimp only at asked
      split at asked <;> cases asked
      exact ⟨_, ‹_›, rfl⟩
    obtain ⟨middle, polled, rfl⟩ := waits
    rw [polled] at same
    have again := stays_poll polled timeline fun alarm isRunning early =>
      ahead alarm (Option.mem_toList.2 isRunning) (same.trans_lt early)
    exact ⟨left, _, by simp only [toChunkStream, again]; rfl⟩

/-- Two registries hold the same items and count the same fragments, so that a request comes to the same. -/
structure Registry.SameItems (r r' : Registry) : Prop where
  ready : r.ready = r'.ready
  pending : r.pending = r'.pending

/-- A sequence that has nothing to give is not changed by asking it again before a sleep of it has ended or
    a late fragment has gone on, and nothing else is: the registry may have given one more answer. -/
theorem Sequence.stays_poll {s left : Sequence} {w after : EventLoop}
    (asked : s.poll w = (.waiting, left, after)) (later : EventLoop)
    (same : left = .patches → later.registry.SameItems after.registry)
    (ahead : ∀ alarm ∈ left.alarms, w.now < alarm.deadline → later.now < alarm.deadline) :
    ∃ answers, left.poll later = (.waiting, left, { later with answers }) := by
  cases s with
  | supply s =>
    rcases polled : s.poll w.timeline with ⟨answer, s', timeline⟩
    simp only [poll, polled, Prod.mk.injEq] at asked
    obtain ⟨rfl, rfl, rfl⟩ := asked
    have again := Supply.stays_poll polled later.timeline
      fun alarm isRunning => ahead alarm (Option.mem_toList.2 isRunning)
    exact ⟨later.answers, by rw [poll, again]⟩
  | patches =>
    obtain ⟨drained, rfl⟩ := Sequence.patches_poll asked
    obtain ⟨noneReady, outstanding⟩ := (Registry.drain_waiting_iff w.registry).1 (by
      rw [← w.drain_registry.1, drained])
    have waits : later.registry.drain = (.waiting, later.registry) := by
      obtain ⟨ready, pending⟩ := same rfl
      rw [EventLoop.registry_of_drain_waiting drained] at ready pending
      simp only [Registry.drain, ready, pending, noneReady, outstanding, if_false]
    exact ⟨_, by rw [poll, EventLoop.drain, waits]⟩

namespace TemplateStream

variable {pieces left : List Piece} {w after : EventLoop}

/-- Whether everything that is rendered in pieces was asked at the given instant and has not panicked. -/
def AskedSince (since : Nat) (pieces : List Piece) : Prop :=
  ∀ r ∈ Piece.renderings pieces, r.Stays since ∧ ∀ message, r ≠ .panicked message

/-- Once the renderings of a stream have gone on, asking them again changes nothing. -/
theorem Drives.askedSince (drives : Drives pieces w left after) : AskedSince w.now left := by
  induction drives with
  | nil => exact fun r member => absurd member List.not_mem_nil
  | @rendering r _ _ w _ sound _ ih =>
    rw [AskedSince, Piece.renderings_cons_rendering, List.forall_mem_cons]
    exact ⟨⟨r.stays_poll rfl, sound⟩, r.poll_now w ▸ ih⟩
  | other unfilled _ ih =>
    rw [AskedSince, Piece.renderings_cons_of_none unfilled]
    exact ih

/-- Asking renderings again changes nothing before one of their sleeps has ended. -/
theorem AskedSince.drives_again {since : Nat} (asked : AskedSince since pieces)
    (ahead : ∀ alarm ∈ pieces.flatMap Piece.alarms, since < alarm.deadline → w.now < alarm.deadline) :
    Drives pieces w pieces w := by
  induction pieces with
  | nil => exact .nil w
  | cons piece rest ih =>
    have others := ih (fun r member => asked r (Piece.mem_renderings_cons member))
      fun alarm isRunning => ahead alarm (List.mem_append_right _ isRunning)
    obtain ⟨r, rfl⟩ | ⟨unfilled, -⟩ := piece.rendering_cases
    · obtain ⟨stays, goesOn⟩ := asked r List.mem_cons_self
      have same : r.poll w = (r, w) :=
        stays w fun alarm isRunning => ahead alarm (List.mem_append_left _ isRunning)
      exact .of_poll same goesOn others
    · exact .other unfilled others

/-- What a stream that has nothing to give waits for: a rendering, or the sequence that was asked last. -/
inductive WaitsFor (now : Nat) (after : EventLoop) : List Piece → Prop
  | rendering {r : Rendering} (waits : r.manner ≠ .done ∧ r.manner ≠ .failed) (rest : List Piece) :
      WaitsFor now after (.slot (some (.rendering r)) :: rest)
  | sequence {s left : Sequence} {before : EventLoop} (present : before.now = now)
      (asked : s.poll before = (.waiting, left, after)) (rest : List Piece) :
      WaitsFor now after (.slot (some (.sequence left)) :: rest)

/-- A stream that has nothing to give waits at its first piece. -/
theorem Walks.waitsFor {position : Nat} {result : StreamPoll TemplateStream × EventLoop}
    {next : TemplateStream} (walks : Walks pieces position w result)
    (waits : result = (.pending next, after)) :
    next.finished = false ∧ (∀ r ∈ Piece.renderings next.pieces, r ∈ Piece.renderings pieces) ∧
      WaitsFor w.now after next.pieces := by
  induction walks with
  | ended | written | failed | item | error => cases waits
  | blank _ _ ih =>
    obtain ⟨finished, among, first⟩ := ih waits
    exact ⟨finished, fun r member => Piece.mem_renderings_cons (among r member), first⟩
  | @pending r notDone notFailed rest position w =>
    cases waits
    refine ⟨rfl, fun _ => id, .rendering ?_ rest⟩
    -- What is over is written out or fails, so this one is not.
    cases r with
    | done markup => exact absurd rfl (notDone markup)
    | failed error => exact absurd rfl (notFailed error)
    | _ => exact ⟨Manner.noConfusion, Manner.noConfusion⟩
  | @finished _ s' _ _ _ w' _ polled _ ih =>
    obtain ⟨finished, among, first⟩ := ih waits
    refine ⟨finished, among, ?_⟩
    rwa [(s'.release_now w').trans (Sequence.now_of_poll polled)] at first
  | waiting polled rest =>
    cases waits
    exact ⟨rfl, fun _ => id, .sequence rfl polled rest⟩

/-- Pieces that were asked at the instant `since` and at the first of which a stream then waits, where the
    registry is as given: until a sleep has ended or a late fragment has gone on, asking them again changes
    nothing. -/
structure Standstill (since : Nat) (registry : Registry) (pieces : List Piece) : Prop where
  asked : AskedSince since pieces
  waits : ∃ after, after.registry = registry ∧ WaitsFor since after pieces

namespace Standstill

variable {since : Nat} {registry : Registry} (still : Standstill since registry pieces)
  (ahead : ∀ alarm ∈ pieces.flatMap Piece.alarms, since < alarm.deadline → w.now < alarm.deadline)

include still ahead

/-- No piece goes on. -/
theorem drives : Drives pieces w pieces w := still.asked.drives_again ahead

/-- The stream waits where it waited, whatever stands behind the pieces, provided that a drain among them
    finds the same items. -/
theorem walk (same : .slot (some (.sequence .patches)) ∈ pieces → w.registry.SameItems registry)
    (behind : List Piece) (position : Nat) : ∃ answers, TemplateStream.walk (pieces ++ behind) position w =
      (.pending { position, pieces := pieces ++ behind }, { w with answers }) := by
  obtain ⟨asked, after, rfl, waits⟩ := still
  cases waits with
  | @rendering r waits rest =>
    cases r with
    | done => exact absurd rfl waits.1
    | failed => exact absurd rfl waits.2
    | _ => exact ⟨w.answers, rfl⟩
  | @sequence s left before present polled rest =>
    have found : left = .patches → w.registry.SameItems after.registry := by
      rintro rfl
      exact same List.mem_cons_self
    obtain ⟨answers, again⟩ := Sequence.stays_poll polled w found fun alarm isRunning early =>
      ahead alarm (List.mem_append_left _ isRunning) (present ▸ early)
    exact ⟨answers, by rw [List.cons_append, TemplateStream.walk, again]⟩

end Standstill

/-- A stream that has nothing to give is at a standstill. -/
theorem standstill_poll {s next : TemplateStream} (asked : s.poll w = (.pending next, after)) :
    next.finished = false ∧ Standstill w.now after.registry next.pieces := by
  have asks := s.asks w
  rw [asked] at asks
  cases asks with
  | walked _ drives walks =>
    obtain ⟨goesOn, among, waits⟩ := walks.waitsFor rfl
    exact ⟨goesOn, fun r member => drives.askedSince r (among r member), after, rfl, drives.now ▸ waits⟩

/-- The stream of a template is steady. -/
theorem steady : toChunkStream.Steady where
  now s w := s.poll_now w
  again {s next w after} asked timeline queue ahead := by
    replace asked : s.poll w = (.pending next, after) := asked
    have now := s.poll_now w
    rw [asked] at now
    obtain ⟨goesOn, still⟩ := standstill_poll asked
    let later := { after with timeline, registry := { after.registry with queue } }
    replace ahead : ∀ alarm ∈ next.pieces.flatMap Piece.alarms,
        w.now < alarm.deadline → later.now < alarm.deadline :=
      fun alarm isRunning early => ahead alarm isRunning (now ▸ early)
    obtain ⟨answers, waits⟩ := still.walk ahead (fun _ => ⟨rfl, rfl⟩) [] next.position
    rw [List.append_nil] at waits
    refine ⟨{ position := next.position, pieces := next.pieces }, { later with answers }, ?_⟩
    show next.poll later = _
    rw [(still.drives ahead).poll goesOn]
    exact waits

end TemplateStream

namespace Document

/-- A document is asked on its own behalf. -/
theorem poll_behalf (d : Document) (w : EventLoop) :
    d.poll w = match d.record (d.stream.poll (w.behalf (journalName d.requestId))) with
      | (answer, after) => (answer, { after with
          timeline := { after.timeline with document := w.timeline.document } }) := rfl

/-- A document has nothing to give when its template has not. -/
theorem poll_waits {d : Document} {w after : EventLoop} {left : TemplateStream}
    (waits : d.stream.poll (w.behalf (journalName d.requestId)) = (.pending left, after)) :
    d.poll w = (.pending { d with stream := left }, { after with
      timeline := { after.timeline with document := w.timeline.document } }) := by
  rw [poll_behalf, waits]
  rfl

/-- The stream of a document is steady, as that of its template is. -/
theorem steady : toChunkStream.Steady where
  now d w := d.poll_now w
  again {d next w after} asked timeline queue ahead := by
    replace asked : d.poll w = (.pending next, after) := asked
    rw [poll_behalf] at asked
    rcases polled : d.stream.poll (w.behalf (journalName d.requestId)) with
      ⟨⟨_ | _ | _, s⟩ | s | message, w'⟩ <;> rw [polled] at asked <;> cases asked
    obtain ⟨left, last, again⟩ := TemplateStream.steady.again polled
      { timeline with document := some (journalName d.requestId) } queue ahead
    exact ⟨_, _, poll_waits (d := { d with stream := s }) again⟩

end Document

end ProgressiveHtml
