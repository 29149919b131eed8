import ProgressiveHtml.Proofs.Document.Consumption
import ProgressiveHtml.Proofs.Document.Losses
import ProgressiveHtml.Proofs.EventLoop.Settling
import ProgressiveHtml.Proofs.Node.Settling

namespace ProgressiveHtml

/-!
# Documents — coming to an end

When all values settle, what is still to come of a document is bounded.  Every chunk takes something off,
and so does the time that passes while the reader waits.  So a reader that waits long enough reads the
document to its end.

* `TemplateStream.Settling` — a bound on what is still to come of a stream and of the late fragments;
* `TemplateStream.Settling.poll` — asking for a chunk takes something off, or leaves a sleep to wait for;
* `Document.Settles` — the documents in which all values settle;
* `Document.exists_enough` — a reader that is patient enough reads such a document to its end.
-/

open Rendering

/-- Whether a piece is filled by a sequence. -/
def Piece.isSequence : Piece → Bool
  | slot (some (.sequence _)) => true
  | _ => false

/-- What asking a stream comes to when no more than `n` was still to come and `queued` fragments were
    woken: a chunk, and less is to come; or nothing yet, and if no fragment is woken there is a sleep to
    wait for; or the end, an error or a panic. -/
def Polled.Nears {σ : Type} (remains : σ → EventLoop → Nat → Prop) (alarms : σ → List Alarm)
    (w : EventLoop) (n : Nat) : StreamPoll σ × EventLoop → Prop
  | (.ready (some (.ok _)) next, w') => ∃ m < n, remains next w' m ∧
      m + 2 * w'.registry.queue.length ≤ n + 2 * w.registry.queue.length
  | (.pending next, w') => w'.now = w.now ∧ ∃ m ≤ n, remains next w' m ∧
      m + 2 * w'.registry.queue.length ≤ n + 2 * w.registry.queue.length ∧
      (w'.registry.queue = [] → ∃ alarm ∈ alarms next ++ w'.registry.alarms, w'.now < alarm.deadline)
  | _ => True

/-- With less to come at the same instant. -/
theorem Polled.Nears.mono {σ : Type} {remains : σ → EventLoop → Nat → Prop} {alarms : σ → List Alarm}
    {w w' : EventLoop} {m n : Nat} {result : StreamPoll σ × EventLoop}
    (nears : Nears remains alarms w' m result) (now : w'.now = w.now) (less : m ≤ n)
    (fewer : m + 2 * w'.registry.queue.length ≤ n + 2 * w.registry.queue.length) :
    Nears remains alarms w n result := by
  match result, nears with
  | (.ready (some (.ok _)) next, last), ⟨l, smaller, left, bound⟩ =>
    exact ⟨l, Nat.lt_of_lt_of_le smaller less, left, by omega⟩
  | (.pending next, last), ⟨still, l, smaller, left, bound, waits⟩ =>
    exact ⟨still.trans now, l, Nat.le_trans smaller less, left, by omega, waits⟩
  | (.ready none _, _), _ | (.ready (some (.error _)) _, _), _ | (.panicked _, _), _ => trivial

namespace TemplateStream

/-- No more than `n` is still to come of the pieces of a stream and of the late fragments, and the only
    sequence is that of the patches, as long as the registry is open. -/
structure Settling (pieces : List Piece) (w : EventLoop) (n : Nat) : Prop where
  remains : ∃ a b, EffortAll (Piece.renderings pieces) w.now a ∧ w.Settling b ∧
    a + b + pieces.length ≤ n
  patches : pieces.filter Piece.isSequence = [] ∨
    pieces.filter Piece.isSequence = [.slot (some (.sequence .patches))] ∧ w.registry.closed = false

variable {pieces left : List Piece} {w w' : EventLoop} {n a b : Nat}

/-- The renderings of a stream go on. -/
theorem Drives.settling (drives : Drives pieces w left w')
    (effort : EffortAll (Piece.renderings pieces) w.now a) (settling : w.Settling b) :
    (w'.now = w.now ∧ w'.registry.closed = w.registry.closed) ∧
      (left.length = pieces.length ∧
        left.filter Piece.isSequence = pieces.filter Piece.isSequence) ∧
      (∀ r ∈ Piece.renderings left, r.Rests w.now ∧ ∀ message, r ≠ .panicked message) ∧
      ∃ c d woken, EffortAll (Piece.renderings left) w.now c ∧ w'.Settling d ∧
        c + d + 2 * woken ≤ a + b ∧
        w'.registry.queue.length = w.registry.queue.length + woken := by
  induction drives generalizing a b with
  | nil w =>
    exact ⟨⟨rfl, rfl⟩, ⟨rfl, rfl⟩, by simp [Piece.renderings], a, b, 0, effort, settling,
      Nat.le_refl _, rfl⟩
  | @rendering r rest left w w' sound _ ih =>
    obtain ⟨c, d, bound, first, others⟩ := effort
    -- What this rendering hands in is paid for out of what was still to come of it.
    obtain ⟨c', b', woken, first, settling, fewer, queue⟩ := settling.poll first
    have now := r.poll_now w
    have shut := (r.poll_atOnce w).closed
    obtain ⟨⟨nowBehind, shutBehind⟩, ⟨size, same⟩, restBehind, c'', d', wokenBehind, others,
      settling, fewest, queueBehind⟩ := ih (now ▸ others) settling
    refine ⟨⟨nowBehind.trans now, shutBehind.trans shut⟩, ⟨congrArg (· + 1) size, same⟩, ?_,
      c' + c'', d', woken + wokenBehind, ⟨c', c'', Nat.le_refl _, first, now ▸ others⟩, settling,
      by omega, by omega⟩
    rw [Piece.renderings_cons_rendering, List.forall_mem_cons]
    exact ⟨⟨r.rests_poll rfl, sound⟩, now ▸ restBehind⟩
  | other unfilled _ ih =>
    have others := Piece.renderings_cons_of_none unfilled
    rw [others] at effort ⊢
    obtain ⟨still, ⟨size, same⟩, rests, onward⟩ := ih effort settling
    refine ⟨still, ⟨congrArg (· + 1) size, ?_⟩, rests, onward⟩
    rw [List.filter_cons, List.filter_cons, same]

namespace Settling

variable {piece : Piece} {rest : List Piece} {position : Nat}

/-- A piece that is no sequence has had its turn. -/
theorem skip (settling : Settling (piece :: rest) w n) (other : piece.isSequence = false) :
    ∃ m < n, Settling rest w m := by
  obtain ⟨⟨a, b, effort, fragments, bound⟩, patches⟩ := settling
  rw [List.length_cons] at bound
  rw [List.filter_cons_of_neg (by simp [other])] at patches
  refine ⟨a + b + rest.length, by omega, ⟨a, b, ?_, fragments, Nat.le_refl _⟩, patches⟩
  obtain ⟨r, rfl⟩ | ⟨-, none⟩ := piece.rendering_cases
  · obtain ⟨c, d, within, -, others⟩ := effort
    exact others.mono (by omega)
  · rwa [none] at effort

/-- A sequence brings the patches, and no other one comes behind it. -/
theorem sequence {s : Sequence} (settling : Settling (.slot (some (.sequence s)) :: rest) w n) :
    s = .patches ∧ w.registry.closed = false ∧ rest.filter Piece.isSequence = [] := by
  obtain none | ⟨only, stillOpen⟩ := settling.patches
  · cases none
  · rw [List.filter_cons_of_pos rfl] at only
    obtain ⟨same, none⟩ := List.cons.inj only
    exact ⟨by simpa using same, stillOpen, none⟩

/-- A rendering that was asked and is not over leaves a sleep to wait for. -/
theorem exists_alarm {r : Rendering} (settling : Settling (.slot (some (.rendering r)) :: rest) w n)
    (rests : r.Rests w.now) (waits : r.isOver = false) : ∃ alarm ∈ r.alarms, w.now < alarm.deadline := by
  obtain ⟨a, b, ⟨c, d, -, effort, -⟩, -⟩ := settling.remains
  obtain ⟨alarm, isRunning⟩ := effort.exists_alarm rests waits
  exact ⟨alarm, isRunning, rests.ahead alarm isRunning⟩

section

variable {s s' : Sequence} (settling : Settling (.slot (some (.sequence s)) :: rest) w n)

include settling

/-- The patches bring an item: it no longer is to come. -/
theorem item {item : Item} (asked : s.poll w = (.item item, s', w')) :
    w'.registry.queue = w.registry.queue ∧
      ∃ m < n, Settling (.slot (some (.sequence s')) :: rest) w' m := by
  obtain ⟨rfl, stillOpen, none⟩ := settling.sequence
  obtain ⟨drained, rfl⟩ := Sequence.patches_poll asked
  obtain ⟨a, b, effort, fragments, bound⟩ := settling.remains
  obtain ⟨c, less, fragments⟩ := fragments.ask drained
  obtain ⟨now, -, -, queue⟩ := EventLoop.drain_apart drained
  obtain ⟨closed, -⟩ := EventLoop.registry_of_drain drained
  simp only [List.length_cons, Answer.items, List.length_nil] at bound less
  refine ⟨queue, a + c + (rest.length + 1), by omega,
    ⟨⟨a, c, now ▸ effort, fragments, Nat.le_refl _⟩, .inr ⟨?_, closed.trans stillOpen⟩⟩⟩
  rw [List.filter_cons_of_pos rfl, none]

/-- The patches have come to their end: nothing is left of the late fragments when the registry is given
    up. -/
theorem exhausted (asked : s.poll w = (.finished, s', w')) :
    (s'.release w').now = w.now ∧ (s'.release w').registry.queue = [] ∧
      ∃ m < n, Settling rest (s'.release w') m := by
  obtain ⟨rfl, -, none⟩ := settling.sequence
  obtain ⟨drained, rfl⟩ := Sequence.patches_poll asked
  obtain ⟨a, b, effort, fragments, bound⟩ := settling.remains
  obtain ⟨c, less, fragments⟩ := fragments.ask drained
  have now := (EventLoop.drain_apart drained).1
  rw [List.length_cons] at bound
  exact ⟨now, rfl, a + c + rest.length, by omega,
    ⟨a, c, now ▸ effort, fragments.close, Nat.le_refl _⟩, .inl none⟩

/-- The patches are not there yet: if no fragment was woken, one is on its way. -/
theorem waits (asked : s.poll w = (.waiting, s', w')) :
    w'.now = w.now ∧ w'.registry = w.registry ∧ Settling (.slot (some (.sequence s')) :: rest) w' n ∧
      (w'.registry.queue = [] → ∃ alarm ∈ w'.registry.alarms, w'.now < alarm.deadline) := by
  obtain ⟨rfl, stillOpen, none⟩ := settling.sequence
  obtain ⟨drained, rfl⟩ := Sequence.patches_poll asked
  obtain ⟨a, b, effort, fragments, bound⟩ := settling.remains
  obtain ⟨h, reached⟩ := fragments.reached
  have now := (EventLoop.drain_apart drained).1
  have same := EventLoop.registry_of_drain_waiting drained
  have fragments := fragments.of_eq now same
  refine ⟨now, same, ⟨⟨a, b, now ▸ effort, fragments, bound⟩, .inr ⟨?_, same ▸ stillOpen⟩⟩,
    fun idle => fragments.exists_alarm idle ?_⟩
  · rw [List.filter_cons_of_pos rfl, none]
  · -- No item is ready, and some are outstanding.
    have waits := w.drain_registry.1
    rw [drained] at waits
    obtain ⟨noneReady, outstanding⟩ := (Registry.drain_waiting_iff _).1 waits.symm
    have pending := reached.pending_eq stillOpen
    rw [noneReady, List.length_nil, Nat.zero_add] at pending
    rw [same]
    intro none
    rw [none, List.length_nil] at pending
    exact outstanding pending

end

/-- The stream walks over renderings that were asked. -/
theorem walk {result : StreamPoll TemplateStream × EventLoop} (settling : Settling pieces w n)
    (walks : Walks pieces position w result)
    (asked : ∀ r ∈ Piece.renderings pieces, r.Rests w.now ∧ ∀ message, r ≠ .panicked message) :
    Polled.Nears (fun s => Settling s.pieces) alarms w n result := by
  induction walks generalizing n with
  | ended | failed | error => trivial
  | blank isBlank _ ih =>
    obtain ⟨m, less, settling⟩ := settling.skip (by cases isBlank <;> rfl)
    exact (ih settling fun r member => asked r (Piece.mem_renderings_cons member)).mono rfl
      (by omega) (by omega)
  | written isWritten =>
    obtain ⟨m, less, settling⟩ := settling.skip (by cases isWritten <;> rfl)
    exact ⟨m, less, settling, by omega⟩
  | @pending r notDone notFailed rest position w =>
    obtain ⟨rests, notPanicked⟩ := asked r List.mem_cons_self
    refine ⟨rfl, n, Nat.le_refl n, settling, Nat.le_refl _, fun _ => ?_⟩
    -- What was asked and is not over waits for a sleep.
    obtain ⟨alarm, isRunning, ahead⟩ :=
      settling.exists_alarm rests (Rendering.isOver_eq_false notDone notFailed notPanicked)
    exact ⟨alarm, List.mem_append_left _ (List.mem_append_left _ isRunning), ahead⟩
  | item polled =>
    obtain ⟨queue, m, less, settling⟩ := settling.item polled
    exact ⟨m, less, settling, by rw [queue]; omega⟩
  | finished polled _ ih =>
    obtain ⟨now, queue, m, less, settling⟩ := settling.exhausted polled
    refine (ih settling (now ▸ asked)).mono now (by omega) ?_
    rw [queue, List.length_nil]
    omega
  | waiting polled =>
    obtain ⟨now, same, settling, later⟩ := settling.waits polled
    refine ⟨now, n, Nat.le_refl n, settling, by rw [same], fun idle => ?_⟩
    obtain ⟨alarm, isRunning, ahead⟩ := later idle
    exact ⟨alarm, List.mem_append_right _ isRunning, ahead⟩

/-- The stream is asked for a chunk. -/
theorem poll {s : TemplateStream} (settling : Settling s.pieces w n) :
    Polled.Nears (fun s => Settling s.pieces) alarms w n (s.poll w) := by
  have asks := s.asks w
  generalize s.poll w = result at asks ⊢
  cases asks with
  | ended | panicked => trivial
  | @walked left w' _ _ drives walks =>
    obtain ⟨⟨a, b, effort, fragments, bound⟩, patches⟩ := settling
    obtain ⟨⟨now, closed⟩, ⟨size, same⟩, asked, c, d, woken, effort, fragments, fewer, queue⟩ :=
      drives.settling effort fragments
    have settling : Settling left w' (c + d + left.length) := by
      rw [← same, ← closed] at patches
      exact ⟨⟨c, d, now ▸ effort, fragments, Nat.le_refl _⟩, patches⟩
    rw [← size] at bound
    exact (settling.walk walks (now ▸ asked)).mono now (by omega) (by omega)

/-- Something else happens at the same instant. -/
theorem of_eq (settling : Settling pieces w n) (now : w'.now = w.now)
    (same : w'.registry = w.registry) : Settling pieces w' n := by
  obtain ⟨⟨a, b, effort, fragments, bound⟩, patches⟩ := settling
  exact ⟨⟨a, b, now ▸ effort, fragments.of_eq now same, bound⟩, same ▸ patches⟩

/-! ### Meanwhile -/

/-- The fragment that was woken first goes on. -/
theorem runNext (settling : Settling pieces w n) (busy : w.registry.queue ≠ []) :
    ∃ m ≤ n, Settling pieces w.runNext m ∧
      m + 2 * w.runNext.registry.queue.length + 2 ≤ n + 2 * w.registry.queue.length := by
  obtain ⟨⟨a, b, effort, fragments, bound⟩, patches⟩ := settling
  obtain ⟨c, less, fragments, fewer⟩ := fragments.runNext busy
  obtain ⟨new, moves⟩ := w.runNext_meanwhile
  have closed : w.runNext.registry.closed = w.registry.closed :=
    moves.keeps (P := fun later => later.registry.closed = w.registry.closed) rfl
      fun same move => move.closed.trans same
  rw [← closed] at patches
  rw [← w.runNext_now] at effort
  exact ⟨a + c + pieces.length, by omega, ⟨⟨a, c, effort, fragments, Nat.le_refl _⟩, patches⟩, by omega⟩

/-- After the turns of all woken fragments, none is left that was woken. -/
theorem runQueue (settling : Settling pieces w n) {turns : Nat}
    (enough : n + 2 * w.registry.queue.length ≤ turns) :
    ∃ m ≤ n, Settling pieces (w.runQueue turns) m ∧ (w.runQueue turns).registry.queue = [] ∧
      (w.runQueue turns).now = w.now := by
  induction turns generalizing w n with
  | zero =>
    have none : w.registry.queue = [] := List.eq_nil_of_length_eq_zero (by omega)
    exact ⟨n, Nat.le_refl n, settling, none, rfl⟩
  | succ turns ih =>
    rw [EventLoop.runQueue]
    by_cases idle : w.registry.queue = []
    · rw [idle, if_pos List.isEmpty_nil]
      exact ⟨n, Nat.le_refl n, settling, idle, rfl⟩
    · rw [if_neg (by simpa using idle)]
      obtain ⟨m, fewer, settling, woken⟩ := settling.runNext idle
      obtain ⟨l, fewest, settling, none, now⟩ := ih settling (by omega)
      exact ⟨l, Nat.le_trans fewest fewer, settling, none, now.trans w.runNext_now⟩

/-- The only sleeps that the stream waits for are those of its renderings. -/
theorem mem_alarms (settling : Settling pieces w n) {alarm : Alarm}
    (isRunning : alarm ∈ pieces.flatMap Piece.alarms) :
    alarm ∈ alarmsOfAll (Piece.renderings pieces) := by
  -- The only sequence is that of the patches, which waits for no sleep of its own.
  have patches : ∀ piece ∈ pieces, piece.isSequence → piece.alarms = [] := by
    intro piece member isSequence
    have among := List.mem_filter.2 ⟨member, isSequence⟩
    obtain none | ⟨only, -⟩ := settling.patches
    · rw [none] at among
      cases among
    · rw [only] at among
      rw [List.mem_singleton.1 among]
      rfl
  clear settling
  induction pieces with
  | nil => cases isRunning
  | cons piece rest ih =>
    rw [List.flatMap_cons, List.mem_append] at isRunning
    have onward := fun there => ih there fun piece member => patches piece (List.mem_cons_of_mem _ member)
    obtain ⟨r, rfl⟩ | ⟨unfilled, same⟩ := piece.rendering_cases
    · exact List.mem_append.2 (isRunning.imp_right onward)
    · have noAlarms : piece.alarms = [] := by
        rcases piece with text | _ | text | r | q
        · rfl
        · rfl
        · rfl
        · cases unfilled
        · exact patches _ List.mem_cons_self rfl
      rw [noAlarms] at isRunning
      rw [same]
      exact onward (isRunning.resolve_left List.not_mem_nil)

/-- Time passes, and if it passes no further than to the end of a sleep it is taken off. -/
theorem jump (settling : Settling pieces w n) (idle : w.registry.queue = []) (alarms : List Alarm)
    {limit : Nat} (ahead : w.now ≤ limit) :
    ∃ m ≤ n, Settling pieces (w.jump alarms limit) m ∧
      (w.jump alarms limit).registry.queue.length ≤ m ∧
      ((∃ alarm ∈ pieces.flatMap Piece.alarms ++ w.registry.alarms,
        w.nextInstant alarms limit ≤ alarm.deadline) →
          m + (w.nextInstant alarms limit - w.now) ≤ n) := by
  have own (alarm : Alarm) (isRunning : alarm ∈ pieces.flatMap Piece.alarms) :=
    settling.mem_alarms isRunning
  obtain ⟨⟨a, b, effort, fragments, bound⟩, patches⟩ := settling
  obtain ⟨c, less, fragments, woken, shorter⟩ := fragments.jump idle alarms ahead
  have passed := w.now_le_nextInstant alarms ahead
  -- The time is taken off what is to come of the pieces if it is one of their sleeps that ends, and
  -- otherwise off what is to come of the tasks.
  by_cases isOwn : ∃ alarm ∈ pieces.flatMap Piece.alarms, w.nextInstant alarms limit ≤ alarm.deadline
  · obtain ⟨alarm, isRunning, early⟩ := isOwn
    obtain ⟨d, shorter, effort⟩ := EffortAll.pass effort (own alarm isRunning) passed early
    exact ⟨d + c + pieces.length, by omega, ⟨⟨d, c, effort, fragments, Nat.le_refl _⟩, patches⟩,
      by omega, fun _ => by omega⟩
  · refine ⟨a + c + pieces.length, by omega,
      ⟨⟨a, c, EffortAll.later effort passed, fragments, Nat.le_refl _⟩, patches⟩, by omega, ?_⟩
    rintro ⟨alarm, isRunning, early⟩
    obtain here | there := List.mem_append.1 isRunning
    · exact absurd ⟨alarm, here, early⟩ isOwn
    · have := shorter alarm there early
      omega

end Settling

end TemplateStream

namespace Document

/-- No more than `n` is still to come of a document. -/
def Settling (d : Document) (w : EventLoop) (n : Nat) : Prop :=
  TemplateStream.Settling d.stream.pieces w n

variable {d : Document} {w w' : EventLoop} {n : Nat}

/-- The document is asked for a chunk. -/
theorem Settling.poll (settling : d.Settling w n) :
    Polled.Nears Settling toChunkStream.alarms w n (d.poll w) := by
  have behalf : TemplateStream.Settling d.stream.pieces (w.behalf (journalName d.requestId)) n :=
    settling.of_eq rfl rfl
  have nears := behalf.poll
  have asked : d.poll w = match d.record (d.stream.poll (w.behalf (journalName d.requestId))) with
    | (answer, after) => (answer, { after with
        timeline := { after.timeline with document := w.timeline.document } }) := rfl
  rw [asked]
  rcases polled : d.stream.poll (w.behalf (journalName d.requestId)) with
    ⟨⟨_ | _ | _, s⟩ | s | message, w'⟩ <;> rw [polled] at nears
  · trivial
  · trivial
  · obtain ⟨m, less, settling, bound⟩ := nears
    exact ⟨m, less, settling.of_eq rfl rfl, bound⟩
  · obtain ⟨now, m, less, settling, bound, waits⟩ := nears
    exact ⟨now, m, less, settling.of_eq rfl rfl, bound, waits⟩
  · trivial

/-- Whether what waiting came to is the end, an error or a panic, or else a chunk with less to come than
    `n`; then `turns` are enough for what is woken. -/
def Nearer (turns n : Nat) : Waited Document (Option Item) × EventLoop → Prop
  | (.ready (some (.ok _)) next, w) => ∃ m < n, next.Settling w m ∧
      m + 2 * w.registry.queue.length ≤ turns
  | (.expired _, _) => False
  | _ => True

theorem Nearer.mono {turns m : Nat} {result : Waited Document (Option Item) × EventLoop}
    (nearer : Nearer turns m result) (more : m ≤ n) : Nearer turns n result := by
  match result, nearer with
  | (.ready (some (.ok _)) next, last), ⟨l, less, settling, bound⟩ =>
    exact ⟨l, Nat.lt_of_lt_of_le less more, settling, bound⟩
  | (.ready none _, _), _ | (.ready (some (.error _)) _, _), _ | (.panicked _, _), _ => trivial

/-- Waiting for a chunk long enough.  Whenever all woken fragments have gone on, asking takes something
    off or time passes, so two rounds bring the reader nearer to the end. -/
theorem Settling.waitRounds {turns limit rounds : Nat} (settling : d.Settling w n)
    (enough : 3 * n ≤ turns) (ofQueue : n + 2 * w.registry.queue.length ≤ turns)
    (early : w.now + n < limit)
    (left : 2 * n + (if w.registry.queue = [] then 1 else 2) ≤ rounds) :
    Nearer turns n (EventLoop.waitRounds toChunkStream.toAwaitable turns limit rounds d w) := by
  induction rounds generalizing d w n with
  | zero => split at left <;> omega
  | succ rounds ih =>
    have nears := settling.poll
    rw [EventLoop.waitRounds]
    rcases polled : d.poll w with ⟨⟨_ | _ | _, next⟩ | next | message, w'⟩ <;> rw [polled] at nears <;>
      rw [show toChunkStream.poll d w = _ from polled]
    · trivial
    · trivial
    · obtain ⟨m, less, settling, bound⟩ := nears
      exact ⟨m, less, settling, by omega⟩
    · obtain ⟨now, m, less, settling, bound, waits⟩ := nears
      dsimp only
      rw [if_neg (by omega)]
      -- Time passes until a sleep ends, unless fragments were woken: then these go on first.
      by_cases idle : w'.registry.queue = []
      · rw [idle, if_pos List.isEmpty_nil]
        obtain ⟨alarm, isRunning, ahead⟩ := waits idle
        have before : w'.now < limit := by omega
        have passed := w'.now_lt_nextInstant (toChunkStream.alarms next) before
        have first := w'.nextInstant_le limit isRunning ahead
        obtain ⟨l, -, settling, woken, shorter⟩ :=
          settling.jump idle (toChunkStream.alarms next) (Nat.le_of_lt before)
        have shorter := shorter ⟨alarm, isRunning, first⟩
        refine (ih settling (by omega) (by omega) ?_ ?_).mono (by omega)
        · show w'.nextInstant (toChunkStream.alarms next) limit + l < limit
          omega
        · have left : 2 * n ≤ rounds := by split at left <;> omega
          split <;> omega
      · rw [if_neg (by simpa using idle)]
        have enoughLeft : m + 2 * w'.registry.queue.length ≤ turns := by omega
        obtain ⟨l, fewer, settling, none, still⟩ :=
          TemplateStream.Settling.runQueue settling enoughLeft
        have some := List.length_pos_iff.2 idle
        refine (ih settling (by omega) (by rw [none]; simp; omega) (by omega) ?_).mono (by omega)
        rw [if_pos none]
        split at left
        · rename_i noneBefore
          rw [noneBefore, List.length_nil] at bound
          omega
        · omega
    · trivial

/-- While the reader sleeps, not more is still to come. -/
theorem Settling.sleep {turns : Nat} (settling : d.Settling w n) (enough : 3 * n ≤ turns)
    (ofQueue : n + 2 * w.registry.queue.length ≤ turns) (length : Nat) :
    ∃ m ≤ n, d.Settling (w.sleep turns length) m ∧
      m + 2 * (w.sleep turns length).registry.queue.length ≤ turns := by
  -- Nothing is asked meanwhile, and the tasks that go on or are woken have paid for it.
  let P (_ : Unit) (w : EventLoop) : Prop :=
    ∃ m ≤ n, d.Settling w m ∧ m + 2 * w.registry.queue.length ≤ turns
  have kept : EventLoop.LeavesOff EventLoop.never P
      (w.wait EventLoop.never turns (w.now + length) ()) := by
    apply EventLoop.waitRounds_keeps
    case start => exact ⟨n, Nat.le_refl n, settling, ofQueue⟩
    case asked =>
      intro _ w _ w' kept polled
      simp only [EventLoop.never, Prod.mk.injEq] at polled
      exact polled.2 ▸ kept
    case turn =>
      rintro _ w ⟨m, less, settling, ofQueue⟩
      by_cases idle : w.registry.queue = []
      · have same : w.runNext = w := by simp [EventLoop.runNext, idle]
        exact same.symm ▸ ⟨m, less, settling, ofQueue⟩
      · obtain ⟨l, fewer, settling, woken⟩ := TemplateStream.Settling.runNext settling idle
        exact ⟨l, Nat.le_trans fewer less, settling, by omega⟩
    case pass =>
      rintro _ w ⟨m, less, settling, -⟩ idle ahead
      obtain ⟨l, fewer, settling, woken, -⟩ := TemplateStream.Settling.jump settling idle [] ahead
      exact ⟨l, Nat.le_trans fewer less, settling, by
        show l + 2 * (w.jump [] _).registry.queue.length ≤ turns
        omega⟩
  unfold EventLoop.sleep
  rcases waited : w.wait EventLoop.never turns (w.now + length) () with
    ⟨answer | _ | _, w'⟩ <;> rw [waited] at kept
  · exact answer.elim
  · exact kept
  · obtain ⟨_, _, _, polled⟩ := kept
    cases polled

/-- A reader that is patient enough comes to the end, unless an error comes or something panics. -/
theorem Settling.not_stalled {turns patience most : Nat} (settling : d.Settling w n)
    (enough : 3 * n ≤ turns) (ofQueue : n + 2 * w.registry.queue.length ≤ turns)
    (patient : n < patience) (eager : n < most) (pauses : List Nat) (arrivals : List Arrival)
    (after : EventLoop) : toChunkStream.readWithin turns patience most { pauses } d w ≠
      (.ok (arrivals, .stalled), after) := by
  intro read
  -- Each chunk comes while the reader is patient, and leaves no more to come than there was.
  induction most generalizing d w n pauses arrivals with
  | zero => omega
  | succ most ih =>
    rw [ChunkStream.readWithin, if_neg (by simp)] at read
    dsimp only [Option.map_none] at read
    obtain ⟨m, less, settling, ofQueue⟩ := settling.sleep enough ofQueue (pauses.headD 0)
    generalize w.sleep turns (pauses.headD 0) = w' at settling ofQueue read
    have nearer : Nearer turns m (toChunkStream.next turns (w'.now + patience) d w') := by
      refine settling.waitRounds (by omega) ofQueue (by omega) ?_
      split <;> omega
    rcases got : toChunkStream.next turns (w'.now + patience) d w' with
      ⟨⟨_ | error | chunk, next⟩ | next | message, w''⟩ <;> rw [got] at nearer read
    · simp at read
    · simp at read
    · obtain ⟨l, fewer, settling, ofQueue⟩ := nearer
      rcases others : toChunkStream.readWithin turns patience most { pauses := pauses.tail } next w''
        with ⟨message | ⟨later, last⟩, w₃⟩
      · simp [others, ChunkStream.prepend, Except.map] at read
      · simp only [others, ChunkStream.prepend, Except.map, Prod.mk.injEq, Except.ok.injEq] at read
        obtain ⟨⟨-, rfl⟩, rfl⟩ := read
        exact ih settling (by omega) ofQueue (by omega) (by omega) _ _ others
    · exact nearer.elim
    · simp at read

/-! ### The beginning -/

/-- All values in the trees of a document settle. -/
structure Settles (settings : Settings) (body : Node) : Prop where
  body : body.Settles (Environment.empty.deferringAfter settings.timeout)
  head : ∀ node ∈ settings.head, node.Settles .empty
  endOfBody : ∀ node ∈ settings.endOfBody, node.Settles .empty

/-- The only sequence of a template whose parts are apart is that of the patches. -/
theorem sequences_of_plays {r : Rendering} {roles : List Role} {pieces : List Piece}
    (plays : List.Forall₂ (Role.Plays r) roles pieces) (apart : roles.Pairwise Role.Apart) :
    pieces.filter Piece.isSequence = [] ∨
      pieces.filter Piece.isSequence = [.slot (some (.sequence .patches))] ∧ .patches ∈ roles := by
  induction plays with
  | nil => exact .inl rfl
  | @cons role piece roles rest here _ ih =>
    have onward := ih (List.pairwise_cons.1 apart).2
    by_cases isPatches : role = .patches
    · subst isPatches
      obtain rfl : piece = _ := here
      rw [List.filter_cons_of_pos rfl]
      obtain none | ⟨-, again⟩ := onward
      · exact .inr ⟨by rw [none], List.mem_cons_self⟩
      · exact absurd again (Role.patches_once_of_apart apart)
    · have other : piece.isSequence = false := by
        rcases piece with text | _ | text | r | q
        case slot.some.sequence => exact absurd here.of_sequence.1 isPatches
        all_goals rfl
      rw [List.filter_cons_of_neg (by simp [other])]
      exact onward.imp_right fun ⟨only, there⟩ => ⟨only, List.mem_cons_of_mem _ there⟩

/-- Of several renderings no more is to come than of all together. -/
theorem exists_effortAll {parts : List Rendering} {now : Nat}
    (each : ∀ r ∈ parts, ∃ n, r.Effort now n) : ∃ n, EffortAll parts now n := by
  induction parts with
  | nil => exact ⟨0, trivial⟩
  | cons part rest ih =>
    obtain ⟨m, first⟩ := each part List.mem_cons_self
    obtain ⟨n, others⟩ := ih fun r member => each r (List.mem_cons_of_mem _ member)
    exact ⟨m + n, m, n, Nat.le_refl _, first, others⟩

/-- A document in which all values settle comes to its end. -/
theorem start_settling {settings : Settings} {body : Node} (settles : Settles settings body)
    (fresh : w.registry = {}) :
    ∃ n, (start settings body w).1.Settling (start settings body w).2 n ∧
      (start settings body w).2.registry.queue = [] := by
  obtain ⟨plays, -, placed, before, same, begun⟩ := start_parts settings body w
  have empty : before.registry = {} := same.trans fresh
  have tree {node : Node} {env : Environment} (settles : node.Settles env) (now : Nat) :
      ∃ n, ((Built.node node).rendering env).Effort now n :=
    Built.exists_effort (.node node) settles now
  have effort : ∃ n, EffortAll (Piece.renderings (start settings body w).1.stream.pieces)
      (start settings body w).2.now n := by
    refine exists_effortAll fun r member => ?_
    obtain ⟨name, -, found⟩ := mem_assign member
    obtain rfl | ⟨node, isHead | isLast, rfl⟩ := rendering_of_source found
    · exact tree settles.body _
    · refine tree ?_ _
      cases given : settings.head with
      | none =>
        rw [given] at isHead
        exact isHead ▸ trivial
      | some head =>
        rw [given] at isHead
        exact isHead ▸ settles.head head given
    · exact tree (settles.endOfBody node isLast) _
  obtain ⟨a, effort⟩ := effort
  -- No fragment is on its way yet, also if the registry has been given up right away.
  have idle : (start settings body w).2.registry.tasks = [] ∧
      (start settings body w).2.registry.ready = [] ∧ (start settings body w).2.registry.queue = [] := by
    obtain same | same := begun <;> rw [same]
    · rw [empty]
      exact ⟨rfl, rfl, rfl⟩
    · exact ⟨rfl, rfl, rfl⟩
  obtain ⟨noTasks, noneReady, noneWoken⟩ := idle
  have reached : ∃ h, EventLoop.Reached h (start settings body w).2 := by
    have first := EventLoop.Reached.start empty
    obtain same | same := begun <;> rw [same]
    · exact ⟨_, first⟩
    · exact ⟨_, first.close⟩
  have fragments : (start settings body w).2.Settling 0 := by
    refine ⟨⟨0, by rw [noTasks]; trivial, by rw [noTasks, noneReady]; rfl⟩, fun task here => ?_, reached⟩
    rw [noTasks] at here
    cases here
  have apart : settings.compiled.roles.Pairwise Role.Apart :=
    .cons (fun role _ => by simp [Role.Apart]) (Template.pairwise_apart _ true true)
  refine ⟨_, ⟨⟨a, 0, effort, fragments, Nat.le_refl _⟩, ?_⟩, noneWoken⟩
  refine (sequences_of_plays plays apart).imp_right ?_
  rintro ⟨only, ahead⟩
  refine ⟨only, ?_⟩
  rw [placed ((settings.compiled.patches_mem_roles).1 ahead), fresh]

/-- A document in which all values settle is read to its end by every reader that is patient enough,
    whatever pauses it makes, unless an error comes or something panics. -/
theorem exists_enough {settings : Settings} {body : Node} (settles : Settles settings body)
    (fresh : w.registry = {}) : ∃ enough, ∀ turns patience most, enough ≤ turns → enough ≤ patience →
      enough ≤ most → ∀ pauses arrivals after, toChunkStream.readWithin turns patience most { pauses }
        (start settings body w).1 (start settings body w).2 ≠ (.ok (arrivals, .stalled), after) := by
  obtain ⟨n, settling, noneWoken⟩ := start_settling settles fresh
  refine ⟨3 * n + 1, fun turns patience most ofTurns ofPatience ofMost => ?_⟩
  refine settling.not_stalled (by omega) ?_ (by omega) (by omega)
  rw [noneWoken, List.length_nil]
  omega

end Document

end ProgressiveHtml
