import ProgressiveHtml.Proofs.Document.Consumption
import ProgressiveHtml.Proofs.Registry.Chronicle

namespace ProgressiveHtml

/-!
# Documents — watching a reader without pauses

A reader without pauses waits for the next chunk all the time.  What happens meanwhile is written down:
when each late fragment was taken in and with which content, and when something happened.

* `Diary.yields`, `Diary.completions` — what the reader got, and the ends of fragments, each with its time;
* `Document.Watches` — what reading a document without pauses leads to, all written down;
* `Document.watches_of_readWithin` — reading a document to its end without pauses is like this;
* `Document.Watches.run`, `Document.Watches.consumes` — it is a run of the stream of the document, and a way
  of consuming the document.
-/

/-! ### Diaries -/

/-- What the reader got, and when. -/
def Dated.yield? (entry : Dated) : Option (Nat × Item) := entry.happening.item?.map (entry.time, ·)

/-- The end of a fragment, and its time. -/
def Dated.completion? (entry : Dated) : Option (Nat × Completion) :=
  entry.happening.completion?.map (entry.time, ·)

namespace Diary

/-- What the reader got, each with its time. -/
def yields (h : Diary) : List (Nat × Item) := h.filterMap Dated.yield?

/-- The ends of fragments, each with its time. -/
def completions (h : Diary) : List (Nat × Completion) := h.filterMap Dated.completion?

variable (h : Diary) (now : Nat) (new : List Happening)

@[simp] theorem yields_note :
    (h.note now new).yields = h.yields ++ (History.yields new).map (now, ·) := by
  simp only [note, yields, History.yields, List.filterMap_append, List.filterMap_map, List.map_filterMap]
  rfl

@[simp] theorem completions_note :
    (h.note now new).completions = h.completions ++ (History.completions new).map (now, ·) := by
  simp only [note, completions, History.completions, List.filterMap_append, List.filterMap_map,
    List.map_filterMap]
  rfl

end Diary

/-! ### No time passes while a chunk is asked for -/

namespace TemplateStream

theorem poll_now (s : TemplateStream) (w : EventLoop) : (s.poll w).2.now = w.now := by
  have asks := s.asks w
  generalize s.poll w = result at asks ⊢
  cases asks with
  | ended => rfl
  | panicked _ panics => exact panics.now
  | walked _ drives walks => exact walks.now.trans drives.now

end TemplateStream

namespace Document

theorem poll_now (d : Document) (w : EventLoop) : (d.poll w).2.now = w.now := by
  have same (result : StreamPoll TemplateStream × EventLoop) :
      (d.record result).2.now = result.2.now := by
    match result with
    | (.ready none _, _) | (.ready (some (.ok _)) _, _) | (.ready (some (.error _)) _, _)
    | (.pending _, _) | (.panicked _, _) => rfl
  exact (same _).trans (d.stream.poll_now (w.behalf (journalName d.requestId)))

end Document

/-! ### The turn of a fragment -/

namespace EventLoop

/-- The fragments that have been taken in since a state. -/
def newcomers (before after : EventLoop) : List FragmentTask :=
  after.registry.tasks.filter (before.registry.next ≤ ·.slot)

/-- What can be seen of the turn of the fragment that was woken first. -/
def turned (w : EventLoop) : List Happening :=
  History.handIns w.registry.queue.head? (!w.registry.closed)
      (List.range' w.registry.next (w.runNext.registry.next - w.registry.next)) ++
    w.completed?.toList.map .completed

@[simp] theorem completions_turned (w : EventLoop) :
    History.completions w.turned = w.completed?.toList := by
  unfold turned
  cases w.completed? <;> simp

@[simp] theorem yields_turned (w : EventLoop) : History.yields w.turned = [] := by
  unfold turned
  cases w.completed? <;> simp

/-- The turn of a fragment is something that happens in the background. -/
theorem turned_meanwhile (w : EventLoop) : w.Meanwhile w.turned w.runNext := by
  unfold turned
  cases queue : w.registry.queue with
  | nil =>
    have same : w.runNext = w := by simp [runNext, queue]
    have nobody : w.completed? = none := by simp [completed?, queue]
    rw [same, nobody, Nat.sub_self]
    exact .refl w
  | cons slot rest =>
    cases found : w.registry.task? slot with
    | none =>
      have next : (w.woken rest).registry.next = w.registry.next := rfl
      rw [completed?_of_none queue found, runNext_of_none queue found, next, Nat.sub_self]
      exact .single (.pass (Nat.le_refl w.now) rest)
    | some work =>
      have here : (w.woken rest).registry.task? slot = some work := found
      obtain ⟨handed, steps⟩ := work.poll_steps (w.woken rest)
      obtain ⟨next, numbers⟩ := steps.numbered
      have before : (w.woken rest).registry.next = w.registry.next := rfl
      have went := Meanwhile.head (.pass (Nat.le_refl w.now) rest) (.single (.goOn here steps))
      rw [before] at next numbers
      rw [completed?_of_some queue found, runNext_of_some queue found, afterTurn,
        Registry.conclude_next, next, Nat.add_sub_cancel_left, ← numbers, Registry.conclude]
      -- At its end the fragment is not kept, but its item is ready.
      cases ended : Registry.item? slot (work.poll (w.woken rest)).1 with
      | none =>
        rw [Option.map_none, Option.toList_none, List.map_nil, List.append_nil]
        exact went
      | some item =>
        have kept := Registry.task?_keep (steps.task? here) (work.poll (w.woken rest)).1
        have finished := went.trans (.single (.finish kept ended))
        rw [Registry.deliver_keep] at finished
        exact finished

end EventLoop

/-! ### Runs without pauses -/

namespace ChunkStream.Run

variable {σ : Type} {s : ChunkStream σ} {first state : σ} {w₀ w w' : EventLoop} {h new : List Happening}

/-- Any number of things happen in the background. -/
theorem meanwhile (run : s.Run first w₀ h state w) (moves : w.Meanwhile new w') :
    s.Run first w₀ (h ++ new) state w' := by
  induction moves generalizing h with
  | refl => simpa using run
  | head move _ ih =>
    rw [← List.append_assoc]
    exact ih (run.background move)

end ChunkStream.Run

namespace Document

/-- What is seen when a document is asked for a chunk. -/
def seen (d : Document) (w : EventLoop) : List Happening :=
  w.handedInSince (d.poll w).2 ++ History.reads (d.poll w).1.items

/-- The states that reading a document without pauses leads to, with the fragments taken in, each with
    the time at which that happened, and with everything that was seen. -/
inductive Watches (first : Document) (w₀ : EventLoop) :
    List (Nat × FragmentTask) → Diary → Document → EventLoop → Prop
  | start : Watches first w₀ [] [] first w₀
  /-- The reader asks for the next chunk. -/
  | poll {given : List (Nat × FragmentTask)} {h : Diary} {d next : Document} {w : EventLoop}
      (watches : Watches first w₀ given h d w) (onward : (d.poll w).1.next? = some next) :
      Watches first w₀ (given ++ (w.newcomers (d.poll w).2).map (w.now, ·)) (h.note w.now (d.seen w))
        next (d.poll w).2
  /-- The fragment goes on that was woken first. -/
  | turn {given : List (Nat × FragmentTask)} {h : Diary} {d : Document} {w : EventLoop}
      (watches : Watches first w₀ given h d w) :
      Watches first w₀ (given ++ (w.newcomers w.runNext).map (w.now, ·)) (h.note w.now w.turned) d
        w.runNext
  /-- The reader gets nothing, and no fragment has been woken: time passes until a sleep ends that
      something waits for, or to an earlier instant. -/
  | pass {given : List (Nat × FragmentTask)} {h : Diary} {d next : Document} {w : EventLoop}
      {limit : Nat} (watches : Watches first w₀ given h d w) (waits : (d.poll w).1 = .pending next)
      (idle : (d.poll w).2.registry.queue = []) (ahead : (d.poll w).2.now ≤ limit) :
      Watches first w₀ (given ++ (w.newcomers (d.poll w).2).map (w.now, ·)) (h.note w.now (d.seen w))
        next ((d.poll w).2.jump next.stream.alarms limit)

namespace Watches

variable {first d last : Document} {w₀ w after : EventLoop} {given : List (Nat × FragmentTask)}
  {h : Diary}

/-- Reading without pauses is a way of reading. -/
theorem run (watches : Watches first w₀ given h d w) :
    toChunkStream.Run first w₀ h.happenings d w := by
  induction watches with
  | start => exact .start
  | poll _ onward ih =>
    rw [Diary.happenings_note]
    exact ih.poll rfl onward
  | @turn _ _ _ w _ ih =>
    rw [Diary.happenings_note]
    exact ih.meanwhile w.turned_meanwhile
  | @pass _ _ d next w _ _ waits _ ahead ih =>
    rw [Diary.happenings_note]
    have onward : (d.poll w).1.next? = some next := by rw [waits]; rfl
    have asked : toChunkStream.poll d w = ((d.poll w).1, (d.poll w).2) := rfl
    have later := (d.poll w).2.jump_background next.stream.alarms ahead
    have passed := (ih.poll asked onward).background later
    rwa [List.append_nil] at passed

/-- The states are those that come of consuming the document. -/
theorem consumes (watches : Watches first w₀ given h d w) : ∃ asked, Consumes first w₀ asked d w := by
  induction watches with
  | start => exact ⟨[], .start⟩
  | poll _ onward ih =>
    obtain ⟨asked, consumes⟩ := ih
    exact ⟨_, consumes.poll onward⟩
  | turn _ ih =>
    obtain ⟨asked, consumes⟩ := ih
    exact ⟨_, consumes.turn⟩
  | pass _ waits idle ahead ih =>
    obtain ⟨asked, consumes⟩ := ih
    exact ⟨_, consumes.pass waits idle ahead⟩

theorem yields_seen (d : Document) (w : EventLoop) : History.yields (d.seen w) = (d.poll w).1.items := by
  simp [seen, EventLoop.handedInSince]

/-- The turns of woken fragments. -/
theorem runQueue (watches : Watches first w₀ given h d w) (turns : Nat) : ∃ given' h',
    Watches first w₀ given' h' d (w.runQueue turns) ∧ h'.yields = h.yields := by
  induction turns generalizing given h w with
  | zero => exact ⟨given, h, watches, rfl⟩
  | succ turns ih =>
    rw [EventLoop.runQueue]
    split
    · exact ⟨given, h, watches, rfl⟩
    · obtain ⟨given', h', onward, same⟩ := ih watches.turn
      exact ⟨given', h', onward, same.trans (by simp)⟩

/-- Waiting for a chunk. -/
theorem waitRounds (watches : Watches first w₀ given h d w) (turns limit rounds : Nat)
    {answer : Option Item}
    (got : EventLoop.waitRounds toChunkStream.toAwaitable turns limit rounds d w =
      (.ready answer last, after)) : ∃ given' h', Watches first w₀ given' h' last after ∧
        h'.yields = h.yields ++ answer.toList.map (after.now, ·) ∧
        (answer = none → last.stream.finished) := by
  induction rounds generalizing given h d w with
  | zero => simp [EventLoop.waitRounds] at got
  | succ rounds ih =>
    rw [EventLoop.waitRounds] at got
    have present := d.poll_now w
    rcases polled : d.poll w with ⟨polledAnswer, w'⟩
    rw [show toChunkStream.poll d w = (polledAnswer, w') from polled] at got
    rw [polled] at present
    cases polledAnswer with
    | ready brought next =>
      simp only [Prod.mk.injEq, Waited.ready.injEq] at got
      obtain ⟨⟨rfl, rfl⟩, rfl⟩ := got
      have isNext : (d.poll w).1.next? = some next := by rw [polled]; rfl
      have onward := watches.poll isNext
      rw [polled] at onward
      refine ⟨_, _, onward, ?_, ?_⟩
      · rw [Diary.yields_note, yields_seen, polled, ← present]
        cases brought <;> rfl
      · rintro rfl
        exact finished_of_poll polled
    | pending next =>
      dsimp only at got
      have nothing : History.yields (d.seen w) = [] := by rw [yields_seen, polled]; rfl
      split at got
      · simp at got
      · rename_i ahead
        -- Nothing came: time passes, unless fragments were woken.
        have waits : (d.poll w).1 = .pending next := by rw [polled]
        split at got
        · rename_i idle
          have early : (d.poll w).2.now ≤ limit := by rw [polled]; exact Nat.le_of_not_le ahead
          have passes := watches.pass waits (by rw [polled]; simpa using idle) early
          rw [polled] at passes
          obtain ⟨given', h', onward, brought, ended⟩ := ih passes got
          exact ⟨given', h', onward, by simpa [nothing] using brought, ended⟩
        · have onward := watches.poll (by rw [waits]; rfl)
          rw [polled] at onward
          obtain ⟨given', h', onward, same⟩ := onward.runQueue turns
          obtain ⟨given'', h'', onward, brought, ended⟩ := ih onward got
          exact ⟨given'', h'', onward, by simpa [same, nothing] using brought, ended⟩
    | panicked message => simp at got

end Watches

/-- Reading a document to its end without pauses. -/
theorem watches_of_readWithin {first d : Document} {w₀ w after : EventLoop}
    {given : List (Nat × FragmentTask)} {h : Diary} (watches : Watches first w₀ given h d w)
    (turns patience most : Nat) {arrivals : List Arrival}
    (read : toChunkStream.readWithin turns patience most {} d w = (.ok (arrivals, .done), after)) :
    ∃ given' h' last, Watches first w₀ given' h' last after ∧ last.stream.finished ∧
      h'.yields = h.yields ++ arrivals.map fun arrival => (arrival.time, .ok arrival.chunk) := by
  induction most generalizing given h d w arrivals with
  | zero => simp [ChunkStream.readWithin] at read
  | succ most ih =>
    -- A reader without pauses asks at once.
    have unmoved : w.sleep turns 0 = w := by
      simp [EventLoop.sleep, EventLoop.wait, EventLoop.waitRounds, EventLoop.never]
    rw [ChunkStream.readWithin, if_neg (by simp)] at read
    simp only [List.headD_nil, List.tail_nil, Option.map_none, unmoved] at read
    split at read <;> rename_i got
    · simp at read
    · simp at read
    · obtain ⟨given', h', onward, brought, ended⟩ := watches.waitRounds _ _ _ got
      simp only [Prod.mk.injEq, Except.ok.injEq, and_true] at read
      obtain ⟨rfl, rfl⟩ := read
      exact ⟨given', h', _, onward, ended rfl, by simpa using brought⟩
    · simp at read
    · rename_i chunk left w'
      obtain ⟨given', h', onward, brought, -⟩ := watches.waitRounds _ _ _ got
      rcases others : toChunkStream.readWithin turns patience most {} left w' with ⟨rest, after'⟩
      rw [others, ChunkStream.prepend] at read
      cases rest with
      | error message => simp [Except.map] at read
      | ok got =>
        obtain ⟨later, ending⟩ := got
        simp only [Except.map, Prod.mk.injEq, Except.ok.injEq] at read
        obtain ⟨⟨rfl, rfl⟩, rfl⟩ := read
        obtain ⟨given'', h'', last, onward, ended, broughtLater⟩ := ih onward others
        exact ⟨given'', h'', last, onward, ended, by simpa [brought] using broughtLater⟩

/-- So it is with all renderings that are asked on the way. -/
theorem consumes_of_readWithin {first : Document} {w₀ after : EventLoop} (turns patience most : Nat)
    {arrivals : List Arrival}
    (read : toChunkStream.readWithin turns patience most {} first w₀ = (.ok (arrivals, .done), after)) :
    ∃ asked last, Consumes first w₀ asked last after ∧ last.stream.finished := by
  obtain ⟨given, h, last, watches, finished, -⟩ := watches_of_readWithin .start turns patience most read
  obtain ⟨asked, consumes⟩ := watches.consumes
  exact ⟨asked, last, consumes, finished⟩

end Document

end ProgressiveHtml
