import ProgressiveHtml.Proofs.Document.InStep
import ProgressiveHtml.Proofs.Document.Settling

namespace ProgressiveHtml

/-!
# Documents — failures are contained

Two documents differ only in what the values of some late fragments come to: a text in one, a failure in
the other.  A reader gets the same chunks from both at the same instants, but for the patches of these
fragments.

* `EventLoop.askedRounds`, `Document.askedWithin` — the renderings that are asked while something is
  waited for, and while a document is read;
* `Awaitable.StaysInStep` — what two runs may wait for without getting out of step;
* `Awaitable.StaysInStep.waitRounds`, `EventLoop.InStep.sleep` — waiting and sleeping;
* `Document.Twin.readWithin` — reading two documents in step;
* `Document.contained` — both documents are read to their ends, with the same chunks.
-/

open Rendering

/-! ### What is asked while the reader waits -/

namespace EventLoop

/-- The renderings that are asked in the turns of woken fragments. -/
def askedQueue : Nat → EventLoop → List (Rendering × EventLoop)
  | 0, _ => []
  | turns + 1, w =>
    if w.registry.queue.isEmpty then [] else w.askedNext ++ askedQueue turns w.runNext

/-- The renderings that are asked while the main task waits for something; asking for it asks the
    renderings `asks`. -/
def askedRounds {σ α : Type} (what : Awaitable σ α) (asks : σ → EventLoop → List (Rendering × EventLoop))
    (turns limit : Nat) : Nat → σ → EventLoop → List (Rendering × EventLoop)
  | 0, _, _ => []
  | rounds + 1, s, w =>
    asks s w ++
      match what.poll s w with
      | (.pending s, w) =>
        if limit ≤ w.now then []
        else if w.registry.queue.isEmpty then
          askedRounds what asks turns limit rounds s (w.jump (what.alarms s) limit)
        else askedQueue turns w ++ askedRounds what asks turns limit rounds s (w.runQueue turns)
      | _ => []

/-- The renderings that are asked while the main task waits for something up to a limit. -/
def askedWait {σ α : Type} (what : Awaitable σ α) (asks : σ → EventLoop → List (Rendering × EventLoop))
    (turns limit : Nat) (s : σ) (w : EventLoop) : List (Rendering × EventLoop) :=
  askedRounds what asks turns limit (2 * (limit - w.now) + 2) s w

/-- The renderings that are asked while the main task sleeps. -/
def askedSleep (turns length : Nat) (w : EventLoop) : List (Rendering × EventLoop) :=
  askedWait never (fun _ _ => []) turns (w.now + length) () w

end EventLoop

/-- The renderings that are asked while a document is read with pauses. -/
def Document.askedWithin (turns patience : Nat) :
    Nat → List Nat → Document → EventLoop → List (Rendering × EventLoop)
  | 0, _, _, _ => []
  | most + 1, pauses, d, w =>
    w.askedSleep turns (pauses.headD 0) ++
      let w := w.sleep turns (pauses.headD 0)
      EventLoop.askedWait toChunkStream.toAwaitable asked turns (w.now + patience) d w ++
        match toChunkStream.next turns (w.now + patience) d w with
        | (.ready (some (.ok _)) next, w) => askedWithin turns patience most pauses.tail next w
        | _ => []

/-! ### Waiting in step -/

/-- What waiting in two runs comes to agrees: both have an answer, or both have none up to the limit. -/
inductive Waited.Related {σ α : Type} (R : σ → σ → Prop) (Q : α → α → Prop) :
    Waited σ α → Waited σ α → Prop
  | ready {answer answer' : α} {next next' : σ} (answers : Q answer answer') (left : R next next') :
      Related R Q (.ready answer next) (.ready answer' next')
  | expired {next next' : σ} (left : R next next') : Related R Q (.expired next) (.expired next')

/-- Two runs that wait for something stay in step when it is asked for, as long as nothing fails that is
    asked meanwhile. -/
structure Awaitable.StaysInStep {σ α : Type} (F : String → Prop) (all : List (Rendering × EventLoop))
    (what : Awaitable σ α) (asks : σ → EventLoop → List (Rendering × EventLoop))
    (R : σ → σ → Prop) (Q : α → α → Prop) : Prop where
  poll : ∀ {s s' : σ} {w v : EventLoop}, R s s' → w.InStep F (OwnSlot F all) v → asks s w ⊆ all →
    Unfailing (asks s w) → Unfailing (asks s' v) →
      Polled.Related R Q (what.poll s w).1 (what.poll s' v).1 ∧
        (what.poll s w).2.InStep F (OwnSlot F all) (what.poll s' v).2
  alarms : ∀ {s s' : σ}, R s s' → what.alarms s = what.alarms s'

section

variable {F : String → Prop} {all : List (Rendering × EventLoop)} {w v : EventLoop}

/-- All woken fragments go on in both runs. -/
theorem EventLoop.InStep.runQueue (missing : Missing F all) {turns : Nat}
    (inStep : w.InStep F (OwnSlot F all) v) (inAll : w.askedQueue turns ⊆ all)
    (calm : Unfailing (w.askedQueue turns)) (calm' : Unfailing (v.askedQueue turns)) :
    (w.runQueue turns).InStep F (OwnSlot F all) (v.runQueue turns) := by
  induction turns generalizing w v with
  | zero => exact inStep
  | succ turns ih =>
    rw [EventLoop.askedQueue] at inAll calm calm'
    rw [EventLoop.runQueue, EventLoop.runQueue]
    rw [← inStep.queue] at calm' ⊢
    by_cases idle : w.registry.queue.isEmpty
    · rw [if_pos idle, if_pos idle]
      exact inStep
    · rw [if_neg idle] at inAll calm calm'
      rw [if_neg idle, if_neg idle]
      rw [Unfailing.unfailing_append] at calm calm'
      obtain ⟨inNext, inRest⟩ := List.append_subset.1 inAll
      exact ih (inStep.runNext missing inNext calm.1 calm'.1) inRest calm.2 calm'.2

variable {σ α : Type} {what : Awaitable σ α} {asks : σ → EventLoop → List (Rendering × EventLoop)}
  {R : σ → σ → Prop} {Q : α → α → Prop} {s s' : σ}

/-- The main task waits in both runs. -/
theorem Awaitable.StaysInStep.waitRounds (stays : what.StaysInStep F all asks R Q)
    (missing : Missing F all) {turns limit rounds : Nat} (twins : R s s')
    (inStep : w.InStep F (OwnSlot F all) v)
    (inAll : EventLoop.askedRounds what asks turns limit rounds s w ⊆ all)
    (calm : Unfailing (EventLoop.askedRounds what asks turns limit rounds s w))
    (calm' : Unfailing (EventLoop.askedRounds what asks turns limit rounds s' v)) :
    Waited.Related R Q (EventLoop.waitRounds what turns limit rounds s w).1
        (EventLoop.waitRounds what turns limit rounds s' v).1 ∧
      (EventLoop.waitRounds what turns limit rounds s w).2.InStep F (OwnSlot F all)
        (EventLoop.waitRounds what turns limit rounds s' v).2 := by
  induction rounds generalizing s s' w v with
  | zero => exact ⟨.expired twins, inStep⟩
  | succ rounds ih =>
    rw [EventLoop.askedRounds] at inAll calm calm'
    rw [Unfailing.unfailing_append] at calm calm'
    obtain ⟨inPoll, inRest⟩ := List.append_subset.1 inAll
    obtain ⟨calm, calmRest⟩ := calm
    obtain ⟨calm', calmRest'⟩ := calm'
    obtain ⟨related, inStep⟩ := stays.poll twins inStep inPoll calm calm'
    rw [EventLoop.waitRounds, EventLoop.waitRounds]
    rcases polled : what.poll s w with ⟨answer, w'⟩
    rcases polled' : what.poll s' v with ⟨answer', v'⟩
    rw [polled] at related inStep inRest calmRest
    rw [polled'] at related inStep calmRest'
    dsimp only at related inStep
    cases related with
    | ready answers left => exact ⟨.ready answers left, inStep⟩
    | pending left =>
      dsimp only at inRest calmRest calmRest' ⊢
      rw [← inStep.now, ← inStep.queue] at calmRest' ⊢
      -- Both runs have reached the limit, or none has; and the same fragments have been woken.
      by_cases late : limit ≤ w'.now
      · rw [if_pos late, if_pos late]
        exact ⟨.expired left, inStep⟩
      · rw [if_neg late] at inRest calmRest calmRest'
        rw [if_neg late, if_neg late]
        by_cases idle : w'.registry.queue.isEmpty
        · rw [if_pos idle] at inRest calmRest calmRest'
          rw [if_pos idle, if_pos idle]
          rw [← stays.alarms left] at calmRest' ⊢
          exact ih left (inStep.jump _ limit) inRest calmRest calmRest'
        · rw [if_neg idle] at inRest calmRest calmRest'
          rw [if_neg idle, if_neg idle]
          rw [Unfailing.unfailing_append] at calmRest calmRest'
          obtain ⟨inQueue, inRest⟩ := List.append_subset.1 inRest
          have inStep := inStep.runQueue missing inQueue calmRest.1 calmRest'.1
          exact ih left inStep inRest calmRest.2 calmRest'.2

/-- The main task waits up to a limit in both runs. -/
theorem Awaitable.StaysInStep.wait (stays : what.StaysInStep F all asks R Q)
    (missing : Missing F all) {turns limit : Nat} (twins : R s s')
    (inStep : w.InStep F (OwnSlot F all) v)
    (inAll : EventLoop.askedWait what asks turns limit s w ⊆ all)
    (calm : Unfailing (EventLoop.askedWait what asks turns limit s w))
    (calm' : Unfailing (EventLoop.askedWait what asks turns limit s' v)) :
    Waited.Related R Q (w.wait what turns limit s).1 (v.wait what turns limit s').1 ∧
      (w.wait what turns limit s).2.InStep F (OwnSlot F all) (v.wait what turns limit s').2 := by
  rw [EventLoop.askedWait] at inAll calm calm'
  rw [EventLoop.wait, EventLoop.wait]
  rw [← inStep.now] at calm' ⊢
  exact stays.waitRounds missing twins inStep inAll calm calm'

/-- Two runs may wait for nothing. -/
theorem EventLoop.never_staysInStep : EventLoop.never.StaysInStep F all (fun _ _ => []) Eq Eq where
  poll twins inStep _ _ _ := ⟨.pending twins, inStep⟩
  alarms _ := rfl

/-- The main task sleeps in both runs. -/
theorem EventLoop.InStep.sleep (missing : Missing F all) {turns length : Nat}
    (inStep : w.InStep F (OwnSlot F all) v) (inAll : w.askedSleep turns length ⊆ all)
    (calm : Unfailing (w.askedSleep turns length)) (calm' : Unfailing (v.askedSleep turns length)) :
    (w.sleep turns length).InStep F (OwnSlot F all) (v.sleep turns length) := by
  rw [EventLoop.askedSleep] at inAll calm calm'
  rw [EventLoop.sleep, EventLoop.sleep]
  rw [← inStep.now] at calm' ⊢
  exact (EventLoop.never_staysInStep.wait missing rfl inStep inAll calm calm').2

end

/-! ### Reading in step -/

/-- Two chunks arrive at the same instant, and they are the same but for the patches of the slots
    `own`. -/
structure Arrival.SameBut (own : Nat → Prop) (a a' : Arrival) : Prop where
  time : a.time = a'.time
  chunk : a.chunk.SameBut own a'.chunk

namespace Document

variable {F : String → Prop} {all : List (Rendering × EventLoop)} {d d' : Document} {w v : EventLoop}

/-- Two runs may wait for the chunks of two documents that differ in what values come to. -/
theorem staysInStep (missing : Missing F all) :
    toChunkStream.toAwaitable.StaysInStep F all asked (Document.Twin F)
      (Item.SameButAt (OwnSlot F all)) where
  poll twins inStep inAll calm calm' := twins.poll missing inStep inAll calm calm'
  alarms twins := twins.alarms_eq

/-- Two readings ended in the same way, and they brought the same chunks at the same instants but for the
    patches of the slots `own`. -/
def ReadsSame (own : Nat → Prop) (ending : Ending Document)
    (read read' : Except String (List Arrival × Ending Document) × EventLoop) : Prop :=
  ∃ arrivals arrivals', read.1 = .ok (arrivals, ending) ∧ read'.1 = .ok (arrivals', ending) ∧
    List.Forall₂ (Arrival.SameBut own) arrivals arrivals'

/-- One more chunk arrived in front. -/
theorem ReadsSame.prepend {own : Nat → Prop} {ending : Ending Document} {a a' : Arrival}
    {read read' : Except String (List Arrival × Ending Document) × EventLoop}
    (others : ReadsSame own ending read read') (first : a.SameBut own a') :
    ReadsSame own ending (ChunkStream.prepend a read) (ChunkStream.prepend a' read') := by
  obtain ⟨came, w⟩ := read
  obtain ⟨came', v⟩ := read'
  obtain ⟨arrivals, arrivals', rfl, rfl, same⟩ := others
  exact ⟨a :: arrivals, a' :: arrivals', rfl, rfl, .cons first same⟩

/-- Two documents are read in step. -/
theorem Twin.readWithin (missing : Missing F all) {turns patience most : Nat} {pauses : List Nat}
    (twins : d.Twin F d') (inStep : w.InStep F (OwnSlot F all) v)
    (inAll : askedWithin turns patience most pauses d w ⊆ all)
    (calm : Unfailing (askedWithin turns patience most pauses d w))
    (calm' : Unfailing (askedWithin turns patience most pauses d' v)) :
    ∃ ending, (ending = .done ∨ ending = .stalled) ∧ ReadsSame (OwnSlot F all) ending
      (toChunkStream.readWithin turns patience most { pauses } d w)
      (toChunkStream.readWithin turns patience most { pauses } d' v) := by
  induction most generalizing d d' w v pauses with
  | zero => exact ⟨.stalled, .inr rfl, [], [], rfl, rfl, .nil⟩
  | succ most ih =>
    rw [askedWithin] at inAll calm calm'
    dsimp only at inAll calm calm'
    rw [Unfailing.unfailing_append, Unfailing.unfailing_append] at calm calm'
    obtain ⟨calmSleep, calmWait, calmRest⟩ := calm
    obtain ⟨calmSleep', calmWait', calmRest'⟩ := calm'
    obtain ⟨inSleep, inAll⟩ := List.append_subset.1 inAll
    obtain ⟨inWait, inRest⟩ := List.append_subset.1 inAll
    have inStep := inStep.sleep missing inSleep calmSleep calmSleep'
    rw [ChunkStream.readWithin, ChunkStream.readWithin, if_neg (by simp), if_neg (by simp)]
    dsimp only [Option.map_none]
    generalize w.sleep turns (pauses.headD 0) = w₁ at inStep inWait calmWait inRest calmRest ⊢
    generalize v.sleep turns (pauses.headD 0) = v₁ at inStep calmWait' calmRest' ⊢
    -- Both readers wait equally long, as it is the same instant.
    rw [← inStep.now] at calmWait' calmRest' ⊢
    obtain ⟨related, inStep⟩ :=
      (staysInStep missing).wait missing twins inStep inWait calmWait calmWait'
    unfold ChunkStream.next at inRest calmRest calmRest' ⊢
    rcases waited : w₁.wait toChunkStream.toAwaitable turns (w₁.now + patience) d with ⟨answer, w₂⟩
    rcases waited' : v₁.wait toChunkStream.toAwaitable turns (w₁.now + patience) d' with ⟨answer', v₂⟩
    rw [waited] at related inStep inRest calmRest
    rw [waited'] at related inStep calmRest'
    dsimp only at related inStep
    cases related with
    | expired left => exact ⟨.stalled, .inr rfl, [], [], rfl, rfl, .nil⟩
    | ready answers left =>
      cases answers with
      | none => exact ⟨.done, .inl rfl, [], [], rfl, rfl, .nil⟩
      | some same =>
        cases same with
        | ok same =>
          obtain ⟨ending, sound, others⟩ := ih left inStep inRest calmRest calmRest'
          exact ⟨ending, sound, others.prepend ⟨inStep.now, same⟩⟩

/-- A failing value is contained.  Two documents differ only in what the values of some late fragments
    come to, whose callbacks build nothing that waits, and all values settle.  Where no rendering fails,
    a reader gets the same chunks at the same instants from both, but for the patches of these fragments,
    and reads both to their ends; unless the reader is not patient enough, and then both stall. -/
theorem contained {settings : Settings} {body body' : Node} {w₀ : EventLoop}
    (differ : Node.Differ F (Environment.empty.deferringAfter settings.timeout) body body')
    (settles : Settles settings body) (fresh : w₀.registry = {}) :
    ∃ enough, ∀ (turns patience most : Nat) (pauses : List Nat),
      let first := start settings body w₀
      let second := start settings body' w₀
      let asked := askedWithin turns patience most pauses first.1 first.2
      let read := toChunkStream.readWithin turns patience most { pauses } first.1 first.2
      let read' := toChunkStream.readWithin turns patience most { pauses } second.1 second.2
      Missing F asked → Unfailing asked →
        Unfailing (askedWithin turns patience most pauses second.1 second.2) →
          ReadsSame (OwnSlot F asked) .done read read' ∨
            ReadsSame (OwnSlot F asked) .stalled read read' ∧
              (turns < enough ∨ patience < enough ∨ most < enough) := by
  obtain ⟨enough, patient⟩ := exists_enough settles fresh
  refine ⟨enough, fun turns patience most pauses => ?_⟩
  intro first second asked read read' missing calm calm'
  have clean (error : RenderError) : .error error ∉ w₀.registry.ready := by simp [fresh]
  obtain ⟨twins, inStep⟩ := twin_start differ (OwnSlot F asked) clean
  obtain ⟨ending, ends | stalls, same⟩ :=
    twins.readWithin missing inStep (List.Subset.refl asked) calm calm'
  · exact .inl (ends ▸ same)
  · have same : ReadsSame (OwnSlot F asked) .stalled read read' := stalls ▸ same
    refine .inr ⟨same, ?_⟩
    -- A reader who is patient enough does not stall.
    by_contra isPatient
    obtain ⟨arrivals, _, stalled, -⟩ := same
    have never := patient turns patience most (by omega) (by omega) (by omega) pauses arrivals read.2
    exact never (Prod.ext stalled rfl)

/-- Two late fragments stand side by side.  In the second document the value of the first one fails, and
    the callback for this failure panics: only the patch of its slot is another. -/
theorem contained_late_failure : ∃ (settings : Settings) (body body' : Node),
    let read := toChunkStream.read 3 9 {} (start settings body {}).1 (start settings body {}).2
    let read' := toChunkStream.read 3 9 {} (start settings body' {}).1 (start settings body' {}).2
    ReadsSame (· = 0) .done read read' ∧ ¬ReadsSame (fun _ => False) .done read read' := by
  let settings : Settings :=
    { timeout := 10, template := some "\x7b\x7bbody\x7d\x7d\x7b\x7bdeferredSlots\x7d\x7d",
      requestId := "r" }
  let value : Eventual (Except Chain String) :=
    { pace := .ofDelays "a" [30] false, result := .ok "late" }
  let render (text : String) : Built := .node (.text text)
  let onError (_ : Chain) : Built := .panics "no node"
  let beside : Node := .defer { pace := .ofDelays "b" [20] false, result := .ok "beside" } render
    (.node (.text "wait")) none
  let body : Node := .group [.defer value render (.node (.text "wait")) (some onError), beside]
  let failure : Except Chain String := .error ⟨"lost", []⟩
  let body' : Node := .group
    [.defer { value with result := failure } render (.node (.text "wait")) (some onError), beside]
  let env := Environment.empty.deferringAfter settings.timeout
  have shown (text : String) : (render text).Brief env := trivial
  have failing : ∀ build ∈ some onError, ∀ error, (build error).Brief env := by
    intro build given error
    obtain rfl := Option.some.inj given
    trivial
  have named : value.pace.label.name = "a" := rfl
  have differ : Node.Differ (· = "a") env body body' :=
    .group (.cons (.result (F := (· = "a")) named failure shown (.same _ _) failing)
      (.cons (.same _ _) (.nil _)))
  have settles : Settles settings body := by
    constructor
    case body => exact ⟨⟨rfl, trivial, trivial⟩, ⟨rfl, trivial, trivial⟩, trivial⟩
    all_goals intro node given; cases given
  have fresh : ({} : EventLoop).registry = {} := rfl
  obtain ⟨enough, reads⟩ := contained differ settles fresh
  let first := start settings body {}
  let second := start settings body' {}
  -- One fragment only has the name in question, and its slot is the first.
  have only : ∀ a ∈ askedWithin 3 EventLoop.patience 9 [] first.1 first.2, ∀ opened ∈ a.1.opened?,
      opened.1.name = "a" → opened.2 = 0 := by
    decide +kernel
  have unlike : toChunkStream.readChunks? 3 9 {} first.1 first.2 ≠
      toChunkStream.readChunks? 3 9 {} second.1 second.2 := by
    decide +kernel
  have ended : (toChunkStream.readChunks? 3 9 {} first.1 first.2).isSome := by decide +kernel
  obtain ⟨chunks, ended⟩ := Option.isSome_iff_exists.1 ended
  obtain ⟨came, done, rfl⟩ := ChunkStream.readChunks?_eq_some.1 ended
  have same := reads 3 EventLoop.patience 9 [] (by decide +kernel) (by decide +kernel)
    (by decide +kernel)
  obtain ⟨arrivals, arrivals', here, here', same⟩ | ⟨⟨_, _, stalled, -⟩, -⟩ := same
  case inr => cases done.symm.trans stalled
  refine ⟨settings, body, body', ⟨arrivals, arrivals', here, here', ?_⟩, ?_⟩
  · refine same.imp fun a a' same => ⟨same.time, same.chunk.imp_right ?_⟩
    rintro ⟨slot, ⟨a, isAsked, opened, given, named, rfl⟩, patches⟩
    exact ⟨_, only a isAsked opened given named, patches⟩
  · -- Without slots of their own the two readings would have brought the same chunks.
    rintro ⟨arrivals, arrivals', here, here', same⟩
    have equal (a a' : Arrival) (same : a.SameBut (fun _ => False) a') : a.chunk = a'.chunk := by
      apply same.chunk.resolve_right
      rintro ⟨_, isOwn, -⟩
      exact isOwn
    have chunks := List.rel_map equal same
    rw [List.forall₂_eq_eq_eq] at chunks
    apply unlike
    rw [ChunkStream.readChunks?_eq_some.2 ⟨arrivals, here, rfl⟩,
      ChunkStream.readChunks?_eq_some.2 ⟨arrivals', here', rfl⟩]
    exact congrArg some chunks

end Document

end ProgressiveHtml
