import ProgressiveHtml.EventLoop.Poll

namespace ProgressiveHtml

/-!
# Event loop — waiting

The main task asks for an answer and waits until it gets one, for a limited time.  Whenever it has
to wait, all woken fragments go on; when there are none, time passes to the end of the next sleep.

* `Awaitable`, `Polled`, `Waited` — what the main task can wait for, and what comes of it;
* `EventLoop.jump` — let time pass until the next sleep ends;
* `EventLoop.wait` — let the main task wait, up to a limit.
-/

/-- What asking the main task comes to: an answer, nothing yet, or a panic.  `σ` is what it goes on
    with. -/
inductive Polled (σ α : Type) where
  | ready (answer : α) (next : σ)
  | pending (next : σ)
  | panicked (message : String)

/-- What waiting comes to: an answer, nothing up to the limit, or a panic. -/
inductive Waited (σ α : Type) where
  | ready (answer : α) (next : σ)
  | expired (next : σ)
  | panicked (message : String)

/-- The same with another answer. -/
def Polled.map {σ α β : Type} (f : α → β) : Polled σ α → Polled σ β
  | ready answer next => .ready (f answer) next
  | pending next => .pending next
  | panicked message => .panicked message

/-- Something the main task can wait for, with answers in `α`. -/
structure Awaitable (σ α : Type) where
  /-- Go on as far as it gets now. -/
  poll : σ → EventLoop → Polled σ α × EventLoop
  /-- The sleeps it is waiting for. -/
  alarms : σ → List Alarm

namespace EventLoop

/-- The instant at which the next sleep ends, at most `limit`. -/
def nextInstant (w : EventLoop) (alarms : List Alarm) (limit : Nat) : Nat :=
  ((alarms ++ w.registry.alarms).map (·.deadline)).foldl
    (fun earliest deadline => if w.now < deadline then min earliest deadline else earliest) limit

/-- Let time pass until the next sleep ends, of those that the main task (`alarms`) or the fragments
    wait for, but not beyond `limit`; and wake the fragments that can go on. -/
def jump (w : EventLoop) (alarms : List Alarm) (limit : Nat) : EventLoop :=
  let now := w.nextInstant alarms limit
  { w with
    timeline := { w.timeline with now }
    registry := { w.registry with queue := w.registry.due now } }

/-- Let the main task wait, in at most `rounds` rounds.  In each round it is asked first, so an
    answer wins over the limit; then all woken fragments go on; and when there are none, time
    passes. -/
def waitRounds {σ α : Type} (what : Awaitable σ α) (turns limit : Nat) :
    Nat → σ → EventLoop → Waited σ α × EventLoop
  | 0, s, w => (.expired s, w)
  | rounds + 1, s, w =>
    match what.poll s w with
    | (.ready answer s, w) => (.ready answer s, w)
    | (.panicked message, w) => (.panicked message, w)
    | (.pending s, w) =>
      if limit ≤ w.now then (.expired s, w)
      else if w.registry.queue.isEmpty then
        waitRounds what turns limit rounds s (w.jump (what.alarms s) limit)
      else waitRounds what turns limit rounds s (w.runQueue turns)

/-- Let the main task wait up to the instant `limit`.  At every instant there is one round in which
    woken fragments go on and one in which time passes; `turns` bounds the number of fragments. -/
def wait {σ α : Type} (what : Awaitable σ α) (turns limit : Nat) (s : σ) (w : EventLoop) :
    Waited σ α × EventLoop :=
  waitRounds what turns limit (2 * (limit - w.now) + 2) s w

/-- Nothing: it never answers. -/
def never : Awaitable Unit Empty where
  poll s w := (.pending s, w)
  alarms _ := []

/-- Let the main task sleep while fragments go on. -/
def sleep (turns length : Nat) (w : EventLoop) : EventLoop :=
  (wait never turns (w.now + length) () w).2

/-- How long the main task waits for something before it gives up, in milliseconds. -/
def patience : Nat := 1000000000

end EventLoop

/-- A rendering as something to wait for. -/
def Rendering.awaitable : Awaitable Rendering (Except RenderError String) where
  poll r w :=
    match r.poll w with
    | (.done markup, w) => (.ready (.ok markup) (.done markup), w)
    | (.failed error, w) => (.ready (.error error) (.failed error), w)
    | (.panicked message, w) => (.panicked message, w)
    | (r, w) => (.pending r, w)
  alarms := Rendering.alarms

end ProgressiveHtml
