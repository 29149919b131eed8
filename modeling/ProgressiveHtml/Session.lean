import ProgressiveHtml.Content
import ProgressiveHtml.Waiting

namespace ProgressiveHtml

/-!
# Sessions — working a registry by hand

A session hands fragments to a registry and reads its patches, step by step.  Fragments go on only
while the session waits.

* `Session.Step`, `Session.Reply` — what can be done, and what it answers;
* `Session.perform` — one step; `Session.run` — all of them.
-/

/-- A late fragment that is handed to a registry by its author. -/
structure LateFragment where
  value : Eventual (Except Chain String)
  /-- What is shown for the value. -/
  render : Content
  /-- What is shown for a failure. -/
  onError : Option Content := none
  /-- The environment in which the fragment stands. -/
  env : Environment

namespace LateFragment

/-- The callback for the value. -/
def shown (f : LateFragment) (value : String) : Built :=
  .ofExcept (f.render.build { value := some value })

/-- The callback for a failure. -/
def failed? (f : LateFragment) : Option (Chain → Built) :=
  f.onError.map fun content error => .ofExcept (content.build { error := some error })

/-- The fragment. -/
def fragment (f : LateFragment) : Fragment :=
  .ofCallbacks f.value f.shown f.failed? f.env

/-- A bound on the fragments that the content of the fragment can hand to the registry, and it. -/
def fragments (f : LateFragment) : Nat :=
  1 + match f.value.result with
    | .ok value => (f.shown value).fragments f.env
    | .error error => (f.failed?.map fun build => (build error).fragments f.env).getD 0

end LateFragment

/-- The length of so many milliseconds as text: in milliseconds below a second, else in seconds with
    no more decimals than needed. -/
def durationText (ms : Nat) : String :=
  if ms = 0 then "0ns"
  else if ms < 1000 then ms.repr ++ "ms"
  else
    let digits := (ms % 1000).repr
    let decimals := ("".pushn '0' (3 - digits.length) ++ digits).toList
    let kept := (decimals.reverse.dropWhile (· == '0')).reverse
    (ms / 1000).repr ++ (if kept.isEmpty then "" else "." ++ String.ofList kept) ++ "s"

/-- A registry with its reader. -/
structure Session where
  /-- How many milliseconds a fragment may take before it is deferred. -/
  timeout : Nat
  /-- Whether patches are being read. -/
  reading : Bool := false
  /-- Whether the registry has been given up. -/
  dropped : Bool := false

namespace Session

/-- What can be done with a registry. -/
inductive Step where
  /-- Hand in a fragment; with `inherits`, fragments in its content may be deferred too. -/
  | register (fragment : LateFragment) (inherits : Bool)
  /-- Sleep. -/
  | sleep (length : Nat)
  /-- Begin to read patches. -/
  | drain
  /-- Give up the registry. -/
  | drop
  /-- Describe the registry. -/
  | describe
  /-- Ask for a patch once. -/
  | poll
  /-- Wait for a patch, at most for the given time, or until patience ends. -/
  | next (within : Option Nat)

/-- What a step answers. -/
inductive Reply where
  | nothing
  | slot (slot : Nat)
  | description (text : String)
  /-- An item came, there are no more, or it is not there yet. -/
  | answer (answer : Answer)
  /-- Patches are not being read. -/
  | notReading

/-- The registry's next item as something to wait for. -/
def drainAwaitable : Awaitable Unit Answer where
  poll _ w :=
    match w.drain with
    | (.waiting, w) => (.pending (), w)
    | (answer, w) => (.ready answer (), w)
  alarms _ := []

/-- The description of a registry. -/
def describe (s : Session) (w : EventLoop) : String :=
  "DeferredSlots \x7b timeout: " ++ durationText s.timeout ++ ", pending: "
    ++ w.registry.pending.repr ++ " \x7d"

/-- The fragment as it is handed in. -/
def equip (s : Session) (fragment : LateFragment) (inherits : Bool) : LateFragment :=
  if inherits then { fragment with env := fragment.env.deferringAfter s.timeout } else fragment

/-- Perform a step; `turns` bounds the number of fragments. -/
def perform (turns : Nat) (s : Session) (step : Step) (w : EventLoop) :
    Reply × Session × EventLoop :=
  match step with
  | .register fragment inherits =>
    let late := (s.equip fragment inherits).fragment
    match w.register (late.late late.value.pace) with
    | (slot, w) => (.slot slot, s, w)
  | .sleep length => (.nothing, s, w.sleep turns length)
  | .drain => (.nothing, { s with reading := s.reading || !s.dropped }, w)
  | .drop => (.nothing, { s with reading := false, dropped := true }, w.close)
  | .describe => (.description (s.describe w), s, w)
  | .poll =>
    if s.reading then
      match w.drain with
      | (answer, w) => (.answer answer, s, w)
    else (.notReading, s, w)
  | .next within =>
    if s.reading then
      match w.wait drainAwaitable turns (w.now + within.getD EventLoop.patience) () with
      | (.ready answer _, w) => (.answer answer, s, w)
      | (_, w) => (.answer .waiting, s, w)
    else (.notReading, s, w)

/-- How many fragments a step can hand to the registry. -/
def Step.fragments (s : Session) : Step → Nat
  | .register fragment inherits => (s.equip fragment inherits).fragments
  | _ => 0

/-- What can be seen after a step. -/
structure Report where
  reply : Reply
  /-- How many fragments are outstanding. -/
  pending : Nat
  time : Nat
  /-- What has happened since the step before. -/
  journal : List Entry

/-- Perform steps in order, with a report for each. -/
def performAll (turns : Nat) : List Step → Session → EventLoop → List Report
  | [], _, _ => []
  | step :: rest, s, w =>
    match s.perform turns step w with
    | (reply, s, after) =>
      { reply, pending := after.registry.pending, time := after.now
        journal := after.timeline.journal.toList.drop w.timeline.journal.size }
        :: performAll turns rest s after

/-- Perform steps on a fresh registry. -/
def run (timeout : Nat) (steps : List Step) : List Report :=
  let session : Session := { timeout }
  let turns := steps.foldl (fun total step => total + step.fragments session) 1
  performAll turns steps session {}

end Session

end ProgressiveHtml
