import ProgressiveHtml.Chunk
import ProgressiveHtml.Response.Timing

namespace ProgressiveHtml

/-!
# Responses — writing chunks out and keeping track of it

A response writes the chunks of a document to a writer, one buffer for each chunk that is not empty,
and keeps track of its phase, of how much was written and of when.

* `Writer` — what takes the buffers; any call to it may fail;
* `Response.send`, `Response.complete` — write one chunk, end the response;
* `Response.accept`, `Response.sendAll` — write the items of a stream.
-/

/-- A call to a writer. -/
inductive WriterCall where
  /-- Wait until there is room for a buffer. -/
  | ready
  /-- Hand over a buffer, given as text. -/
  | send (text : String)
  /-- Wait until everything handed over is written. -/
  | flush
  deriving DecidableEq

/-- What takes the buffers of a response. -/
structure Writer where
  /-- Whether a call fails after the given earlier calls, and with which message. -/
  refuses : List WriterCall → WriterCall → Option String
  /-- The calls made so far, also those that failed. -/
  calls : List WriterCall := []

namespace Writer

/-- Make one call. -/
def call (w : Writer) (c : WriterCall) : Except String Unit × Writer :=
  let after := { w with calls := w.calls ++ [c] }
  match w.refuses w.calls c with
  | some message => (.error message, after)
  | none => (.ok (), after)

/-- Make calls in order up to the first that fails. -/
def callAll : List WriterCall → Writer → Except String Unit × Writer
  | [], w => (.ok (), w)
  | c :: rest, w =>
    match w.call c with
    | (.error message, w) => (.error message, w)
    | (.ok (), w) => callAll rest w

/-- Write one buffer. -/
def write (w : Writer) (text : String) : Except String Unit × Writer :=
  callAll [.ready, .send text, .flush] w

end Writer

/-- One call of a kind that fails: its number among the calls of this kind, and the message. -/
structure WriterFault where
  number : Nat
  message : String

/-- Which calls of a writer fail. -/
structure FaultPlan where
  ready : Option WriterFault := none
  send : Option WriterFault := none
  flush : Option WriterFault := none

namespace WriterCall

/-- Whether two calls are of the same kind. -/
def sameKind : WriterCall → WriterCall → Bool
  | ready, ready => true
  | send _, send _ => true
  | flush, flush => true
  | _, _ => false

end WriterCall

namespace FaultPlan

/-- The fault planned for the kind of a call. -/
def fault? (plan : FaultPlan) : WriterCall → Option WriterFault
  | .ready => plan.ready
  | .send _ => plan.send
  | .flush => plan.flush

/-- The writer whose calls fail as planned. -/
def writer (plan : FaultPlan) : Writer where
  refuses earlier c :=
    match plan.fault? c with
    | some fault =>
      if earlier.countP c.sameKind + 1 = fault.number then some fault.message else none
    | none => none

end FaultPlan

/-- How far a response has got. -/
inductive Phase where
  /-- Nothing has been written. -/
  | start
  /-- The first chunk has been written. -/
  | shellSent
  /-- The patch of a slot has been written. -/
  | patchSent (slot : String)
  /-- The response ended as it should. -/
  | completion
  /-- The response ended with an error. -/
  | error (message : String)
  deriving DecidableEq

namespace Phase

/-- Whether the response has ended. -/
def isTerminal : Phase → Bool
  | completion | error _ => true
  | _ => false

/-- The name of the phase and what it is about. -/
def describe : Phase → List String
  | start => ["Start"]
  | shellSent => ["ShellSent"]
  | patchSent slot => ["PatchSent", slot]
  | completion => ["Completion"]
  | error message => ["Error", message]

end Phase

/-- A response being written. -/
structure Response where
  writer : Writer
  phase : Phase := .start
  timing : Timing := {}
  /-- How many chunks have been written; the count has no upper bound. -/
  chunks : Nat := 0
  /-- How many bytes have been written; this count has no upper bound either. -/
  bytes : Nat := 0

namespace Response

/-- Write down that a chunk has been written. -/
def wrote (r : Response) (chunk : Chunk) (now : Nat) : Response :=
  let r := { r with chunks := r.chunks + 1, bytes := r.bytes + chunk.byteSize }
  let r :=
    if r.phase = .start then
      { r with timing := r.timing.mark Timing.shellMark now, phase := .shellSent }
    else r
  match chunk.slot? with
  | some slot => { r with timing := r.timing.markPatch slot now, phase := .patchSent slot }
  | none => r

/-- Write one chunk.  Nothing is written for an empty one, and nothing after the end. -/
def send (r : Response) (chunk : Chunk) (now : Nat) : Except StreamError Unit × Response :=
  if r.phase.isTerminal then (.error .completed, r)
  else if chunk.isEmpty then (.ok (), r)
  else
    match r.writer.write chunk.text with
    | (.error message, writer) => (.error (.sink message), { r with writer })
    | (.ok (), writer) => (.ok (), { r with writer }.wrote chunk now)

/-- Flush what was written and end the response. -/
def complete (r : Response) (now : Nat) : Except StreamError Unit × Response :=
  match r.writer.call .flush with
  | (.error message, writer) => (.error (.sink message), { r with writer })
  | (.ok (), writer) =>
    (.ok (), { r with
      writer, phase := .completion, timing := r.timing.mark Timing.completeMark now })

/-- Write one item of a stream.  An error of the stream or of writing is recorded in the phase. -/
def accept (r : Response) (item : Item) (now : Nat) : Except StreamError Unit × Response :=
  let (result, r) :=
    match item with
    | .ok chunk => r.send chunk now
    | .error error => (.error (.render error), r)
  match result with
  | .ok () => (.ok (), r)
  | .error error => (.error error, { r with phase := .error error.message })

/-- Write the items of a stream up to the first error, and end the response if there is none; with
    the items that were left unread. -/
def sendAll (r : Response) (now : Nat) :
    List Item → (Except StreamError Unit × Response) × List Item
  | [] => (r.complete now, [])
  | item :: rest =>
    match r.accept item now with
    | (.ok (), r) => sendAll r now rest
    | (.error error, r) => ((.error error, r), rest)

/-- What can be done with a response. -/
inductive Operation where
  | send (chunk : Chunk)
  | sendAll (items : List Item)
  | complete

/-- Do something with a response: the outcome, the response, and the items that a stream has
    left. -/
def perform (r : Response) (now : Nat) :
    Operation → (Except StreamError Unit × Response) × List Item
  | .send chunk => (r.send chunk now, [])
  | .sendAll items => r.sendAll now items
  | .complete => (r.complete now, [])

/-- What can be seen after an operation. -/
structure Report where
  operation : Operation
  result : Except StreamError Unit
  /-- The items that a stream has left. -/
  unread : List Item
  /-- How many calls the writer had got before. -/
  earlierCalls : Nat
  response : Response

/-- Do things with a response in order, with a report for each. -/
def performAll (r : Response) (now : Nat) : List Operation → List Report
  | [] => []
  | operation :: rest =>
    match r.perform now operation with
    | ((result, after), unread) =>
      { operation, result, unread, earlierCalls := r.writer.calls.length, response := after }
        :: after.performAll now rest

end Response

end ProgressiveHtml
