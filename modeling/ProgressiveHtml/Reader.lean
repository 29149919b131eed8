import ProgressiveHtml.Document
import ProgressiveHtml.Response

namespace ProgressiveHtml

/-!
# Readers — the ways of reading a stream

A stream of chunks can be read chunk by chunk, at the reader's own pace and only as far as wanted;
as one text; as buffers of bytes; or into a response.

* `ChunkStream` — a stream to be read: that of a template or of a document;
* `ChunkStream.read` — read it chunk by chunk;
* `ChunkStream.bytes`, `ChunkStream.readBuffers` — the stream as one of buffers, and reading these;
* `ChunkStream.collect`, `ChunkStream.respond` — read it into a text or into a response.
-/

/-- A stream of items, and how it is given up. -/
structure ChunkStream (σ : Type) extends Awaitable σ (Option Item) where
  release : σ → EventLoop → EventLoop

/-- The stream of a template. -/
def TemplateStream.toChunkStream : ChunkStream TemplateStream where
  poll := TemplateStream.poll
  alarms := TemplateStream.alarms
  release := TemplateStream.release

/-- The stream of a document. -/
def Document.toChunkStream : ChunkStream Document where
  poll := Document.poll
  alarms d := d.stream.alarms
  release d := d.stream.release

/-- A chunk and when it came. -/
structure Arrival where
  time : Nat
  chunk : Chunk
  deriving DecidableEq

/-- How reading ended. -/
inductive Ending (σ : Type) where
  /-- The stream ended. -/
  | done
  /-- Nothing came any more. -/
  | stalled
  /-- The reader gave up the stream. -/
  | dropped
  /-- An error came; what is left of the stream. -/
  | failed (time : Nat) (error : RenderError) (left : σ)

/-- How a reader takes its chunks. -/
structure Pacing where
  /-- After how many chunks the stream is given up. -/
  take : Option Nat := none
  /-- How long the reader sleeps after it has given up the stream. -/
  after : Nat := 0
  /-- How long the reader sleeps before it asks for each of the first chunks. -/
  pauses : List Nat := []

/-- A buffer of bytes and when it came. -/
structure Buffer where
  time : Nat
  bytes : ByteArray

/-- How a stream was read as bytes or into a response. -/
inductive Delivery where
  | finished (result : Except StreamError Unit)
  | stalled

namespace ChunkStream

variable {σ : Type} (s : ChunkStream σ)

/-- Wait for the next item. -/
def next (turns limit : Nat) (state : σ) (w : EventLoop) : Waited σ (Option Item) × EventLoop :=
  w.wait s.toAwaitable turns limit state

/-- Whether the stream reports its end now, or the panic it ends with. -/
def reportsEnd (state : σ) (w : EventLoop) : Except String Bool × EventLoop :=
  match s.poll state w with
  | (.ready none _, w) => (.ok true, w)
  | (.panicked message, w) => (.error message, w)
  | (_, w) => (.ok false, w)

/-- Put an arrival in front of what was read after it. -/
def prepend (arrival : Arrival) :
    Except String (List Arrival × Ending σ) × EventLoop →
      Except String (List Arrival × Ending σ) × EventLoop
  | (read, w) => (read.map fun (arrivals, ending) => (arrival :: arrivals, ending), w)

/-- Read chunk by chunk, at most `most` of them, waiting at most `patience` for each: what came and
    how it ended, or the panic that ended everything.  The reader looks at its limit, then pauses,
    then asks for a chunk. -/
def readWithin (turns patience : Nat) : (most : Nat) → Pacing → σ → EventLoop →
    Except String (List Arrival × Ending σ) × EventLoop
  | 0, _, _, w => (.ok ([], .stalled), w)
  | most + 1, pacing, state, w =>
    if pacing.take = some 0 then (.ok ([], .dropped), (s.release state w).sleep turns pacing.after)
    else
      let w := w.sleep turns (pacing.pauses.headD 0)
      match s.next turns (w.now + patience) state w with
      | (.panicked message, w) => (.error message, w)
      | (.expired _, w) => (.ok ([], .stalled), w)
      | (.ready none _, w) => (.ok ([], .done), w)
      | (.ready (some (.error error)) state, w) => (.ok ([], .failed w.now error state), w)
      | (.ready (some (.ok chunk)) state, w) =>
        prepend ⟨w.now, chunk⟩ <|
          readWithin turns patience most
            { pacing with take := pacing.take.map (· - 1), pauses := pacing.pauses.tail } state w

/-- Read chunk by chunk with the patience of the main task. -/
def read (turns most : Nat) (pacing : Pacing) (state : σ) (w : EventLoop) :
    Except String (List Arrival × Ending σ) × EventLoop :=
  s.readWithin turns EventLoop.patience most pacing state w

/-- The stream as one of buffers of bytes, one for each chunk.  Like the stream itself it goes on behind
    an error. -/
def bytes : Awaitable σ (Option (Except StreamError ByteArray)) where
  poll state w :=
    match s.poll state w with
    | (answer, w) => (answer.map (·.map Item.buffer), w)
  alarms := s.alarms

/-- Read buffers of bytes up to the first error, at most `most` of them, waiting at most `patience` for
    each. -/
def readBuffers (turns patience : Nat) : (most : Nat) → σ → EventLoop →
    Except String (List Buffer × Delivery) × EventLoop
  | 0, _, w => (.ok ([], .stalled), w)
  | most + 1, state, w =>
    match w.wait s.bytes turns (w.now + patience) state with
    | (.panicked message, w) => (.error message, w)
    | (.expired _, w) => (.ok ([], .stalled), w)
    | (.ready none _, w) => (.ok ([], .finished (.ok ())), w)
    | (.ready (some (.error error)) _, w) => (.ok ([], .finished (.error error)), w)
    | (.ready (some (.ok bytes)) state, w) =>
      match readBuffers turns patience most state w with
      | (read, later) =>
        (read.map fun (buffers, delivery) => (⟨w.now, bytes⟩ :: buffers, delivery), later)

/-- Read everything into one text; `none` when nothing comes any more by `limit`. -/
def collect (turns limit : Nat) : (most : Nat) → σ → EventLoop →
    Except String (Option (Except StreamError String)) × EventLoop
  | 0, _, w => (.ok none, w)
  | most + 1, state, w =>
    match s.next turns limit state w with
    | (.panicked message, w) => (.error message, w)
    | (.expired _, w) => (.ok none, w)
    | (.ready none _, w) => (.ok (some (.ok "")), w)
    | (.ready (some (.error error)) _, w) => (.ok (some (.error (.render error))), w)
    | (.ready (some (.ok chunk)) state, w) =>
      match collect turns limit most state w with
      | (.ok (some (.ok text)), w) => (.ok (some (.ok (chunk.text ++ text))), w)
      | other => other

/-- Write everything into a response; it stalls when nothing comes any more by `limit`. -/
def respond (turns limit : Nat) : (most : Nat) → Response → σ → EventLoop →
    Except String (Delivery × Response) × EventLoop
  | 0, response, _, w => (.ok (.stalled, response), w)
  | most + 1, response, state, w =>
    match s.next turns limit state w with
    | (.panicked message, w) => (.error message, w)
    | (.expired _, w) => (.ok (.stalled, response), w)
    | (.ready none _, w) =>
      match response.complete w.now with
      | (result, response) => (.ok (.finished result, response), w)
    | (.ready (some item) state, w) =>
      match response.accept item w.now with
      | (.ok (), response) => respond turns limit most response state w
      | (.error error, response) => (.ok (.finished (.error error), response), w)

end ChunkStream

end ProgressiveHtml
