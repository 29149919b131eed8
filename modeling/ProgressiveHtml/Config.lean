namespace ProgressiveHtml

/-!
# Configuration — what all documents of a site share

A configuration holds the time a fragment may take before it is deferred, as a 64-bit number of
milliseconds, and an optional document pattern.

* `Span` — a length of time in seconds and nanoseconds;
* `Config` — the configuration, with `withTimeout`, `withTemplate` and `timeout`.
-/

/-- A length of time: whole seconds in 64 bits, and the nanoseconds below a second. -/
structure Span where
  seconds : UInt64
  nanos : Nat
  deriving DecidableEq

namespace Span

/-- The length in nanoseconds. -/
def toNanos (s : Span) : Nat :=
  s.seconds.toNat * 1000000000 + s.nanos

/-- The whole milliseconds in it. -/
def toMillis (s : Span) : Nat :=
  s.toNanos / 1000000

/-- The length of so many milliseconds. -/
def ofMillis (ms : UInt64) : Span :=
  ⟨ms / 1000, (ms % 1000).toNat * 1000000⟩

end Span

/-- The configuration shared by documents. -/
structure Config where
  /-- How many milliseconds a fragment may take before it is deferred. -/
  timeoutMillis : UInt64 := 10
  /-- The pattern of the documents, in place of the built-in one. -/
  template : Option String := none
  deriving DecidableEq

namespace Config

/-- Set the timeout.  Of the number of milliseconds the low 64 bits are kept. -/
def withTimeout (c : Config) (timeout : Span) : Config :=
  { c with timeoutMillis := UInt64.ofNat timeout.toMillis }

/-- Set the document pattern. -/
def withTemplate (c : Config) (pattern : String) : Config :=
  { c with template := some pattern }

/-- The timeout as a length of time. -/
def timeout (c : Config) : Span :=
  .ofMillis c.timeoutMillis

/-- A setting to be changed. -/
inductive Change where
  | timeout (timeout : Span)
  | template (pattern : String)

/-- Change a setting. -/
def change (c : Config) : Change → Config
  | .timeout timeout => c.withTimeout timeout
  | .template pattern => c.withTemplate pattern

/-- The configurations on the way when settings are changed in order, the given one first. -/
def history (c : Config) : List Change → List Config
  | [] => [c]
  | first :: rest => c :: (c.change first).history rest

/-- Whether nothing was changed from the default. -/
def isDefault (c : Config) : Bool :=
  c == {}

end Config

end ProgressiveHtml
