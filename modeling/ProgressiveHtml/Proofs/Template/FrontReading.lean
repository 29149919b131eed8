import ProgressiveHtml.Proofs.Reader.Brings
import ProgressiveHtml.Proofs.Template.Front

namespace ProgressiveHtml

/-!
# Template streams — reading what stands in front

Waiting for a stream that has more behind it, and reading it at any pace, begins as for the one without.  The
first stream is asked more often, for it also waits for the sleeps of what stands behind, and more fragments
may have their turns; what stands in front does not notice, and both come to the instants at which something
happens in front.

* `TemplateStream.prompt` — a stream does all it can at an instant when it is asked first;
* `TemplateStream.Meanwhile`, `TemplateStream.InFront.reaches` — the instants at which only the first stream
  is asked;
* `TemplateStream.InFront.waits` — waiting for both;
* `TemplateStream.Begins` — what was read of one stream is how another one began;
* `TemplateStream.InFront.read` — reading both.
-/

open Rendering EventLoop

/-! ### Asking a stream -/

/-- Nothing that is rendered notices that a sequence is asked. -/
theorem Sequence.poll_unnoticed (s : Sequence) (w : EventLoop) : w.Unnoticed (s.poll w).2.2 := by
  cases s with
  | supply s => exact .aside (s.poll_now w.timeline) rfl rfl rfl
  | patches => exact drain_unnoticed (show w.drain = (w.drain.1, w.drain.2) from rfl)

namespace TemplateStream

section

variable {pieces left : List Piece} {position : Nat} {w w' : EventLoop}

/-- A walk over pieces keeps what does not depend on what no fragment notices, nor on whether the registry
    is given up. -/
theorem Walks.keeps {P : EventLoop → Prop} (unnoticed : ∀ {w w'}, P w → w.Unnoticed w' → P w')
    (close : ∀ {w}, P w → P w.close) {result : StreamPoll TemplateStream × EventLoop}
    (walks : Walks pieces position w result) (start : P w) : P result.2 := by
  have polled {s s' : Sequence} {answer : Answer} {w w' : EventLoop}
      (asked : s.poll w = (answer, s', w')) (start : P w) : P w' := by
    have aside := s.poll_unnoticed w
    rw [asked] at aside
    exact unnoticed start aside
  have released (s : Sequence) {w : EventLoop} (start : P w) : P (s.release w) := by
    cases s with
    | supply => exact start
    | patches => exact close start
  induction walks with
  | ended | written | pending => exact start
  | failed => exact unnoticed start (.aside rfl rfl rfl rfl)
  | blank _ _ ih => exact ih start
  | item asked | waiting asked => exact polled asked start
  | error asked => exact unnoticed (polled asked start) (.aside rfl rfl rfl rfl)
  | @finished _ s' _ _ _ _ _ asked _ ih => exact ih (released s' (polled asked start))

theorem Drives.orderly (drives : Drives pieces w left w') (orderly : w.Orderly) : w'.Orderly := by
  induction drives with
  | nil => exact orderly
  | rendering _ _ ih => exact ih (orderly.poll _)
  | other _ _ ih => exact ih orderly

theorem Panics.orderly {message : String} (panics : Panics pieces w message w') (orderly : w.Orderly) :
    w'.Orderly := by
  induction panics with
  | here => exact orderly.poll _
  | rendering _ _ ih => exact ih (orderly.poll _)
  | other _ _ ih => exact ih orderly

/-- Asking a stream keeps order. -/
theorem poll_orderly (s : TemplateStream) (orderly : w.Orderly) : (s.poll w).2.Orderly := by
  have asks := s.asks w
  generalize s.poll w = result at asks ⊢
  cases asks with
  | ended => exact orderly
  | panicked _ panics => exact panics.orderly orderly
  | walked _ drives walks =>
    exact walks.keeps (fun kept aside => kept.unnoticed aside) (fun _ => .close _) (drives.orderly orderly)

/-- A stream that has nothing to give hands in no fragment when it is asked again at the same instant. -/
theorem prompt : toChunkStream.toAwaitable.Prompt where
  now s w := s.poll_now w
  orderly s _ orderly := s.poll_orderly orderly
  again {s s' s'' w w' v v'} asked same idle asked' := by
    have now : w'.now = w.now := (congrArg (·.2.now) asked).symm.trans (s.poll_now w)
    obtain ⟨goesOn, still⟩ := standstill_poll (s := s) asked
    have drives := still.drives (w := v) fun _ _ early => (same.trans now).symm ▸ early
    have walks := walks s'.pieces s'.position v
    rw [← drives.poll goesOn, show s'.poll v = _ from asked'] at walks
    refine walks.keeps (P := (·.registry.queue = [])) (fun none aside => ?_) (fun _ => rfl) idle
    exact List.sublist_nil.1 (none ▸ aside.fewer)

end

end TemplateStream

/-! ### The sleeps in front -/

/-- Supplies that are alike wait for sleeps that end together. -/
theorem Supply.Alike.alarm {s s' : Supply} (alike : s.Alike s') :
    List.Forall₂ (fun alarm alarm' : Alarm => alarm.deadline = alarm'.deadline) s.alarm?.toList
      s'.alarm?.toList := by
  obtain ⟨entries, -⟩ := alike
  rw [Supply.alarm?, Supply.alarm?]
  generalize s.items = items, s'.items = items' at entries
  cases entries with
  | nil => exact .nil
  | @cons entry entry' _ _ first _ =>
    obtain ⟨sleep, _⟩ := entry
    obtain ⟨sleep', _⟩ := entry'
    obtain ⟨sleeps, -⟩ := first
    cases sleep <;> cases sleep' <;> simp only [Sleep.Alike] at sleeps
    · exact .nil
    · exact .cons sleeps .nil

/-- Corresponding pieces wait for sleeps that end together. -/
theorem Piece.Same.alarms {shared : Bool} {N : Names} {piece piece' : Piece}
    (same : Piece.Same shared N piece piece') :
    List.Forall₂ (fun alarm alarm' => alarm.deadline = alarm'.deadline) piece.alarms piece'.alarms := by
  cases same with
  | rendering same => exact (Rendering.Same.alarms same).imp fun _ _ alarms => alarms.deadline
  | sequence same =>
    cases same with
    | supply alike => exact alike.alarm
    | patches => exact .nil
  | _ => exact .nil

namespace TemplateStream

/-- The sleeps of corresponding pieces end together. -/
theorem alarms_same {shared : Bool} {N : Names} {front front' : List Piece}
    (same : List.Forall₂ (Piece.Same shared N) front front') :
    List.Forall₂ (fun alarm alarm' => alarm.deadline = alarm'.deadline) (front.flatMap Piece.alarms)
      (front'.flatMap Piece.alarms) := by
  induction same with
  | nil => exact .nil
  | cons first _ ih => exact List.rel_append first.alarms ih

/-! ### Waiting -/

/-- While the second stream waits in the state `v`, the first one has gone on with what stands behind. -/
def Meanwhile (shared : Bool) (front front' : List Piece) (position : Nat) (v : EventLoop)
    (s : TemplateStream) (w : EventLoop) : Prop :=
  ∃ N own more, s = { position, pieces := front ++ more } ∧
    InFront shared N own front front' more w (v.movedTo w.now) ∧ v.now ≤ w.now

namespace Meanwhile

variable {shared : Bool} {front front' : List Piece} {position limit : Nat} {s : TemplateStream}
  {w v : EventLoop}

theorem orderly (meanwhile : Meanwhile shared front front' position v s w) : w.Orderly := by
  obtain ⟨N, own, more, -, inFront, -⟩ := meanwhile
  exact inFront.apart.orderly

/-- The first stream is asked in vain before the next sleep of the second one has ended. -/
theorem asked {registry : Registry} (meanwhile : Meanwhile shared front front' position v s w)
    (still : Standstill v.now registry front)
    (items : .slot (some (.sequence .patches)) ∈ front → v.registry.SameItems registry)
    (early : w.now < v.nextInstant (front'.flatMap Piece.alarms) limit) :
    ∃ s' w', s.poll w = (.pending s', w') ∧ Meanwhile shared front front' position v s' w' := by
  obtain ⟨N, own, more, rfl, inFront, past⟩ := meanwhile
  obtain ⟨own', more', w', polled, now, inFront'⟩ :=
    inFront.poll_behind position still items fun alarm isRunning ahead => by
      obtain ⟨alarm', isRunning', same⟩ := forall₂_mem_left (alarms_same inFront.same) isRunning
      rw [same] at ahead ⊢
      exact Nat.lt_of_lt_of_le early (v.nextInstant_le limit (List.mem_append_left _ isRunning') ahead)
  exact ⟨_, w', polled, N, own', more', rfl, inFront', now ▸ past⟩

/-- A fragment has its turn in the first run. -/
theorem runNext (meanwhile : Meanwhile shared front front' position v s w) (idle : v.registry.queue = []) :
    Meanwhile shared front front' position v s w.runNext := by
  obtain ⟨N, own, more, rfl, inFront, past⟩ := meanwhile
  obtain ⟨N', own', inFront'⟩ := inFront.onward (inFront.apart.later.runNext idle)
  unfold Meanwhile
  rw [runNext_now]
  exact ⟨N', own', more, rfl, inFront', past⟩

/-- Time passes in the first run, but not beyond the instant at which the next sleep of the second stream
    ends. -/
theorem pass (meanwhile : Meanwhile shared front front' position v s w) (idle : w.registry.queue = [])
    (early : w.now < v.nextInstant (front'.flatMap Piece.alarms) limit) :
    w.nextInstant s.alarms limit ≤ v.nextInstant (front'.flatMap Piece.alarms) limit ∧
      (w.nextInstant s.alarms limit < v.nextInstant (front'.flatMap Piece.alarms) limit →
        Meanwhile shared front front' position v s (w.jump s.alarms limit)) := by
  obtain ⟨N, own, more, rfl, inFront, past⟩ := meanwhile
  have inTime := v.nextInstant_le_limit (front'.flatMap Piece.alarms) limit
  refine ⟨inFront.apart.nextInstant_le early fun alarm' isRunning => ?_, fun before =>
    ⟨N, own, more, rfl, { inFront with apart := inFront.apart.pass past idle before }, ?_⟩⟩
  · obtain ⟨alarm, here, same⟩ := forall₂_mem_right (alarms_same inFront.same) isRunning
    refine ⟨alarm, ?_, same⟩
    show alarm ∈ (front ++ more).flatMap Piece.alarms
    rw [List.flatMap_append]
    exact List.mem_append_left _ here
  · exact Nat.le_trans past
      (Nat.le_of_lt (now_lt_nextInstant _ _ (Nat.lt_of_lt_of_le early inTime)))

end Meanwhile

/-- While the second stream waits for its next sleep, the first one is asked at any number of instants
    before, and comes to the instant at which this sleep ends. -/
theorem InFront.reaches {shared : Bool} {N : Names} {own : Nat → Prop} {front front' behind : List Piece}
    {first : TemplateStream} {before w v : EventLoop} {limit : Nat} {position : Nat}
    (inFront : InFront shared N own front front' behind w v) (still : Standstill w.now w.registry front)
    (asked : first.poll before = (.pending { position, pieces := front ++ behind }, w))
    (idle : v.registry.queue = []) (early : v.now < limit) :
    ∃ N' own' more, ∃ w' : EventLoop, InFront shared N' own' front front' more
        (w'.jump ((front ++ more).flatMap Piece.alarms) limit)
        (v.jump (front'.flatMap Piece.alarms) limit) ∧
      ∀ result, Waits toChunkStream.toAwaitable limit { position, pieces := front ++ more }
          (w'.jump ((front ++ more).flatMap Piece.alarms) limit) result →
        GoesOn toChunkStream.toAwaitable limit { position, pieces := front ++ behind } w result := by
  have now : w.now = v.now := inFront.apart.now
  have start : Meanwhile shared front front' position v { position, pieces := front ++ behind } w := by
    refine ⟨N, own, behind, rfl, ?_, Nat.le_of_eq now.symm⟩
    rw [now]
    exact inFront
  have items (drain : .slot (some (.sequence .patches)) ∈ front) : v.registry.SameItems w.registry :=
    ⟨(inFront.sameItems drain).ready.symm, (inFront.sameItems drain).pending.symm⟩
  obtain ⟨_, w', ⟨N', own', more, rfl, inFront', -⟩, -, there, onward⟩ :=
    goesOn_reaches prompt (v.nextInstant_le_limit (front'.flatMap Piece.alarms) limit) Meanwhile.orderly
      (fun meanwhile early => meanwhile.asked (now ▸ still) items early)
      (fun meanwhile => meanwhile.runNext idle) (fun meanwhile => meanwhile.pass) asked start
      (now ▸ v.now_lt_nextInstant _ early)
  exact ⟨N', own', more, w', { inFront' with apart := inFront'.apart.jump there }, onward⟩

/-- A stream that is waited for, and of which nothing can panic. -/
def Unpanicked : Waited TemplateStream (Option Item) → Prop
  | .ready _ next | .expired next => Calm next.pieces
  | .panicked _ => False

/-- Waiting for a stream of which nothing can panic does not panic. -/
theorem Calm.waitRounds {s : TemplateStream} (calm : Calm s.pieces) (turns limit rounds : Nat)
    (w : EventLoop) :
    Unpanicked (EventLoop.waitRounds toChunkStream.toAwaitable turns limit rounds s w).1 := by
  have goesOn {s next : TemplateStream} {w w' : EventLoop} {answer : StreamPoll TemplateStream}
      (calm : Calm s.pieces) (asked : s.poll w = (answer, w')) (onward : answer.next? = some next) :
      Calm next.pieces := by
    obtain ⟨other, same, calm⟩ := calm.poll w
    rw [asked] at same
    obtain rfl := Option.some.inj (onward.symm.trans same)
    exact calm
  -- Whatever happens meanwhile, the stream stays one of which nothing can panic.
  have leaves : EventLoop.LeavesOff toChunkStream.toAwaitable (fun s _ => Calm s.pieces)
      (EventLoop.waitRounds toChunkStream.toAwaitable turns limit rounds s w) :=
    EventLoop.waitRounds_keeps turns limit rounds calm (fun calm asked => goesOn calm asked rfl) id
      fun calm _ _ => calm
  generalize EventLoop.waitRounds toChunkStream.toAwaitable turns limit rounds s w = result at leaves
  obtain ⟨waited, after⟩ := result
  cases waited with
  | ready answer left =>
    obtain ⟨last, before, calm, asked⟩ := leaves
    exact goesOn calm asked rfl
  | expired left => exact leaves
  | panicked message =>
    obtain ⟨last, before, calm, asked⟩ := leaves
    obtain ⟨next, same, -⟩ := calm.poll before
    rw [show last.poll before = _ from asked] at same
    cases same

/-- Nor does waiting for its next item. -/
theorem Calm.next {s : TemplateStream} (calm : Calm s.pieces) (turns limit : Nat) (w : EventLoop) :
    Unpanicked (toChunkStream.next turns limit s w).1 :=
  calm.waitRounds turns limit _ w

/-- Reading a stream of which nothing can panic does not panic. -/
theorem Calm.readWithin {s : TemplateStream} (calm : Calm s.pieces) (turns patience most : Nat)
    (pacing : Pacing) (w : EventLoop) :
    ∃ read, (toChunkStream.readWithin turns patience most pacing s w).1 = .ok read := by
  induction most generalizing s pacing w with
  | zero => exact ⟨_, rfl⟩
  | succ most ih =>
    rw [ChunkStream.readWithin]
    split
    · exact ⟨_, rfl⟩
    · have sound := calm.next turns ((w.sleep turns (pacing.pauses.headD 0)).now + patience)
        (w.sleep turns (pacing.pauses.headD 0))
      dsimp only
      split <;> rename_i asked <;> rw [asked] at sound
      · exact sound.elim
      · exact ⟨_, rfl⟩
      · exact ⟨_, rfl⟩
      · exact ⟨_, rfl⟩
      · rename_i chunk next after
        obtain ⟨read, same⟩ := ih (s := next) sound { pacing with
          take := pacing.take.map (· - 1), pauses := pacing.pauses.tail } after
        refine ⟨(⟨after.now, chunk⟩ :: read.1, read.2), ?_⟩
        show Except.map _ _ = _
        rw [same]
        rfl

/-- Nor does waiting for as long as it takes. -/
theorem Calm.waits {s : TemplateStream} (calm : Calm s.pieces) {w w' : EventLoop} {limit : Nat}
    {waited : Waited TemplateStream (Option Item)}
    (waits : Waits toChunkStream.toAwaitable limit s w (waited, w')) : Unpanicked waited := by
  obtain ⟨enough, same⟩ := waits.wait prompt
  have sound := calm.next enough limit w
  rwa [ChunkStream.next, same enough (Nat.le_refl _)] at sound

/-- What comes of waiting for both streams: the same, unless the second one has ended. -/
inductive AgreeLate : Waited TemplateStream (Option Item) × EventLoop →
    Waited TemplateStream (Option Item) × EventLoop → Prop
  | ended {waited : Waited TemplateStream (Option Item)} {w v : EventLoop} {s : TemplateStream}
      (onward : Unpanicked waited) : AgreeLate (waited, w) (.ready none s, v)
  | chunk {shared : Bool} {N : Names} {own : Nat → Prop} {front front' behind : List Piece}
      {w v : EventLoop} (inFront : InFront shared N own front front' behind w v) (chunk : Chunk)
      (position : Nat) : AgreeLate (.ready (some (.ok chunk)) { position, pieces := front ++ behind }, w)
        (.ready (some (.ok chunk)) { position, pieces := front' }, v)
  | failed {w v : EventLoop} (now : w.now = v.now) (error : RenderError) (s s' : TemplateStream) :
      AgreeLate (.ready (some (.error error)) s, w) (.ready (some (.error error)) s', v)
  | expired (s s' : TemplateStream) (w v : EventLoop) : AgreeLate (.expired s, w) (.expired s', v)
  | panicked (message : String) (w v : EventLoop) :
      AgreeLate (.panicked message, w) (.panicked message, v)

namespace InFront

variable {shared : Bool} {N : Names} {own : Nat → Prop} {front front' behind : List Piece}
  {w v : EventLoop}

/-- When the second stream has ended, waiting for the first one still comes to something. -/
theorem waits_ended {s last : TemplateStream} (orderly : w.Orderly) (onward : Unpanicking (s.poll w).1)
    (limit : Nat) (v : EventLoop) :
    ∃ result, Waits toChunkStream.toAwaitable limit s w result ∧
      AgreeLate result (.ready none last, v) := by
  obtain ⟨next, goesOn, calm⟩ := onward
  have left {answer : StreamPoll TemplateStream} {w' : EventLoop} (asked : s.poll w = (answer, w'))
      {s' : TemplateStream} (isLeft : answer.next? = some s') : Calm s'.pieces := by
    rw [asked] at goesOn
    obtain rfl := Option.some.inj (isLeft.symm.trans goesOn)
    exact calm
  obtain ⟨⟨waited, w'⟩, waits⟩ := exists_waits prompt limit s orderly
  refine ⟨_, waits, .ended ?_⟩
  cases waits with
  | ready asked | expired asked _ => exact left asked rfl
  | panicked asked =>
    rw [show s.poll w = _ from asked] at goesOn
    cases goesOn
  | turns asked _ _ _ onward | passes asked _ _ onward => exact Calm.waits (left asked rfl) onward

/-- Waiting for both streams comes to the same, although the first one is asked more often. -/
theorem waits {s : TemplateStream} {limit : Nat} {result : Waited TemplateStream (Option Item) × EventLoop}
    (waits : Waits toChunkStream.toAwaitable limit s v result)
    (inFront : InFront shared N own front front' behind w v) {position : Nat}
    (isCut : s = { position, pieces := front' }) :
    ∃ result', Waits toChunkStream.toAwaitable limit { position, pieces := front ++ behind } w result' ∧
      AgreeLate result' result := by
  have both {shared : Bool} {N : Names} {own : Nat → Prop} {front front' behind : List Piece}
      {w v v' : EventLoop} {position : Nat} {answer : StreamPoll TemplateStream}
      (inFront : InFront shared N own front front' behind w v)
      (asked : TemplateStream.poll { position, pieces := front' } v = (answer, v')) :
      ∃ answer' w', TemplateStream.poll { position, pieces := front ++ behind } w = (answer', w') ∧
        Agree (answer', w') (answer, v') :=
    ⟨_, _, rfl, asked ▸ inFront.poll position⟩
  -- By induction on the waiting for the second stream: the first one may be asked several times until it
  -- reaches the instant that the second one reaches with its next sleep.
  induction waits generalizing shared N own front front' behind w position with
  | @ready s s' v v' answer asked =>
    subst isCut
    obtain ⟨answer', w', polled, agree⟩ := both inFront asked
    cases agree with
    | chunk inFront chunk position => exact ⟨_, .ready polled, .chunk inFront chunk position⟩
    | failed now error s s' => exact ⟨_, .ready polled, .failed now error s s'⟩
    | ended onward => exact waits_ended inFront.apart.orderly (polled ▸ onward) limit v'
  | @panicked s v v' message asked =>
    subst isCut
    obtain ⟨answer', w', polled, agree⟩ := both inFront asked
    cases agree
    exact ⟨_, .panicked polled, .panicked message w' v'⟩
  | @expired s s' v v' asked late =>
    subst isCut
    obtain ⟨answer', w', polled, agree⟩ := both inFront asked
    cases agree with
    | pending inFront still position =>
      exact ⟨_, .expired polled (inFront.apart.now ▸ late), .expired _ _ w' v'⟩
  | @turns s s' v v' result turns asked early busy rests _ ih =>
    subst isCut
    obtain ⟨answer', w', polled, agree⟩ := both inFront asked
    cases agree with
    | @pending shared _ _ _ _ _ _ _ inFront still position =>
      cases shared with
      | false => exact absurd (inFront.apart.alone rfl).queue busy
      | true =>
        obtain ⟨N', own', later⟩ := inFront.onward (inFront.apart.later.runQueue turns)
        obtain ⟨result', onward, agree⟩ := ih later rfl
        exact ⟨result', .turns polled (inFront.apart.now ▸ early) (inFront.apart.queue rfl ▸ busy)
          (later.apart.queue rfl ▸ rests) onward, agree⟩
  | @passes s s' v v' result asked early idle _ ih =>
    subst isCut
    obtain ⟨answer', w', polled, agree⟩ := both inFront asked
    cases agree with
    | pending inFront still position =>
      obtain ⟨N', own', more, w'', later, onward⟩ := inFront.reaches still polled idle early
      obtain ⟨result', waits, agree⟩ := ih later rfl
      exact ⟨result', (onward result' waits).waits polled (inFront.apart.now ▸ early), agree⟩

end InFront

/-! ### Reading -/

/-- What was read of one stream is how the reading of another one began: the same arrivals, and the same end
    unless the first stream was read to its end. -/
inductive Begins : Except String (List Arrival × Ending TemplateStream) →
    Except String (List Arrival × Ending TemplateStream) → Prop
  | done (arrivals later : List Arrival) (ending : Ending TemplateStream) :
      Begins (.ok (arrivals, .done)) (.ok (arrivals ++ later, ending))
  | failed (arrivals : List Arrival) (time : Nat) (error : RenderError) (left left' : TemplateStream) :
      Begins (.ok (arrivals, .failed time error left)) (.ok (arrivals, .failed time error left'))
  | stalled (arrivals : List Arrival) : Begins (.ok (arrivals, .stalled)) (.ok (arrivals, .stalled))
  | dropped (arrivals : List Arrival) : Begins (.ok (arrivals, .dropped)) (.ok (arrivals, .dropped))
  | panicked (message : String) : Begins (.error message) (.error message)

/-- After the same arrival. -/
theorem Begins.prepend {first whole : Except String (List Arrival × Ending TemplateStream) × EventLoop}
    (begins : Begins first.1 whole.1) (arrival : Arrival) :
    Begins (ChunkStream.prepend arrival first).1 (ChunkStream.prepend arrival whole).1 := by
  obtain ⟨first, w⟩ := first
  obtain ⟨whole, v⟩ := whole
  cases begins with
  | done arrivals later ending => exact .done (arrival :: arrivals) later ending
  | failed arrivals time error left left' => exact .failed (arrival :: arrivals) time error left left'
  | stalled arrivals => exact .stalled (arrival :: arrivals)
  | dropped arrivals => exact .dropped (arrival :: arrivals)
  | panicked message => exact .panicked message

/-- A stream that has nothing to give is the beginning of every other one. -/
theorem Begins.nothing {read : List Arrival × Ending TemplateStream} :
    Begins (.ok ([], .done)) (.ok read) :=
  .done [] read.1 read.2

namespace InFront

variable {shared : Bool} {N : Names} {own : Nat → Prop} {front front' behind : List Piece}
  {w v : EventLoop}

/-- With enough turns both readers, after the same pause, hear the same. -/
theorem hears (inFront : InFront shared N own front front' behind w v) (pause patience position : Nat) :
    ∃ w' v' heard heard', AgreeLate heard' heard ∧ ∃ enough, ∀ turns, enough ≤ turns →
      w.sleep turns pause = w' ∧ v.sleep turns pause = v' ∧
      toChunkStream.next turns (w'.now + patience) { position, pieces := front ++ behind } w' = heard' ∧
      toChunkStream.next turns (v'.now + patience) { position, pieces := front' } v' = heard := by
  obtain ⟨slept, sleeps⟩ := exists_waits prompt_never (v.now + pause) () inFront.apart.orderlyToo
  obtain ⟨w', sleepsToo, later⟩ := inFront.apart.sleeps sleeps
  obtain ⟨N', own', inFront'⟩ := inFront.onward later
  obtain ⟨heard, waits⟩ := exists_waits prompt (slept.2.now + patience)
    { position, pieces := front' } inFront'.apart.orderlyToo
  obtain ⟨heard', waitsToo, agree⟩ := inFront'.waits waits rfl
  obtain ⟨first, afterFirst⟩ := sleeps.wait prompt_never
  obtain ⟨second, afterSecond⟩ := sleepsToo.wait prompt_never
  obtain ⟨third, afterThird⟩ := waits.wait prompt
  obtain ⟨fourth, afterFourth⟩ := waitsToo.wait prompt
  refine ⟨w', slept.2, heard, heard', agree, max (max first second) (max third fourth),
    fun turns more => ?_⟩
  simp only [Nat.max_le] at more
  obtain ⟨⟨more, moreSecond⟩, moreThird, moreFourth⟩ := more
  refine ⟨?_, congrArg Prod.snd (afterFirst turns more), ?_, afterThird turns moreThird⟩
  · have same := afterSecond turns moreSecond
    rw [← inFront.apart.now] at same
    exact congrArg Prod.snd same
  · rw [inFront'.apart.now]
    exact afterFourth turns moreFourth

/-- Reading a stream that has more behind it begins, with enough turns, as reading the one without. -/
theorem read (inFront : InFront shared N own front front' behind w v) (patience most position : Nat)
    (pacing : Pacing) : ∃ enough, ∀ turns, enough ≤ turns → Begins
      (toChunkStream.readWithin turns patience most pacing { position, pieces := front' } v).1
      (toChunkStream.readWithin turns patience most pacing { position, pieces := front ++ behind } w).1 := by
  induction most generalizing shared N own front front' behind w v position pacing with
  | zero => exact ⟨0, fun _ _ => .stalled []⟩
  | succ most ih =>
    by_cases gives : pacing.take = some 0
    · refine ⟨0, fun turns _ => ?_⟩
      rw [ChunkStream.readWithin, ChunkStream.readWithin, if_pos gives, if_pos gives]
      exact .dropped []
    · obtain ⟨w', v', heard, heard', agree, enough, both⟩ :=
        inFront.hears (pacing.pauses.headD 0) patience position
      let later : Pacing := { pacing with take := pacing.take.map (· - 1), pauses := pacing.pauses.tail }
      -- What is read after the same chunk begins in the same way.
      obtain ⟨more, reads⟩ : ∃ more, ∀ turns, more ≤ turns → ∀ chunk s s' w v,
          heard' = (.ready (some (.ok chunk)) s', w) → heard = (.ready (some (.ok chunk)) s, v) →
            w.now = v.now ∧ Begins (toChunkStream.readWithin turns patience most later s v).1
              (toChunkStream.readWithin turns patience most later s' w).1 := by
        cases agree with
        | @chunk _ _ _ front front' behind w v inFront chunk position =>
          obtain ⟨more, reads⟩ := ih inFront position later
          refine ⟨more, fun turns isMore _ _ _ _ _ same same' => ?_⟩
          cases same
          cases same'
          exact ⟨inFront.apart.now, reads turns isMore⟩
        | _ => exact ⟨0, fun _ _ _ _ _ _ _ _ same => by cases same⟩
      refine ⟨max enough more, fun turns isMore => ?_⟩
      obtain ⟨isEnough, isMore⟩ := Nat.max_le.1 isMore
      obtain ⟨slept, sleptToo, same, sameToo⟩ := both turns isEnough
      have reads := reads turns isMore
      rw [ChunkStream.readWithin, ChunkStream.readWithin, if_neg gives, if_neg gives]
      dsimp only
      rw [slept, sleptToo, same, sameToo]
      cases agree with
      | @chunk _ _ _ front front' behind w v inFront chunk position =>
        obtain ⟨now, reads⟩ := reads chunk _ _ w v rfl rfl
        dsimp only
        rw [now]
        exact reads.prepend _
      | @failed w v now error s s' =>
        dsimp only
        rw [now]
        exact .failed [] _ error s' s
      | expired => exact .stalled []
      | panicked message => exact .panicked message
      | @ended waited after last _ onward =>
        -- The second stream has ended; whatever is left of the first does not panic.
        cases waited with
        | panicked => exact onward.elim
        | expired => exact .nothing
        | ready answer next =>
          rcases answer with _ | error | chunk
          · exact .nothing
          · exact .nothing
          · obtain ⟨read, same⟩ := Calm.readWithin (s := next) onward turns patience most later after
            show Begins _ (Except.map _ _)
            rw [same]
            exact .nothing

end InFront

end TemplateStream

end ProgressiveHtml
