import ProgressiveHtml.Proofs.Reader.Agreement
import ProgressiveHtml.Proofs.Rendering.Coming
import ProgressiveHtml.Proofs.Template.Reference

namespace ProgressiveHtml

/-!
# Template streams — on the clock

The sources of a template stream that all settle decide beforehand when its chunks come.  Run over its
pieces with a clock: text takes no time, a rendering sets the clock to the time at which it is there, and
every element of a sequence is asked for when the clock has come to it, and adds its own delay.

* `Arrival.inTurn` — when the elements of a sequence come;
* `TemplateStream.Planned` — the pieces of a stream, and when their chunks come;
* `TemplateStream.Pends` — a stream that waits for its next chunk;
* `TemplateStream.drives_planned`, `TemplateStream.walk_planned` — what asking a stream does to its plan;
* `TemplateStream.OnClock`, `TemplateStream.OnClock.read` — what a reader without pauses gets, and when.
-/

/-! ### Clocks -/

namespace Arrival

/-- When chunks come that are asked for one after the other, each of which takes its time. -/
def inTurn : (clock : Nat) → List (Nat × Chunk) → List Arrival
  | _, [] => []
  | clock, (delay, chunk) :: rest => ⟨clock + delay, chunk⟩ :: inTurn (clock + delay) rest

/-- When the last of them has come. -/
def clockAfter : (clock : Nat) → List (Nat × Chunk) → Nat
  | clock, [] => clock
  | clock, (delay, _) :: rest => clockAfter (clock + delay) rest

/-- Arrivals between two instants. -/
structure Within (clock : Nat) (arrivals : List Arrival) (closing : Nat) : Prop where
  between : ∀ arrival ∈ arrivals, clock ≤ arrival.time ∧ arrival.time ≤ closing
  order : clock ≤ closing

/-- When the next arrival is due, or the end where there is none. -/
def due (arrivals : List Arrival) (closing : Nat) : Nat := (arrivals.head?.map (·.time)).getD closing

variable {clock middle closing time : Nat} {arrivals later : List Arrival}

theorem Within.append (first : Within clock arrivals middle) (second : Within middle later closing) :
    Within clock (arrivals ++ later) closing where
  between arrival member := by
    obtain here | there := List.mem_append.1 member
    · have between := first.between arrival here
      exact ⟨between.1, Nat.le_trans between.2 second.order⟩
    · have between := second.between arrival there
      exact ⟨Nat.le_trans first.order between.1, between.2⟩
  order := Nat.le_trans first.order second.order

/-- Chunks that come at one instant. -/
theorem within_at (chunks : List Chunk) (passed : clock ≤ time) :
    Within clock (chunks.map (⟨time, ·⟩)) time where
  between arrival member := by
    obtain ⟨chunk, -, rfl⟩ := List.mem_map.1 member
    exact ⟨passed, Nat.le_refl _⟩
  order := passed

theorem within_inTurn (clock : Nat) (elements : List (Nat × Chunk)) :
    Within clock (inTurn clock elements) (clockAfter clock elements) := by
  induction elements generalizing clock with
  | nil => exact ⟨nofun, Nat.le_refl _⟩
  | cons element rest ih =>
    obtain ⟨delay, chunk⟩ := element
    exact (within_at [chunk] (Nat.le_add_right clock delay)).append (ih (clock + delay))

theorem Within.due (within : Within clock arrivals closing) :
    clock ≤ Arrival.due arrivals closing ∧ Arrival.due arrivals closing ≤ closing := by
  cases arrivals with
  | nil => exact ⟨within.order, Nat.le_refl _⟩
  | cons arrival rest => exact within.between arrival List.mem_cons_self

end Arrival

/-- The items of a supply that comes to its end: chunks, none of which has been asked for. -/
def Supply.itemsOf (elements : List (Nat × Chunk)) : List (Sleep × Item) :=
  elements.map fun (delay, chunk) => (.idle delay, .ok chunk)

open Rendering EventLoop

namespace TemplateStream

/-! ### Plans -/

/-- The pieces of a stream at which the clock has come to the given time, the chunks that they bring, and
    when these come.  `R` tells of a rendering which contents it uses up, to which text it comes, and
    when. -/
inductive Planned (R : Rendering → List Nat → String → Nat → Prop) :
    List Piece → (own : List Nat) → (clock : Nat) → List Arrival → (closing : Nat) → Prop
  | nil (clock : Nat) : Planned R [] [] clock [] clock
  | segment {pieces own clock arrivals closing} (text : String)
      (rest : Planned R pieces own clock arrivals closing) :
      Planned R (.segment text :: pieces) own clock
        ((Chunk.literals text).map (⟨clock, ·⟩) ++ arrivals) closing
  | absent {pieces own clock arrivals closing} (rest : Planned R pieces own clock arrivals closing) :
      Planned R (.slot none :: pieces) own clock arrivals closing
  | text {pieces own clock arrivals closing} (text : String)
      (rest : Planned R pieces own clock arrivals closing) :
      Planned R (.slot (some (.text text)) :: pieces) own clock
        ((Chunk.contents text).map (⟨clock, ·⟩) ++ arrivals) closing
  /-- A rendering that was there before the clock has come to it. -/
  | there {pieces own clock arrivals closing} (text : String)
      (rest : Planned R pieces own clock arrivals closing) :
      Planned R (.slot (some (.rendering (.done text))) :: pieces) own clock
        ((Chunk.contents text).map (⟨clock, ·⟩) ++ arrivals) closing
  | rendering {pieces r mine others clock text time arrivals closing} (comes : R r mine text time)
      (rest : Planned R pieces others (max clock time) arrivals closing) :
      Planned R (.slot (some (.rendering r)) :: pieces) (mine ++ others) clock
        ((Chunk.contents text).map (⟨max clock time, ·⟩) ++ arrivals) closing
  | supply {pieces own s clock elements arrivals closing} (settles : s.never = false)
      (items : s.items = Supply.itemsOf elements)
      (rest : Planned R pieces own (Arrival.clockAfter clock elements) arrivals closing) :
      Planned R (.slot (some (.sequence (.supply s))) :: pieces) own clock
        (Arrival.inTurn clock elements ++ arrivals) closing

/-- The same of a stream that waits in its first slot, for a rendering or for an element that has been asked
    for, which is not there before the instant `soonest`. -/
inductive Pends (R : Rendering → List Nat → String → Nat → Prop) (soonest : Nat) :
    List Piece → (own : List Nat) → List Arrival → (closing : Nat) → Prop
  | rendering {pieces r mine others text time arrivals closing} (comes : R r mine text time)
      (rest : Planned R pieces others time arrivals closing) :
      Pends R soonest (.slot (some (.rendering r)) :: pieces) (mine ++ others)
        ((Chunk.contents text).map (⟨time, ·⟩) ++ arrivals) closing
  | element {pieces own s alarm chunk elements arrivals closing} (settles : s.never = false)
      (items : s.items = (.running alarm, .ok chunk) :: Supply.itemsOf elements)
      (ahead : soonest ≤ alarm.deadline)
      (rest : Planned R pieces own (Arrival.clockAfter alarm.deadline elements) arrivals closing) :
      Pends R soonest (.slot (some (.sequence (.supply s))) :: pieces) own
        (⟨alarm.deadline, chunk⟩ :: (Arrival.inTurn alarm.deadline elements ++ arrivals)) closing

variable {R R' : Rendering → List Nat → String → Nat → Prop} {pieces : List Piece} {own : List Nat}
  {clock closing : Nat} {arrivals : List Arrival}

theorem Planned.within (planned : Planned R pieces own clock arrivals closing) :
    Arrival.Within clock arrivals closing := by
  induction planned with
  | nil clock => exact ⟨nofun, Nat.le_refl _⟩
  | absent _ ih => exact ih
  | segment text _ ih | text text _ ih | there text _ ih =>
    exact (Arrival.within_at _ (Nat.le_refl _)).append ih
  | rendering _ _ ih => exact (Arrival.within_at _ (Nat.le_max_left _ _)).append ih
  | supply _ _ _ ih => exact (Arrival.within_inTurn _ _).append ih

/-- What is told of the renderings may change. -/
theorem Planned.mono (planned : Planned R pieces own clock arrivals closing)
    (onward : ∀ {r own text time}, .slot (some (.rendering r)) ∈ pieces → R r own text time →
      R' r own text time) : Planned R' pieces own clock arrivals closing := by
  induction planned with
  | nil clock => exact .nil clock
  | absent _ ih => exact .absent (ih fun member => onward (List.mem_cons_of_mem _ member))
  | segment text _ ih => exact .segment text (ih fun member => onward (List.mem_cons_of_mem _ member))
  | text text _ ih => exact .text text (ih fun member => onward (List.mem_cons_of_mem _ member))
  | there text _ ih => exact .there text (ih fun member => onward (List.mem_cons_of_mem _ member))
  | rendering comes _ ih =>
    exact .rendering (onward List.mem_cons_self comes)
      (ih fun member => onward (List.mem_cons_of_mem _ member))
  | supply settles items _ ih =>
    exact .supply settles items (ih fun member => onward (List.mem_cons_of_mem _ member))

/-! ### The renderings go on -/

/-- The renderings of a stream go on as planned. -/
theorem drives_planned {now : Nat} {w : EventLoop} {others : List Nat}
    (planned : Planned (fun r => r.ComesTo now) pieces own clock arrivals closing)
    (present : w.now = now) (reached : now ≤ clock) (unspent : w.Unspent (own ++ others)) :
    ∃ left own' w', Drives pieces w left w' ∧ w'.now = now ∧ w'.registry = w.registry ∧
      w'.Unspent (own' ++ others) ∧
      Planned (fun r => r.Underway now) left own' clock arrivals closing := by
  induction planned generalizing w others with
  | nil clock => exact ⟨[], [], w, .nil w, present, rfl, unspent, .nil clock⟩
  | absent _ ih =>
    obtain ⟨left, own', w', drives, now, registry, unspent, planned⟩ := ih present reached unspent
    exact ⟨_, own', w', .other rfl drives, now, registry, unspent, .absent planned⟩
  | segment text _ ih =>
    obtain ⟨left, own', w', drives, now, registry, unspent, planned⟩ := ih present reached unspent
    exact ⟨_, own', w', .other rfl drives, now, registry, unspent, .segment text planned⟩
  | text text _ ih =>
    obtain ⟨left, own', w', drives, now, registry, unspent, planned⟩ := ih present reached unspent
    exact ⟨_, own', w', .other rfl drives, now, registry, unspent, .text text planned⟩
  | supply settles items _ ih =>
    obtain ⟨left, own', w', drives, now, registry, unspent, planned⟩ :=
      ih present (Nat.le_trans reached (Arrival.within_inTurn _ _).order) unspent
    exact ⟨_, own', w', .other rfl drives, now, registry, unspent, .supply settles items planned⟩
  | there text _ ih =>
    obtain ⟨left, own', w', drives, now, registry, unspent, planned⟩ := ih present reached unspent
    exact ⟨_, own', w', .of_poll rfl nofun drives, now, registry, unspent, .there text planned⟩
  | @rendering _ r mine more clock text time _ _ comes _ ih =>
    rw [List.append_assoc] at unspent
    obtain ⟨nothing, kept, unspent, onward⟩ := (present.symm ▸ comes).poll r unspent
    rw [present] at onward
    obtain ⟨left, own', w', drives, now, registry, unspent, planned⟩ :=
      ih ((r.poll_now w).trans present) (Nat.le_trans reached (Nat.le_max_left _ _)) unspent.swap
    -- What is on its way to its text does not panic.
    have sound (message : String) : (r.poll w).1 ≠ .panicked message := by
      intro panics
      have goesOn := onward.endsGroup true true
      rw [panics] at goesOn
      cases goesOn
    refine ⟨_, kept ++ own', w', .rendering sound drives, now,
      registry.trans nothing.registry, by rw [List.append_assoc]; exact unspent.swap, ?_⟩
    generalize (r.poll w).1 = r' at onward
    cases onward with
    | there isDue =>
      rw [isDue, Nat.max_eq_left reached] at planned ⊢
      exact .there text planned
    | waits underway => exact .rendering underway planned

/-! ### What comes of asking -/

/-- What comes of asking a stream at an instant, if it keeps its plan: the chunk that is due now, the end if
    nothing is to come, or nothing, if a sleep ends not after the next arrival is due. -/
inductive Answers (registry : Registry) (now : Nat) (arrivals : List Arrival) (closing : Nat) :
    StreamPoll TemplateStream × EventLoop → Prop
  | ended {s w} (same : w.registry = registry) (isEmpty : arrivals = []) (isNow : closing = now) :
      Answers registry now arrivals closing (.ready none s, w)
  | chunk {s w own chunk later} (same : w.registry = registry) (goesOn : s.finished = false)
      (unspent : w.Unspent own)
      (planned : Planned (fun r => r.Underway now) s.pieces own now later closing)
      (isNext : arrivals = ⟨now, chunk⟩ :: later) :
      Answers registry now arrivals closing (.ready (some (.ok chunk)) s, w)
  | pending {s w own} (same : w.registry = registry) (goesOn : s.finished = false)
      (unspent : w.Unspent own)
      (pends : Pends (fun r => r.Underway now) (now + 1) s.pieces own arrivals closing)
      (sleeps : ∃ alarm ∈ s.alarms, now < alarm.deadline ∧
        alarm.deadline ≤ Arrival.due arrivals closing) :
      Answers registry now arrivals closing (.pending s, w)

section

variable {now : Nat} {w : EventLoop} {registry : Registry} {rest : List Piece} {position : Nat}

/-- A text is written, or passed if it is empty. -/
theorem Answers.written {text : String} {chunk : Chunk} {chunks : List Chunk}
    {onward : StreamPoll TemplateStream × EventLoop} (same : w.registry = registry)
    (isWritten : chunks = if text.isEmpty then [] else [chunk]) (unspent : w.Unspent own)
    (planned : Planned (fun r => r.Underway now) rest own now arrivals closing)
    (answers : Answers registry now arrivals closing onward) :
    Answers registry now (chunks.map (⟨now, ·⟩) ++ arrivals) closing
      (if text.isEmpty then onward
        else (.ready (some (.ok chunk)) { position, pieces := rest }, w)) := by
  subst isWritten
  by_cases blank : text.isEmpty
  · simpa only [blank, if_true, List.map_nil, List.nil_append] using answers
  · simp only [blank, Bool.false_eq_true, if_false, List.map_cons, List.map_nil]
    exact .chunk same rfl unspent planned rfl

/-- At a supply that is asked for an element. -/
theorem walk_element {s : Supply} {sleep : Sleep} {chunk : Chunk} {elements : List (Nat × Chunk)}
    {due : Nat} (present : w.now = now) (same : w.registry = registry) (unspent : w.Unspent own)
    (settles : s.never = false) (items : s.items = (sleep, .ok chunk) :: Supply.itemsOf elements)
    (timely : Sleep.Timely now [sleep]) (isDue : sleep.endsAt now = due)
    (planned : Planned (fun r => r.Underway now) rest own (Arrival.clockAfter due elements) arrivals
      closing) :
    Answers registry now (⟨due, chunk⟩ :: (Arrival.inTurn due elements ++ arrivals)) closing
      (walk (.slot (some (.sequence (.supply s))) :: rest) position w) := by
  obtain rfl : w.timeline.now = now := present
  subst isDue
  rw [walk, Sequence.poll]
  obtain ⟨timeline, polled, -, isNow⟩ | ⟨left, timeline, polled, -, running, isDue⟩ :=
    Supply.poll_cases items timely <;> rw [polled]
  · rw [isNow] at planned ⊢
    exact .chunk same rfl (unspent.timeline _) (.supply settles rfl planned) rfl
  · rw [← isDue] at planned ⊢
    -- A sleep that is not over is running, and ends when the element is due.
    obtain ⟨alarm, rfl⟩ : ∃ alarm, left = .running alarm := by
      cases left with
      | idle => cases running
      | running alarm => exact ⟨alarm, rfl⟩
    have ahead : w.timeline.now + 1 ≤ alarm.deadline := (running.overAll_eq 0).2.trans_eq
      (running.overAll_eq 0).1.symm
    refine .pending same rfl (unspent.timeline _) (.element settles rfl ahead planned) ?_
    exact ⟨alarm, List.mem_append_left _ (List.mem_singleton_self _), ahead, Nat.le_refl _⟩

/-- Walking over pieces at which the clock has come to the present instant. -/
theorem walk_planned (planned : Planned (fun r => r.Underway now) pieces own clock arrivals closing)
    (isNow : clock = now) (present : w.now = now) (same : w.registry = registry)
    (unspent : w.Unspent own) :
    Answers registry now arrivals closing (walk pieces position w) := by
  induction planned generalizing w position with
  | nil clock => exact .ended same rfl isNow
  | absent _ ih => exact ih isNow present same unspent
  | segment text rest ih =>
    subst isNow
    exact .written same rfl unspent rest (ih rfl present same unspent)
  | text text rest ih | there text rest ih =>
    subst isNow
    exact .written same rfl unspent rest (ih rfl present same unspent)
  | rendering underway rest _ =>
    obtain ⟨alarm, isRunning, ahead, inTime⟩ := underway.sleeps
    -- What is still waited for is due later than the pieces in front of it.
    have isLater := Nat.max_eq_right (Nat.le_of_lt (isNow ▸ Nat.lt_of_lt_of_le ahead inTime))
    rw [walk_of_waits underway.waits, isLater]
    rw [isLater] at rest
    refine .pending same rfl unspent (.rendering underway rest) ?_
    refine ⟨alarm, List.mem_append_left _ isRunning, ahead, Nat.le_trans inTime ?_⟩
    exact ((Arrival.within_at _ (Nat.le_refl _)).append rest.within).due.1
  | @supply _ _ s clock elements _ _ settles items rest ih =>
    subst isNow
    cases elements with
    | nil =>
      have polled : s.poll w.timeline = (.finished, { s with asked := true }, s.ask w.timeline) := by
        rw [Supply.poll, show s.items = [] from items, settles]
        rfl
      rw [walk, Sequence.poll, polled]
      exact ih rfl ((s.ask_now _).trans present) same (unspent.timeline _)
    | cons element elements =>
      exact walk_element present same unspent settles items (.idle [element.1]) rfl rest

end

/-! ### Reading without pauses -/

/-- A stream that is asked now, and of which no sleep has been overslept. -/
structure OnClock (arrivals : List Arrival) (closing : Nat) (s : TemplateStream) (w : EventLoop) :
    Prop where
  goesOn : s.finished = false
  alone : w.Alone
  plan : ∃ own, w.Unspent own ∧
    (Planned (fun r => r.ComesTo w.now) s.pieces own w.now arrivals closing ∨
      Pends (fun r => r.ComesTo w.now) w.now s.pieces own arrivals closing)

/-- Time passes until the first sleep ends that a stream waits for. -/
theorem Pends.pass {now later : Nat}
    (pends : Pends (fun r => r.Underway now) (now + 1) pieces own arrivals closing)
    (stops : ∀ alarm ∈ pieces.flatMap Piece.alarms, now < alarm.deadline → later ≤ alarm.deadline) :
    Pends (fun r => r.ComesTo later) later pieces own arrivals closing := by
  have goesOn {r : Rendering} {own text time} (member : .slot (some (.rendering r)) ∈ pieces)
      (underway : r.Underway now own text time) : r.ComesTo later own text time :=
    underway.comes later fun alarm isRunning =>
      stops alarm (List.mem_flatMap.2 ⟨.slot (some (.rendering r)), member, isRunning⟩)
  cases pends with
  | rendering underway rest =>
    exact .rendering (goesOn List.mem_cons_self underway)
      (rest.mono fun member => goesOn (List.mem_cons_of_mem _ member))
  | @element _ _ s alarm _ _ _ _ settles items ahead rest =>
    refine .element settles items (stops alarm ?_ ahead)
      (rest.mono fun member => goesOn (List.mem_cons_of_mem _ member))
    refine List.mem_append_left _ (Option.mem_toList.2 ?_)
    rw [Supply.alarm?, items]
    rfl

namespace OnClock

variable {s : TemplateStream} {w : EventLoop}

/-- It is not too late for the next arrival, and everything comes before the end. -/
theorem le_due (onClock : OnClock arrivals closing s w) :
    w.now ≤ Arrival.due arrivals closing ∧ Arrival.due arrivals closing ≤ closing := by
  obtain ⟨-, -, own, -, planned | pends⟩ := onClock
  · exact planned.within.due
  · generalize s.pieces = pieces at pends
    cases pends with
    | @rendering _ _ _ _ text time _ _ comes rest =>
      have within := ((Arrival.within_at (Chunk.contents text) (Nat.le_refl time)).append rest.within).due
      exact ⟨Nat.le_trans (comes.now_le _) within.1, within.2⟩
    | element _ _ ahead rest =>
      have within := (Arrival.within_inTurn _ _).append rest.within
      exact ⟨ahead, within.order⟩

/-- Asking a stream on the clock. -/
theorem poll (onClock : OnClock arrivals closing s w) :
    Answers w.registry w.now arrivals closing (s.poll w) := by
  obtain ⟨goesOn, -, own, unspent, plan⟩ := onClock
  obtain ⟨position, pieces, finished⟩ := s
  obtain rfl : finished = false := goesOn
  dsimp only at plan
  -- A rendering in the first slot sets the clock to a time that is not over.
  have walked (planned : Planned (fun r => r.ComesTo w.now) pieces own w.now arrivals closing) :
      Answers w.registry w.now arrivals closing (TemplateStream.poll { position, pieces } w) := by
    obtain ⟨left, own', w', drives, now, registry, unspent, planned⟩ :=
      drives_planned planned rfl (Nat.le_refl _) unspent.append_nil
    rw [List.append_nil] at unspent
    rw [drives.poll rfl]
    exact walk_planned planned rfl now registry unspent
  obtain planned | pends := plan
  · exact walked planned
  · cases pends with
    | rendering comes rest =>
      have isLater := Nat.max_eq_right (comes.now_le _)
      have planned := Planned.rendering comes (isLater.symm ▸ rest)
      rw [isLater] at planned
      exact walked planned
    | element settles items ahead rest =>
      obtain ⟨left, own', w', drives, now, registry, unspent, planned⟩ := drives_planned rest rfl
        (Nat.le_trans ahead (Arrival.within_inTurn _ _).order) unspent.append_nil
      rw [List.append_nil] at unspent
      rw [(Drives.other rfl drives).poll rfl]
      exact walk_element now registry unspent settles items (.running (.intro ahead [])) rfl planned

/-- The next arrival comes when it is due, and the end if there is none. -/
theorem next (onClock : OnClock arrivals closing s w) (turns : Nat) {limit : Nat}
    (inTime : closing ≤ limit) : ∃ answer s' after,
      toChunkStream.next turns limit s w = (.ready answer s', after) ∧
      after.now = Arrival.due arrivals closing ∧
      answer = arrivals.head?.map (.ok ·.chunk) ∧
      (arrivals ≠ [] → OnClock arrivals.tail closing s' after) := by
  -- The wait goes on until the next arrival is due, because nothing comes earlier.
  obtain ⟨last, before, left, onClock, isDue, same⟩ :=
    EventLoop.wait_reaches (P := OnClock arrivals closing) toChunkStream.toAwaitable turns
      (Nat.le_trans onClock.le_due.2 inTime) (fun onClock => onClock.le_due.1)
      (by
        intro s v onClock early
        have answers := onClock.poll
        have now := s.poll_now v
        show ∃ s' w', s.poll v = _ ∧ _
        rcases asked : s.poll v with ⟨answer, v'⟩
        rw [asked] at answers now
        cases answers with
        | ended _ isEmpty isNow =>
          subst isEmpty
          exact absurd isNow (Nat.ne_of_gt early)
        | chunk _ _ _ _ isNext =>
          subst isNext
          exact absurd early (Nat.lt_irrefl _)
        | pending same goesOn unspent pends sleeps =>
          refine ⟨_, v', rfl, onClock.alone.congr same, now, fun later stops => ?_⟩
          exact ⟨goesOn, onClock.alone.congr same, _, unspent.timeline _, .inr (pends.pass stops)⟩)
      onClock
  have answers := onClock.poll
  have now := last.poll_now before
  have waited : toChunkStream.poll last before = last.poll before := rfl
  rw [ChunkStream.next, same, EventLoop.waitRounds, waited]
  rcases asked : last.poll before with ⟨answer, after⟩
  rw [asked] at answers now
  have isNow := now.trans isDue
  cases answers with
  | ended _ isEmpty =>
    subst isEmpty
    exact ⟨none, _, after, rfl, isNow, rfl, fun nonempty => absurd rfl nonempty⟩
  | chunk same goesOn unspent planned isNext =>
    subst isNext
    refine ⟨_, _, after, rfl, isNow, rfl, fun _ =>
      ⟨goesOn, onClock.alone.congr same, _, unspent, .inl ?_⟩⟩
    rw [now]
    exact planned.mono fun _ underway => underway.comes _ fun _ _ ahead => Nat.le_of_lt ahead
  | pending _ _ _ _ sleeps =>
    obtain ⟨alarm, -, ahead, inTime⟩ := sleeps
    omega

/-- A reader without pauses gets every chunk when it is due, and then the end. -/
theorem read (onClock : OnClock arrivals closing s w) (turns : Nat) {patience most : Nat}
    (patient : closing ≤ w.now + patience) (enough : arrivals.length < most) : ∃ after,
      toChunkStream.readWithin turns patience most {} s w = (.ok (arrivals, .done), after) ∧
        after.now = closing := by
  induction arrivals generalizing s w most with
  | nil =>
    obtain ⟨most, rfl⟩ := Nat.exists_eq_add_one.2 enough
    obtain ⟨answer, s', after, asked, isNow, rfl, -⟩ := onClock.next turns patient
    rw [ChunkStream.readWithin_succ, asked]
    exact ⟨after, rfl, isNow⟩
  | cons arrival later ih =>
    obtain ⟨most, rfl⟩ := Nat.exists_eq_add_one.2 (Nat.zero_lt_of_lt enough)
    have notLate := onClock.le_due.1
    obtain ⟨answer, s', after, asked, isNow, rfl, onward⟩ := onClock.next turns patient
    have isNow : after.now = arrival.time := isNow
    have passed : w.now ≤ after.now := isNow ▸ notLate
    obtain ⟨last, read, isEnd⟩ := ih (onward (List.cons_ne_nil _ _))
      (Nat.le_trans patient (Nat.add_le_add_right passed patience)) (Nat.lt_of_succ_lt_succ enough)
    refine ⟨last, ?_, isEnd⟩
    rw [ChunkStream.readWithin_succ, asked]
    show ChunkStream.prepend ⟨after.now, arrival.chunk⟩ _ = _
    rw [read, isNow]
    rfl

end OnClock

end TemplateStream

end ProgressiveHtml
