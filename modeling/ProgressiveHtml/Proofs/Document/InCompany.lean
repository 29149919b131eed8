import ProgressiveHtml.Proofs.Template.Schedule

namespace ProgressiveHtml

/-!
# Documents — in company

The slots of a document and its late fragments share an event loop, and none of them waits for another:
while a reader does not pause, everything is on schedule.

* `TemplateStream.InCompany` — the stream of a document among its fragments, on schedule;
* `TemplateStream.InCompany.ask`, `TemplateStream.InCompany.turn`, `TemplateStream.InCompany.pass` — it
  stays so when the reader asks, a fragment goes on, or time passes;
* `Document.Watches.inCompany` — reading without pauses keeps everything on schedule.
-/

/-- The items that fragments came to, each with its time. -/
def Diary.ends (h : Diary) : List (Nat × Item) := h.completions.map (Prod.map id (·.item))

@[simp] theorem Diary.ends_note (h : Diary) (now : Nat) (new : List Happening) :
    (h.note now new).ends =
      h.ends ++ (History.completions new).map fun c => (now, c.item) := by
  simp [ends, Function.comp_def]

namespace TemplateStream

open Portion EventLoop

/-- The stream of a document among its late fragments: its slots and they share an event loop, and its
    pieces have been written out on schedule. -/
structure InCompany (pieces : List Piece) (start : Nat) (given : List (Nat × FragmentTask)) (h : Diary)
    (s : TemplateStream) (w : EventLoop) (portions : List Portion) (fragments : List Member) : Prop where
  shown : s.pieces = portions.map Portion.piece
  finished : s.finished → portions = []
  together : ∀ m ∈ members portions, m.start = start
  crew : Crew given h w (members portions) fragments
  reached : ∃ past, Reached past w
  schedule : OnSchedule pieces start h.ends h.yields (portions.map Portion.first) w

namespace InCompany

variable {pieces : List Piece} {start : Nat} {given : List (Nat × FragmentTask)} {h : Diary}
  {s next : TemplateStream} {w w' : EventLoop} {portions : List Portion} {fragments : List Member}
  {new : List Happening} {answer : StreamPoll TemplateStream}

/-- A stream that has not been asked for anything. -/
theorem begin (shown : s.pieces = pieces) (unfinished : s.finished = false)
    (patches : pieces.filter Piece.isSequence = [.slot (some (.sequence .patches))])
    (abreast : ∀ r ∈ Piece.renderings pieces, Rendering.Abreast Rendering.nothingPaired r r)
    (fresh : w.registry = {}) (numbered : ∀ cell ∈ w.used, cell < w.cells) :
    InCompany pieces w.now [] [] s w (pieces.map (Portion.fresh w.now)) [] where
  shown := by simpa [Function.comp_def] using shown
  finished finished := by simp [unfinished] at finished
  together := by
    rw [members_fresh]
    exact List.forall_mem_map.2 fun _ _ => rfl
  crew := by
    rw [members_fresh]
    have company := (Company.nobody numbered).join rfl abreast
    constructor
    case company => simpa using company
    case does => rw [fresh]; exact .nil
    case once => rw [fresh]; exact List.nodup_nil
    case known => simp [fresh]
    case punctual => exact fun _ none => absurd none List.not_mem_nil
    case listed => simp
  reached := ⟨[], .start fresh⟩
  schedule := by
    refine ⟨[], [], [], [], ?_, ?_⟩
    · simp [Function.comp_def]
    · rw [List.map_map, Function.comp_def]
      simp only [first_fresh, List.map_id']
      exact .begin patches (by rw [fresh]) (by rw [fresh])

/-- Something happens that nobody notices. -/
theorem aside (inCompany : InCompany pieces start given h s w portions fragments)
    (now : w'.now = w.now) (cells : w'.cells = w.cells) (used : w'.used = w.used)
    (registry : w'.registry = w.registry) :
    InCompany pieces start given h s w' portions fragments where
  __ := inCompany
  crew := inCompany.crew.quiet (.aside now cells used registry)
  reached := by
    obtain ⟨past, reached⟩ := inCompany.reached
    exact ⟨past, reached.elsewhere registry⟩
  schedule := by
    obtain ⟨passed, shares, out, later, split, progress⟩ := inCompany.schedule
    exact ⟨passed, shares, out, later, split,
      progress.congr now (by rw [registry]) (by rw [registry]) (by rw [registry]; exact id)⟩

/-- The stream is asked for a chunk. -/
theorem ask (inCompany : InCompany pieces start given h s w portions fragments)
    (none : History.completions new = []) (brought : History.yields new = answer.items)
    (asked : s.poll w = (answer, w')) (onward : answer.next? = some next)
    (clean : ∀ error, .error error ∉ answer.items) :
    ∃ portions' fragments',
      InCompany pieces start (given ++ (w.newcomers w').map (w.now, ·)) (h.note w.now new) next w'
        portions' fragments' ∧
      (∀ m ∈ members portions', m.standing ≠ .ripe) ∧ (answer = .pending next → Awaits w' portions') ∧
      (answer = .ready .none next → portions' = []) := by
  obtain ⟨past, reached⟩ := inCompany.reached
  have known : ∀ task ∈ w.registry.tasks, task.slot < w.registry.next := fun task here =>
    (reached.accounts.onItsWay here).1
  have asks := s.asks w
  rw [asked] at asks
  cases asks with
  | ended finished =>
    obtain rfl := Option.some.inj onward
    have nothing := inCompany.finished finished
    subst nothing
    refine ⟨[], fragments, ⟨inCompany.shown, fun _ => rfl, inCompany.together, ?_, ⟨past, reached⟩, ?_⟩,
      by simp [members], (fun waits => nomatch waits), fun _ => rfl⟩
    · rw [(Unnoticed.refl w).newcomers_eq known, List.map_nil, List.append_nil]
      exact inCompany.crew.unnoticed (.refl w) none
    · simpa [none, brought, Polled.items] using inCompany.schedule
  | panicked => cases onward
  | walked goesOn drives =>
    have walked := drives.poll goesOn
    rw [inCompany.shown] at drives
    have company : Company w ([] ++ (members portions ++ fragments)) := inCompany.crew.company
    obtain ⟨portions', taken, rfl, isAsked, takesIn, ⟨past', reached'⟩, together⟩ :=
      drives.company company reached
    have members' := Asked.members isAsked inCompany.together
    have schedule := inCompany.schedule.takesIn takesIn
    rw [← Asked.map_first isAsked] at schedule
    have main := together.sublist (List.sublist_append_left (members portions') _)
    have walksOn := walk_walksOn s.position main members' reached' schedule
    rw [← walked, asked] at walksOn
    obtain ⟨left, walked⟩ := walksOn next onward clean
    have fewer : (members left).Sublist (members portions') := walked.suffix.sublist.filterMap _
    have newcomers : w.newcomers w' = taken :=
      takesIn.newcomers_eq (by rw [walked.unnoticed.tasks, takesIn.tasks]) known
    -- What is handed in joins the fragments, and the renderings leave whose pieces were passed.
    have crew := ((inCompany.crew.takesIn takesIn known together none).leave fewer).quiet
      walked.unnoticed
    refine ⟨left, _, ⟨walked.shown, walked.finished, ?_, newcomers ▸ crew, walked.reached, ?_⟩, ?_,
      walked.waits, walked.ended⟩
    · exact fun m member => (members' m (fewer.subset member)).1
    · simpa [none, brought, takesIn.now] using walked.schedule
    · exact fun m member => (members' m (fewer.subset member)).2.1

/-- The fragment goes on that was woken first. -/
theorem turn (inCompany : InCompany pieces start given h s w portions fragments) :
    ∃ fragments', InCompany pieces start (given ++ (w.newcomers w.runNext).map (w.now, ·))
      (h.note w.now w.turned) s w.runNext portions fragments' := by
  obtain ⟨past, reached⟩ := inCompany.reached
  obtain ⟨fragments', crew⟩ := inCompany.crew.turn reached.accounts
  obtain ⟨passed, shares, out, later, split, progress⟩ := inCompany.schedule
  obtain ⟨later', onward⟩ := progress.turn reached
  refine ⟨fragments', inCompany.shown, inCompany.finished, inCompany.together, crew,
    ⟨_, reached.meanwhile w.turned_meanwhile⟩, passed, shares, out, later', split, ?_⟩
  simpa using onward

/-- The stream has got nothing, and no fragment was woken: time passes until the first sleep ends, or to
    an earlier instant. -/
theorem pass (inCompany : InCompany pieces start given h s w portions fragments)
    (waits : Awaits w portions) (asked : ∀ m ∈ members portions, m.standing ≠ .ripe)
    (idle : w.registry.queue = []) {limit : Nat} (ahead : w.now ≤ limit) :
    ∃ portions' fragments',
      InCompany pieces start given h s (w.jump s.alarms limit) portions' fragments' := by
  obtain ⟨past, reached⟩ := inCompany.reached
  have listed : ∀ m ∈ members portions, m.left.alarms ⊆ s.alarms := by
    rw [alarms, inCompany.shown]
    exact alarms_subset portions
  have crew := inCompany.crew.pass reached.accounts idle asked listed ahead
  rw [← members_wake] at crew
  obtain ⟨passed, shares, out, later, split, progress⟩ := inCompany.schedule
  have shown : (portions.map (wake (w.nextInstant s.alarms limit))).map Portion.piece =
      portions.map Portion.piece := by simp [Function.comp_def]
  have first : (portions.map (wake (w.nextInstant s.alarms limit))).map Portion.first =
      portions.map Portion.first := by simp [Function.comp_def]
  have inTime : Piece.InTime start (Share.closing start shares) h.ends later (w.jump s.alarms limit)
      (portions.map Portion.first) := by
    cases waits with
    | @rendering m rest asleep =>
      -- The rendering that is awaited sleeps, so it does not end before the next instant.
      intro left time ends
      have here : m.wake (w.nextInstant s.alarms limit) ∈
          members ((moving m :: rest).map (wake (w.nextInstant s.alarms limit))) := by
        rw [members_wake]
        exact List.mem_map_of_mem List.mem_cons_self
      have stands := crew.company.stands _ (List.mem_append_left _ here)
      have notOver : (m.wake (w.nextInstant s.alarms limit)).standing ≠ .finished := by
        rw [Member.wake_standing, asleep]
        split <;> simp
      have together : m.start = start := inCompany.together m List.mem_cons_self
      have soon := stands.now_le notOver (show Member.Ends _ left time by
        rwa [Member.Ends, Member.wake_whole, Member.wake_start, together])
      exact Nat.le_trans soon (Nat.le_max_right _ _)
    | patches nothing underway =>
      -- Nothing is ready, and a fragment is on its way, so the patches are not late.
      have none : later = [] := by simpa [nothing] using progress.ready rfl
      exact ⟨by simp [none], fun idle => absurd idle underway⟩
  refine ⟨portions.map (wake (w.nextInstant s.alarms limit)), _, inCompany.shown.trans shown.symm, ?_,
    ?_, crew, ⟨_, reached.background (w.jump_background s.alarms ahead)⟩, passed, shares, out, later,
    first ▸ split, ?_⟩
  · exact fun finished => by rw [inCompany.finished finished]; rfl
  · rw [members_wake]
    refine List.forall_mem_map.2 fun m member => ?_
    rw [Member.wake_start]
    exact inCompany.together m member
  · rw [first]
    exact progress.elapse (w.now_le_nextInstant s.alarms ahead) rfl rfl inTime

end InCompany

end TemplateStream

namespace Document

open Portion EventLoop TemplateStream

variable {pieces : List Piece} {start : Nat} {given : List (Nat × FragmentTask)} {h : Diary}
  {first d next : Document} {w₀ w : EventLoop} {portions : List Portion} {fragments : List Member}

/-- A document passes on what its stream answers. -/
theorem record_onward (d : Document) (result : StreamPoll TemplateStream × EventLoop)
    (onward : (d.record result).1.next? = some next) : result.1.next? = some next.stream ∧
      ((d.record result).1 = .pending next → result.1 = .pending next.stream) ∧
      (d.record result).2.now = result.2.now ∧ (d.record result).2.cells = result.2.cells ∧
      (d.record result).2.used = result.2.used := by
  match result with
  | (.ready none _, _) | (.ready (some (.ok _)) _, _) | (.ready (some (.error _)) _, _) =>
    obtain rfl := Option.some.inj onward
    exact ⟨rfl, (fun waits => nomatch waits), rfl, rfl, rfl⟩
  | (.pending _, _) =>
    obtain rfl := Option.some.inj onward
    exact ⟨rfl, fun _ => rfl, rfl, rfl, rfl⟩
  | (.panicked _, _) => cases onward

/-- The document is asked for a chunk. -/
theorem ask_inCompany (inCompany : InCompany pieces start given h d.stream w portions fragments)
    (onward : (d.poll w).1.next? = some next) (clean : ∀ error, .error error ∉ (d.poll w).1.items) :
    ∃ portions' fragments',
      InCompany pieces start (given ++ (w.newcomers (d.poll w).2).map (w.now, ·))
        (h.note w.now (d.seen w)) next.stream (d.poll w).2 portions' fragments' ∧
      (∀ m ∈ members portions', m.standing ≠ .ripe) ∧
      ((d.poll w).1 = .pending next → Awaits (d.poll w).2 portions') := by
  -- The stream is asked on behalf of the document, and the answer is recorded.
  rcases polled : d.stream.poll (w.behalf (journalName d.requestId)) with ⟨answer, v⟩
  have answered : (d.poll w).1 = (d.record (answer, v)).1 := by rw [← polled]; rfl
  have left : (d.poll w).2.now = (d.record (answer, v)).2.now ∧
      (d.poll w).2.cells = (d.record (answer, v)).2.cells ∧
      (d.poll w).2.used = (d.record (answer, v)).2.used ∧
      (d.poll w).2.registry = (d.record (answer, v)).2.registry := by
    rw [← polled]
    exact ⟨rfl, rfl, rfl, rfl⟩
  obtain ⟨items, registry⟩ := d.record_items (answer, v)
  rw [answered] at onward clean ⊢
  obtain ⟨onward, waits, now, cells, used⟩ := record_onward d (answer, v) onward
  have same : (d.poll w).2.registry = v.registry := left.2.2.2.trans registry
  have none : History.completions (d.seen w) = [] := by simp [seen, handedInSince]
  have brought : History.yields (d.seen w) = answer.items := by
    rw [Watches.yields_seen, answered, items]
  have onBehalf : InCompany pieces start given h d.stream (w.behalf (journalName d.requestId)) portions
      fragments := inCompany.aside rfl rfl rfl rfl
  obtain ⟨portions', fragments', inCompany, asked, waiting, -⟩ :=
    onBehalf.ask none brought polled onward (items ▸ clean)
  have newcomers : (w.behalf (journalName d.requestId)).newcomers v = w.newcomers (d.poll w).2 := by
    rw [EventLoop.newcomers, EventLoop.newcomers, same]
    rfl
  rw [newcomers] at inCompany
  refine ⟨portions', fragments', inCompany.aside (left.1.trans now) (left.2.1.trans cells)
    (left.2.2.1.trans used) same, asked, fun isPending => ?_⟩
  cases waiting (waits isPending) with
  | rendering asleep => exact .rendering asleep
  | patches nothing underway => exact .patches (same ▸ nothing) (same ▸ underway)

/-- Reading without pauses keeps everything on schedule, as long as no error comes. -/
theorem Watches.inCompany (watches : Watches first w₀ given h d w)
    (begins : InCompany pieces start [] [] first.stream w₀ portions fragments)
    (clean : ∀ entry ∈ h.yields, ∀ error, entry.2 ≠ .error error) :
    ∃ portions fragments, InCompany pieces start given h d.stream w portions fragments := by
  induction watches with
  | start => exact ⟨portions, fragments, begins⟩
  | @poll given h d next w watches onward ih =>
    rw [Diary.yields_note, yields_seen] at clean
    obtain ⟨portions, fragments, inCompany⟩ := ih fun entry member =>
      clean entry (List.mem_append_left _ member)
    obtain ⟨portions', fragments', inCompany, -⟩ := ask_inCompany inCompany onward
      fun error member => clean (w.now, .error error)
        (List.mem_append_right _ (List.mem_map_of_mem member)) error rfl
    exact ⟨portions', fragments', inCompany⟩
  | @turn given h d w watches ih =>
    rw [Diary.yields_note, yields_turned, List.map_nil, List.append_nil] at clean
    obtain ⟨portions, fragments, inCompany⟩ := ih clean
    obtain ⟨fragments', inCompany⟩ := inCompany.turn
    exact ⟨portions, fragments', inCompany⟩
  | @pass given h d next w limit watches waits idle ahead ih =>
    rw [Diary.yields_note, yields_seen] at clean
    obtain ⟨portions, fragments, inCompany⟩ := ih fun entry member =>
      clean entry (List.mem_append_left _ member)
    obtain ⟨portions', fragments', inCompany, asked, waiting⟩ :=
      ask_inCompany inCompany (by rw [waits]; rfl) (by simp [waits, Polled.items])
    -- Whatever could go on has done so, so that time may pass.
    exact inCompany.pass (waiting waits) asked idle ahead

/-- When everything has been written out, the chunks have come on schedule, and the end has come when
    everything was complete; every fragment that was taken in has come to its end, and came to it as if it
    had been alone. -/
theorem Watches.timetable (watches : Watches first w₀ given h d w)
    (begins : InCompany pieces start [] [] first.stream w₀ portions fragments)
    (clean : ∀ entry ∈ h.yields, ∀ error, entry.2 ≠ .error error) (ended : d.stream.finished) :
    ∃ shares out, List.Forall₂ (Piece.Brings start out) pieces shares ∧
      h.ends = out.map (Prod.map id .ok) ∧
      h.yields = (Share.timetable start shares).map (Prod.map id .ok) ∧
      w.now = Share.closing start shares ∧ h.Punctual given ∧
      ∀ fragment ∈ given, fragment.2.slot ∈ h.completions.map (·.2.slot) := by
  obtain ⟨portions, fragments, inCompany⟩ := watches.inCompany begins clean
  obtain ⟨passed, shares, out, later, split, progress⟩ := inCompany.schedule
  obtain rfl := inCompany.finished ended
  rw [List.map_nil, List.append_nil] at split
  subst split
  obtain ⟨past, reached⟩ := inCompany.reached
  have idle := (reached.accounts.idle progress.closed).1
  refine ⟨shares, out, progress.brought, ?_, ?_, ?_, inCompany.crew.punctual, ?_⟩
  · simpa [progress.behind rfl] using progress.accounted
  · simpa using progress.arrived
  · exact Nat.le_antisymm progress.inTime progress.since
  · simpa [idle] using inCompany.crew.listed

end Document

end ProgressiveHtml
