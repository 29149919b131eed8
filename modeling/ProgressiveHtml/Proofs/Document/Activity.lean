import ProgressiveHtml.Proofs.Document.Consumption
import ProgressiveHtml.Proofs.EventLoop.Activity

namespace ProgressiveHtml

/-!
# Documents — whatever is done is activity

Trees that are rendered again and again, documents that are read at any pace or given up, and sessions
with a registry do nothing but what activity is made of.  So what holds of all activity holds of them.

* `EventLoop.Active` — the states that some activity leads to;
* `Node.active_render` — rendering a tree several times;
* `Document.active_of_run`, `Document.active_release` — reading a document, at any pace, and giving it up;
* `Document.nodup_deeds_of_run` — meanwhile nothing is done twice;
* `Session.active_perform` — working a registry by hand.
-/

open Rendering

namespace EventLoop

/-- Some activity leads to a state with the given renderings. -/
def Active (parts : List Rendering) (w : EventLoop) : Prop := ∃ handed, Activity parts handed w

namespace Active

variable {parts before after : List Rendering} {r : Rendering} {w w' : EventLoop}

/-- A rendering goes on as far as it gets. -/
theorem poll (active : Active (before ++ r :: after) w) :
    Active (before ++ (r.poll w).1 :: after) (r.poll w).2 := by
  obtain ⟨handed, activity⟩ := active
  obtain ⟨more, onward⟩ := activity.poll
  exact ⟨_, onward⟩

/-- The first rendering is dropped. -/
theorem tail (active : Active (r :: parts) w) : Active parts w := by
  obtain ⟨handed, activity⟩ := active
  exact ⟨_, Activity.drop (show Activity ([] ++ r :: parts) handed w from activity)⟩

/-- All renderings are dropped. -/
theorem dropAll (active : Active parts w) : Active [] w := by
  induction parts with
  | nil => exact active
  | cons part rest ih => exact ih active.tail

/-- Trees are rendered that have been built. -/
theorem buildAll (active : Active [] w)
    (built : ∀ part ∈ parts, ∃ (built : Built) (env : Environment), part = built.rendering env) :
    Active parts w := by
  induction parts using List.reverseRecOn with
  | nil => exact active
  | append_singleton parts part ih =>
    obtain ⟨handed, activity⟩ := ih fun other member => built other (List.mem_append_left _ member)
    obtain ⟨tree, env, rfl⟩ := built part (by simp)
    exact ⟨handed, activity.build tree env⟩

theorem ask {answer : Answer} (active : Active parts w) (asked : w.drain = (answer, w')) :
    Active parts w' := by
  obtain ⟨handed, activity⟩ := active
  exact ⟨handed, activity.ask asked⟩

theorem close (active : Active parts w) : Active parts w.close := by
  obtain ⟨handed, activity⟩ := active
  exact ⟨handed, activity.close⟩

/-- Something is written down that is not about a content. -/
theorem note {event : Event} (active : Active parts w) (unlabelled : event.labelled = none) :
    Active parts (w.note event) := by
  obtain ⟨handed, activity⟩ := active
  refine ⟨handed, activity.elsewhere rfl ⟨_, rfl⟩ (w.timeline.events_note event) ?_⟩
  simp [unlabelled]

/-- Something happens that leaves no trace. -/
theorem quietly {timeline : Timeline} (active : Active parts w) (cells : Nat)
    (journal : timeline.journal = w.timeline.journal) : Active parts { w with timeline, cells } := by
  obtain ⟨handed, activity⟩ := active
  have events : timeline.events = w.timeline.events ++ [] := by
    rw [List.append_nil, Timeline.events, journal]
    rfl
  exact ⟨handed, activity.elsewhere rfl ⟨_, rfl⟩ events (by simp)⟩

/-- What happens in the background. -/
theorem background {new : List Happening} (active : Active parts w) (move : w.Background new w') :
    Active parts w' := by
  obtain ⟨handed, activity⟩ := active
  cases move with
  | pass _ queue =>
    exact ⟨handed, activity.elsewhere rfl ⟨queue, rfl⟩ (List.append_nil _).symm (by simp)⟩
  | goOn found steps => exact ⟨_, activity.goOn found steps⟩
  | finish found ended => exact ⟨handed, activity.finish found ended⟩

end Active

end EventLoop

open EventLoop

/-! ### Trees -/

/-- Waiting for a rendering, and dropping what is left of it. -/
theorem Rendering.active_runWithin {r : Rendering} {w : EventLoop} (active : Active [r] w)
    (turns patience : Nat) : Active [] (r.runWithin turns patience w).2 := by
  have polled {r : Rendering} {w : EventLoop} (active : Active [r] w) :
      Active [(r.poll w).1] (r.poll w).2 := Active.poll (show Active ([] ++ r :: []) w from active)
  have pending {r r' : Rendering} {w w' : EventLoop} (active : Active [r] w)
      (waits : Rendering.awaitable.poll r w = (.pending r', w')) : Active [r'] w' := by
    have onward := polled active
    rwa [poll_of_pending waits] at onward
  have left : LeavesOff awaitable (fun r w => Active [r] w)
      (w.wait awaitable turns (w.now + patience) r) :=
    waitRounds_induct turns _ _ active pending Active.background
  have after : Active [] (w.wait awaitable turns (w.now + patience) r).2 :=
    left.brings (fun {r w} active => r.awaitable_poll_snd w ▸ (polled active).dropAll) Active.dropAll
  rw [runWithin]
  split <;> rename_i waited <;> rwa [waited] at after

/-- Rendering a tree several times, one after the other. -/
theorem Node.active_render {w : EventLoop} (active : Active [] w) (node : Node) (env : Environment)
    (times : Nat) : Active [] (node.render env times w).2 := by
  have several (first turns patience : Nat) {w : EventLoop} (active : Active [] w) :
      Active [] ((node.rendering env first).runTimes turns patience times w).2 := by
    induction times generalizing w with
    | zero => exact active
    | succ times ih =>
      obtain ⟨handed, activity⟩ := active
      have once := active_runWithin ⟨handed, activity.begin node env first⟩ turns patience
      rw [runTimes]
      split <;> rename_i ran <;> rw [ran] at once
      · exact once
      · exact ih once
  exact several _ _ _ (active.quietly _ rfl)

/-! ### Streams -/

/-- What an answer leaves: some activity leads to the renderings that fill the stream then. -/
def Polled.Leads {σ : Type} (stream : σ → TemplateStream) (answer : StreamPoll σ) (w : EventLoop) :
    Prop :=
  ∃ parts, Active parts w ∧
    ∀ next, answer.next? = some next → parts = Piece.renderings (stream next).pieces

theorem Polled.Leads.of_next {σ : Type} {stream : σ → TemplateStream} {answer : StreamPoll σ}
    {next : σ} {w : EventLoop} (onward : answer.next? = some next)
    (active : Active (Piece.renderings (stream next).pieces) w) : answer.Leads stream w := by
  refine ⟨_, active, fun other same => ?_⟩
  rw [Option.some.inj (onward.symm.trans same)]

namespace Sequence

variable {s : Sequence} {parts : List Rendering} {w : EventLoop}

/-- Asking a sequence for its next item. -/
theorem active_poll (active : Active parts w) : Active parts (s.poll w).2.2 := by
  cases s with
  | patches => exact active.ask rfl
  | supply s =>
    have asked : Active parts { w with timeline := s.ask w.timeline } := by
      unfold Supply.ask
      split
      · exact active
      · exact active.note rfl
    exact asked.quietly w.cells (s.journal_poll w.timeline)

theorem active_of_poll {s' : Sequence} {answer : Answer} {w' : EventLoop}
    (asked : s.poll w = (answer, s', w')) (active : Active parts w) : Active parts w' := by
  have onward := active_poll (s := s) active
  rwa [asked] at onward

end Sequence

/-- Giving up a source. -/
theorem Source.active_release {source : Source} {parts : List Rendering} {w : EventLoop}
    (active : Active parts w) : Active parts (source.release w) := by
  cases source with
  | text | rendering => exact active
  | sequence s =>
    cases s with
    | supply => exact active
    | patches => exact active.close

namespace TemplateStream

variable {pieces left : List Piece} {position : Nat} {w w' : EventLoop}

/-- Letting the renderings of all slots go on; `before` are those that have had their turn. -/
theorem Drives.active {before : List Rendering} (drives : Drives pieces w left w')
    (active : Active (before ++ Piece.renderings pieces) w) :
    Active (before ++ Piece.renderings left) w' := by
  induction drives generalizing before with
  | nil => exact active
  | @rendering r rest left w w' _ _ ih =>
    have onward := active.poll
    rw [List.append_cons] at onward
    rw [Piece.renderings_cons_rendering, List.append_cons]
    exact ih onward
  | other unfilled _ ih =>
    rw [Piece.renderings_cons_of_none unfilled] at active ⊢
    exact ih active

theorem Panics.active {message : String} {before : List Rendering} (panics : Panics pieces w message w')
    (active : Active (before ++ Piece.renderings pieces) w) : ∃ parts, Active parts w' := by
  induction panics generalizing before with
  | here => exact ⟨_, active.poll⟩
  | rendering _ _ ih =>
    have onward := active.poll
    rw [List.append_cons] at onward
    exact ih onward
  | other unfilled _ ih =>
    rw [Piece.renderings_cons_of_none unfilled] at active
    exact ih active

/-- Walking over the pieces. -/
theorem Walks.leads {result : StreamPoll TemplateStream × EventLoop}
    (walks : Walks pieces position w result) (active : Active (Piece.renderings pieces) w) :
    result.1.Leads id result.2 := by
  induction walks with
  | ended | pending => exact .of_next rfl active
  | blank isBlank _ ih =>
    cases isBlank with
    | segment | absent | text => exact ih active
    | markup => exact ih active.tail
  | written isWritten =>
    cases isWritten with
    | segment | text => exact .of_next rfl active
    | markup => exact .of_next rfl active.tail
  | failed => exact .of_next rfl (active.tail.note rfl)
  | item asked | waiting asked => exact .of_next rfl (Sequence.active_of_poll asked active)
  | error asked => exact .of_next rfl ((Sequence.active_of_poll asked active).note rfl)
  | @finished _ s' _ _ _ _ _ asked _ ih =>
    exact ih ((Source.sequence s').active_release (Sequence.active_of_poll asked active))

/-- Asking a stream for a chunk. -/
theorem leads_poll {s : TemplateStream} (active : Active (Piece.renderings s.pieces) w) :
    (s.poll w).1.Leads id (s.poll w).2 := by
  have active : Active ([] ++ Piece.renderings s.pieces) w := active
  have asks := s.asks w
  generalize s.poll w = result at asks ⊢
  cases asks with
  | ended => exact .of_next rfl active
  | panicked _ panics =>
    obtain ⟨parts, onward⟩ := panics.active active
    exact ⟨parts, onward, by simp [Polled.next?]⟩
  | walked _ drives walks => exact walks.leads (drives.active active)

/-- Assigning sources to slots. -/
theorem active_assign {sections : List (String × String)} {sources : Sources}
    {parts : List Rendering} {w : EventLoop} (active : Active parts w) :
    Active parts (assign sections sources w).2.2 := by
  induction sections generalizing sources w with
  | nil => exact active
  | cons entry rest ih =>
    obtain ⟨name, text⟩ := entry
    rw [assign]
    split
    · exact ih (active.note rfl)
    · exact ih active

/-- Giving up a stream. -/
theorem active_release {s : TemplateStream} {parts : List Rendering} {w : EventLoop}
    (active : Active parts w) : Active parts (s.release w) := by
  unfold release
  induction s.pieces generalizing w with
  | nil => exact active
  | cons piece rest ih =>
    refine ih ?_
    match piece with
    | .segment _ | .slot none => exact active
    | .slot (some source) => exact source.active_release active

end TemplateStream

/-! ### Documents -/

namespace Document

/-- What a document reports about its chunks. -/
theorem leads_record (d : Document) {result : StreamPoll TemplateStream × EventLoop}
    (leads : result.1.Leads id result.2) :
    (d.record result).1.Leads Document.stream (d.record result).2 := by
  obtain ⟨parts, active, filled⟩ := leads
  match result, active, filled with
  | (.ready none s, w), active, filled =>
    exact .of_next rfl (filled s rfl ▸ active.note rfl)
  | (.ready (some (.ok _)) s, _), active, filled | (.ready (some (.error _)) s, _), active, filled
  | (.pending s, _), active, filled => exact .of_next rfl (filled s rfl ▸ active)
  | (.panicked _, _), active, _ => exact ⟨parts, active, by simp [record, Polled.next?]⟩

/-- Asking a document for a chunk. -/
theorem leads_poll {d : Document} {w : EventLoop}
    (active : Active (Piece.renderings d.stream.pieces) w) :
    (d.poll w).1.Leads Document.stream (d.poll w).2 := by
  have asked : Active (Piece.renderings d.stream.pieces) (w.behalf (journalName d.requestId)) :=
    active.quietly w.cells rfl
  obtain ⟨parts, onward, filled⟩ := d.leads_record (TemplateStream.leads_poll asked)
  exact ⟨parts, onward.quietly _ rfl, filled⟩

/-- A document begins. -/
theorem active_start {w : EventLoop} (active : Active [] w) (settings : Settings) (body : Node) :
    Active (Piece.renderings (start settings body w).1.stream.pieces) (start settings body w).2 := by
  have behalf : Active [] (w.behalf (journalName settings.requestId)) := active.quietly w.cells rfl
  have announced : Active [] (w.onBehalfOf (journalName settings.requestId) fun w =>
      ((), w.note (.notice (.renderingDocument settings.timeout)))).2 :=
    (behalf.note rfl).quietly w.cells rfl
  have released {sources : List (String × Source)} {w : EventLoop} (active : Active [] w) :
      Active [] (sources.foldl (fun w source => source.2.release w) w) := by
    induction sources generalizing w with
    | nil => exact active
    | cons source rest ih => exact ih (source.2.active_release active)
  refine (released (TemplateStream.active_assign announced)).buildAll fun part member => ?_
  obtain ⟨name, -, found⟩ := mem_assign member
  obtain rfl | ⟨node, -, rfl⟩ := rendering_of_source found
  · exact ⟨.node body, _, rfl⟩
  · exact ⟨.node node, _, rfl⟩

/-- Reading a document, at any pace. -/
theorem active_of_run {settings : Settings} {body : Node} {w₀ w : EventLoop} {h : List Happening}
    {d : Document} (active : Active [] w₀)
    (run : toChunkStream.Run (start settings body w₀).1 (start settings body w₀).2 h d w) :
    Active (Piece.renderings d.stream.pieces) w := by
  induction run with
  | start => exact active_start active settings body
  | background _ move ih => exact ih.background move
  | @poll _ state _ w _ _ _ asked onward ih =>
    obtain ⟨parts, active, filled⟩ := leads_poll ih
    have same : state.poll w = _ := asked
    rw [same] at active filled
    exact filled _ onward ▸ active

/-- Giving up a document. -/
theorem active_release {d : Document} {parts : List Rendering} {w : EventLoop}
    (active : Active parts w) : Active [] (toChunkStream.release d w) :=
  (TemplateStream.active_release active).dropAll

/-- However a document is read, nothing is done twice with a content. -/
theorem nodup_deeds_of_run {settings : Settings} {body : Node} {w : EventLoop} {h : List Happening}
    {d : Document}
    (run : toChunkStream.Run (start settings body {}).1 (start settings body {}).2 h d w) (cell : Nat) :
    (w.timeline.deeds cell).Nodup := by
  obtain ⟨handed, activity⟩ := active_of_run ⟨[], .start rfl rfl rfl⟩ run
  exact (activity.thrifty cell).nodup

end Document

/-! ### Sessions -/

/-- Working a registry by hand, with fragments whose values are not those of contents. -/
theorem Session.active_perform {w : EventLoop} (active : Active [] w) (turns : Nat) (s : Session)
    (step : Step) (unnumbered : ∀ late inherits, step = .register late inherits →
      late.value.pace.label.cell = none) : Active [] (s.perform turns step w).2.2 := by
  have poll {w : EventLoop} (active : Active [] w) : Active [] (drainAwaitable.poll () w).2 := by
    rw [drainAwaitable_poll_snd]
    exact active.ask rfl
  cases step with
  | register late inherits =>
    obtain ⟨handed, activity⟩ := active
    -- The session only changes what the fragment inherits, not its value.
    have plain : (s.equip late inherits).value.pace.label.cell = none := by
      have same : (s.equip late inherits).value = late.value := by
        unfold equip
        split <;> rfl
      rw [same]
      exact unnumbered late inherits rfl
    exact ⟨_, activity.handIn (s.equip late inherits) plain⟩
  | sleep length => exact sleep_keeps turns length active Active.background
  | drain | describe => exact active
  | drop => exact active.close
  | poll =>
    rw [perform]
    split
    · exact active.ask rfl
    · exact active
  | next within =>
    -- Whether an item comes or not, nothing happens while waiting for it but asking and what goes on
    -- in the background.
    have waited : LeavesOff drainAwaitable (fun _ => Active [])
        (w.wait drainAwaitable turns (w.now + within.getD patience) ()) :=
      waitRounds_induct turns _ _ active
        (fun active polled => by simpa [polled] using poll active) Active.background
    have after : Active [] (w.wait drainAwaitable turns (w.now + within.getD patience) ()).2 :=
      waited.brings poll id
    rw [perform]
    split
    · split <;> rename_i asked <;> rwa [asked] at after
    · exact active

end ProgressiveHtml
