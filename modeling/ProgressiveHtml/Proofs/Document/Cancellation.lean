import ProgressiveHtml.Proofs.Document.Assignment
import ProgressiveHtml.Proofs.Template.Asking

namespace ProgressiveHtml

/-!
# Documents — giving up a stream

Work for a document lives in its stream and in the tasks of its late fragments.  Giving up the stream
gives up whatever is left of its pieces, and with the place of the patches the registry.  A template
without that place gives the registry up at the start.

* `Registry.Shut` — nothing is on its way, and nothing will be taken in;
* `TemplateStream.HoldsRegistry` — what every stage of a document keeps;
* `EventLoop.Unread` — what can still happen once nobody reads;
* `Document.cancelled` — nothing of a document goes on once its stream is given up.
-/

/-! ### A registry that is shut -/

/-- Nobody reads items any more: no fragment is on its way, and no item is ready. -/
structure Registry.Shut (r : Registry) : Prop where
  closed : r.closed = true
  noTasks : r.tasks = []
  noneReady : r.ready = []

namespace Registry

theorem close_shut (r : Registry) : r.close.Shut := ⟨rfl, rfl, rfl⟩

/-- A registry that is shut numbers what it gets, and nothing else. -/
theorem Shut.register_eq {r : Registry} (shut : r.Shut) (content : Nat → Rendering) :
    r.register content = { r with next := r.next + 1 } := by
  rw [register, if_pos shut.closed]

theorem Shut.register {r : Registry} (shut : r.Shut) (content : Nat → Rendering) :
    (r.register content).Shut := by
  rw [shut.register_eq]
  exact ⟨shut.closed, shut.noTasks, shut.noneReady⟩

end Registry

/-- A rendering does not open a registry. -/
theorem Rendering.Steps.shut {r r' : Rendering} {w w' : EventLoop} {handed : List Registration}
    (steps : r.Steps w handed r' w') (shut : w.registry.Shut) : w'.registry.Shut := by
  induction steps with
  | refl => exact shut
  | head step _ ih =>
    apply ih
    obtain ⟨_, same⟩ | ⟨content, _, rfl⟩ := step.effect
    · rwa [same]
    · exact shut.register content

/-- Asking a sequence does not open a registry. -/
theorem Sequence.poll_shut {s s' : Sequence} {answer : Answer} {w w' : EventLoop}
    (asked : s.poll w = (answer, s', w')) (shut : w.registry.Shut) : w'.registry.Shut := by
  cases s with
  | supply s =>
    simp only [poll, Prod.mk.injEq] at asked
    obtain ⟨-, -, rfl⟩ := asked
    exact shut
  | patches =>
    simp only [poll, Prod.mk.injEq] at asked
    obtain ⟨-, -, rfl⟩ := asked
    rw [w.drain_registry.2, Registry.drain, shut.noneReady]
    dsimp only
    split <;> exact shut

namespace EventLoop

section release

variable {α : Type} {release : EventLoop → α → EventLoop}

/-- What gives up a registry leaves one that is shut as it is. -/
theorem shut_of_release {w w' : EventLoop} (shut : w.registry.Shut) (same : w' = w ∨ w' = w.close) :
    w'.registry.Shut := by
  obtain rfl | rfl := same
  · exact shut
  · exact w.registry.close_shut

/-- Giving up several things shuts the registry if one of them does. -/
theorem foldl_release_shut (each : ∀ w a, release w a = w ∨ release w a = w.close) {all : List α}
    {one : α} (member : one ∈ all) (shuts : ∀ w, (release w one).registry.Shut) (w : EventLoop) :
    (all.foldl release w).registry.Shut := by
  obtain ⟨before, after, rfl⟩ := List.append_of_mem member
  rw [List.foldl_append, List.foldl_cons]
  exact shut_of_release (shuts _) (foldl_release each after _)

end release

end EventLoop

/-! ### Who holds the registry -/

namespace TemplateStream

/-- As long as the place of the patches is to come, the stream holds the registry; after that the
    registry is shut. -/
def HoldsRegistry (pieces : List Piece) (w : EventLoop) : Prop :=
  .slot (some (.sequence .patches)) ∈ pieces ∨ w.registry.Shut

namespace HoldsRegistry

variable {pieces left rest : List Piece} {w w' : EventLoop}

/-- A part that is no place for the patches has had its turn. -/
theorem tail {piece : Piece} (holds : HoldsRegistry (piece :: rest) w)
    (other : .slot (some (.sequence .patches)) ≠ piece) : HoldsRegistry rest w := by
  refine holds.imp_left fun member => ?_
  obtain same | later := List.mem_cons.1 member
  · exact absurd same other
  · exact later

/-- A sequence is asked for its next item. -/
theorem ask {s s' : Sequence} {answer : Answer}
    (holds : HoldsRegistry (.slot (some (.sequence s)) :: rest) w)
    (asked : s.poll w = (answer, s', w')) :
    HoldsRegistry (.slot (some (.sequence s')) :: rest) w' := by
  obtain member | shut := holds
  · refine .inl ?_
    obtain same | later := List.mem_cons.1 member
    · simp only [Piece.slot.injEq, Option.some.injEq, Source.sequence.injEq] at same
      subst same
      simp only [Sequence.poll, Prod.mk.injEq] at asked
      rw [← asked.2.1]
      exact List.mem_cons_self
    · exact List.mem_cons_of_mem _ later
  · exact .inr (Sequence.poll_shut asked shut)

/-- A sequence is given up. -/
theorem release {s : Sequence} (holds : HoldsRegistry (.slot (some (.sequence s)) :: rest) w) :
    HoldsRegistry rest (s.release w) := by
  cases s with
  | supply => exact holds.tail (by simp)
  | patches => exact .inr w.registry.close_shut

/-- The renderings of all slots go on. -/
theorem drive (holds : HoldsRegistry pieces w) (drives : Drives pieces w left w') :
    HoldsRegistry left w' := by
  induction drives with
  | nil => exact holds
  | @rendering r _ _ w _ _ _ ih =>
    obtain ⟨handed, steps⟩ := r.poll_steps w
    have onward := (holds.tail (by simp)).imp_right steps.shut
    exact (ih onward).imp_left (List.mem_cons_of_mem _)
  | other _ _ ih =>
    obtain member | shut := holds
    · obtain _ | ⟨_, later⟩ := member
      · exact .inl List.mem_cons_self
      · exact (ih (.inl later)).imp_left (List.mem_cons_of_mem _)
    · exact (ih (.inr shut)).imp_left (List.mem_cons_of_mem _)

/-- The stream walks over the pieces that are there, also into an error. -/
theorem walk {position : Nat} {result : StreamPoll TemplateStream × EventLoop}
    (holds : HoldsRegistry pieces w) (walks : Walks pieces position w result) {next : TemplateStream}
    (onward : result.1.next? = some next) : HoldsRegistry next.pieces result.2 := by
  induction walks with
  | ended | pending =>
    obtain rfl := Option.some.inj onward
    exact holds
  | blank isBlank _ ih => exact ih (holds.tail (by cases isBlank <;> simp)) onward
  | written isWritten =>
    obtain rfl := Option.some.inj onward
    exact holds.tail (by cases isWritten <;> simp)
  | failed =>
    obtain rfl := Option.some.inj onward
    exact (holds.tail (by simp)).imp_left (List.mem_cons_of_mem _)
  | item asked | waiting asked =>
    obtain rfl := Option.some.inj onward
    exact holds.ask asked
  | error asked =>
    obtain rfl := Option.some.inj onward
    exact (holds.ask asked).imp id id
  | finished asked _ ih => exact ih (holds.ask asked).release onward

/-- The stream is asked for a chunk. -/
theorem poll {s next : TemplateStream} (holds : HoldsRegistry s.pieces w)
    (onward : (s.poll w).1.next? = some next) : HoldsRegistry next.pieces (s.poll w).2 := by
  have asks := s.asks w
  generalize s.poll w = result at asks onward ⊢
  cases asks with
  | ended =>
    obtain rfl := Option.some.inj onward
    exact holds
  | panicked => cases onward
  | walked _ drives walks => exact (holds.drive drives).walk walks onward

end HoldsRegistry

/-- Giving up a stream shuts the registry that it holds. -/
theorem HoldsRegistry.release_shut {s : TemplateStream} {w : EventLoop}
    (holds : HoldsRegistry s.pieces w) : (s.release w).registry.Shut := by
  obtain member | shut := holds
  · exact EventLoop.foldl_release_shut (fun w piece => Piece.release_eq piece w) member
      (fun w => w.registry.close_shut) w
  · exact EventLoop.shut_of_release shut (s.release_eq w)

/-- Sources are assigned to the sections: the patches have their place, or they are left. -/
theorem mem_assign {name : String} {sources : Sources}
    (found : Named.get? sources name = some (.sequence .patches))
    (sections : List (String × String)) (w : EventLoop) :
    .slot (some (.sequence .patches)) ∈ (assign sections sources w).1 ∨
      Named.get? (assign sections sources w).2.1 name = some (.sequence .patches) := by
  induction sections generalizing sources w with
  | nil => exact .inr found
  | cons entry rest ih =>
    obtain ⟨key, text⟩ := entry
    -- The first section takes the patches or leaves them where they are.
    have taken : (sources.take key).1 = some (.sequence .patches) ∨
        Named.get? (sources.take key).2 name = some (.sequence .patches) := by
      unfold Sources.take
      split <;> rename_i here
      · exact .inr found
      · by_cases same : name = key
        · exact .inl (here.symm.trans (same ▸ found))
        · refine .inr ?_
          rw [Named.get?_erase, if_neg same, found]
      · exact .inr found
    rw [assign]
    split <;> rename_i here <;> rw [here] at taken
    · obtain left := taken.resolve_left (by simp)
      exact (ih left _).imp_left fun member => List.mem_cons_of_mem _ (List.mem_cons_of_mem _ member)
    · obtain same | left := taken
      · exact .inl (same ▸ List.mem_cons_self)
      · exact (ih left _).imp_left fun member =>
          List.mem_cons_of_mem _ (List.mem_cons_of_mem _ member)

/-- A stream begins by holding the registry, or by shutting it. -/
theorem start_holds {name : String} {sources : Sources}
    (found : Named.get? sources name = some (.sequence .patches)) (t : Template) (w : EventLoop) :
    HoldsRegistry (start t sources w).1.pieces (start t sources w).2 := by
  obtain placed | left := mem_assign found t.sections w
  · exact .inl (List.mem_cons_of_mem _ placed)
  · obtain ⟨before, after, entries, -⟩ := List.lookup_eq_some_iff.1 left
    have member : (name, .sequence .patches) ∈ (assign t.sections sources w).2.1.entries := by
      rw [entries]
      simp
    exact .inr (EventLoop.foldl_release_shut (fun w entry => entry.2.release_eq w) member
      (fun w => w.registry.close_shut) _)

end TemplateStream

/-! ### What can still happen -/

namespace EventLoop

/-- The background does not open a registry. -/
theorem Background.shut {w w' : EventLoop} {new : List Happening} (move : w.Background new w')
    (shut : w.registry.Shut) : w'.registry.Shut := by
  obtain ⟨-, _, _, -, rfl⟩ := move.of_idle shut.noTasks
  exact ⟨shut.closed, shut.noTasks, shut.noneReady⟩

/-- What can happen once nobody reads: time passes, fragments on their way go on, and fragments are
    handed in by those who still know the registry.  The numbers are the slots that these get. -/
inductive Unread (w : EventLoop) : List Nat → EventLoop → Prop
  | refl : Unread w [] w
  | background {given : List Nat} {w' w'' : EventLoop} {new : List Happening}
      (before : Unread w given w') (move : w'.Background new w'') : Unread w given w''
  | handIn {given : List Nat} {w' : EventLoop} (before : Unread w given w')
      (content : Nat → Rendering) :
      Unread w (given ++ [(w'.register content).1]) (w'.register content).2

/-- Nothing goes on from some state to a later one: no fragment is on its way and no patch is ready,
    the fragments handed in get the numbers that follow and nothing more, and all that is written to
    the journal is that they are dropped. -/
structure Quiet (w : EventLoop) (given : List Nat) (w' : EventLoop) : Prop where
  shut : w'.registry.Shut
  numbered : given = List.range' w.registry.next given.length
  next : w'.registry.next = w.registry.next + given.length
  pending : w'.registry.pending = w.registry.pending
  used : w'.used = w.used
  journal : ∃ later, w'.timeline.journal.toList = w.timeline.journal.toList ++ later ∧
    later.map (·.event) = given.map fun slot => .notice (.discarded slot)

/-- Once the registry is shut, nothing goes on. -/
theorem Unread.quiet {w w' : EventLoop} {given : List Nat} (unread : w.Unread given w')
    (shut : w.registry.Shut) : w.Quiet given w' := by
  induction unread with
  | refl =>
    exact { shut, numbered := rfl, next := rfl, pending := rfl, used := rfl
            journal := ⟨[], by simp, rfl⟩ }
  | background _ move ih =>
    -- Nothing is on its way that could go on.
    obtain ⟨-, _, _, -, rfl⟩ := move.of_idle ih.shut.noTasks
    exact { ih with shut := move.shut ih.shut }
  | @handIn given w' _ content ih =>
    -- What is handed in is discarded, but it gets its number.
    have registered := ih.shut.register_eq content
    obtain ⟨later, journal, events⟩ := ih.journal
    constructor
    case shut => exact ih.shut.register content
    case numbered =>
      rw [List.length_append, List.length_singleton, List.range'_concat, ← ih.numbered,
        register_fst, ih.next]
      simp
    case next =>
      rw [register_registry, registered]
      show w'.registry.next + 1 = _
      rw [ih.next, List.length_append, List.length_singleton, Nat.add_assoc]
    case pending =>
      rw [register_registry, registered]
      exact ih.pending
    case used => exact ih.used
    case journal =>
      have dropped : w'.registry.registrationNotice = .discarded w'.registry.next := by
        rw [Registry.registrationNotice, if_pos ih.shut.closed]
      refine ⟨later ++ [⟨w'.now, .notice (.discarded w'.registry.next),
        w'.timeline.document⟩], ?_, ?_⟩
      · rw [register, dropped, ← List.append_assoc, ← journal]
        simp [note, Timeline.note, now]
      · simp [events]

end EventLoop

namespace Document

variable {settings : Settings} {body : Node} {w₀ w w' : EventLoop} {d : Document}
  {h : List Happening}

/-- Asking a document for a chunk leaves it holding the registry, or shuts it. -/
theorem poll_holds (holds : TemplateStream.HoldsRegistry d.stream.pieces w) {next : Document}
    (onward : (d.poll w).1.next? = some next) :
    TemplateStream.HoldsRegistry next.stream.pieces (d.poll w).2 := by
  let asked : EventLoop :=
    { w with timeline := { w.timeline with document := some (journalName d.requestId) } }
  have same : (d.poll w).1 = (d.record (d.stream.poll asked)).1 ∧
      (d.poll w).2.registry = (d.record (d.stream.poll asked)).2.registry := ⟨rfl, rfl⟩
  have kept (left : TemplateStream) (onward : (d.stream.poll asked).1.next? = some left) :
      TemplateStream.HoldsRegistry left.pieces (d.stream.poll asked).2 :=
    TemplateStream.HoldsRegistry.poll holds onward
  rw [same.1] at onward
  rw [TemplateStream.HoldsRegistry, same.2]
  match answered : d.stream.poll asked with
  | (.ready (some (.ok _)) left, w'') | (.ready (some (.error _)) left, w'')
  | (.ready none left, w'') | (.pending left, w'') =>
    rw [answered] at onward kept
    obtain rfl := Option.some.inj onward
    exact kept left rfl
  | (.panicked _, w'') =>
    rw [answered] at onward
    cases onward

/-- At every moment of a run the document holds its registry, or the registry is shut. -/
theorem holds_of_run
    (run : toChunkStream.Run (start settings body w₀).1 (start settings body w₀).2 h d w) :
    TemplateStream.HoldsRegistry d.stream.pieces w := by
  induction run with
  | start =>
    have found : Named.get? (sources settings body) patchesSlot = some (.sequence .patches) :=
      (sources_holds settings body).patches
    exact TemplateStream.start_holds found _ _
  | background _ move ih => exact ih.imp_right move.shut
  | @poll h d next w w' answer _ asked onward ih =>
    have answered : d.poll w = (answer, w') := asked
    have goesOn : (d.poll w).1.next? = some next := by rw [answered, onward]
    have kept := poll_holds ih goesOn
    rwa [answered] at kept

/-- Whenever the stream of a document is given up, nothing goes on from then on: no value of the
    document is asked for or settles, no callback is called and no patch is made, however much time
    passes; and a fragment that is handed in after that gets its slot and is dropped. -/
theorem cancelled {given : List Nat}
    (run : toChunkStream.Run (start settings body w₀).1 (start settings body w₀).2 h d w)
    (after : (toChunkStream.release d w).Unread given w') :
    w.Quiet given w' := by
  have released : (d.stream.release w) = w ∨ d.stream.release w = w.close := d.stream.release_eq w
  have quiet : (d.stream.release w).Quiet given w' := after.quiet (holds_of_run run).release_shut
  obtain same | same := released <;> rw [same] at quiet
  · exact quiet
  · exact { quiet with }

/-- A document that is given up after its first chunk, while a fragment is on its way: the fragment
    never comes to its end, and one that is handed in later is not begun. -/
theorem cancelled_waiting : ∃ (settings : Settings) (body : Node) (h : List Happening) (d : Document)
    (w w' : EventLoop),
    toChunkStream.Run (start settings body {}).1 (start settings body {}).2 h d w ∧
      w.registry.pending = 1 ∧ w.registry.tasks.map (·.slot) = [0] ∧ w'.now = w.now + 1000 ∧
      w.Quiet [1] w' := by
  let settings : Settings := { timeout := 0, requestId := "r" }
  let value : Eventual (Except Chain String) := { pace := .ofDelays "v" [50] false, result := .ok "" }
  let body : Node := .defer value (fun text => .node (.text text)) (.node .empty) none
  let asked := (start settings body {}).1.poll (start settings body {}).2
  have facts : (asked.1.next?.isSome, asked.2.registry.next, asked.2.registry.pending,
      asked.2.registry.tasks.map (·.slot)) = (true, 1, 1, [0]) := by
    decide +kernel
  rcases polled : asked with ⟨answer, w⟩
  rw [polled] at facts
  simp only [Prod.mk.injEq] at facts
  obtain ⟨onward, next, pending, tasks⟩ := facts
  obtain ⟨d, onward⟩ := Option.isSome_iff_exists.1 onward
  have run := ChunkStream.Run.start.poll (s := toChunkStream) polled onward
  -- One fragment is handed in after the stream has been given up, and then a second passes.
  have handedIn := EventLoop.Unread.refl.handIn (w := toChunkStream.release d w)
    fun _ => .note (.rendering { name := "v" }) (.done "")
  have quiet := cancelled run (handedIn.background (.pass (Nat.le_add_right _ 1000) []))
  have given := quiet.numbered
  rw [next, List.nil_append, List.length_singleton] at given
  rw [List.nil_append, given] at quiet
  refine ⟨settings, body, _, d, w, _, run, pending, tasks, ?_, quiet⟩
  obtain same | same := d.stream.release_eq w
  · exact congrArg (·.now + 1000) same
  · exact congrArg (·.now + 1000) same

end Document

end ProgressiveHtml
