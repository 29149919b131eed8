import Mathlib
import ProgressiveHtml.Proofs.Template.Questions
import ProgressiveHtml.Proofs.Template.Settling

namespace ProgressiveHtml

/-!
# Template streams — reading to the end

A stream is asked again and again, and anything may happen in between.  What its sources come to in the
states in which they are asked says all that it brings: what the walk over its template writes.

* `TemplateStream.readAlong` — what a stream brings when it is asked in given states;
* `TemplateStream.askedBy`, `TemplateStream.AskedAlong` — the states in which the source of a slot is asked
  then;
* `TemplateStream.ComesIn` — what a source comes to in such a run;
* `Template.StandsAt` — where in its template a stream stands;
* `TemplateStream.reads_reference` — a stream brings what the walk over its template writes.
-/

namespace TemplateStream

/-! ### Asking in given states -/

/-- What is left of a stream and what it has brought once it has been asked so many times, in the
    given states; `none` when it panicked. -/
def readAlong (ws : Nat → EventLoop) (s : TemplateStream) : Nat → Option (TemplateStream × List Item)
  | 0 => some (s, [])
  | n + 1 => (readAlong ws s n).bind fun (left, brought) =>
    (left.poll (ws n)).1.next?.map fun next => (next, brought ++ (left.poll (ws n)).1.items)

/-- The states in which the source of a slot has been asked once a stream has been asked so many times,
    in the given states. -/
def askedBy (ws : Nat → EventLoop) (s : TemplateStream) (slot : Nat) : Nat → List EventLoop
  | 0 => []
  | n + 1 => askedBy ws s slot n ++
    ((readAlong ws s n).map fun (left, _) => askedIn left slot (ws n)).getD []

/-- Whenever the source of a slot is asked, it is in the next of the given states. -/
def AskedAlong (ws : Nat → EventLoop) (s : TemplateStream) (slot : Nat) (states : Nat → EventLoop) :
    Prop := ∀ n, Opens (s.askedBy ws slot n) states

/-- What the source of a slot comes to when a stream is asked in the given states. -/
inductive ComesIn (ws : Nat → EventLoop) (s : TemplateStream) (slot : Nat) : Source → Yield → Prop
  /-- It comes to the same whenever it is asked, and time goes on. -/
  | computes {source : Source} {yield : Yield} (computes : source.Computes yield)
      (endless : Endless fun n => (ws n).now) : ComesIn ws s slot source yield
  /-- It comes to this in the states in which it is asked. -/
  | asked {source : Source} {yield : Yield} {states : Nat → EventLoop} {count : Nat}
      (asked : s.AskedAlong ws slot states) (comes : source.YieldsIn states yield count) :
      ComesIn ws s slot source yield

variable {ws : Nat → EventLoop} {s left next : TemplateStream} {slot n : Nat} {brought : List Item}

/-- Asking once more. -/
theorem readAlong_of_next (read : s.readAlong ws n = some (left, brought))
    (onward : (left.poll (ws n)).1.next? = some next) :
    s.readAlong ws (n + 1) = some (next, brought ++ (left.poll (ws n)).1.items) := by
  simp [readAlong, read, onward]

/-- What is there after a question comes of what was there before. -/
theorem readAlong_succ (read : s.readAlong ws (n + 1) = some (left, brought)) :
    ∃ before earlier, s.readAlong ws n = some (before, earlier) ∧
      (before.poll (ws n)).1.next? = some left ∧
      brought = earlier ++ (before.poll (ws n)).1.items := by
  obtain ⟨⟨before, earlier⟩, readBefore, asked⟩ := Option.bind_eq_some_iff.1 read
  obtain ⟨next, onward, same⟩ := Option.map_eq_some_iff.1 asked
  obtain ⟨rfl, rfl⟩ := Prod.mk.inj same
  exact ⟨before, earlier, readBefore, onward, rfl⟩

/-- The states of one more question. -/
theorem askedBy_succ (read : s.readAlong ws n = some (left, brought)) (slot : Nat) :
    s.askedBy ws slot (n + 1) = s.askedBy ws slot n ++ askedIn left slot (ws n) := by
  rw [askedBy, read]
  rfl

/-! ### States for every source -/

theorem askedBy_grows {m : Nat} (later : n ≤ m) :
    s.askedBy ws slot n <+: s.askedBy ws slot m := by
  induction m, later using Nat.le_induction with
  | base => exact List.prefix_refl _
  | succ m _ ih => exact ih.trans (List.prefix_append _ _)

theorem getElem?_askedBy {m k : Nat} {v : EventLoop} (later : n ≤ m)
    (isAsked : (s.askedBy ws slot n)[k]? = some v) : (s.askedBy ws slot m)[k]? = some v := by
  obtain ⟨more, same⟩ : s.askedBy ws slot n <+: s.askedBy ws slot m := askedBy_grows later
  rw [← same, List.getElem?_append_left (List.getElem?_eq_some_iff.1 isAsked).1]
  exact isAsked

/-- What has come up behind the first questions has come up at one of the later ones. -/
theorem now_of_askedBy {m k : Nat} {v : EventLoop} (isAsked : (s.askedBy ws slot m)[k]? = some v)
    (behind : (s.askedBy ws slot n).length ≤ k) : ∃ j, n ≤ j ∧ v.now = (ws j).now := by
  induction m with
  | zero => cases isAsked
  | succ m ih =>
    by_cases early : k < (s.askedBy ws slot m).length
    · exact ih (by rwa [askedBy, List.getElem?_append_left early] at isAsked)
    · rw [askedBy, List.getElem?_append_right (Nat.le_of_not_lt early)] at isAsked
      have member := List.mem_of_getElem? isAsked
      refine ⟨m, ?_, ?_⟩
      · by_contra earlier
        have grown := (askedBy_grows (Nat.lt_of_not_le earlier) : s.askedBy ws slot (m + 1) <+: _).length_le
        have there := List.getElem?_eq_some_iff.1 isAsked
        rw [askedBy, List.length_append] at grown
        obtain ⟨within, -⟩ := there
        omega
      · cases read : s.readAlong ws m with
        | none => simp [read] at member
        | some result =>
          rw [read] at member
          exact now_of_askedIn member

/-- There are states in which a source is asked, whatever its slot, and time goes on in them if it does
    between the questions. -/
theorem exists_askedAlong (ws : Nat → EventLoop) (s : TemplateStream) (slot : Nat) :
    ∃ states, s.AskedAlong ws slot states ∧
      (Endless (fun n => (ws n).now) → Endless fun n => (states n).now) := by
  have same {n m k : Nat} {v u : EventLoop} (isAsked : (s.askedBy ws slot n)[k]? = some v)
      (once : (s.askedBy ws slot m)[k]? = some u) : v = u := by
    obtain earlier | later := Nat.le_total n m
    · exact Option.some.inj ((getElem?_askedBy earlier isAsked).symm.trans once)
    · exact Option.some.inj (isAsked.symm.trans (getElem?_askedBy later once))
  -- Where nothing is asked any more, any states will do in which time goes on.
  have each (k : Nat) : ∃ state : EventLoop,
      (∀ n v, (s.askedBy ws slot n)[k]? = some v → state = v) ∧
        ((∀ n, (s.askedBy ws slot n).length ≤ k) → state.now = k) := by
    by_cases isAsked : ∃ n v, (s.askedBy ws slot n)[k]? = some v
    · obtain ⟨n, v, isAsked⟩ := isAsked
      refine ⟨v, fun m u once => same isAsked once, fun none => absurd (none n) (Nat.not_le.2 ?_)⟩
      exact (List.getElem?_eq_some_iff.1 isAsked).1
    · exact ⟨{ timeline := { now := k } }, fun n v once => absurd ⟨n, v, once⟩ isAsked, fun _ => rfl⟩
  choose states opens idle using each
  refine ⟨states, fun n k v isAsked => opens k n v isAsked, fun endless limit => ?_⟩
  obtain ⟨n, passed⟩ := endless limit
  refine ⟨max (s.askedBy ws slot n).length limit, fun k later => ?_⟩
  show limit ≤ (states k).now
  by_cases isAsked : ∃ m v, (s.askedBy ws slot m)[k]? = some v
  · obtain ⟨m, v, isAsked⟩ := isAsked
    obtain ⟨j, behind, now⟩ := now_of_askedBy isAsked (le_trans (Nat.le_max_left _ _) later)
    rw [opens k m v isAsked, now]
    exact passed j behind
  · have none (m : Nat) : (s.askedBy ws slot m).length ≤ k := by
      by_contra longer
      exact isAsked ⟨m, _, List.getElem?_eq_getElem (Nat.lt_of_not_le longer)⟩
    rw [idle k none]
    exact le_trans (Nat.le_max_right _ _) later

/-- States in which the source of a slot is asked, and in which it comes to what it comes to in the run. -/
theorem ComesIn.exists_states {source? : Option Source} {yield? : Option Yield}
    (comes : Option.Rel (ComesIn ws s slot) source? yield?) :
    ∃ states, s.AskedAlong ws slot states ∧
      Option.Rel (fun source yield => ∃ count, source.YieldsIn states yield count) source? yield? := by
  obtain ⟨states, asked, onward⟩ := exists_askedAlong ws s slot
  cases comes with
  | none => exact ⟨states, asked, .none⟩
  | some comes =>
    cases comes with
    | computes computes endless => exact ⟨states, asked, .some (computes states (onward endless))⟩
    | asked asked comes => exact ⟨_, asked, .some ⟨_, comes⟩⟩

/-! ### The run -/

/-- Where a stream is once it has been asked so many times, if its sources come to something in the states
    in which they are asked: it has brought everything, or it goes on with what is still written. -/
inductive HasRead (ws : Nat → EventLoop) (s : TemplateStream) (states : Nat → Nat → EventLoop)
    (all : List Item) (total n : Nat) : TemplateStream → List Item → Prop
  | ended {left : TemplateStream} (finished : left.finished = true) :
      HasRead ws s states all total n left all
  | goesOn {left : TemplateStream} (running : left.finished = false) {brought : List Item}
      {outs : List (List Item)} {count : Nat}
      (writes : Writes (fun slot => after (s.askedBy ws (left.position + slot) n)
        (states (left.position + slot))) left.pieces outs count)
      (others : brought ++ Item.upToError outs.flatten = all)
      (further : count + left.pieces.length + n ≤ total) :
      HasRead ws s states all total n left brought

/-- A stream that has ended asks its sources no more. -/
theorem askedAlong_of_finished {states : Nat → EventLoop}
    (read : s.readAlong ws n = some (left, brought)) (finished : left.finished = true)
    (opens : Opens (s.askedBy ws slot n) states) : s.AskedAlong ws slot states := by
  have ended (m : Nat) (later : n ≤ m) :
      (∃ all, s.readAlong ws m = some (left, all)) ∧ s.askedBy ws slot m = s.askedBy ws slot n := by
    induction m, later using Nat.le_induction with
    | base => exact ⟨⟨brought, read⟩, rfl⟩
    | succ m _ ih =>
      obtain ⟨⟨all, readAll⟩, same⟩ := ih
      refine ⟨⟨_, readAlong_of_next readAll (by rw [poll_of_finished finished]; rfl)⟩, ?_⟩
      rw [askedBy_succ readAll, same, askedIn, finished]
      exact List.append_nil _
  intro m k v isAsked
  obtain earlier | later := Nat.le_total m n
  · exact opens k v (getElem?_askedBy earlier isAsked)
  · exact opens k v ((ended m later).2 ▸ isAsked)

/-- Each question takes something off what is still to come. -/
theorem HasRead.poll {states : Nat → Nat → EventLoop} {all : List Item} {total : Nat}
    (reached : HasRead ws s states all total n left brought)
    (read : s.readAlong ws n = some (left, brought))
    (asked : ∀ slot, s.AskedAlong ws slot (states slot)) :
    ∃ next, (left.poll (ws n)).1.next? = some next ∧
      HasRead ws s states all total (n + 1) next (brought ++ (left.poll (ws n)).1.items) := by
  cases reached with
  | ended finished =>
    rw [poll_of_finished finished]
    refine ⟨left, rfl, ?_⟩
    simpa [Polled.items] using HasRead.ended finished
  | goesOn running writes others further =>
    have here (slot : Nat) := asked slot (n + 1)
    simp only [askedBy_succ read, opens_append] at here
    have on := writes_poll running writes fun slot => (here (left.position + slot)).2
    cases on with
    | ended onward finished same =>
      refine ⟨_, onward, ?_⟩
      rw [same, others]
      exact .ended finished
    | @goesOn next onward goesOn passed later behind stands onwardWrites same sooner =>
      have fewer : later + next.pieces.length + (n + 1) ≤ total := by omega
      have others : (brought ++ (left.poll (ws n)).1.items) ++ Item.upToError behind.flatten = all := by
        rw [List.append_assoc, same, others]
      refine ⟨next, onward, .goesOn goesOn ?_ others fewer⟩
      simp only [askedBy_succ read, after_append, stands, Nat.add_assoc, Nat.add_comm passed]
      exact onwardWrites

/-- A stream whose sources come to something in the states in which they are asked can always be asked. -/
theorem HasRead.readAlong {states : Nat → Nat → EventLoop} {all : List Item} {total : Nat}
    (start : HasRead ws s states all total 0 s [])
    (asked : ∀ slot, s.AskedAlong ws slot (states slot)) (n : Nat) :
    ∃ left brought, s.readAlong ws n = some (left, brought) ∧
      HasRead ws s states all total n left brought := by
  induction n with
  | zero => exact ⟨s, [], rfl, start⟩
  | succ n ih =>
    obtain ⟨left, brought, read, reached⟩ := ih
    obtain ⟨next, onward, reached⟩ := reached.poll read asked
    exact ⟨next, _, readAlong_of_next read onward, reached⟩

end TemplateStream

/-! ### Where a stream stands -/

/-- From a position on, every piece has its place among the parts of the template: a segment is the
    one at its position, and a slot is one that the template has. -/
def Template.StandsAt (t : Template) : Nat → List Piece → Prop
  | position, [] => position = t.slots.length
  | position, .segment text :: rest => t.segments[position]? = some text ∧ StandsAt t position rest
  | position, .slot _ :: rest => position < t.slots.length ∧ StandsAt t (position + 1) rest

namespace TemplateStream

variable {t : Template}

/-- The pieces of the remaining sections have their places behind the sections passed. -/
theorem assign_standsAt (passed rest : List (String × String)) (split : t.sections = passed ++ rest)
    (sources : Sources) (w : EventLoop) : t.StandsAt passed.length (assign rest sources w).1 := by
  induction rest generalizing passed sources w with
  | nil => simp [assign, Template.StandsAt, Template.slots, split]
  | cons entry rest ih =>
    obtain ⟨name, text⟩ := entry
    obtain ⟨w', -, assigned⟩ := assign_cons name text rest sources w
    have behind := ih (passed ++ [(name, text)]) (by simp [split]) (sources.take name).2 w'
    rw [List.length_append, List.length_singleton] at behind
    rw [assigned]
    refine ⟨?_, ?_, behind⟩
    · simp [Template.slots, split]
    · simp [Template.segments, split]

/-- Pieces whose renderings go on stay where they are. -/
theorem Drives.standsAt {pieces left : List Piece} {w w' : EventLoop} {position : Nat}
    (drives : Drives pieces w left w') (stands : t.StandsAt position pieces) :
    t.StandsAt position left := by
  induction drives generalizing position with
  | nil => exact stands
  | rendering _ _ ih => exact ⟨stands.1, ih stands.2⟩
  | @other piece _ _ _ _ _ _ ih =>
    cases piece with
    | segment | slot => exact ⟨stands.1, ih stands.2⟩

/-- The walk goes from place to place. -/
theorem Walks.standsAt {pieces : List Piece} {position : Nat} {w : EventLoop}
    {result : StreamPoll TemplateStream × EventLoop} (walks : Walks pieces position w result)
    (stands : t.StandsAt position pieces) {next : TemplateStream}
    (onward : result.1.next? = some next) (goesOn : next.finished = false) :
    t.StandsAt next.position next.pieces := by
  induction walks with
  | ended | failed | error =>
    obtain rfl := Option.some.inj onward
    cases goesOn
  | blank isBlank _ ih =>
    cases isBlank with
    | segment | absent | text | markup => exact ih stands.2 onward
  | finished _ _ ih => exact ih stands.2 onward
  | written isWritten =>
    obtain rfl := Option.some.inj onward
    cases isWritten with
    | segment | text | markup => exact stands.2
  | pending | item | waiting =>
    obtain rfl := Option.some.inj onward
    exact stands

/-- A stream that goes on stands at a place that its template has. -/
theorem readAlong_standsAt {ws : Nat → EventLoop} {s left : TemplateStream} {n : Nat}
    {brought : List Item} (stands : t.StandsAt s.position s.pieces)
    (read : s.readAlong ws n = some (left, brought)) (goesOn : left.finished = false) :
    t.StandsAt left.position left.pieces := by
  induction n generalizing left brought with
  | zero =>
    obtain ⟨rfl, rfl⟩ := Prod.mk.inj (Option.some.inj read)
    exact stands
  | succ n ih =>
    obtain ⟨before, earlier, readBefore, onward, -⟩ := readAlong_succ read
    have asks := before.asks (ws n)
    generalize before.poll (ws n) = result at asks onward
    cases asks with
    | ended =>
      obtain rfl := Option.some.inj onward
      exact ih readBefore goesOn
    | panicked => cases onward
    | walked running drives walks =>
      exact walks.standsAt (drives.standsAt (ih readBefore running)) onward goesOn

/-! ### The whole run -/

/-- Whatever happens between the questions: if each source of a template comes to its yield in the run, the
    stream brings exactly the items that the walk over the template writes, and comes to its end.  It never
    panics, and until its end it stands at a place that its template has.  After its end it reports
    the end and asks nothing. -/
theorem reads_reference (t : Template) (sources : Sources) (yields : String → Option Yield)
    (w₀ : EventLoop) (ws : Nat → EventLoop)
    (come : ∀ name ∈ t.slots, Option.Rel
      (ComesIn ws (start t sources w₀).1 (t.slots.idxOf name)) (Named.get? sources name)
      (yields name)) :
    (∀ n, ∃ left brought, (start t sources w₀).1.readAlong ws n = some (left, brought) ∧
        brought <+: t.reference yields ∧
        (left.finished = false → t.StandsAt left.position left.pieces) ∧
        (left.finished = true → brought = t.reference yields ∧
          ∀ w, left.poll w = (.ready none left, w))) ∧
      ∃ n left brought, (start t sources w₀).1.readAlong ws n = some (left, brought) ∧
        left.finished = true := by
  set s := (start t sources w₀).1
  have stands : t.StandsAt s.position s.pieces :=
    ⟨rfl, assign_standsAt [] t.sections rfl sources w₀⟩
  -- Each slot has states in which its source is asked, and in which the source comes to its yield if the
  -- slot is the first of its name.
  have each (slot : Nat) : ∃ states, s.AskedAlong ws slot states ∧
      ∀ name ∈ t.slots, t.slots.idxOf name = slot → Option.Rel
        (fun source yield => ∃ count, source.YieldsIn states yield count)
        (Named.get? sources name) (yields name) := by
    by_cases isFirst : ∃ name ∈ t.slots, t.slots.idxOf name = slot
    · obtain ⟨name, occurs, here⟩ := isFirst
      obtain ⟨states, asked, comes⟩ := ComesIn.exists_states (come name occurs)
      refine ⟨states, here ▸ asked, fun other otherOccurs also => ?_⟩
      rwa [(List.idxOf_inj otherOccurs).1 (also.trans here.symm)]
    · obtain ⟨states, asked, -⟩ := exists_askedAlong ws s slot
      exact ⟨states, asked, fun name occurs here => absurd ⟨name, occurs, here⟩ isFirst⟩
  choose states asked comes using each
  obtain ⟨outs, count, writes, same⟩ :=
    writes_start (fun name occurs => comes _ name occurs rfl) w₀
  have reached : HasRead ws s states (t.reference yields) (count + s.pieces.length) 0 s [] := by
    refine .goesOn rfl ?_ same (Nat.le_refl _)
    simpa only [show s.position = 0 from rfl, Nat.zero_add, askedBy, after_nil] using writes
  refine ⟨fun n => ?_, ?_⟩
  · obtain ⟨left, brought, read, reached⟩ := reached.readAlong asked n
    refine ⟨left, brought, read, ?_, readAlong_standsAt stands read, fun ended => ?_⟩
    · cases reached with
      | ended => exact List.prefix_refl _
      | goesOn _ _ others => exact ⟨_, others⟩
    · cases reached with
      | ended => exact ⟨rfl, poll_of_finished ended⟩
      | goesOn running => simp [running] at ended
  · -- There are no more questions than are to come, and one.
    obtain ⟨left, brought, read, reached⟩ := reached.readAlong asked (count + s.pieces.length + 1)
    refine ⟨_, left, brought, read, ?_⟩
    cases reached with
    | ended finished => exact finished
    | goesOn _ _ _ further => omega

/-- The value of a name comes later than the item of the drain behind it, and is written at the first slot of
    its name only; the drain waits in its place until its item is there; and an error behind it ends it
    all. -/
theorem reads_reference_in_order : ∃ n left,
    (start { opening := "a", sections := [("x", "b"), ("x", "c"), ("p", "d"), ("y", "e")] }
      (.ofList [
        ("x", .ofEventual { pace := .ofDelays "x" [20] false, result := .ok "X" }),
        ("p", .sequence .patches),
        ("y", .sequence (.supply (.ofList "y"
          [(5, .ok (.content "")), (0, .error .consumed)] false)))]) {}).1.readAlong
      (fun n => { timeline := { now := 10 * n }, registry :=
        if n < 6 then { pending := 1 }
        else if n = 6 then { pending := 1, ready := [.ok (.patch "slot-0" "P")] } else {} }) n =
      some (left, [.ok (.literal "a"), .ok (.content "X"), .ok (.literal "b"), .ok (.literal "c"),
        .ok (.patch "slot-0" "P"), .ok (.literal "d"), .ok (.content ""), .error .consumed]) ∧
      left.finished = true := by
  let value : Eventual (Except RenderError String) :=
    { pace := .ofDelays "x" [20] false, result := .ok "X" }
  let supply : Supply := .ofList "y" [(5, .ok (.content "")), (0, .error .consumed)] false
  let sources : Sources := .ofList
    [("x", .ofEventual value), ("p", .sequence .patches), ("y", .sequence (.supply supply))]
  let t : Template := { opening := "a", sections := [("x", "b"), ("x", "c"), ("p", "d"), ("y", "e")] }
  let ws (n : Nat) : EventLoop := { timeline := { now := 10 * n }, registry :=
    if n < 6 then { pending := 1 }
    else if n = 6 then { pending := 1, ready := [.ok (.patch "slot-0" "P")] } else {} }
  let yields (name : String) : Option Yield :=
    if name = "x" then some (.result (.ok "X"))
    else if name = "p" then some (.items [.ok (.patch "slot-0" "P")])
    else if name = "y" then some (.items [.ok (.content ""), .error .consumed]) else none
  have endless : Endless fun n => (ws n).now := by
    intro limit
    refine ⟨limit, fun m later => ?_⟩
    show limit ≤ 10 * m
    omega
  have ended : ∃ left brought, (start t sources {}).1.readAlong ws 11 = some (left, brought) ∧
      left.finished = true := ⟨_, _, rfl, rfl⟩
  have drained : (start t sources {}).1.AskedAlong ws 2 fun n => ws (5 + n) := by
    obtain ⟨left, brought, read, finished⟩ := ended
    refine askedAlong_of_finished read finished ?_
    rw [show (start t sources {}).1.askedBy ws 2 11 = [ws 5, ws 6, ws 7] from by cbv]
    rintro (_ | _ | _ | k) v ⟨⟩ <;> rfl
  have come : ∀ name ∈ t.slots, Option.Rel
      (ComesIn ws (start t sources {}).1 (t.slots.idxOf name)) (Named.get? sources name)
      (yields name) := by
    intro name occurs
    obtain rfl | rfl | rfl : name = "x" ∨ name = "p" ∨ name = "y" := by
      simpa [t, Template.slots] using occurs
    · exact .some (.computes (Source.ofEventual_computes rfl rfl) endless)
    · exact .some (.asked drained (.sequence (.waiting rfl (.chunk rfl (.finished rfl)))))
    · exact .some (.computes (Supply.computes rfl) endless)
  obtain ⟨each, n, left, brought, read, finished⟩ := reads_reference t sources yields {} ws come
  obtain ⟨left', brought', read', -, -, whole⟩ := each n
  obtain ⟨rfl, rfl⟩ := Prod.mk.inj (Option.some.inj (read.symm.trans read'))
  obtain ⟨rfl, -⟩ := whole finished
  refine ⟨n, left, read.trans ?_, finished⟩
  simp [t, yields, Template.reference, Template.referenceFrom, Function.update, Yield.written,
    Yield.kept, Chunk.literals, Chunk.contents, Item.upToError]

end TemplateStream

end ProgressiveHtml
