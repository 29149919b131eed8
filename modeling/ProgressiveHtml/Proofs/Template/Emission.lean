import ProgressiveHtml.Proofs.Node.InPlace
import ProgressiveHtml.Proofs.Template.Clock

namespace ProgressiveHtml

/-!
# Template streams — emission times

When all sources settle and none fails, the chunks of a template come at the times that a walk over the
template tells, with a clock that starts at nought when the stream is first asked.  So whatever stands in
a slot as a single value overlaps with everything in front of it, and a sequence begins at its own place.

* `TimedYield` — what a source comes to, and how long it takes;
* `Template.timetable`, `Template.closing` — the walk with the clock;
* `Source.Takes` — sources that come to a yield in its time;
* `TemplateStream.emission_times` — the chunks of a template, each at its time.
-/

/-! ### The walk with a clock -/

/-- What a source comes to, and how long it takes. -/
inductive TimedYield where
  /-- A text is there from the start. -/
  | text (text : String)
  /-- A text that is there so many milliseconds after the stream was first asked. -/
  | future (delay : Nat) (text : String)
  /-- Chunks, each of which takes so many milliseconds once it is asked for. -/
  | sequence (elements : List (Nat × Chunk))

namespace TimedYield

/-- The clock behind the first slot of a source. -/
def clock (before : Nat) : TimedYield → Nat
  | text _ => before
  | future delay _ => max before delay
  | sequence elements => Arrival.clockAfter before elements

/-- What comes at the first slot of a source. -/
def arrivals (before : Nat) : TimedYield → List Arrival
  | text plain => (Chunk.contents plain).map (⟨before, ·⟩)
  | future delay markup => (Chunk.contents markup).map (⟨max before delay, ·⟩)
  | sequence elements => Arrival.inTurn before elements

/-- What is left of it for the next slot of the same name. -/
def kept : TimedYield → Option TimedYield
  | text plain => some (text plain)
  | _ => none

end TimedYield

namespace Template

/-- The walk over sections: what comes, and when.  A slot without a source takes no time. -/
def timetableFrom : List (String × String) → (yields : String → Option TimedYield) →
    (clock : Nat) → List Arrival
  | [], _, _ => []
  | (name, text) :: rest, yields, clock =>
    let passed := ((yields name).map (·.clock clock)).getD clock
    ((yields name).map (·.arrivals clock)).getD [] ++ ((Chunk.literals text).map (⟨passed, ·⟩) ++
      timetableFrom rest (Function.update yields name ((yields name).bind TimedYield.kept)) passed)

/-- The clock behind sections. -/
def closingFrom : List (String × String) → (yields : String → Option TimedYield) →
    (clock : Nat) → Nat
  | [], _, clock => clock
  | (name, _) :: rest, yields, clock =>
    closingFrom rest (Function.update yields name ((yields name).bind TimedYield.kept))
      (((yields name).map (·.clock clock)).getD clock)

variable (t : Template) (yields : String → Option TimedYield)

/-- What comes of a template, and when, if its sources come to the given yields. -/
def timetable : List Arrival :=
  (Chunk.literals t.opening).map (⟨0, ·⟩) ++ timetableFrom t.sections yields 0

/-- When everything has come. -/
def closing : Nat := closingFrom t.sections yields 0

end Template

/-- The same arrival counted from another instant. -/
def Arrival.since (start : Nat) (arrival : Arrival) : Arrival := { arrival with time := start + arrival.time }

namespace Arrival

theorem map_since (start time : Nat) (chunks : List Chunk) :
    (chunks.map (⟨time, ·⟩)).map (since start) = chunks.map (⟨start + time, ·⟩) := by
  rw [List.map_map]
  rfl

theorem inTurn_since (start clock : Nat) (elements : List (Nat × Chunk)) :
    (inTurn clock elements).map (since start) = inTurn (start + clock) elements := by
  induction elements generalizing clock with
  | nil => rfl
  | cons element rest ih =>
    rw [inTurn, List.map_cons, ih, inTurn, Nat.add_assoc]
    rfl

theorem clockAfter_since (start clock : Nat) (elements : List (Nat × Chunk)) :
    clockAfter (start + clock) elements = start + clockAfter clock elements := by
  induction elements generalizing clock with
  | nil => rfl
  | cons element rest ih => rw [clockAfter, clockAfter, Nat.add_assoc, ih]

end Arrival

/-! ### Sources that settle -/

/-- A source comes to a yield, in the time that the yield tells. -/
inductive Source.Takes : Source → TimedYield → Prop
  | text (text : String) : Takes (.text text) (.text text)
  /-- Whenever the rendering begins, its text is there after the delay. -/
  | rendering {r : Rendering} {delay : Nat} {text : String}
      (comes : ∀ now, r.ComesTo now [] text (now + delay)) : Takes (.rendering r) (.future delay text)
  | supply (name : String) (elements : List (Nat × Chunk)) :
      Takes (.sequence (.supply (.ofList name (elements.map fun (delay, chunk) => (delay, .ok chunk)) false)))
        (.sequence elements)

/-- An eventual value takes as long as its delays together. -/
theorem Source.takes_ofEventual (name : String) (delays : List Nat) (text : String) :
    (Source.ofEventual ⟨.ofDelays name delays false, none, .ok text⟩).Takes (.future delays.sum text) := by
  refine .rendering fun now => ⟨now + delays.sum, ⟨.idle delays, ?_⟩, rfl, rfl, rfl⟩
  simp [Pace.due?, Pace.ofDelays, Sleep.overAll_idle]

/-- A tree that is rendered where nothing can be deferred takes as long as its rendering. -/
theorem Source.takes_ofNode {node : Node} {env : Environment} (inPlace : env.deferral = none)
    (succeeds : node.Succeeds env) :
    (Source.ofNode node env).Takes (.future (node.duration env.values) (node.inlined env.values)) :=
  .rendering fun now => (Built.node node).comesTo inPlace succeeds now ""

/-- The sources of a template come to the given yields, name by name. -/
def Sources.Take (sources : Sources) (yields : String → Option TimedYield) : Prop :=
  ∀ name, Option.Rel Source.Takes (Named.get? sources name) (yields name)

/-- What is left of the sources comes to what is left of the yields. -/
theorem Sources.Take.left {sources : Sources} {yields : String → Option TimedYield}
    (takes : sources.Take yields) (name : String) :
    (sources.take name).2.Take (Function.update yields name ((yields name).bind TimedYield.kept)) := by
  have here := takes name
  obtain ⟨plain, found, taken⟩ | ⟨source, notText, found, taken⟩ | ⟨found, taken⟩ :=
    sources.take_cases name <;> rw [found] at here <;> rw [taken]
  · -- A text is still there.
    obtain ⟨yield, isYield, takesHere⟩ := rel_some_left here
    cases takesHere
    rw [isYield, Option.bind_some, TimedYield.kept, ← isYield, Function.update_eq_self]
    exact takes
  · obtain ⟨yield, isYield, takesHere⟩ := rel_some_left here
    have gone : (yields name).bind TimedYield.kept = none := by
      rw [isYield]
      cases takesHere with
      | text text => exact absurd rfl (notText text)
      | rendering | supply => rfl
    intro other
    rw [Named.get?_erase, gone]
    by_cases isHere : other = name
    · rw [if_pos isHere, isHere, Function.update_self]
      exact .none
    · rw [if_neg isHere, Function.update_of_ne isHere]
      exact takes other
  · have isNone := rel_none_left here
    rw [isNone, Option.bind_none, ← isNone, Function.update_eq_self]
    exact takes

/-- Sources that are given in a list, each with its yield. -/
theorem Sources.take_ofList {entries : List (String × Source × TimedYield)}
    (each : ∀ entry ∈ entries, entry.2.1.Takes entry.2.2) :
    Sources.Take (.ofList (entries.map fun entry => (entry.1, entry.2.1)))
      (Named.ofList (entries.map fun entry => (entry.1, entry.2.2))).get? := by
  have onward (sources : Sources) (yields : Named TimedYield) (before : sources.Take yields.get?) :
      Sources.Take (entries.foldl (fun sources entry => Named.put sources entry.1 entry.2.1) sources)
        (entries.foldl (fun yields entry => yields.put entry.1 entry.2.2) yields).get? := by
    induction entries generalizing sources yields with
    | nil => exact before
    | cons entry rest ih =>
      rw [List.forall_mem_cons] at each
      refine ih each.2 _ _ fun name => ?_
      rw [Named.get?_put, Named.get?_put]
      split
      · exact .some each.1
      · exact before name
  rw [Named.ofList, Named.ofList, List.foldl_map, List.foldl_map]
  exact onward {} {} fun _ => .none

/-! ### Chunks at their times -/

namespace TemplateStream

/-- A slot comes as its yield tells, and then what is behind it. -/
theorem Planned.slot {source? : Option Source} {yield? : Option TimedYield} {pieces : List Piece}
    {start clock closing : Nat} {arrivals : List Arrival} (takes : Option.Rel Source.Takes source? yield?)
    (rest : Planned (fun r => r.ComesTo start) pieces []
      (start + (yield?.map (·.clock clock)).getD clock) arrivals closing) :
    Planned (fun r => r.ComesTo start) (.slot source? :: pieces) [] (start + clock)
      (((yield?.map (·.arrivals clock)).getD []).map (Arrival.since start) ++ arrivals) closing := by
  cases takes with
  | none => exact .absent rest
  | some takes =>
    cases takes with
    | text plain =>
      simp only [Option.map_some, Option.getD_some, TimedYield.arrivals, TimedYield.clock,
        Arrival.map_since] at rest ⊢
      exact .text plain rest
    | @rendering r delay text comes =>
      simp only [Option.map_some, Option.getD_some, TimedYield.arrivals, TimedYield.clock,
        Arrival.map_since] at rest ⊢
      -- A value comes when it is there and its turn has come.
      rw [← Nat.add_max_add_left] at rest ⊢
      exact .rendering (comes start) rest
    | supply name elements =>
      simp only [Option.map_some, Option.getD_some, TimedYield.arrivals, TimedYield.clock,
        Arrival.inTurn_since, ← Arrival.clockAfter_since] at rest ⊢
      refine .supply rfl ?_ rest
      simp [Supply.ofList, Supply.itemsOf, Function.comp_def]

/-- The pieces of a template come as the walk tells. -/
theorem assign_planned (sections : List (String × String)) {sources : Sources}
    {yields : String → Option TimedYield} (takes : sources.Take yields) (w : EventLoop)
    (start clock : Nat) :
    Planned (fun r => r.ComesTo start) (assign sections sources w).1 [] (start + clock)
      ((Template.timetableFrom sections yields clock).map (Arrival.since start))
      (start + Template.closingFrom sections yields clock) := by
  induction sections generalizing sources yields w clock with
  | nil => exact .nil _
  | cons entry rest ih =>
    obtain ⟨name, text⟩ := entry
    obtain ⟨w', -, assigned⟩ := assign_cons name text rest sources w
    have here : Option.Rel Source.Takes (sources.take name).1 (yields name) :=
      (sources.take_fst name).symm ▸ takes name
    rw [assigned, Template.timetableFrom, Template.closingFrom, List.map_append, List.map_append,
      Arrival.map_since]
    exact .slot here (.segment text (ih (takes.left name) w' _))

/-- The chunks of a template come at the times that the walk tells, for a reader without pauses, counted
    from the instant at which the stream is first asked; and then comes the end.  The sources may be any
    that settle and do not fail, and may be missing. -/
theorem emission_times (t : Template) {sources : Sources} {yields : String → Option TimedYield}
    (takes : sources.Take yields) {w : EventLoop} (alone : w.Alone)
    (numbered : ∀ cell ∈ w.used, cell < w.cells) (before : EventLoop) (turns : Nat)
    {patience most : Nat} (patient : t.closing yields ≤ patience)
    (enough : (t.timetable yields).length < most) : ∃ after,
      toChunkStream.readWithin turns patience most {} (start t sources before).1 w =
        (.ok ((t.timetable yields).map (Arrival.since w.now), .done), after) ∧
      after.now = w.now + t.closing yields := by
  have planned := assign_planned t.sections takes before w.now 0
  have opened := Planned.segment t.opening planned
  refine OnClock.read ⟨rfl, alone, [], ⟨List.nodup_nil, nofun, nofun, numbered⟩, .inl ?_⟩ turns
    (Nat.add_le_add_left patient _) (by rwa [List.length_map])
  rw [Template.timetable, List.map_append, Arrival.map_since]
  exact opened

/-- Between two sequences stands a value of two sleeps.  It goes on while the first sequence is asked, and
    the second one begins only when it is there; its other slot stays empty. -/
theorem emission_times_of_two_sequences :
    let late : Source := .ofEventual ⟨.ofDelays "late" [15, 20] false, none, .ok "late"⟩
    let supply (name : String) (elements : List (Nat × Chunk)) : Source :=
      .sequence (.supply (.ofList name (elements.map fun (delay, chunk) => (delay, .ok chunk)) false))
    let sources : Sources := .ofList [
      ("first", supply "first" [(10, .content "1"), (10, .content "2")]),
      ("late", late),
      ("second", supply "second" [(5, .content "3"), (0, .content "4")])]
    let t : Template := ⟨"<", [("first", ""), ("late", "-"), ("absent", "+"), ("second", ">"), ("late", "")]⟩
    ∃ after, toChunkStream.readWithin 0 100 10 {} (start t sources {}).1 {} =
      (.ok ([⟨0, .literal "<"⟩, ⟨10, .content "1"⟩, ⟨20, .content "2"⟩, ⟨35, .content "late"⟩,
        ⟨35, .literal "-"⟩, ⟨35, .literal "+"⟩, ⟨40, .content "3"⟩, ⟨40, .content "4"⟩,
        ⟨40, .literal ">"⟩], .done), after) ∧ after.now = 40 := by
  intro late supply sources t
  let first : List (Nat × Chunk) := [(10, .content "1"), (10, .content "2")]
  let second : List (Nat × Chunk) := [(5, .content "3"), (0, .content "4")]
  let entries : List (String × Source × TimedYield) := [
    ("first", supply "first" first, .sequence first), ("late", late, .future 35 "late"),
    ("second", supply "second" second, .sequence second)]
  have each : ∀ entry ∈ entries, entry.2.1.Takes entry.2.2 := by
    simp only [entries, List.forall_mem_cons]
    exact ⟨.supply "first" first, Source.takes_ofEventual "late" [15, 20] "late",
      .supply "second" second, nofun⟩
  exact emission_times t (Sources.take_ofList each) (w := {}) ⟨rfl, rfl⟩ nofun {} 0 (by decide)
    (by decide)

end TemplateStream

end ProgressiveHtml
