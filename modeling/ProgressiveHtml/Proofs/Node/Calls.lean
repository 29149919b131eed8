import ProgressiveHtml.Proofs.Rendering.Call

namespace ProgressiveHtml

/-!
# Nodes — calls of a deferrable node

A deferrable node that is rendered is refused when its content has been used up.  Otherwise its result is
shown in its place, or its timer is first.  Then the fragment is handed in before its fallback is
rendered, and it stays handed in whatever comes of the fallback.

* `Fragment.Ends` — how the call of a fragment ends, and what it has handed in;
* `Node.call_defer` — every call of a deferrable node ends like this, or is refused.
-/

open Rendering

/-- How the call of the fragment of a content ends, and what it has handed in. -/
inductive Fragment.Ends (f : Fragment) (fallback : Rendering) (cell : Nat) :
    List Registration → Rendering → Prop
  /-- The value panicked in place. -/
  | panics {message : String} (panics : f.value.panic? = some message) :
      Ends f fallback cell [] (.panicked message)
  /-- The value was there, and its result was shown in place.  What was handed in meanwhile stands inside
      of it. -/
  | inline {handed : List Registration} {r : Rendering} {v w : EventLoop}
      (settles : f.value.panic? = none) (call : Call (f.settled f.value.result) v handed r w)
      (others : ∀ given ∈ handed, ¬given.Of cell) : Ends f fallback cell handed r
  /-- The timer was first.  The fragment was handed in, and its fallback was rendered. -/
  | deferred {pace : Pace} {later : List Registration} {left : Rendering} {v v' w : EventLoop}
      (same : pace.label = f.label) (call : Call fallback v' later left w) (ended : left.isOver)
      (others : ∀ given ∈ later, ¬given.Of cell) :
      Ends f fallback cell (v.registration (f.late pace) :: later)
        (left.andThen fun markup =>
          .done (Markup.placeholder (Markup.slotName v.registry.next) markup))

namespace Fragment

variable {f : Fragment} {cell : Nat} {handed : List Registration} {fallback r : Rendering}
  {v w : EventLoop}

/-- A fragment that is handed in is that of its content. -/
theorem registration_of {pace : Pace} (own : pace.label.cell = some cell) (v : EventLoop) :
    (v.registration (f.late pace)).Of cell :=
  ⟨pace, _, rfl, own⟩

/-- A value that is there panics, or its result is shown in place. -/
theorem ends_of_conclude {next : Except Chain String → Rendering} {shown : Option Moment}
    (call : Call (f.value.conclude next) v handed r w) (ended : r.isOver)
    (treats : (f.value.conclude next).Treats cell (.settled shown)) (used : cell ∈ v.used)
    (isThere : .settled ∈ v.timeline.deeds cell)
    (shows : ∀ {v}, Call (next f.value.result) v handed r w →
      ∃ v, Call (f.settled f.value.result) v handed r w) : f.Ends fallback cell handed r := by
  obtain ⟨left, few, allows⟩ : ∃ left ≤ {.shown},
      (f.value.conclude next).Allows cell [] (v.timeline.deeds cell) left :=
    Allows.of_settled isThere treats
  have others := call.unrelated used allows fun settles => by
    simpa using Multiset.mem_of_le few settles
  cases panic : f.value.panic? with
  | some message =>
    simp only [Eventual.conclude, panic] at call
    obtain ⟨rfl, rfl⟩ := call.of_isOver rfl
    exact .panics panic
  | none =>
    simp only [Eventual.conclude, panic] at call
    obtain ⟨v, call⟩ := shows call
    exact .inline panic call others

end Fragment

/-- The call of a deferrable node is refused, or it uses up the content and ends like a fragment. -/
theorem Node.call_defer {value : Eventual (Except Chain String)} {render : String → Built}
    {fallback : Built} {onError : Option (Chain → Built)} {env : Environment} {cell : Nat}
    {handed : List Registration} {r : Rendering} {w w' : EventLoop}
    (call : Call ((Node.defer value render fallback onError).rendering env cell) w handed r w')
    (ended : r.isOver) :
    handed = [] ∧ r = .failed .consumed ∧ cell ∈ w'.used ∨
      cell ∉ w.used ∧ cell ∈ w'.used ∧
        (Fragment.ofCallbacks (value.numbered cell) render onError env).Ends (fallback.rendering env)
          cell handed r := by
  have treats := Node.treats_rendering cell (.defer value render fallback onError) env cell
  rw [Node.rendering_defer] at call treats
  let f : Fragment := .ofCallbacks (value.numbered cell) render onError env
  have treats : (f.rendering (fallback.rendering env) env.deferral).Treats cell .claimed := by
    cases treats with
    | claim onward => exact onward
    | claimOther isOther => exact absurd rfl isOther
  obtain refused | ⟨fresh, v, used, call⟩ := call.claim_inv ended
  · exact .inl refused
  refine .inr ⟨fresh, call.used used, ?_⟩
  change Call (f.rendering (fallback.rendering env) env.deferral) v handed r w' at call
  show f.Ends (fallback.rendering env) cell handed r
  have own : f.label.cell = some cell := rfl
  cases deferral : env.deferral with
  | none =>
    rw [deferral] at call treats
    cases treats with
    | ownWait _ onward =>
      obtain ⟨v, kept, isThere, call⟩ := Call.wait_inv call ended
      exact Fragment.ends_of_conclude call ended onward (kept used) (isThere cell own)
        fun call => ⟨_, call⟩
  | some timeout =>
    rw [deferral] at call treats
    cases treats with
    | ownRace _ ofInTime ofLate =>
      obtain ⟨v, kept, isThere, call⟩ | ⟨pace, v, same, kept, call⟩ := Call.race_inv call ended
      · refine Fragment.ends_of_conclude call ended ofInTime (kept used) (isThere cell own)
          fun call => ?_
        obtain ⟨v, -, call⟩ := call.note_inv ended
        exact ⟨v, call⟩
      · -- The fragment is handed in before its fallback is rendered.
        obtain ⟨before, later, rfl, keptLate, call⟩ := call.register_inv ended
        obtain ⟨v', keptNote, call⟩ := call.note_inv ended
        obtain ⟨first, left, after, last, rfl, isOver, ofFallback, call⟩ := call.andThen_inv ended
        have ends : (left.andThen fun markup => Rendering.done
            (Markup.placeholder (Markup.slotName before.registry.next) markup)).isOver := by
          cases left with
          | done | failed | panicked => rfl
          | _ => cases isOver
        obtain ⟨rfl, rfl⟩ := call.of_isOver ends
        have apart : (fallback.rendering env).Allows cell [] (v'.timeline.deeds cell) 0 :=
          .apart (fallback.treats_rendering cell env)
        have others := ofFallback.unrelated (keptNote (keptLate (kept used))) apart (by simp)
        rw [List.append_nil]
        exact .deferred same ofFallback isOver others

end ProgressiveHtml
