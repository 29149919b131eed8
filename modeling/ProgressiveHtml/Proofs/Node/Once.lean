import ProgressiveHtml.Proofs.EventLoop.Activity
import ProgressiveHtml.Proofs.Node.Calls

namespace ProgressiveHtml

/-!
# Nodes — a deferrable node acts once

A deferrable node may be rendered many times, and its renderings may be dropped at any time.  Its value
is asked for and settles once, and one callback is called for what comes of it; a rendering that comes
later is refused.

* `Rendering.Call.begun`, `Rendering.Call.refused` — a call uses up the content, or is refused;
* `Fragment.Ends.of_requested` — a call that has requested a slot shows its fallback in a placeholder;
* `EventLoop.Activity.acts_once` — in any course of events nothing is done twice.
-/

open Rendering

namespace Rendering.Call

variable {cell : Nat} {next r' : Rendering} {handed : List Registration} {w w' : EventLoop}

/-- A call that has begun has used up the content, even if it is never ended. -/
theorem begun (call : Call (claim cell next) w handed r' w') :
    r' = claim cell next ∧ handed = [] ∨ cell ∈ w'.used := by
  generalize same : claim cell next = r at call
  induction call with
  | refl => exact .inl ⟨rfl, rfl⟩
  | step step rest =>
    subst same
    cases step with
    | claim fresh next => exact .inr (rest.used List.mem_cons_self)
    | refuse used next => exact .inr (rest.used used)
  | aside _ _ ih => exact ih same

/-- A call that begins when the content has been used up is refused. -/
theorem refused (call : Call (claim cell next) w handed r' w') (used : cell ∈ w.used) :
    handed = [] ∧ (r' = claim cell next ∨ r' = .failed .consumed) := by
  generalize same : claim cell next = r at call
  induction call with
  | refl => exact ⟨rfl, .inl rfl⟩
  | step step rest =>
    subst same
    cases step with
    | claim fresh next => exact absurd used fresh
    | refuse used next =>
      obtain ⟨rfl, rfl⟩ := rest.of_isOver rfl
      exact ⟨rfl, .inr rfl⟩
  | aside onto _ ih => exact ih (onto.used used) same

end Rendering.Call

/-- A call that has requested a slot for its content shows what came of its fallback, and nothing that
    comes of its value. -/
theorem Fragment.Ends.of_requested {f : Fragment} {fallback r : Rendering} {cell : Nat}
    {handed : List Registration} (ends : f.Ends fallback cell handed r)
    (requested : ∃ given ∈ handed, given.Of cell) :
    ∃ slot left v later w, Call fallback v later left w ∧ left.isOver ∧
      r = left.andThen fun markup => .done (Markup.placeholder (Markup.slotName slot) markup) := by
  obtain ⟨given, member, own⟩ := requested
  cases ends with
  | panics => cases member
  | inline _ _ others => exact absurd own (others given member)
  | deferred _ call ended => exact ⟨_, _, _, _, _, call, ended, rfl⟩

/-- Whatever goes on, at most one thing of each kind is done with the content of a deferrable node: its
    value is asked for and settles, its result is shown, and its fallback is called.  The result is shown
    when the value has settled, and the fallback is called for a slot that was requested for the content.
    A call that has requested a slot shows what came of the fallback, in a placeholder.  Once a call has
    begun, all further ones are refused, do nothing and hand in nothing. -/
theorem EventLoop.Activity.acts_once {parts : List Rendering} {handed : List Registration}
    {w : EventLoop} (activity : Activity parts handed w) (value : Eventual (Except Chain String))
    (render : String → Built) (fallback : Built) (onError : Option (Chain → Built)) (cell : Nat) :
    let rendering := fun env => (Node.defer value render fallback onError).rendering env cell
    (w.timeline.deeds cell).Nodup ∧
    (∀ earlier later, w.timeline.deeds cell = earlier ++ .shown :: later → .settled ∈ earlier) ∧
    (∀ label slot, .fallback label slot ∈ w.timeline.events → label.cell = some cell →
      Requested cell handed slot) ∧
    ∀ {env v given left v'}, Call (rendering env) v given left v' →
      (left.isOver → (∃ one ∈ given, one.Of cell) →
        ∃ slot told before later after, Call (fallback.rendering env) before later told after ∧
          told.isOver ∧ left = told.andThen fun markup =>
            .done (Markup.placeholder (Markup.slotName slot) markup)) ∧
      (left = rendering env ∧ given = [] ∨ ∀ {env' w'}, v'.Onto w' →
        (rendering env').poll w' = (.failed .consumed, w') ∧
          ∀ {more left' w''}, Call (rendering env') w' more left' w'' →
            more = [] ∧ (left' = rendering env' ∨ left' = .failed .consumed)) := by
  intro rendering
  have thrifty := activity.thrifty cell
  refine ⟨thrifty.nodup, thrifty.inOrder, thrifty.requested,
    fun {env v given left v'} call => ⟨fun ended wanted => ?_, ?_⟩⟩
  · obtain ⟨rfl, -, -⟩ | ⟨-, -, ends⟩ := Node.call_defer call ended
    · obtain ⟨_, member, _⟩ := wanted
      cases member
    · exact ends.of_requested wanted
  · -- Every call begins by claiming the content, and so only one of them can.
    have claims (env : Environment) : ∃ next, rendering env = .claim cell next :=
      ⟨_, Node.rendering_defer value render fallback onError env cell⟩
    obtain ⟨next, same⟩ := claims env
    rw [same] at call ⊢
    refine call.begun.imp_right fun used {env' w'} onto => ?_
    obtain ⟨next, same⟩ := claims env'
    rw [same]
    exact ⟨if_pos (onto.used used), fun later => later.refused (onto.used used)⟩

/-- A deferrable node whose value comes after 20 ms. -/
def Node.belated : Node :=
  .defer { pace := .ofDelays "late" [20] false, result := .ok "late" } (fun text => .node (.text text))
    (.node .empty) none

/-- An environment in which a fragment that is not there at once is deferred. -/
def Environment.hurried : Environment := Environment.empty.deferringAfter 0

/-- The node is rendered: its value is asked for, a slot is requested, and its fallback is called.  When
    it is rendered again, at any time, it is refused. -/
theorem EventLoop.Activity.acts_once_belated : ∃ parts handed w, Activity parts handed w ∧
    w.timeline.deeds 0 = [.started, .placed] ∧ (w.timeline.deeds 0).Nodup ∧ Requested 0 handed 0 ∧
      ∀ {w'}, w.Onto w' →
        (Node.belated.rendering .hurried 0).poll w' = (.failed .consumed, w') := by
  obtain ⟨given, steps⟩ := (Node.belated.rendering .hurried 0).poll_steps {}
  have begun : Activity ([] ++ [Node.belated.rendering .hurried 0]) [] {} :=
    (Activity.start rfl rfl rfl).begin Node.belated .hurried 0
  have activity := begun.steps steps
  obtain ⟨once, -, requested, calls⟩ := activity.acts_once _ _ _ _ 0
  refine ⟨_, _, _, activity, by decide +kernel, once, ?_, fun onto => ?_⟩
  · exact requested ⟨"late", some 0⟩ 0 (by decide +kernel) rfl
  · obtain ⟨unbegun, -⟩ | further := (calls (Call.of_steps steps)).2
    · cases unbegun
    · exact (further onto).1

end ProgressiveHtml
