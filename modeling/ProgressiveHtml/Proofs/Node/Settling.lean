import ProgressiveHtml.Proofs.Rendering.Effort
import ProgressiveHtml.Proofs.Rendering.Silent

namespace ProgressiveHtml

/-!
# Nodes — trees in which all values settle

A tree settles when all its values do, those included of the trees that callbacks build for the visible
values and for what the values come to.  Of its rendering only so much is still to come at any instant.

* `Node.Settles`, `Built.Settles` — the trees in which all values settle;
* `Fragment.exists_effort` — a bound on what is still to come of a fragment;
* `Node.exists_effort` — a bound on what is still to come of such a tree.
-/

mutual

/-- All values in a tree settle. -/
def Node.Settles : Node → Environment → Prop
  | .element _ _ children, env => Node.SettleAll children env
  | .group children, env => Node.SettleAll children env
  | .head _ children, env => Node.SettleAll children env
  | .provide key value child, env => child.Settles (env.add key value)
  | .consume key build, env => (build (env.get? key)).Settles env
  | .await value content, env => value.pace.never = false ∧ content.Settles env
  | .defer value render fallback onError, env =>
    value.pace.never = false ∧ fallback.Settles env ∧
      match value.result with
      | .ok text => (render text).Settles env
      | .error error =>
        match onError with
        | none => True
        | some build => (build error).Settles env
  | .again _ child, env => child.Settles env
  | .recover child, env => child.Settles env
  | _, _ => True
termination_by structural node => node

/-- All values in siblings settle. -/
def Node.SettleAll : List Node → Environment → Prop
  | [], _ => True
  | node :: rest, env => node.Settles env ∧ Node.SettleAll rest env
termination_by structural nodes => nodes

/-- All values in what a callback built settle. -/
def Built.Settles : Built → Environment → Prop
  | .node tree, env => tree.Settles env
  | .panics _, _ => True
termination_by structural built => built

end

theorem Node.settles_defer {value : Eventual (Except Chain String)} {render : String → Built}
    {fallback : Built} {onError : Option (Chain → Built)} {env : Environment} :
    (Node.defer value render fallback onError).Settles env ↔
      value.pace.never = false ∧ fallback.Settles env ∧
        match value.result with
        | .ok shown => (render shown).Settles env
        | .error error => ∀ build ∈ onError, (build error).Settles env := by
  cases onError <;> cases result : value.result <;> simp [Node.Settles, result]

open Rendering

/-- What is still to come once a value has taken its time. -/
theorem Eventual.effort_conclude {α : Type} (value : Eventual α) {next : α → Rendering} {now n : Nat}
    (onward : (next value.result).Effort now n) : (value.conclude next).Effort now n := by
  unfold conclude
  split
  · trivial
  · exact onward

/-- What is still to come of a fragment, when its value settles: the time of the value and of the timer,
    what is shown then, the fallback, and three for handing it in. -/
theorem Fragment.effort_rendering (f : Fragment) (settles : f.value.pace.never = false)
    {fallback : Rendering} {now m n : Nat} (shown : (f.settled f.value.result).Effort now m)
    (waiting : fallback.Effort now n) (deferral : Option Nat) :
    (f.rendering fallback deferral).Effort now
      (f.value.pace.ahead now + deferral.getD 0 + (m + n + 3)) := by
  cases deferral with
  | none =>
    rw [rendering]
    exact ⟨settles, m, by omega, f.value.effort_conclude shown⟩
  | some timeout =>
    have inTime : (f.value.conclude fun result =>
        .note (.notice (inTimeNotice result)) (f.settled result)).Effort now (m + n + 3) :=
      f.value.effort_conclude (shown.mono (by omega))
    refine ⟨settles, m + n + 3, Nat.le_refl _, inTime, fun later pace passed ends => ?_⟩
    refine ⟨pace.ahead later + m, n, by omega, fun slot => ?_, fun slot => ?_⟩
    · refine ⟨ends, m, Nat.le_refl _, f.value.effort_conclude ?_⟩
      have shown := shown.later passed
      -- A late failure is noted once more; a note takes no time.
      cases result : f.value.result <;> rw [result] at shown <;> exact shown
    · exact (waiting.later passed).andThen (n := 0) fun _ => trivial

mutual

/-- Of a tree in which all values settle only so much is still to come. -/
theorem Node.exists_effort (node : Node) {env : Environment} (settles : node.Settles env) (now : Nat) :
    ∃ n, ∀ first, (node.rendering env first).Effort now n := by
  have joined {children : List Node} (siblings : ∃ n, ∀ first,
      EffortAll (Node.renderings children env first) now n) (write : List String → String) :
      ∃ n, ∀ first, (join (Node.renderings children env first) fun texts =>
        done (write texts)).Effort now n := by
    obtain ⟨n, siblings⟩ := siblings
    exact ⟨n, fun first => ⟨n, 0, Nat.le_refl n, siblings first, fun _ => trivial⟩⟩
  cases node with
  | empty | markup | text | fail | panics => exact ⟨0, fun _ => trivial⟩
  | element tag attributes children => exact joined (Node.exists_effortAll children settles now) _
  | group children => exact joined (Node.exists_effortAll children settles now) _
  | head title children => exact joined (Node.exists_effortAll children settles now) _
  | provide key value child => exact child.exists_effort settles now
  | consume key build =>
    obtain ⟨n, effort⟩ := (build (env.get? key)).exists_effort settles now
    exact ⟨n, fun _ => effort⟩
  | await value content =>
    obtain ⟨ends, settles⟩ := settles
    obtain ⟨n, effort⟩ := content.exists_effort settles now
    refine ⟨value.pace.ahead now + n, fun first => ⟨ends, n, Nat.le_refl _, ?_⟩⟩
    exact value.effort_conclude effort
  | defer value render fallback onError =>
    obtain ⟨ends, waits, settles⟩ := Node.settles_defer.1 settles
    obtain ⟨n, waiting⟩ := fallback.exists_effort waits now
    -- Only the callback that the result calls for has to settle.
    have settled : ∃ m, ∀ first, ((Fragment.ofCallbacks (value.numbered first) render onError
        env).settled value.result).Effort now m := by
      cases result : value.result with
      | ok text =>
        rw [result] at settles
        obtain ⟨m, effort⟩ := (render text).exists_effort settles now
        exact ⟨m, fun _ => effort⟩
      | error error =>
        rw [result] at settles
        have built : ∃ m, ∀ build ∈ onError, ∀ shown ∈ (build error).rendering? env,
            shown.Effort now m := by
          cases onError with
          | none => exact ⟨0, fun _ none => by cases none⟩
          | some build =>
            obtain ⟨m, effort⟩ := (build error).exists_effort? (settles build rfl) now
            exact ⟨m, fun _ given => Option.some.inj given ▸ effort⟩
        obtain ⟨m, effort⟩ := built
        refine ⟨m, fun first => ?_⟩
        refine failureRendering_keeps (P := (·.Effort now m)) _ trivial (fun _ _ => id) ?_
        intro callback given
        obtain ⟨build, isGiven, rfl⟩ := Option.map_eq_some_iff.1 given
        exact effort build isGiven
    obtain ⟨m, shown⟩ := settled
    refine ⟨value.pace.ahead now + env.deferral.getD 0 + (m + n + 3), fun first => ?_⟩
    rw [Node.rendering_defer]
    exact Fragment.effort_rendering _ ends (shown first) waiting env.deferral
  | again count child =>
    obtain ⟨n, effort⟩ := child.exists_effort settles now
    exact ⟨count * n, fun first => (effort first).times count⟩
  | recover child =>
    obtain ⟨n, effort⟩ := child.exists_effort settles now
    refine ⟨n, fun first => ⟨n, 0, Nat.le_refl n, effort first, fun result => ?_⟩⟩
    cases result <;> trivial
  | inspect keys =>
    refine ⟨0, fun first => ?_⟩
    rw [Node.rendering]
    cases env.deferral with
    | none => trivial
    | some timeout => exact fun pending => trivial
termination_by structural node

/-- So it is of siblings. -/
theorem Node.exists_effortAll (nodes : List Node) {env : Environment}
    (settles : Node.SettleAll nodes env) (now : Nat) :
    ∃ n, ∀ first, EffortAll (Node.renderings nodes env first) now n := by
  cases nodes with
  | nil => exact ⟨0, fun _ => trivial⟩
  | cons node rest =>
    obtain ⟨m, first⟩ := node.exists_effort settles.1 now
    obtain ⟨n, others⟩ := Node.exists_effortAll rest settles.2 now
    exact ⟨m + n, fun number => ⟨m, n, Nat.le_refl _, first number, others _⟩⟩
termination_by structural nodes

/-- So it is of what a callback built. -/
theorem Built.exists_effort (built : Built) {env : Environment} (settles : built.Settles env)
    (now : Nat) : ∃ n, (built.rendering env).Effort now n := by
  cases built with
  | node tree => exact tree.exists_effort settles now
  | panics => exact ⟨0, trivial⟩
termination_by structural built

/-- So it is of what a callback built that did not panic. -/
theorem Built.exists_effort? (built : Built) {env : Environment} (settles : built.Settles env)
    (now : Nat) : ∃ n, ∀ shown ∈ built.rendering? env, shown.Effort now n := by
  cases built with
  | node tree =>
    obtain ⟨n, effort⟩ := tree.exists_effort settles now
    refine ⟨n, fun shown isShown => ?_⟩
    obtain rfl := Option.some.inj isShown
    exact effort
  | panics => exact ⟨0, fun shown none => by cases none⟩
termination_by structural built

end

end ProgressiveHtml
