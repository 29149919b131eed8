import Mathlib.Data.List.Perm.Subperm
import ProgressiveHtml.Proofs.Registry.Accounting

namespace ProgressiveHtml

/-!
# Registry — when reading comes to its end

The reader of a registry is told that nothing more comes exactly when everything taken in has been
handed out.  A fragment that hands in another one is itself on its way, so nothing can be taken in
after that except from outside.

* `History.HandedOut` — the slots whose items the reader has got;
* `EventLoop.Leads`, `EventLoop.Onward` — what can become of a registry from some state on;
* `EventLoop.Reached.drain_ends` — when the reader is told to stop, and when to wait.
-/

/-- Whether the reader has got the item of a slot: the item stands where its fragment stands in the
    order of completion. -/
def History.HandedOut (h : List Happening) (slot : Nat) : Prop :=
  ∃ (k : Nat) (c : Completion), (completions h)[k]? = some c ∧ c.slot = slot ∧
    (yields h)[k]? = some c.item

namespace Registry

/-- The reader is told to wait when nothing is ready but something is outstanding. -/
theorem drain_waiting_iff (r : Registry) :
    r.drain.1 = .waiting ↔ r.ready = [] ∧ r.pending ≠ 0 := by
  unfold drain
  split
  · rename_i ready
    simp [ready]
  · rename_i ready
    by_cases none : r.pending = 0 <;> simp [ready, none]

end Registry

namespace EventLoop

/-! ### From some state on -/

/-- One thing that happens to a registry, and what can be seen of it. -/
inductive Leads : EventLoop → List Happening → EventLoop → Prop
  /-- A fragment is handed in from outside. -/
  | handIn (w : EventLoop) (content : Nat → Rendering) :
      Leads w [.handedIn (w.register content).1 none (!w.registry.closed)] (w.register content).2
  /-- A late fragment goes on or ends, or time passes. -/
  | background {w w' : EventLoop} {new : List Happening} (move : w.Background new w') :
      Leads w new w'
  /-- The reader asks for an item. -/
  | ask {w w' : EventLoop} {answer : Answer} (asked : w.drain = (answer, w')) :
      Leads w (History.reads answer.items) w'
  /-- The reader gives the registry up. -/
  | close (w : EventLoop) : Leads w [] w.close
  /-- Something happens that does not concern the registry. -/
  | elsewhere {w w' : EventLoop} (same : w'.registry = w.registry) : Leads w [] w'

/-- Any number of things that happen to a registry, in any order. -/
inductive Onward : EventLoop → List Happening → EventLoop → Prop
  | refl (w : EventLoop) : Onward w [] w
  | head {w w' w'' : EventLoop} {new later : List Happening} (first : w.Leads new w')
      (rest : Onward w' later w'') : Onward w (new ++ later) w''

/-- What happens from a reached state on is again reached. -/
theorem Reached.onward {h new : List Happening} {w w' : EventLoop} (reached : Reached h w)
    (onward : w.Onward new w') : Reached (h ++ new) w' := by
  induction onward generalizing h with
  | refl => simpa using reached
  | head first _ ih =>
    rw [← List.append_assoc]
    apply ih
    cases first with
    | handIn content => exact reached.handIn content
    | background move => exact reached.background move
    | ask asked => exact reached.ask asked
    | close => simpa using reached.close
    | elsewhere same => simpa using reached.elsewhere same

/-- With nothing on its way, what happens hands in nothing, unless it comes from outside. -/
theorem Leads.idle {w w' : EventLoop} {new : List Happening} (step : w.Leads new w')
    (idle : w.registry.tasks = [])
    (inside : ∀ slot taken, Happening.handedIn slot none taken ∉ new) :
    w'.registry.tasks = [] ∧ History.slots new = [] := by
  cases step with
  | handIn => exact absurd List.mem_cons_self (inside _ _)
  | background move =>
    obtain ⟨rfl, still⟩ := move.idle idle
    exact ⟨still, rfl⟩
  | ask asked => exact ⟨(registry_of_drain asked).2.2.trans idle, History.slots_reads _⟩
  | close => exact ⟨rfl, rfl⟩
  | elsewhere same => exact ⟨same ▸ idle, rfl⟩

theorem Onward.idle {w w' : EventLoop} {new : List Happening} (onward : w.Onward new w')
    (idle : w.registry.tasks = [])
    (inside : ∀ slot taken, Happening.handedIn slot none taken ∉ new) :
    History.slots new = [] := by
  induction onward with
  | refl => rfl
  | head first _ ih =>
    have inFirst := fun slot taken member => inside slot taken (List.mem_append_left _ member)
    have inRest := fun slot taken member => inside slot taken (List.mem_append_right _ member)
    obtain ⟨still, none⟩ := first.idle idle inFirst
    rw [History.slots_append, none, ih still inRest, List.append_nil]

namespace Reached

variable {h : List Happening} {w : EventLoop}

/-- The slots handed out are those of the first fragments to complete. -/
theorem handedOut_iff (reached : Reached h w) {slot : Nat} :
    History.HandedOut h slot ↔
      slot ∈ ((History.completions h).take (History.yields h).length).map (·.slot) := by
  obtain ⟨rest, order⟩ := reached.accounts.handedOut
  constructor
  · rintro ⟨k, c, complete, rfl, yielded⟩
    have inside := (List.getElem?_eq_some_iff.1 yielded).1
    refine List.mem_map_of_mem (List.mem_of_getElem? (i := k) ?_)
    rwa [List.getElem?_take_of_lt inside]
  · intro member
    obtain ⟨c, first, rfl⟩ := List.mem_map.1 member
    obtain ⟨k, found⟩ := List.mem_iff_getElem?.1 first
    have inside : k < (History.yields h).length := by
      have bound := (List.getElem?_eq_some_iff.1 found).1
      rw [List.length_take] at bound
      omega
    rw [List.getElem?_take_of_lt inside] at found
    refine ⟨k, c, found, rfl, ?_⟩
    have item : ((History.completions h).map (·.item))[k]? = some c.item := by simp [found]
    rwa [← order, List.getElem?_append_left inside] at item

/-- Everything taken in has been handed out exactly when nothing is outstanding. -/
theorem pending_eq_zero_iff (reached : Reached h w) (stillOpen : w.registry.closed = false) :
    w.registry.pending = 0 ↔ ∀ slot ∈ History.accepted h, History.HandedOut h slot := by
  have accounts := reached.accounts
  have balance := accounts.balance
  simp only [reached.handedOut_iff]
  constructor
  · intro none slot taken
    have pending := reached.pending_eq stillOpen
    have order := congrArg List.length (accounts.order stillOpen)
    have idle : w.registry.tasks = [] := List.eq_nil_of_length_eq_zero (by omega)
    have placed := accounts.placed stillOpen
    rw [idle, List.map_nil, List.append_nil] at placed
    have all : (History.completions h).take (History.yields h).length = History.completions h := by
      apply List.take_of_length_le
      rw [List.length_map, List.length_append] at order
      omega
    rw [all]
    exact placed.subset taken
  · intro handedOut
    have few := (List.subperm_of_subset accounts.accepted_nodup handedOut).length_le
    rw [List.length_map, List.length_take] at few
    omega

/-- Something taken in is not complete exactly when something is on its way. -/
theorem tasks_ne_nil_iff (reached : Reached h w) (stillOpen : w.registry.closed = false) :
    w.registry.tasks ≠ [] ↔
      ∃ slot ∈ History.accepted h, slot ∉ (History.completions h).map (·.slot) := by
  have accounts := reached.accounts
  have placed := accounts.placed stillOpen
  constructor
  · intro busy
    obtain ⟨task, here⟩ := List.exists_mem_of_ne_nil _ busy
    refine ⟨task.slot, ?_, fun complete => ?_⟩
    · exact placed.symm.subset (List.mem_append_right _ (List.mem_map_of_mem here))
    · obtain ⟨c, isComplete, same⟩ := List.mem_map.1 complete
      exact (accounts.onItsWay here).2 c isComplete same
  · rintro ⟨slot, taken, incomplete⟩ idle
    have complete := placed.subset taken
    rw [idle, List.map_nil, List.append_nil] at complete
    exact incomplete complete

/-- As long as the registry is open every fragment handed in is taken in. -/
theorem accepted_eq (reached : Reached h w) (stillOpen : w.registry.closed = false) :
    History.accepted h = History.slots h := by
  induction reached with
  | start => rfl
  | handIn _ content ih =>
    rw [register_registry, Registry.register_closed] at stillOpen
    rw [History.accepted_append, History.slots_append, ih stillOpen, stillOpen]
    rfl
  | background _ move ih =>
    rw [move.closed] at stillOpen
    rw [History.accepted_append, History.slots_append, ih stillOpen, move.taken stillOpen]
  | ask _ asked ih =>
    rw [(registry_of_drain asked).1] at stillOpen
    simpa using ih stillOpen
  | close => simp [EventLoop.close, Registry.close] at stillOpen
  | elsewhere _ same ih => exact ih (same ▸ stillOpen)

/-- The reader of a registry is told to stop exactly when everything taken in so far has been handed
    out, and to wait exactly when nothing is ready and a fragment taken in is not complete.  Once
    it is told to stop, all that is ever handed in has been handed out, unless something is
    handed in from outside after that. -/
theorem drain_ends (reached : Reached h w) (stillOpen : w.registry.closed = false) :
    (w.drain.1 = .finished ↔ ∀ slot ∈ History.accepted h, History.HandedOut h slot) ∧
    (w.drain.1 = .waiting ↔ w.registry.ready = [] ∧
      ∃ slot ∈ History.accepted h, slot ∉ (History.completions h).map (·.slot)) ∧
    (w.drain.1 = .finished → ∀ new w', w.drain.2.Onward new w' →
      (∀ slot taken, Happening.handedIn slot none taken ∉ new) →
      ∀ slot ∈ History.slots (h ++ new), History.HandedOut h slot) := by
  have pending := reached.pending_eq stillOpen
  have finished : w.drain.1 = .finished ↔ w.registry.pending = 0 := by
    rw [w.drain_registry.1, Registry.drain_finished_iff, and_iff_right_iff_imp]
    intro none
    exact List.eq_nil_of_length_eq_zero (by omega)
  refine ⟨finished.trans (reached.pending_eq_zero_iff stillOpen), ?_, ?_⟩
  · rw [w.drain_registry.1, Registry.drain_waiting_iff, ← reached.tasks_ne_nil_iff stillOpen]
    refine and_congr_right fun noneReady => not_congr ?_
    rw [pending, noneReady, List.length_nil, Nat.zero_add, List.length_eq_zero_iff]
  · intro ends new w' onward inside slot given
    -- Without tasks nothing goes on in the background that could hand in anything.
    have none := finished.1 ends
    have idle : w.drain.2.registry.tasks = [] := by
      have asked : w.drain = (w.drain.1, w.drain.2) := rfl
      exact (registry_of_drain asked).2.2.trans (List.eq_nil_of_length_eq_zero (by omega))
    rw [History.slots_append, onward.idle idle inside, List.append_nil,
      ← reached.accepted_eq stillOpen] at given
    exact (reached.pending_eq_zero_iff stillOpen).1 none slot given

/-- A fragment hands in another one while the reader waits; both are handed out, and then the reader
    is told to stop. -/
theorem drain_ends_nested : ∃ (h : List Happening) (w : EventLoop),
    Reached h w ∧ w.registry.closed = false ∧ w.drain.1 = .finished ∧ History.slots h = [0, 1] ∧
      ∀ slot ∈ History.slots h, History.HandedOut h slot := by
  let content (_ : Nat) : Rendering := .register (fun _ => .done "inner") fun _ => .done "outer"
  let handedIn := (({} : EventLoop).register content).2
  obtain ⟨new, turns⟩ := handedIn.runQueue_meanwhile 2
  have asked (w : EventLoop) : w.drain = (w.drain.1, w.drain.2) := rfl
  have complete := ((Reached.start (w := {}) rfl).handIn content).meanwhile turns
  have handedOut := (complete.ask (asked _)).ask (asked _)
  have slots := handedOut.accounts.slots
  refine ⟨_, _, handedOut, rfl, rfl, slots, fun slot given => ?_⟩
  have stops := (handedOut.drain_ends rfl).2.2 rfl [] _ (.refl _) (by simp)
  exact stops slot (by simpa using given)

end Reached

end EventLoop

end ProgressiveHtml
