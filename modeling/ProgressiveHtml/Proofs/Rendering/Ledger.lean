import ProgressiveHtml.Proofs.Rendering.Course
import ProgressiveHtml.Proofs.Rendering.Ensures

namespace ProgressiveHtml

/-!
# Renderings — who handed in what

A history tells which slots were given out and to whom.  A ledger adds what the fragments show.  The
body and every late fragment keep the promises of what they show, counting the fragments that
the ledger has for them, and they do so whatever the others do in the meantime.

* `Ledger.Entry`, `Ledger.handedIn` — the entries, and those of one host;
* `Ledger.Keeps` — a host keeps its promise;
* `Ledger` — a ledger in which all hosts keep their promises;
* `Rendering.Course.ledger` — every rendering that makes a promise has such a ledger.
-/

/-! ### Hosts -/

/-- The slot and the host of a fragment that was handed in. -/
def Happening.host? : Happening → Option (Nat × Option Nat)
  | handedIn slot host _ => some (slot, host)
  | _ => none

namespace History

/-- The slots that were given out, with the hosts they were given to. -/
def hosts (h : List Happening) : List (Nat × Option Nat) := h.filterMap Happening.host?

variable (h new : List Happening)

@[simp] theorem hosts_nil : hosts [] = [] := rfl

@[simp] theorem hosts_append : hosts (h ++ new) = hosts h ++ hosts new := List.filterMap_append

@[simp] theorem hosts_completed (c : Completion) : hosts [.completed c] = [] := rfl

@[simp] theorem hosts_ofRegistry : hosts (ofRegistry h) = hosts h :=
  filterMap_ofRegistry h fun _ => rfl

@[simp] theorem hosts_handIns (host : Option Nat) (taken : Bool) (given : List Nat) :
    hosts (handIns host taken given) = given.map (·, host) := by
  induction given with
  | nil => rfl
  | cons slot _ ih => exact congrArg ((slot, host) :: ·) ih

@[simp] theorem hosts_reads (items : List Item) : hosts (reads items) = [] := by
  induction items with
  | nil => rfl
  | cons _ _ ih => exact ih

end History

/-! ### Entries -/

namespace Ledger

/-- A fragment that was handed in, with its host: the late fragment in whose content it stands, or
    `none` if it does not come from a late fragment. -/
structure Entry where
  host : Option Nat
  cut : Cut

/-- The fragments that a host has handed in. -/
def handedIn (entries : List Entry) (host : Option Nat) : Multiset Cut :=
  ((entries.filter (·.host = host)).map (·.cut) : List Cut)

variable (entries new : List Entry) (host : Option Nat)

@[simp] theorem handedIn_append :
    handedIn (entries ++ new) host = handedIn entries host + handedIn new host := by
  simp [handedIn]

theorem handedIn_of_host (cuts : List Cut) :
    handedIn (cuts.map (⟨host, ·⟩)) host = (cuts : Multiset Cut) := by
  simp [handedIn, List.filter_map, Function.comp_def]

variable {entries new host}

theorem handedIn_of_others (others : ∀ entry ∈ entries, entry.host ≠ host) :
    handedIn entries host = 0 := by
  have none : entries.filter (·.host = host) = [] := by simpa using others
  simp [handedIn, none]

theorem mem_handedIn {cut : Cut} :
    cut ∈ handedIn entries host ↔ ⟨host, cut⟩ ∈ entries := by
  simp only [handedIn, Multiset.mem_coe, List.mem_map, List.mem_filter, decide_eq_true_eq]
  constructor
  · rintro ⟨⟨_, _⟩, ⟨isEntry, rfl⟩, rfl⟩
    exact isEntry
  · exact fun isEntry => ⟨_, ⟨isEntry, rfl⟩, rfl⟩

/-- Where slots are numbered in a row an entry stands at its slot. -/
theorem getElem?_of_numbered {count : Nat} (numbered : entries.map (·.cut.slot) = List.range count)
    {entry : Entry} (member : entry ∈ entries) : entries[entry.cut.slot]? = some entry := by
  obtain ⟨i, found⟩ := List.mem_iff_getElem?.1 member
  have slot : (entries.map (·.cut.slot))[i]? = some entry.cut.slot := by simp [found]
  rw [numbered, List.getElem?_eq_some_iff] at slot
  obtain ⟨_, same⟩ := slot
  rw [List.getElem_range] at same
  exact same ▸ found

/-! ### Promises -/

/-- What a host has promised: what was promised for the body, or what a late fragment shows. -/
def promised (promise : Outcome → Prop) (entries : List Entry) : Option Nat → Outcome → Prop
  | none, o => promise o
  | some slot, o => ∃ entry, entries[slot]? = some entry ∧ entry.cut.content.Shows o

/-- A host keeps its promise, counting what it has handed in. -/
def Keeps (promise : Outcome → Prop) (entries : List Entry) (host : Option Nat)
    (work : Rendering) : Prop :=
  work.Ensures fun o => promised promise entries host (o.after (handedIn entries host))

variable {promise : Outcome → Prop} {work left : Rendering}

/-- What was promised stays promised. -/
theorem promised_append {o : Outcome} (shows : promised promise entries host o) :
    promised promise (entries ++ new) host o := by
  cases host with
  | none => exact shows
  | some slot =>
    obtain ⟨entry, found, shows⟩ := shows
    have inside := (List.getElem?_eq_some_iff.1 found).1
    exact ⟨entry, by rw [List.getElem?_append_left inside, found], shows⟩

/-- What others hand in does not concern a host. -/
theorem Keeps.append (keeps : Keeps promise entries host work)
    (others : ∀ entry ∈ new, entry.host ≠ host) : Keeps promise (entries ++ new) host work := by
  refine Rendering.Ensures.mono keeps fun o shows => ?_
  rw [handedIn_append, handedIn_of_others others, add_zero]
  exact promised_append shows

/-- A host that goes on keeps its promise, with entries for what it hands in. -/
theorem Keeps.steps {w w' : EventLoop} {handed : List Registration}
    (keeps : Keeps promise entries host work) (steps : work.Steps w handed left w') :
    ∃ cuts : List Cut, List.Forall₂ Rendering.Fits handed cuts ∧
      Keeps promise (entries ++ cuts.map (⟨host, ·⟩)) host left := by
  obtain ⟨cuts, fits, kept⟩ := Rendering.Ensures.steps keeps steps
  refine ⟨cuts, fits, kept.mono fun o shows => ?_⟩
  rw [handedIn_append, handedIn_of_host]
  exact promised_append (by simpa using shows)

/-- A fragment that has just been handed in keeps its promise. -/
theorem Keeps.ofFits {count : Nat} {given : Registration} {cut : Cut}
    (numbered : entries.map (·.cut.slot) = List.range count)
    (member : ⟨host, cut⟩ ∈ entries) (fits : Rendering.Fits given cut)
    (unused : ∀ entry ∈ entries, entry.host ≠ some given.slot) :
    Keeps promise entries (some given.slot) (given.content given.slot) := by
  obtain ⟨same, ensures⟩ := fits
  refine (ensures given.slot).mono fun o shows => ?_
  rw [handedIn_of_others unused, Outcome.after_zero, ← same]
  exact ⟨_, getElem?_of_numbered numbered member, shows⟩

/-! ### Ledgers and histories -/

/-- A ledger that has all slots given out, each with its host, which got its own slot earlier. -/
structure Agrees (entries : List Entry) (h : List Happening) (next : Nat) : Prop where
  written : History.hosts h = entries.map fun entry => (entry.cut.slot, entry.host)
  numbered : entries.map (·.cut.slot) = List.range next
  earlier : ∀ entry ∈ entries, ∀ slot, entry.host = some slot → slot < entry.cut.slot

theorem Agrees.slot_lt {h : List Happening} {next : Nat} (agrees : Agrees entries h next)
    {entry : Entry} (member : entry ∈ entries) : entry.cut.slot < next := by
  have slot : entry.cut.slot ∈ entries.map (·.cut.slot) := List.mem_map_of_mem member
  rw [agrees.numbered] at slot
  exact List.mem_range.1 slot

/-- Every slot that was given out has an entry. -/
theorem Agrees.exists_entry {h : List Happening} {next : Nat} (agrees : Agrees entries h next)
    {slot : Nat} (given : slot < next) : ∃ entry ∈ entries, entry.cut.slot = slot := by
  have known : slot ∈ entries.map (·.cut.slot) := agrees.numbered ▸ List.mem_range.2 given
  simpa using known

/-- A host that goes on gets entries for what it hands in. -/
theorem Agrees.steps {h : List Happening} {w w' : EventLoop} {handed : List Registration}
    {cuts : List Cut} (agrees : Agrees entries h w.registry.next)
    (known : ∀ slot, host = some slot → slot < w.registry.next)
    (steps : work.Steps w handed left w') (fits : List.Forall₂ Rendering.Fits handed cuts)
    (taken : Bool) :
    Agrees (entries ++ cuts.map (⟨host, ·⟩))
      (h ++ History.handIns host taken (handed.map (·.slot))) w'.registry.next := by
  obtain ⟨next, numbers⟩ := steps.numbered
  -- The entries that are added are numbered as the fragments are.
  have slots : cuts.map (·.slot) = handed.map (·.slot) := by
    clear steps next numbers
    induction fits with
    | nil => rfl
    | cons here _ ih => rw [List.map_cons, List.map_cons, ih, here.1]
  constructor
  case written => simp [agrees.written, ← slots, Function.comp_def]
  case numbered =>
    have new : (cuts.map (Entry.mk host)).map (·.cut.slot) = cuts.map (·.slot) := by simp
    rw [List.map_append, agrees.numbered, new, slots, numbers, next, List.range_eq_range',
      List.range_eq_range']
    simpa using List.range'_append_1 (s := 0) (m := w.registry.next) (n := handed.length)
  case earlier =>
    intro entry member slot isHost
    obtain before | new := List.mem_append.1 member
    · exact agrees.earlier entry before slot isHost
    · obtain ⟨cut, isCut, rfl⟩ := List.mem_map.1 new
      have given : cut.slot ∈ cuts.map (·.slot) := List.mem_map_of_mem isCut
      rw [slots, numbers, List.mem_range'_1] at given
      exact (known slot isHost).trans_le given.1

end Ledger

/-- A ledger that agrees with the history, and in which the body and all late fragments keep their
    promises. -/
structure Ledger (promise : Outcome → Prop) (entries : List Ledger.Entry) (h : List Happening)
    (r : Rendering) (w : EventLoop) : Prop where
  agrees : Ledger.Agrees entries h w.registry.next
  body : Ledger.Keeps promise entries none r
  tasks : ∀ task ∈ w.registry.tasks, Ledger.Keeps promise entries (some task.slot) task.work
  complete : ∀ c ∈ History.completions h, Ledger.Keeps promise entries (some c.slot) c.work

namespace Ledger

variable {promise : Outcome → Prop} {entries : List Entry} {h : List Happening}
  {r r' : Rendering} {w w' : EventLoop}

/-- The fragments on their way when a host has gone on, the host itself apart. -/
theorem tasks_of_steps {host : Option Nat} {work left : Rendering} {handed : List Registration}
    {cuts : List Cut} (ledger : Ledger promise entries h r w)
    (known : ∀ slot, host = some slot → slot < w.registry.next)
    (steps : work.Steps w handed left w') (fits : List.Forall₂ Rendering.Fits handed cuts)
    {task : FragmentTask} (here : task ∈ w'.registry.tasks) (other : host ≠ some task.slot) :
    Keeps promise (entries ++ cuts.map (⟨host, ·⟩)) (some task.slot) task.work := by
  obtain before | ⟨given, isGiven, rfl⟩ := steps.mem_tasks here
  · refine (ledger.tasks task before).append fun entry member => ?_
    obtain ⟨cut, -, rfl⟩ := List.mem_map.1 member
    exact other
  · have agrees := ledger.agrees.steps known steps fits true
    obtain ⟨cut, isCut, fitsGiven⟩ := forall₂_mem_left fits isGiven
    have new : ⟨host, cut⟩ ∈ entries ++ cuts.map (Entry.mk host) :=
      List.mem_append_right _ (List.mem_map_of_mem isCut)
    refine .ofFits agrees.numbered new fitsGiven fun entry member same => ?_
    -- The slot is younger than all entries, so none of them can have it for a host.
    have young : w.registry.next ≤ given.slot := by
      have number : given.slot ∈ handed.map (·.slot) := List.mem_map_of_mem isGiven
      rw [steps.numbered.2, List.mem_range'_1] at number
      exact number.1
    obtain before | new := List.mem_append.1 member
    · have earlier := ledger.agrees.earlier entry before _ same
      have known := ledger.agrees.slot_lt before
      omega
    · obtain ⟨cut, -, rfl⟩ := List.mem_map.1 new
      exact absurd (known _ same) (Nat.not_lt.2 young)

/-- The body goes on. -/
theorem step {handed : List Registration} (ledger : Ledger promise entries h r w)
    (step : r.Step w handed r' w') (taken : Bool) :
    ∃ new, Ledger promise (entries ++ new) (h ++ History.handIns none taken (handed.map (·.slot)))
      r' w' := by
  obtain ⟨cuts, fits, kept⟩ := ledger.body.steps (.single step)
  have known : ∀ slot, none = some slot → slot < w.registry.next := by simp
  refine ⟨cuts.map (⟨none, ·⟩), ledger.agrees.steps known (.single step) fits taken, kept, ?_, ?_⟩
  · exact fun task here => ledger.tasks_of_steps known (.single step) fits here (by simp)
  · intro c complete
    rw [History.completions_append, History.completions_handIns, List.append_nil] at complete
    exact (ledger.complete c complete).append (by simp)

/-- A late fragment goes on. -/
theorem goOn {slot : Nat} {work left : Rendering} {handed : List Registration}
    (ledger : Ledger promise entries h r w) (books : w.registry.Accounts h)
    (found : w.registry.task? slot = some work) (steps : work.Steps w handed left w')
    (taken : Bool) :
    ∃ new, Ledger promise (entries ++ new)
      (h ++ History.handIns (some slot) taken (handed.map (·.slot))) r
      { w' with registry := w'.registry.keep slot left } := by
  have here := Registry.mem_of_task? found
  obtain ⟨given, incomplete⟩ := books.onItsWay here
  have known : ∀ other, some slot = some other → other < w.registry.next := by
    rintro _ ⟨⟩
    exact given
  obtain ⟨cuts, fits, kept⟩ := (ledger.tasks _ here).steps steps
  refine ⟨cuts.map (⟨some slot, ·⟩), ledger.agrees.steps known steps fits taken, ?_, ?_, ?_⟩
  · exact ledger.body.append (by simp)
  · intro task member
    obtain ⟨before, isTask, rfl⟩ := List.mem_map.1 member
    -- The task that goes on keeps its promise with the new entries; the others have no part in them.
    by_cases mine : before.slot = slot
    · simpa [mine] using kept
    · simpa [mine] using
        ledger.tasks_of_steps known steps fits isTask (by simpa using Ne.symm mine)
  · intro c complete
    rw [History.completions_append, History.completions_handIns, List.append_nil] at complete
    refine (ledger.complete c complete).append fun entry member => ?_
    obtain ⟨cut, -, rfl⟩ := List.mem_map.1 member
    simpa using (incomplete c complete).symm

/-- A late fragment has come to its end. -/
theorem finish {slot : Nat} {work : Rendering} {item : Item}
    (ledger : Ledger promise entries h r w) (found : w.registry.task? slot = some work) :
    Ledger promise entries (h ++ [.completed ⟨slot, work, item⟩]) r
      { w with registry := w.registry.deliver slot item } where
  agrees := { ledger.agrees with written := by simpa using ledger.agrees.written }
  body := ledger.body
  tasks task here := ledger.tasks task (List.mem_filter.1 here).1
  complete c complete := by
    rw [History.completions_append, History.completions_completed] at complete
    obtain before | last := List.mem_append.1 complete
    · exact ledger.complete c before
    · obtain rfl := List.mem_singleton.1 last
      exact ledger.tasks _ (Registry.mem_of_task? found)

/-- Something happens that neither gives out slots nor lets a fragment go on. -/
theorem keep {new : List Happening} (ledger : Ledger promise entries h r w)
    (idle : History.hosts new = []) (incomplete : History.completions new = [])
    (next : w'.registry.next = w.registry.next) (tasks : w'.registry.tasks ⊆ w.registry.tasks) :
    Ledger promise entries (h ++ new) r w' where
  agrees :=
    { ledger.agrees with
      written := by simpa [idle] using ledger.agrees.written
      numbered := next ▸ ledger.agrees.numbered }
  body := ledger.body
  tasks task here := ledger.tasks task (tasks here)
  complete c complete := ledger.complete c (by simpa [incomplete] using complete)

/-- Whatever happens in the background, there is a ledger for it. -/
theorem background {new : List Happening} (ledger : Ledger promise entries h r w)
    (books : w.registry.Accounts h) (move : w.Background new w') :
    ∃ more, Ledger promise (entries ++ more) (h ++ new) r w' := by
  cases move with
  | pass =>
    refine ⟨[], entries.append_nil.symm ▸ ?_⟩
    exact ledger.keep History.hosts_nil History.completions_nil rfl (List.Subset.refl _)
  | goOn found steps => exact ledger.goOn books found steps _
  | finish found => exact ⟨[], by simpa using ledger.finish found⟩

/-- The body that has come to its end has kept its promise. -/
theorem shows_body {text : String} (ledger : Ledger promise entries h (.done text) w) :
    promise ⟨text, handedIn entries none⟩ := by
  simpa [Keeps, promised, Rendering.Ensures, Outcome.after] using ledger.body

/-- A late fragment that has come to its end has kept its promise. -/
theorem shows_complete (ledger : Ledger promise entries h r w) {c : Completion}
    (complete : c ∈ History.completions h) {text : String} (isDone : c.work = .done text)
    {entry : Entry} (member : entry ∈ entries) (same : c.slot = entry.cut.slot) :
    entry.cut.content.Shows ⟨text, handedIn entries (some entry.cut.slot)⟩ := by
  have kept := ledger.complete c complete
  rw [isDone, same] at kept
  obtain ⟨other, found, shows⟩ := kept
  rw [getElem?_of_numbered ledger.agrees.numbered member] at found
  obtain rfl := Option.some.inj found
  simpa [Outcome.after] using shows

end Ledger

/-- A rendering that makes a promise, beside a registry, has a ledger at any time. -/
theorem Rendering.Course.ledger {first r : Rendering} {h : List Happening} {w : EventLoop}
    (course : Course first h r w) {promise : Outcome → Prop} (ensures : first.Ensures promise) :
    ∃ entries, Ledger promise entries h r w := by
  induction course with
  | start fresh =>
    refine ⟨[], ⟨rfl, by simp [fresh], by simp⟩, ?_, by simp [fresh], by simp⟩
    simpa [Ledger.Keeps, Ledger.handedIn, Ledger.promised] using ensures
  | step _ step ih =>
    obtain ⟨entries, ledger⟩ := ih
    obtain ⟨new, ledger⟩ := ledger.step step _
    exact ⟨_, ledger⟩
  | background course move ih =>
    obtain ⟨entries, ledger⟩ := ih
    obtain ⟨new, ledger⟩ := ledger.background course.reached.accounts move
    exact ⟨_, ledger⟩
  | @ask h r w w' answer _ asked ih =>
    obtain ⟨entries, ledger⟩ := ih
    obtain ⟨next, tasks⟩ := (EventLoop.registry_of_drain asked).2
    exact ⟨entries, ledger.keep (by simp) (by simp) next (tasks ▸ List.Subset.refl _)⟩
  | @close h r w _ ih =>
    obtain ⟨entries, ledger⟩ := ih
    refine ⟨entries, h.append_nil ▸ ?_⟩
    -- Giving up the registry removes tasks, and the promises of what is left stay.
    exact ledger.keep History.hosts_nil History.completions_nil rfl (List.nil_subset _)
  | @elsewhere h _ _ _ _ same ih =>
    obtain ⟨entries, ledger⟩ := ih
    refine ⟨entries, h.append_nil ▸ ?_⟩
    exact ledger.keep History.hosts_nil History.completions_nil (congrArg _ same)
      (same ▸ List.Subset.refl _)

end ProgressiveHtml
