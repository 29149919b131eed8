import ProgressiveHtml.Proofs.Rendering.Alike
import ProgressiveHtml.Proofs.Rendering.Step

namespace ProgressiveHtml

/-!
# Renderings — going on at the same pace

Two renderings go on abreast when both wait for the same sleeps, whatever they show.  Unlike renderings
that are alike, they may hand in fragments and ask how many are outstanding: neither the number of a slot
nor that of the outstanding fragments has any influence on when a rendering goes on.

* `Manner`, `Rendering.manner` — how a rendering stands, but for what it shows;
* `Rendering.Abreast` — renderings that go on at the same pace;
* `Pairing.Spreads` — what such a rendering does to a state: what it hands in keeps pace too;
* `Rendering.Abreast.poll` — asking both at the same instant;
* `Rendering.Abreast.poll_again` — asking one of them in vain.
-/

/-! ### Manners -/

/-- How a rendering or a group stands, but for markup and messages. -/
inductive Manner where
  | waiting
  | done
  | failed
  | panicked
  deriving DecidableEq

/-- How a group stands, but for what it shows. -/
def Verdict.manner : Verdict → Manner
  | complete _ => .done
  | failed _ => .failed
  | panicked _ => .panicked
  | waiting => .waiting

/-- Groups stand in the same way, but for markup and messages: what fails does so with the same error. -/
inductive Verdict.Alike : Verdict → Verdict → Prop
  | complete (markup markup' : List String) : Alike (.complete markup) (.complete markup')
  | failed (error : RenderError) : Alike (.failed error) (.failed error)
  | panicked (message message' : String) : Alike (.panicked message) (.panicked message')
  | waiting : Alike .waiting .waiting

theorem Verdict.Alike.manner_eq {stands stands' : Verdict} (alike : stands.Alike stands') :
    stands.manner = stands'.manner := by
  cases alike <;> rfl

namespace Rendering

/-- How a rendering stands, but for what it shows. -/
def manner : Rendering → Manner
  | done _ => .done
  | failed _ => .failed
  | panicked _ => .panicked
  | _ => .waiting

variable {r : Rendering}

/-- A rendering in the manner of one that is there is there. -/
theorem exists_markup (isDone : r.manner = .done) : ∃ markup, r = .done markup := by
  cases r with
  | done markup => exact ⟨markup, rfl⟩
  | _ => cases isDone

end Rendering

/-! ### Races -/

/-- A race and the same one begun earlier by `shift`. -/
structure Race.Alike (shift : Nat) (r r' : Race) : Prop where
  pace : r.pace.Alike shift r'.pace
  timer : r.timer.Alike shift r'.timer

/-- How races stand that are alike. -/
inductive Race.Standing.Alike (shift : Nat) : Standing → Standing → Prop
  | settled : Alike shift .settled .settled
  | timedOut {pace pace' : Pace} (paces : pace.Alike shift pace') :
      Alike shift (.timedOut pace) (.timedOut pace')
  | running {r r' : Race} (races : r.Alike shift r') : Alike shift (.running r) (.running r')

section

variable {shift : Nat} {t t' : Timeline}

/-- Races that are alike are decided at corresponding instants. -/
theorem Race.Alike.poll {r r' : Race} (alike : r.Alike shift r') (present : t.now = t'.now + shift) :
    Standing.Alike shift (r.poll t).1 (r'.poll t').1 := by
  have polled := alike.pace.poll present
  have later : (r.pace.poll t).2.now = (r'.pace.poll t').2.now + shift := by
    rw [r.pace.poll_now, r'.pace.poll_now, present]
  have timers := alike.timer.poll later
  rw [Race.poll_def, Race.poll_def]
  generalize (r.pace.poll t).1 = pace, (r'.pace.poll t').1 = pace' at polled
  cases polled with
  | none => exact .settled
  | some paces =>
    dsimp only
    generalize (r.timer.poll _).1 = timer, (r'.timer.poll _).1 = timer' at timers
    cases timers with
    | none => exact .timedOut paces
    | some timers => exact .running ⟨paces, timers⟩

/-- Sleeps that are alike end at corresponding instants. -/
theorem Sleep.Alike.alarm {s s' : Sleep} (alike : s.Alike shift s') :
    Option.Rel (fun alarm alarm' : Alarm => alarm.deadline = alarm'.deadline + shift) s.alarm?
      s'.alarm? := by
  cases s <;> cases s' <;> simp only [Sleep.Alike] at alike
  · exact .none
  · exact .some alike

/-- Races that are alike wait for sleeps that end at corresponding instants. -/
theorem Race.Alike.alarms {r r' : Race} (alike : r.Alike shift r') :
    List.Forall₂ (fun alarm alarm' => alarm.deadline = alarm'.deadline + shift) r.alarms
      r'.alarms := by
  have single {a a' : Option Alarm}
      (related : Option.Rel (fun alarm alarm' => alarm.deadline = alarm'.deadline + shift) a a') :
      List.Forall₂ (fun alarm alarm' => alarm.deadline = alarm'.deadline + shift) a.toList
        a'.toList := by
    cases related with
    | none => exact .nil
    | some same => exact .cons same .nil
  exact List.rel_append (single alike.pace.alarm) (single alike.timer.alarm)

end

/-- A pace at rest that is asked stays where it is. -/
theorem Pace.poll_of_rests {p : Pace} {t : Timeline} (rests : p.Rests t.now) :
    p.poll t = (some { p with begun := true }, p.begin t) := by
  unfold Rests at rests
  split at rests <;> rename_i sleeps
  · simp [Pace.poll, sleeps, Sleep.pollAll, rests]
  · rename_i s rest
    cases s with
    | idle => exact rests.elim
    | running alarm =>
      have waits : ¬alarm.deadline ≤ t.now := Nat.not_le_of_lt rests
      have asked : (Sleep.running alarm).poll (p.begin t) = (some (.running alarm), p.begin t) := by
        rw [Sleep.poll, begin_now, if_neg waits]
      simp [Pace.poll, sleeps, Sleep.pollAll, asked]

/-- A race at rest that is asked stays where it is. -/
theorem Race.poll_of_rests {r : Race} {t : Timeline} (rests : r.Rests t.now) :
    r.poll t = (.running { r with pace := { r.pace with begun := true } }, r.pace.begin t) := by
  obtain ⟨pace, timer⟩ := r
  obtain ⟨value, timed⟩ := rests
  cases timer with
  | idle => exact timed.elim
  | running alarm =>
    have waits : ¬alarm.deadline ≤ t.now := Nat.not_le_of_lt timed
    rw [Race.poll, Pace.poll_of_rests value]
    dsimp only
    rw [Sleep.poll, Pace.begin_now, if_neg waits]

namespace Rendering

/-! ### Renderings that keep pace -/

/-- No contents correspond. -/
abbrev nothingPaired : Pairing := fun _ _ => False

mutual

/-- Two renderings go on at the same pace and use up the contents that correspond in `ρ`.  They may show
    different things, for neither slots nor markup nor the number of the outstanding fragments decides
    what a rendering waits for, nor with which error it fails.  The content of a fragment that is handed in
    keeps pace whatever numbers its contents get. -/
inductive Abreast : Pairing → Rendering → Rendering → Prop
  | done (ρ : Pairing) (markup markup' : String) : Abreast ρ (.done markup) (.done markup')
  | failed (ρ : Pairing) (error : RenderError) : Abreast ρ (.failed error) (.failed error)
  | panicked (ρ : Pairing) (message message' : String) :
      Abreast ρ (.panicked message) (.panicked message')
  | note {ρ : Pairing} {next next' : Rendering} (event event' : Event)
      (onward : Abreast ρ next next') : Abreast ρ (.note event next) (.note event' next')
  | claim {ρ : Pairing} {cell cell' : Nat} {next next' : Rendering} (paired : ρ cell cell')
      (onward : Abreast ρ next next') : Abreast ρ (.claim cell next) (.claim cell' next')
  /-- Whatever numbers the contents get, those in the same place correspond. -/
  | number {ρ : Pairing} (size : Nat) {next next' : Nat → Rendering}
      (onward : ∀ ⦃ρ' : Pairing⦄ ⦃first first' : Nat⦄, ρ.Within ρ' →
        (∀ k < size, ρ' (first + k) (first' + k)) → Abreast ρ' (next first) (next' first')) :
      Abreast ρ (.number size next) (.number size next')
  | outstanding {ρ : Pairing} {next next' : Nat → Rendering}
      (onward : ∀ pending pending', Abreast ρ (next pending) (next' pending')) :
      Abreast ρ (.outstanding next) (.outstanding next')
  | register {ρ : Pairing} {content content' next next' : Nat → Rendering}
      (handedIn : ∀ slot, Abreast nothingPaired (content slot) (content slot))
      (onward : ∀ slot slot', Abreast ρ (next slot) (next' slot')) :
      Abreast ρ (.register content next) (.register content' next')
  | wait {ρ : Pairing} {pace pace' : Pace} {next next' : Rendering} (paces : pace.Alike 0 pace')
      (onward : Abreast ρ next next') : Abreast ρ (.wait pace next) (.wait pace' next')
  | race {ρ : Pairing} {r r' : Race} {inTime inTime' : Rendering} {late late' : Pace → Rendering}
      (races : r.Alike 0 r') (settled : Abreast ρ inTime inTime')
      (timedOut : ∀ ⦃pace pace' : Pace⦄, pace.Alike 0 pace' → Abreast ρ (late pace) (late' pace')) :
      Abreast ρ (.race r inTime late) (.race r' inTime' late')
  | join {ρ : Pairing} {parts parts' : List Rendering} {next next' : List String → Rendering}
      (abreast : AbreastAll ρ parts parts')
      (onward : ∀ texts texts', Abreast ρ (next texts) (next' texts')) :
      Abreast ρ (.join parts next) (.join parts' next')
  | attempt {ρ : Pairing} {body body' : Rendering}
      {next next' : Except RenderError String → Rendering} (abreast : Abreast ρ body body')
      (succeeded : ∀ markup markup', Abreast ρ (next (.ok markup)) (next' (.ok markup')))
      (failed : ∀ error, Abreast ρ (next (.error error)) (next' (.error error))) :
      Abreast ρ (.attempt body next) (.attempt body' next')

/-- Siblings go on abreast one by one. -/
inductive AbreastAll : Pairing → List Rendering → List Rendering → Prop
  | nil (ρ : Pairing) : AbreastAll ρ [] []
  | cons {ρ : Pairing} {part part' : Rendering} {rest rest' : List Rendering}
      (first : Abreast ρ part part') (others : AbreastAll ρ rest rest') :
      AbreastAll ρ (part :: rest) (part' :: rest')

end

mutual

/-- What goes on abreast does so when more contents correspond. -/
theorem Abreast.mono : ∀ {ρ ρ' : Pairing} {r r' : Rendering}, Abreast ρ r r' → ρ.Within ρ' →
    Abreast ρ' r r'
  | _, _, _, _, .done _ markup markup', _ => .done _ markup markup'
  | _, _, _, _, .failed _ error, _ => .failed _ error
  | _, _, _, _, .panicked _ message message', _ => .panicked _ message message'
  | _, _, _, _, .note event event' onward, within => .note event event' (onward.mono within)
  | _, _, _, _, .claim paired onward, within => .claim (within paired) (onward.mono within)
  | _, _, _, _, .number size onward, within =>
    .number size fun _ _ _ more numbered => onward (fun _ _ paired => more (within paired)) numbered
  | _, _, _, _, .outstanding onward, within =>
    .outstanding fun pending pending' => (onward pending pending').mono within
  | _, _, _, _, .register handedIn onward, within =>
    .register handedIn fun slot slot' => (onward slot slot').mono within
  | _, _, _, _, .wait paces onward, within => .wait paces (onward.mono within)
  | _, _, _, _, .race races settled timedOut, within =>
    .race races (settled.mono within) fun _ _ paces => (timedOut paces).mono within
  | _, _, _, _, .join abreast onward, within =>
    .join (abreast.mono within) fun texts texts' => (onward texts texts').mono within
  | _, _, _, _, .attempt abreast succeeding failing, within =>
    .attempt (abreast.mono within) (fun markup markup' => (succeeding markup markup').mono within)
      fun error => (failing error).mono within

theorem AbreastAll.mono : ∀ {ρ ρ' : Pairing} {parts parts' : List Rendering},
    AbreastAll ρ parts parts' → ρ.Within ρ' → AbreastAll ρ' parts parts'
  | _, _, _, _, .nil _, _ => .nil _
  | _, _, _, _, .cons first others, within => .cons (first.mono within) (others.mono within)

end

/-- Renderings that go on abreast stand in the same manner. -/
theorem Abreast.manner_eq {ρ : Pairing} {r r' : Rendering} (abreast : Abreast ρ r r') :
    r.manner = r'.manner := by
  cases abreast <;> rfl

theorem Abreast.isOver_eq {ρ : Pairing} {r r' : Rendering} (abreast : Abreast ρ r r') :
    r.isOver = r'.isOver := by
  cases abreast <;> rfl

theorem Abreast.isDone_eq {ρ : Pairing} {r r' : Rendering} (abreast : Abreast ρ r r') :
    r.isDone = r'.isDone := by
  cases abreast <;> rfl

theorem Abreast.endsGroup_eq {ρ : Pairing} {r r' : Rendering} (abreast : Abreast ρ r r')
    (prompt settled : Bool) : r.endsGroup prompt settled = r'.endsGroup prompt settled := by
  cases abreast <;> rfl

theorem AbreastAll.forall₂ {ρ : Pairing} : ∀ {parts parts' : List Rendering},
    AbreastAll ρ parts parts' → List.Forall₂ (Abreast ρ) parts parts'
  | _, _, .nil _ => .nil
  | _, _, .cons first others => .cons first others.forall₂

/-- Groups that go on abreast stand in the same way. -/
theorem AbreastAll.verdictFrom {ρ : Pairing} {parts parts' : List Rendering}
    (abreast : AbreastAll ρ parts parts') (prompt settled : Bool) :
    (verdictFrom prompt settled parts).Alike (verdictFrom prompt settled parts') := by
  replace abreast := abreast.forall₂
  induction abreast generalizing settled with
  | nil => cases settled <;> constructor
  | @cons part part' rest rest' first _ ih =>
    cases first with
    | done _ markup markup' =>
      have stands := ih settled
      simp only [Rendering.verdictFrom]
      -- Only a group that is there depends on what it shows.
      generalize Rendering.verdictFrom prompt settled rest = now,
        Rendering.verdictFrom prompt settled rest' = now' at stands
      cases stands <;> constructor
    | failed _ error =>
      simp only [Rendering.verdictFrom]
      split
      · exact .failed error
      · exact ih false
    | panicked _ message message' =>
      simp only [Rendering.verdictFrom]
      exact .panicked message message'
    | _ =>
      rw [verdictFrom_of_waits rfl, verdictFrom_of_waits rfl]
      exact ih false

theorem AbreastAll.verdict {ρ : Pairing} {parts parts' : List Rendering}
    (abreast : AbreastAll ρ parts parts') : (verdict parts).Alike (verdict parts') := by
  rw [Rendering.verdict, Rendering.verdict, ← abreast.forall₂.length_eq]
  exact abreast.verdictFrom _ true

/-! ### Going on after a rendering -/

/-- Going on at the same pace after renderings that do. -/
theorem Abreast.andThen : ∀ {ρ : Pairing} {r r' : Rendering}, Abreast ρ r r' →
    ∀ {next next' : String → Rendering},
      (∀ markup markup', Abreast ρ (next markup) (next' markup')) →
        Abreast ρ (r.andThen next) (r'.andThen next')
  | _, _, _, .done _ markup markup', _, _, onward => onward markup markup'
  | _, _, _, .failed _ error, _, _, _ => .failed _ error
  | _, _, _, .panicked _ message message', _, _, _ => .panicked _ message message'
  | _, _, _, .note event event' abreast, _, _, onward => .note event event' (abreast.andThen onward)
  | _, _, _, .claim paired abreast, _, _, onward => .claim paired (abreast.andThen onward)
  | _, _, _, .number size abreast, _, _, onward =>
    .number size fun _ _ _ within numbered =>
      (abreast within numbered).andThen fun markup markup' => (onward markup markup').mono within
  | _, _, _, .outstanding abreast, _, _, onward =>
    .outstanding fun pending pending' => (abreast pending pending').andThen onward
  | _, _, _, .register handedIn abreast, _, _, onward =>
    .register handedIn fun slot slot' => (abreast slot slot').andThen onward
  | _, _, _, .wait paces abreast, _, _, onward => .wait paces (abreast.andThen onward)
  | _, _, _, .race races settled timedOut, _, _, onward =>
    .race races (settled.andThen onward) fun _ _ paces => (timedOut paces).andThen onward
  | _, _, _, .join parts abreast, _, _, onward =>
    .join parts fun texts texts' => (abreast texts texts').andThen onward
  | _, _, _, .attempt body succeeding failing, _, _, onward =>
    .attempt body (fun markup markup' => (succeeding markup markup').andThen onward)
      fun error => (failing error).andThen onward

/-- Renderings that go on abreast, several times in a row. -/
theorem Abreast.times {ρ : Pairing} {r r' : Rendering} (abreast : Abreast ρ r r') (count : Nat) :
    Abreast ρ (Rendering.times count r) (Rendering.times count r') := by
  induction count with
  | zero => exact .done ρ "" ""
  | succ count ih => exact abreast.andThen fun _ _ => ih.andThen fun _ _ => .done ρ _ _

end Rendering

/-! ### What a rendering does to a state -/

/-- What a rendering does to a state while the contents paired grow from `ρ` to `ρ'`: it numbers and uses
    up contents of its own, and what it hands in keeps pace. -/
structure Pairing.Spreads (ρ ρ' : Pairing) (w w' : EventLoop) : Prop where
  grows : ρ.Grows ρ' w { w' with registry := w.registry }
  tasks : ∃ new, w'.registry.tasks = w.registry.tasks ++ new ∧
    ∀ task ∈ new, Rendering.Abreast Rendering.nothingPaired task.work task.work

namespace Pairing.Spreads

variable {ρ ρ' ρ'' : Pairing} {w w' w'' : EventLoop}

/-- A change that does not concern the registry. -/
theorem of_grows (grows : ρ.Grows ρ' w w') : ρ.Spreads ρ' w w' where
  grows := { grows with registry := rfl }
  tasks := ⟨[], by rw [grows.registry, List.append_nil], fun _ none => absurd none List.not_mem_nil⟩

theorem refl (ρ : Pairing) (w : EventLoop) : ρ.Spreads ρ w w := of_grows (.refl ρ w)

theorem trans (first : ρ.Spreads ρ' w w') (second : ρ'.Spreads ρ'' w' w'') : ρ.Spreads ρ'' w w'' where
  grows :=
    have onward : ρ'.Grows ρ'' { w' with registry := w.registry }
        { w'' with registry := w.registry } :=
      { second.grows with registry := rfl }
    first.grows.trans onward
  tasks := by
    obtain ⟨new, tasks, keepPace⟩ := first.tasks
    obtain ⟨more, tasksLater, keepPaceLater⟩ := second.tasks
    refine ⟨new ++ more, by rw [tasksLater, tasks, List.append_assoc], fun task member => ?_⟩
    exact (List.mem_append.1 member).elim (keepPace task) (keepPaceLater task)

/-- A fragment is handed in. -/
theorem register (ρ : Pairing) (w : EventLoop) {content : Nat → Rendering}
    (keepsPace : ∀ slot, Rendering.Abreast Rendering.nothingPaired (content slot) (content slot)) :
    ρ.Spreads ρ w (w.register content).2 where
  grows := .timeline ρ w rfl
  tasks := by
    rw [EventLoop.register_registry, Registry.register]
    split
    · exact ⟨[], (List.append_nil _).symm, fun _ none => absurd none List.not_mem_nil⟩
    · exact ⟨_, rfl, by simpa using keepsPace _⟩

end Pairing.Spreads

namespace Rendering

/-! ### Asking both -/

/-- What comes of two renderings, or of siblings, that are asked at the same instant: the contents that
    correspond have grown, and what is left corresponds again. -/
def KeepPace {α : Type} (R : Pairing → α → α → Prop) (ρ : Pairing) (w : EventLoop)
    (left left' : α × EventLoop) : Prop :=
  ∃ ρ', ρ.Spreads ρ' w left.2 ∧ ρ'.Synced 0 left.2 left'.2 ∧ R ρ' left.1 left'.1

/-- Going on after the first has changed the state. -/
theorem KeepPace.after {α : Type} {R : Pairing → α → α → Prop} {ρ ρ' : Pairing} {w w' : EventLoop}
    {left left' : α × EventLoop} (first : ρ.Spreads ρ' w w')
    (rest : KeepPace R ρ' w' left left') : KeepPace R ρ w left left' := by
  obtain ⟨ρ'', spreads, synced, abreast⟩ := rest
  exact ⟨ρ'', first.trans spreads, synced, abreast⟩

mutual

/-- Renderings that go on abreast remain so when both are asked at the same instant. -/
theorem Abreast.poll : ∀ {ρ : Pairing} {r r' : Rendering}, Abreast ρ r r' → ∀ {w v : EventLoop},
    ρ.Synced 0 w v → KeepPace Abreast ρ w (r.poll w) (r'.poll v)
  | ρ, _, _, .done _ markup markup', w, _, synced => ⟨ρ, .refl ρ w, synced, .done ρ markup markup'⟩
  | ρ, _, _, .failed _ error, w, _, synced => ⟨ρ, .refl ρ w, synced, .failed ρ error⟩
  | ρ, _, _, .panicked _ message message', w, _, synced =>
    ⟨ρ, .refl ρ w, synced, .panicked ρ message message'⟩
  | ρ, _, _, .note event event' onward, w, v, synced =>
    have noted : ρ.Synced 0 (w.note event) (v.note event') := synced.timeline rfl rfl
    have grown : ρ.Grows ρ w (w.note event) := .timeline ρ w rfl
    .after (.of_grows grown) (onward.poll noted)
  | ρ, .claim cell _, .claim _ _, .claim paired onward, w, v, synced => by
    have same := synced.used paired
    rw [Rendering.poll, Rendering.poll]
    by_cases isUsed : cell ∈ w.used
    · rw [if_pos isUsed, if_pos (same.1 isUsed)]
      exact ⟨ρ, .refl ρ w, synced, .failed ρ .consumed⟩
    · rw [if_neg isUsed, if_neg (mt same.2 isUsed)]
      exact .after (.of_grows (.claim paired w)) (onward.poll (synced.claim paired))
  | ρ, _, _, .number size onward, w, v, synced => by
    have numbered : ∀ k < size, ρ.extend w.cells v.cells size (w.cells + k) (v.cells + k) :=
      fun k less => .inr ⟨k, less, rfl, rfl⟩
    have abreast := onward (fun _ _ => .inl) numbered
    exact .after (.of_grows (.number ρ w v.cells size)) (abreast.poll (synced.number size))
  | _, _, _, .outstanding onward, w, v, synced =>
    (onward w.registry.pending v.registry.pending).poll synced
  | ρ, .register content _, .register content' _, .register handedIn onward, w, v, synced =>
    have registered : ρ.Synced 0 (w.register content).2 (v.register content').2 := { synced with }
    .after (.register ρ w handedIn) ((onward _ _).poll registered)
  | ρ, .wait pace _, .wait pace' _, .wait paces onward, w, v, synced => by
    have polled := paces.poll synced.now
    have still := pace.poll_now w.timeline
    have still' := pace'.poll_now v.timeline
    have grown := Pairing.Spreads.of_grows (.timeline ρ w still)
    rw [poll_wait, poll_wait]
    generalize (pace.poll w.timeline).1 = left, (pace'.poll v.timeline).1 = left' at polled
    cases polled with
    | none => exact .after grown (onward.poll (synced.timeline still still'))
    | some left => exact ⟨ρ, grown, synced.timeline still still', .wait left onward⟩
  | ρ, .race r _ _, .race r' _ _, .race races settled timedOut, w, v, synced => by
    have polled := races.poll synced.now
    have still := r.poll_now w.timeline
    have still' := r'.poll_now v.timeline
    have grown := Pairing.Spreads.of_grows (.timeline ρ w still)
    have noted := synced.timeline still still'
    rw [poll_race, poll_race]
    generalize (r.poll w.timeline).1 = left, (r'.poll v.timeline).1 = left' at polled
    cases polled with
    | settled => exact .after grown (settled.poll noted)
    | timedOut paces => exact .after grown ((timedOut paces).poll noted)
    | running races => exact ⟨ρ, grown, noted, .race races settled timedOut⟩
  | ρ, .join parts _, .join parts' _, .join abreast onward, w, v, synced => by
    obtain ⟨ρ', spreads, synced, kept⟩ := abreast.pollAll (isPrompt parts.length) true synced
    have onward := fun texts texts' => (onward texts texts').mono spreads.grows.within
    -- What is left of the groups stands in the same way.
    have stands := kept.verdict
    rw [poll_join, poll_join, ← abreast.forall₂.length_eq]
    generalize verdict (Rendering.pollAll _ true parts w).1 = first,
      verdict (Rendering.pollAll _ true parts' v).1 = second at stands
    cases stands with
    | complete texts texts' => exact .after spreads ((onward texts texts').poll synced)
    | failed error => exact ⟨ρ', spreads, synced, .failed ρ' error⟩
    | panicked message message' => exact ⟨ρ', spreads, synced, .panicked ρ' message message'⟩
    | waiting => exact ⟨ρ', spreads, synced, .join kept onward⟩
  | ρ, .attempt body _, .attempt body' _, .attempt abreast succeeding failing, w, v, synced => by
    obtain ⟨ρ', spreads, synced, kept⟩ := abreast.poll synced
    have succeeding := fun markup markup' => (succeeding markup markup').mono spreads.grows.within
    have failing := fun error => (failing error).mono spreads.grows.within
    by_cases waits : (body.poll w).1.isOver
    · rw [poll_attempt, poll_attempt]
      generalize (body.poll w).1 = left, (body'.poll v).1 = left' at kept waits
      cases kept with
      | done _ markup markup' => exact .after spreads ((succeeding markup markup').poll synced)
      | failed _ error => exact .after spreads ((failing error).poll synced)
      | panicked _ message message' => exact ⟨ρ', spreads, synced, .panicked ρ' message message'⟩
      | _ => cases waits
    · have waits : (body.poll w).1.isOver = false := Bool.not_eq_true _ ▸ waits
      rw [poll_attempt_of_waits waits,
        poll_attempt_of_waits (kept.isOver_eq ▸ waits)]
      exact ⟨ρ', spreads, synced, .attempt kept succeeding failing⟩

/-- Siblings that go on abreast remain so when both groups are asked. -/
theorem AbreastAll.pollAll : ∀ {ρ : Pairing} {parts parts' : List Rendering},
    AbreastAll ρ parts parts' → ∀ (prompt settled : Bool) {w v : EventLoop}, ρ.Synced 0 w v →
      KeepPace AbreastAll ρ w (pollAll prompt settled parts w) (pollAll prompt settled parts' v)
  | ρ, _, _, .nil _, _, _, w, _, synced => ⟨ρ, .refl ρ w, synced, .nil ρ⟩
  | ρ, part :: rest, part' :: rest', .cons first others, prompt, settled, w, v, synced => by
    obtain ⟨ρ', spreads, synced, kept⟩ := first.poll synced
    have others := others.mono spreads.grows.within
    rw [pollAll_cons, pollAll_cons, ← kept.endsGroup_eq, ← kept.isDone_eq]
    cases (part.poll w).1.endsGroup prompt settled with
    | true => exact ⟨ρ', spreads, synced, .cons kept others⟩
    | false =>
      obtain ⟨ρ'', later, synced, others⟩ :=
        others.pollAll prompt (settled && (part.poll w).1.isDone) synced
      exact ⟨ρ'', spreads.trans later, synced, .cons (kept.mono later.grows.within) others⟩

end

/-! ### Asking in vain -/

/-- What comes of a rendering, or of siblings, that are asked in vain: something is written to the journal
    at most, and what is left still keeps pace. -/
def InVain {α : Type} (R : Pairing → α → α → Prop) (ρ : Pairing) (w : EventLoop) (other : α)
    (left : α × EventLoop) : Prop :=
  (∃ timeline, left.2 = { w with timeline } ∧ timeline.now = w.now) ∧ R ρ left.1 other

mutual

/-- A rendering at rest that is asked still goes on abreast. -/
theorem Abreast.poll_again : ∀ {ρ : Pairing} {r r' : Rendering}, Abreast ρ r r' →
    ∀ {w : EventLoop}, r.Rests w.now → InVain Abreast ρ w r' (r.poll w)
  | ρ, _, _, .done _ markup markup', w, _ => ⟨⟨w.timeline, rfl, rfl⟩, .done ρ markup markup'⟩
  | ρ, _, _, .failed _ error, w, _ => ⟨⟨w.timeline, rfl, rfl⟩, .failed ρ error⟩
  | ρ, _, _, .panicked _ message message', w, _ =>
    ⟨⟨w.timeline, rfl, rfl⟩, .panicked ρ message message'⟩
  | ρ, .wait pace _, .wait _ _, .wait paces onward, w, rests => by
    rw [Rendering.poll, Pace.poll_of_rests rests]
    exact ⟨⟨_, rfl, pace.begin_now w.timeline⟩, .wait ⟨paces.sleeps, paces.never⟩ onward⟩
  | ρ, .race r _ _, .race _ _ _, .race races settled timedOut, w, rests => by
    rw [Rendering.poll, Race.poll_of_rests rests]
    have paces : Pace.Alike 0 { r.pace with begun := true } _ :=
      ⟨races.pace.sleeps, races.pace.never⟩
    exact ⟨⟨_, rfl, r.pace.begin_now w.timeline⟩, .race ⟨paces, races.timer⟩ settled timedOut⟩
  | ρ, .join parts _, .join parts' _, .join abreast onward, w, rests => by
    obtain ⟨stands, rests⟩ := rests
    obtain ⟨still, kept⟩ := abreast.pollAll_again (isPrompt parts.length) true rests stands
    have waits : (verdict (pollAll (isPrompt parts.length) true parts w).1).manner = .waiting := by
      rw [kept.verdict.manner_eq, ← abreast.verdict.manner_eq, stands]
      rfl
    -- The group waits as it did before.
    rw [poll_join]
    generalize verdict (Rendering.pollAll _ true parts w).1 = now at waits
    cases now <;> cases waits
    exact ⟨still, .join kept onward⟩
  | ρ, .attempt body _, .attempt body' _, .attempt abreast succeeding failing, w, rests => by
    obtain ⟨waits, rests⟩ := rests
    obtain ⟨still, kept⟩ := abreast.poll_again rests
    have same := kept.isOver_eq.trans abreast.isOver_eq.symm
    rw [poll_attempt_of_waits (same.trans waits)]
    exact ⟨still, .attempt kept succeeding failing⟩
  | _, _, _, .note .., _, rests | _, _, _, .claim .., _, rests | _, _, _, .number .., _, rests
  | _, _, _, .outstanding .., _, rests | _, _, _, .register .., _, rests => rests.elim

theorem AbreastAll.pollAll_again : ∀ {ρ : Pairing} {parts parts' : List Rendering},
    AbreastAll ρ parts parts' → ∀ (prompt settled : Bool) {w : EventLoop}, RestsAll w.now parts →
      verdictFrom prompt settled parts = .waiting →
        InVain AbreastAll ρ w parts' (pollAll prompt settled parts w)
  | ρ, _, _, .nil _, _, _, w, _, _ => ⟨⟨w.timeline, rfl, rfl⟩, .nil ρ⟩
  | ρ, part :: rest, _ :: _, .cons first others, prompt, settled, w, rests, stands => by
    obtain ⟨restsHere, rests⟩ := rests
    obtain ⟨⟨timeline, still, present⟩, kept⟩ := first.poll_again restsHere
    -- A sibling that ends its group would have ended it before.
    have goesOn : (part.poll w).1.endsGroup prompt settled = false := by
      by_contra ends
      rw [Bool.not_eq_false, kept.endsGroup_eq, ← first.endsGroup_eq] at ends
      exact not_waiting_of_endsGroup ends rest stands
    rw [pollAll_cons, goesOn, kept.isDone_eq, ← first.isDone_eq, still]
    obtain ⟨⟨last, stillLater, presentLater⟩, others⟩ :=
      others.pollAll_again prompt (settled && part.isDone) (w := { w with timeline })
        (show RestsAll timeline.now rest from present ▸ rests) (waiting_of_cons stands)
    exact ⟨⟨last, stillLater, presentLater.trans present⟩, .cons kept others⟩

end

/-! ### Sleeps -/

mutual

/-- Renderings that go on abreast wait for sleeps that end at the same time. -/
theorem Abreast.alarms : ∀ {ρ : Pairing} {r r' : Rendering}, Abreast ρ r r' →
    List.Forall₂ (fun alarm alarm' => alarm.deadline = alarm'.deadline + 0) r.alarms r'.alarms
  | _, _, _, .done .. | _, _, _, .failed .. | _, _, _, .panicked .. | _, _, _, .note ..
  | _, _, _, .claim .. | _, _, _, .number .. | _, _, _, .outstanding .. | _, _, _, .register .. =>
    .nil
  | _, .wait pace _, .wait pace' _, .wait paces _ => by
    have alarm := paces.alarm
    rw [Rendering.alarms, Rendering.alarms]
    generalize pace.alarm? = first, pace'.alarm? = second at alarm
    cases alarm with
    | none => exact .nil
    | some same => exact .cons same .nil
  | _, _, _, .race races _ _ => races.alarms
  | _, _, _, .join abreast _ => abreast.alarms
  | _, _, _, .attempt abreast _ _ => abreast.alarms

theorem AbreastAll.alarms : ∀ {ρ : Pairing} {parts parts' : List Rendering},
    AbreastAll ρ parts parts' →
      List.Forall₂ (fun alarm alarm' => alarm.deadline = alarm'.deadline + 0)
        (alarmsOfAll parts) (alarmsOfAll parts')
  | _, _, _, .nil _ => .nil
  | _, _, _, .cons first others => List.rel_append first.alarms others.alarms

end

end Rendering

end ProgressiveHtml
