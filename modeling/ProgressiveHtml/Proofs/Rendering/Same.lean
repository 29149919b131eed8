import ProgressiveHtml.Proofs.Rendering.Alike
import ProgressiveHtml.Proofs.Rendering.Step

namespace ProgressiveHtml

/-!
# Renderings — the same in another run

Two runs differ in the numbers of their contents and of their sleeps when in one of them something else
goes on besides.  Renderings that are the same but for these numbers remain so when they are asked at the
same instants, also those that have to do with late fragments, provided that the registries hold the same.

* `Pairing.Paced` — clocks that agree about the order of the sleeps that correspond;
* `Names` — which contents and which sleeps of two runs correspond;
* `Rendering.Same` — the same rendering in two runs;
* `Registry.Same`, `Names.Synced` — registries that hold the same, and states that agree;
* `Rendering.Same.poll` — asking the same rendering in both runs;
* `Rendering.Same.alarms` — the sleeps that it waits for.
-/

/-! ### Corresponding sleeps -/

/-- Two clocks show the same time and agree about the order of the sleeps that correspond. -/
structure Pairing.Paced (σ : Pairing) (t t' : Timeline) : Prop where
  now : t.now = t'.now
  order : ∀ ⦃a b a' b'⦄, σ a b → σ a' b' → (a < a' ↔ b < b')
  /-- What corresponds has been started. -/
  known : ∀ ⦃a b⦄, σ a b → a < t.sleeps ∧ b < t'.sleeps

namespace Pairing.Paced

variable {σ : Pairing} {t t' : Timeline}

/-- Other sleeps are started. -/
theorem later (paced : σ.Paced t t') {s s' : Timeline} (now : s.now = s'.now)
    (more : t.sleeps ≤ s.sleeps) (more' : t'.sleeps ≤ s'.sleeps) : σ.Paced s s' where
  now := now
  order := paced.order
  known _ _ paired := ⟨Nat.lt_of_lt_of_le (paced.known paired).1 more,
    Nat.lt_of_lt_of_le (paced.known paired).2 more'⟩

/-- The same sleep is started on both sides. -/
theorem start (paced : σ.Paced t t') :
    (σ.extend t.sleeps t'.sleeps 1).Paced { t with sleeps := t.sleeps + 1 }
      { t' with sleeps := t'.sleeps + 1 } where
  now := paced.now
  order := by
    rintro a b a' b' (before | ⟨k, _, rfl, rfl⟩) (before' | ⟨k', _, rfl, rfl⟩)
    · exact paced.order before before'
    · have known := paced.known before
      omega
    · have known := paced.known before'
      omega
    · omega
  known := by
    rintro a b (before | ⟨k, _, rfl, rfl⟩)
    · have known := paced.known before
      dsimp only
      omega
    · dsimp only
      omega

end Pairing.Paced

/-- What comes of asking for the same on both sides: more sleeps may correspond, and what is left is the
    same again. -/
def Pairing.Onward {α : Type} (R : Pairing → α → α → Prop) (σ : Pairing) (left left' : α × Timeline) :
    Prop :=
  ∃ σ', σ.Within σ' ∧ σ'.Paced left.2 left'.2 ∧ R σ' left.1 left'.1

/-- The same alarm in two runs.  When both have to do with late fragments (`shared`), its numbers
    correspond, for these tell who is woken first. -/
structure Alarm.Same (shared : Bool) (σ : Pairing) (alarm alarm' : Alarm) : Prop where
  deadline : alarm.deadline = alarm'.deadline
  number : shared = true → σ alarm.number alarm'.number

/-- The same sleep in two runs. -/
def Sleep.Same (shared : Bool) (σ : Pairing) : Sleep → Sleep → Prop
  | idle length, idle length' => length = length'
  | running alarm, running alarm' => alarm.Same shared σ alarm'
  | _, _ => False

/-- The same pace in two runs. -/
structure Pace.Same (shared : Bool) (σ : Pairing) (p p' : Pace) : Prop where
  sleeps : List.Forall₂ (Sleep.Same shared σ) p.sleeps p'.sleeps
  never : p.never = p'.never

/-- The same race in two runs. -/
structure Race.Same (shared : Bool) (σ : Pairing) (r r' : Race) : Prop where
  pace : r.pace.Same shared σ r'.pace
  timer : r.timer.Same shared σ r'.timer

/-- A race stands the same way in two runs. -/
inductive Race.Standing.Same (shared : Bool) (σ : Pairing) : Standing → Standing → Prop
  | settled : Same shared σ .settled .settled
  | timedOut {p p' : Pace} (paces : p.Same shared σ p') : Same shared σ (.timedOut p) (.timedOut p')
  | running {r r' : Race} (races : r.Same shared σ r') : Same shared σ (.running r) (.running r')

section

variable {shared : Bool} {σ σ' : Pairing} {t t' : Timeline}

theorem Alarm.Same.mono {alarm alarm' : Alarm} (same : alarm.Same shared σ alarm')
    (within : σ.Within σ') : alarm.Same shared σ' alarm' :=
  ⟨same.deadline, fun isShared => within (same.number isShared)⟩

theorem Sleep.Same.mono {s s' : Sleep} (same : s.Same shared σ s') (within : σ.Within σ') :
    s.Same shared σ' s' := by
  cases s <;> cases s' <;> simp only [Same] at same ⊢
  · exact same
  · exact same.mono within

theorem Pace.Same.mono {p p' : Pace} (same : p.Same shared σ p') (within : σ.Within σ') :
    p.Same shared σ' p' :=
  ⟨same.sleeps.imp fun _ _ same => same.mono within, same.never⟩

theorem Race.Same.mono {r r' : Race} (same : r.Same shared σ r') (within : σ.Within σ') :
    r.Same shared σ' r' :=
  ⟨same.pace.mono within, same.timer.mono within⟩

/-- A pace that nobody has asked for is the same under every number. -/
theorem Pace.Unasked.same {p p' : Pace} (unasked : p.Unasked) (sleeps : p'.sleeps = p.sleeps)
    (never : p.never = p'.never) : p.Same shared σ p' := by
  refine ⟨?_, never⟩
  rw [sleeps]
  refine List.forall₂_same.2 fun s member => ?_
  cases s with
  | idle => rfl
  | running => cases unasked _ member

/-- Where nothing has to do with late fragments, the numbers of the sleeps do not matter. -/
theorem Pace.same_of_sleeps {p p' : Pace} (sleeps : p'.sleeps = p.sleeps) (never : p.never = p'.never) :
    p.Same false σ p' := by
  refine ⟨?_, never⟩
  rw [sleeps]
  refine List.forall₂_same.2 fun s _ => ?_
  cases s with
  | idle => rfl
  | running alarm => exact ⟨rfl, nofun⟩

/-- A pace is the same where every sleep corresponds to itself. -/
theorem Pace.same_self (self : ∀ number, σ number number) (p : Pace) : p.Same shared σ p := by
  refine ⟨List.forall₂_same.2 fun s _ => ?_, rfl⟩
  cases s with
  | idle => rfl
  | running alarm => exact ⟨rfl, fun _ => self alarm.number⟩

/-! ### Asking -/

/-- The same sleep ends in both runs, or it runs in both. -/
theorem Sleep.Same.poll {s s' : Sleep} (same : s.Same shared σ s') (paced : σ.Paced t t') :
    σ.Onward (fun σ' => Option.Rel (Sleep.Same shared σ')) (s.poll t) (s'.poll t') := by
  cases s <;> cases s' <;> simp only [Same] at same
  case idle.idle length length' =>
    subst same
    cases length with
    | zero => exact ⟨σ, fun _ _ => id, paced, .none⟩
    | succ length =>
      refine ⟨_, fun _ _ => .inl, paced.start, .some ⟨?_, fun _ => .inr ⟨0, Nat.one_pos, rfl, rfl⟩⟩⟩
      exact congrArg (· + (length + 1)) paced.now
  case running.running alarm alarm' =>
    by_cases ended : alarm'.deadline ≤ t'.now
    · rw [Sleep.poll, Sleep.poll, if_pos ended, if_pos (by rw [same.deadline, paced.now]; exact ended)]
      exact ⟨σ, fun _ _ => id, paced, .none⟩
    · rw [Sleep.poll, Sleep.poll, if_neg ended, if_neg (by rw [same.deadline, paced.now]; exact ended)]
      exact ⟨σ, fun _ _ => id, paced, .some same⟩

theorem Sleep.Same.pollAll {sleeps sleeps' : List Sleep}
    (same : List.Forall₂ (Sleep.Same shared σ) sleeps sleeps') (paced : σ.Paced t t') :
    σ.Onward (fun σ' => List.Forall₂ (Sleep.Same shared σ')) (Sleep.pollAll sleeps t)
      (Sleep.pollAll sleeps' t') := by
  induction sleeps generalizing sleeps' σ t t' with
  | nil =>
    cases same
    exact ⟨σ, fun _ _ => id, paced, .nil⟩
  | cons s rest ih =>
    obtain ⟨s', rest', first, others, rfl⟩ := List.forall₂_cons_left_iff.1 same
    obtain ⟨σ', within, paced, polled⟩ := first.poll paced
    replace others := others.imp fun _ _ (same : Sleep.Same shared σ _ _) => same.mono within
    rw [Sleep.pollAll_cons, Sleep.pollAll_cons]
    generalize (s.poll t).1 = left, (s'.poll t').1 = left' at polled
    cases polled with
    | none =>
      obtain ⟨σ'', within', paced, polled⟩ := ih others paced
      exact ⟨σ'', fun _ _ paired => within' (within paired), paced, polled⟩
    | some left => exact ⟨σ', within, paced, .cons left others⟩

/-- The same pace settles in both runs or in neither. -/
theorem Pace.Same.poll {p p' : Pace} (same : p.Same shared σ p') (paced : σ.Paced t t') :
    σ.Onward (fun σ' => Option.Rel (Pace.Same shared σ')) (p.poll t) (p'.poll t') := by
  have begun : σ.Paced (p.begin t) (p'.begin t') := by
    refine paced.later (by rw [p.begin_now, p'.begin_now, paced.now]) (Nat.le_of_eq ?_) (Nat.le_of_eq ?_)
    · unfold begin
      split <;> rfl
    · unfold begin
      split <;> rfl
  obtain ⟨σ', within, paced, polled⟩ := Sleep.Same.pollAll same.sleeps begun
  rw [Pace.poll_def, Pace.poll_def]
  generalize (Sleep.pollAll p.sleeps (p.begin t)).1 = left,
    (Sleep.pollAll p'.sleeps (p'.begin t')).1 = left' at polled
  cases polled with
  | nil =>
    rw [← same.never]
    cases p.never with
    | true => exact ⟨σ', within, paced, .some ⟨.nil, rfl⟩⟩
    | false => exact ⟨σ', within, ⟨paced.now, paced.order, paced.known⟩, .none⟩
  | cons first rest => exact ⟨σ', within, paced, .some ⟨.cons first rest, same.never⟩⟩

/-- The same race stands the same way. -/
theorem Race.Same.poll {r r' : Race} (same : r.Same shared σ r') (paced : σ.Paced t t') :
    σ.Onward (Standing.Same shared) (r.poll t) (r'.poll t') := by
  obtain ⟨σ', within, paced, polled⟩ := same.pace.poll paced
  rw [Race.poll_def, Race.poll_def]
  generalize (r.pace.poll t).1 = left, (r'.pace.poll t').1 = left' at polled
  cases polled with
  | none => exact ⟨σ', within, paced, .settled⟩
  | some paces =>
    obtain ⟨σ'', within', paced, timed⟩ := (same.timer.mono within).poll paced
    dsimp only
    generalize (r.timer.poll (r.pace.poll t).2).1 = timer,
      (r'.timer.poll (r'.pace.poll t').2).1 = timer' at timed
    have grows : σ.Within σ'' := fun _ _ paired => within' (within paired)
    cases timed with
    | none => exact ⟨σ'', grows, paced, .timedOut (paces.mono within')⟩
    | some timer => exact ⟨σ'', grows, paced, .running ⟨paces.mono within', timer⟩⟩

/-! ### The sleeps that are waited for -/

theorem Sleep.Same.alarm {s s' : Sleep} (same : s.Same shared σ s') :
    List.Forall₂ (Alarm.Same shared σ) s.alarm?.toList s'.alarm?.toList := by
  cases s <;> cases s' <;> simp only [Same] at same
  · exact .nil
  · exact .cons same .nil

theorem Pace.Same.alarm {p p' : Pace} (same : p.Same shared σ p') :
    List.Forall₂ (Alarm.Same shared σ) p.alarm?.toList p'.alarm?.toList := by
  obtain ⟨sleeps, -⟩ := same
  rw [Pace.alarm?, Pace.alarm?]
  generalize p.sleeps = sleeps, p'.sleeps = sleeps' at sleeps
  cases sleeps with
  | nil => exact .nil
  | cons first _ => exact first.alarm

theorem Race.Same.alarms {r r' : Race} (same : r.Same shared σ r') :
    List.Forall₂ (Alarm.Same shared σ) r.alarms r'.alarms :=
  List.rel_append same.pace.alarm same.timer.alarm

end

/-! ### The same rendering -/

/-- Which contents and which sleeps of one run are which of another. -/
structure Names where
  cells : Pairing
  sleeps : Pairing

namespace Names

/-- What has been numbered and started in a state, as the same in two runs that go on from there.  Contents
    that `own` are left out. -/
def soFar (w : EventLoop) (own : Nat → Prop) : Names where
  cells a b := a = b ∧ a < w.cells ∧ ¬own a
  sleeps a b := a = b ∧ a < w.timeline.sleeps

/-- Everything that corresponds does so under more names. -/
def Within (N N' : Names) : Prop := N.cells.Within N'.cells ∧ N.sleeps.Within N'.sleeps

theorem Within.refl (N : Names) : N.Within N := ⟨fun _ _ => id, fun _ _ => id⟩

theorem Within.trans {N N' N'' : Names} (first : N.Within N') (second : N'.Within N'') : N.Within N'' :=
  ⟨fun _ _ paired => second.1 (first.1 paired), fun _ _ paired => second.2 (first.2 paired)⟩

end Names

namespace Rendering

mutual

/-- The same rendering in two runs, which differ in the numbers of the contents and of the sleeps, and in
    what is written to the journal.  Only where it is `shared` may it have to do with late fragments. -/
inductive Same (shared : Bool) : Names → Rendering → Rendering → Prop
  | done (N : Names) (markup : String) : Same shared N (.done markup) (.done markup)
  | failed (N : Names) (error : RenderError) : Same shared N (.failed error) (.failed error)
  | panicked (N : Names) (message : String) : Same shared N (.panicked message) (.panicked message)
  | note {N : Names} {next next' : Rendering} (event event' : Event) (onward : Same shared N next next') :
      Same shared N (.note event next) (.note event' next')
  | claim {N : Names} {cell cell' : Nat} {next next' : Rendering} (paired : N.cells cell cell')
      (onward : Same shared N next next') : Same shared N (.claim cell next) (.claim cell' next')
  /-- Whatever numbers the contents get, those in the same place correspond. -/
  | number {N : Names} (size : Nat) {next next' : Nat → Rendering}
      (onward : ∀ ⦃N' : Names⦄ ⦃first first' : Nat⦄, N.Within N' →
        (∀ k < size, N'.cells (first + k) (first' + k)) → Same shared N' (next first) (next' first')) :
      Same shared N (.number size next) (.number size next')
  | outstanding {N : Names} {next next' : Nat → Rendering} (isShared : shared = true)
      (onward : ∀ count, Same shared N (next count) (next' count)) :
      Same shared N (.outstanding next) (.outstanding next')
  | register {N : Names} {content content' next next' : Nat → Rendering} (isShared : shared = true)
      (contents : ∀ slot, Same shared N (content slot) (content' slot))
      (onward : ∀ slot, Same shared N (next slot) (next' slot)) :
      Same shared N (.register content next) (.register content' next')
  | wait {N : Names} {pace pace' : Pace} {next next' : Rendering} (paces : pace.Same shared N.sleeps pace')
      (onward : Same shared N next next') : Same shared N (.wait pace next) (.wait pace' next')
  /-- However far the value is when the timer wins, it goes on the same way. -/
  | race {N : Names} {r r' : Race} {inTime inTime' : Rendering} {late late' : Pace → Rendering}
      (races : r.Same shared N.sleeps r') (settled : Same shared N inTime inTime')
      (timedOut : ∀ ⦃N' : Names⦄ ⦃pace pace' : Pace⦄, N.Within N' → pace.Same shared N'.sleeps pace' →
        Same shared N' (late pace) (late' pace')) :
      Same shared N (.race r inTime late) (.race r' inTime' late')
  | join {N : Names} {parts parts' : List Rendering} {next next' : List String → Rendering}
      (same : SameAll shared N parts parts') (onward : ∀ texts, Same shared N (next texts) (next' texts)) :
      Same shared N (.join parts next) (.join parts' next')
  | attempt {N : Names} {body body' : Rendering} {next next' : Except RenderError String → Rendering}
      (same : Same shared N body body') (onward : ∀ result, Same shared N (next result) (next' result)) :
      Same shared N (.attempt body next) (.attempt body' next')

/-- Siblings are the same one by one. -/
inductive SameAll (shared : Bool) : Names → List Rendering → List Rendering → Prop
  | nil (N : Names) : SameAll shared N [] []
  | cons {N : Names} {part part' : Rendering} {rest rest' : List Rendering}
      (first : Same shared N part part') (others : SameAll shared N rest rest') :
      SameAll shared N (part :: rest) (part' :: rest')

end

variable {shared : Bool}

mutual

/-- What is the same stays so under more names. -/
theorem Same.mono : ∀ {N N' : Names} {r r' : Rendering}, Same shared N r r' → N.Within N' →
    Same shared N' r r'
  | _, _, _, _, .done _ markup, _ => .done _ markup
  | _, _, _, _, .failed _ error, _ => .failed _ error
  | _, _, _, _, .panicked _ message, _ => .panicked _ message
  | _, _, _, _, .note event event' onward, within => .note event event' (onward.mono within)
  | _, _, _, _, .claim paired onward, within => .claim (within.1 paired) (onward.mono within)
  | _, _, _, _, .number size onward, within =>
    .number size fun _ _ _ more numbered => onward (within.trans more) numbered
  | _, _, _, _, .outstanding isShared onward, within =>
    .outstanding isShared fun count => (onward count).mono within
  | _, _, _, _, .register isShared contents onward, within =>
    .register isShared (fun slot => (contents slot).mono within) fun slot => (onward slot).mono within
  | _, _, _, _, .wait paces onward, within => .wait (paces.mono within.2) (onward.mono within)
  | _, _, _, _, .race races settled timedOut, within =>
    .race (races.mono within.2) (settled.mono within) fun _ _ _ more paces =>
      timedOut (within.trans more) paces
  | _, _, _, _, .join same onward, within =>
    .join (same.mono within) fun texts => (onward texts).mono within
  | _, _, _, _, .attempt same onward, within =>
    .attempt (same.mono within) fun result => (onward result).mono within

theorem SameAll.mono : ∀ {N N' : Names} {parts parts' : List Rendering},
    SameAll shared N parts parts' → N.Within N' → SameAll shared N' parts parts'
  | _, _, _, _, .nil _, _ => .nil _
  | _, _, _, _, .cons first others, within => .cons (first.mono within) (others.mono within)

end

/-- The same rendering is over in both runs, in the same way, or in neither. -/
theorem Same.endsLike {N : Names} {r r' : Rendering} (same : Same shared N r r') : r.EndsLike r' := by
  cases same with
  | done | failed | panicked => exact .inr ⟨rfl, rfl⟩
  | _ => exact .inl ⟨rfl, rfl⟩

theorem SameAll.endsLike {N : Names} : ∀ {parts parts' : List Rendering},
    SameAll shared N parts parts' → List.Forall₂ EndsLike parts parts'
  | _, _, .nil _ => .nil
  | _, _, .cons first others => .cons first.endsLike others.endsLike

mutual

/-- The same rendering waits for the same sleeps. -/
theorem Same.alarms : ∀ {N : Names} {r r' : Rendering}, Same shared N r r' →
    List.Forall₂ (Alarm.Same shared N.sleeps) r.alarms r'.alarms
  | _, _, _, .done .. | _, _, _, .failed .. | _, _, _, .panicked .. | _, _, _, .note ..
  | _, _, _, .claim .. | _, _, _, .number .. | _, _, _, .outstanding .. | _, _, _, .register .. => .nil
  | _, _, _, .wait paces _ => paces.alarm
  | _, _, _, .race races _ _ => races.alarms
  | _, _, _, .join same _ => same.alarms
  | _, _, _, .attempt same _ => same.alarms

theorem SameAll.alarms : ∀ {N : Names} {parts parts' : List Rendering}, SameAll shared N parts parts' →
    List.Forall₂ (Alarm.Same shared N.sleeps) (alarmsOfAll parts) (alarmsOfAll parts')
  | _, _, _, .nil _ => .nil
  | _, _, _, .cons first others => List.rel_append first.alarms others.alarms

end

end Rendering

/-! ### The same registry -/

/-- The same late fragment in two runs. -/
structure FragmentTask.Same (N : Names) (task task' : FragmentTask) : Prop where
  slot : task.slot = task'.slot
  work : task.work.Same true N task'.work

/-- Two registries hold the same, except for what is numbered differently. -/
structure Registry.Same (N : Names) (r r' : Registry) : Prop where
  next : r.next = r'.next
  pending : r.pending = r'.pending
  closed : r.closed = r'.closed
  ready : r.ready = r'.ready
  queue : r.queue = r'.queue
  tasks : List.Forall₂ (FragmentTask.Same N) r.tasks r'.tasks

namespace Registry.Same

variable {N N' : Names} {r r' : Registry}

theorem mono (same : r.Same N r') (within : N.Within N') : r.Same N' r' where
  __ := same
  tasks := same.tasks.imp fun _ _ task => ⟨task.slot, task.work.mono within⟩

/-- The same fragment is taken in on both sides. -/
theorem register (same : r.Same N r') {content content' : Nat → Rendering}
    (contents : ∀ slot, (content slot).Same true N (content' slot)) :
    (r.register content).Same N (r'.register content') := by
  unfold Registry.register
  rw [← same.closed, ← same.next]
  split
  · exact { same with next := rfl, closed := rfl }
  · exact {
      next := rfl
      pending := congrArg (· + 1) same.pending
      closed := rfl
      ready := same.ready
      queue := congrArg (· ++ [r.next]) same.queue
      tasks := List.rel_append same.tasks (.cons ⟨rfl, contents r.next⟩ .nil) }

end Registry.Same

/-! ### States that agree -/

namespace Names

/-- Two states agree about what corresponds, and where that is `shared` their registries hold the same. -/
structure Synced (shared : Bool) (N : Names) (w v : EventLoop) : Prop where
  contents : N.cells.Synced 0 w v
  paced : N.sleeps.Paced w.timeline v.timeline
  registry : shared = true → w.registry.Same N v.registry

/-- What asking for the same does to two states while the names grow: more contents are numbered, and where
    nothing is `shared` the registries stay as they are. -/
structure Grows (shared : Bool) (N N' : Names) (w v w' v' : EventLoop) : Prop where
  within : N.Within N'
  fresh : ∀ ⦃a b⦄, N'.cells a b → N.cells a b ∨ w.cells ≤ a
  cells : w.cells ≤ w'.cells
  registry : shared = false → w'.registry = w.registry ∧ v'.registry = v.registry

section

variable {shared : Bool} {N N' N'' : Names} {σ : Pairing} {w w' w'' v v' v'' : EventLoop}

namespace Grows

theorem refl (N : Names) (w v : EventLoop) : Grows shared N N w v w v :=
  ⟨.refl N, fun _ _ => .inl, Nat.le_refl _, fun _ => ⟨rfl, rfl⟩⟩

theorem trans (first : Grows shared N N' w v w' v') (second : Grows shared N' N'' w' v' w'' v'') :
    Grows shared N N'' w v w'' v'' where
  within := first.within.trans second.within
  fresh _ _ paired := (second.fresh paired).elim (fun before => first.fresh before)
    fun later => .inr (Nat.le_trans first.cells later)
  cells := Nat.le_trans first.cells second.cells
  registry apart := ⟨(second.registry apart).1.trans (first.registry apart).1,
    (second.registry apart).2.trans (first.registry apart).2⟩

/-- Something is written to the journals, or a sleep is started. -/
theorem retime (within : N.sleeps.Within σ) (w v : EventLoop) (first second : Timeline) :
    Grows shared N { N with sleeps := σ } w v { w with timeline := first }
      { v with timeline := second } :=
  ⟨⟨fun _ _ => id, within⟩, fun _ _ => .inl, Nat.le_refl _, fun _ => ⟨rfl, rfl⟩⟩

/-- A content is used up. -/
theorem claim (N : Names) (w v : EventLoop) (used used' : List Nat) :
    Grows shared N N w v { w with used } { v with used := used' } :=
  ⟨.refl N, fun _ _ => .inl, Nat.le_refl _, fun _ => ⟨rfl, rfl⟩⟩

/-- Contents are numbered. -/
theorem number (N : Names) (w v : EventLoop) (size : Nat) :
    Grows shared N { N with cells := N.cells.extend w.cells v.cells size } w v
      { w with cells := w.cells + size } { v with cells := v.cells + size } where
  within := ⟨fun _ _ => .inl, fun _ _ => id⟩
  fresh a b paired := by
    obtain before | ⟨k, -, rfl, -⟩ := paired
    · exact .inl before
    · exact .inr (Nat.le_add_right _ _)
  cells := Nat.le_add_right _ _
  registry _ := ⟨rfl, rfl⟩

/-- Fragments are handed in. -/
theorem register (isShared : shared = true) (N : Names) (w v : EventLoop)
    (content content' : Nat → Rendering) :
    Grows shared N N w v (w.register content).2 (v.register content').2 :=
  ⟨.refl N, fun _ _ => .inl, Nat.le_refl _, fun apart => absurd (isShared.symm.trans apart) nofun⟩

end Grows

namespace Synced

theorem retime (synced : N.Synced shared w v) (within : N.sleeps.Within σ) {first second : Timeline}
    (paced : σ.Paced first second) : Synced shared { N with sleeps := σ } { w with timeline := first }
      { v with timeline := second } where
  contents := { synced.contents with now := paced.now }
  paced := paced
  registry isShared := (synced.registry isShared).mono ⟨fun _ _ => id, within⟩

theorem claim (synced : N.Synced shared w v) {a b : Nat} (paired : N.cells a b) :
    N.Synced shared { w with used := a :: w.used } { v with used := b :: v.used } :=
  ⟨synced.contents.claim paired, synced.paced, synced.registry⟩

theorem number (synced : N.Synced shared w v) (size : Nat) :
    Synced shared { N with cells := N.cells.extend w.cells v.cells size }
      { w with cells := w.cells + size } { v with cells := v.cells + size } :=
  ⟨synced.contents.number size, synced.paced, fun isShared =>
    (synced.registry isShared).mono ⟨fun _ _ => .inl, fun _ _ => id⟩⟩

theorem register (synced : N.Synced shared w v) (isShared : shared = true)
    {content content' : Nat → Rendering} (contents : ∀ slot, (content slot).Same shared N (content' slot)) :
    N.Synced shared (w.register content).2 (v.register content').2 where
  contents := { synced.contents with }
  paced := synced.paced.later synced.paced.now (Nat.le_refl _) (Nat.le_refl _)
  registry _ := (synced.registry isShared).register (isShared ▸ contents)

end Synced

end

end Names

/-! ### Asking in both runs -/

namespace Rendering

/-- What comes of asking for the same in two runs: the names have grown, the states agree, and what is left
    is the same again. -/
def KeepsUp {α : Type} (shared : Bool) (R : Names → α → α → Prop) (N : Names) (w v : EventLoop)
    (left left' : α × EventLoop) : Prop :=
  ∃ N', N.Grows shared N' w v left.2 left'.2 ∧ N'.Synced shared left.2 left'.2 ∧ R N' left.1 left'.1

variable {shared : Bool}

/-- Going on after something has changed both states. -/
theorem KeepsUp.after {α : Type} {R : Names → α → α → Prop} {N N' : Names} {w w' v v' : EventLoop}
    {left left' : α × EventLoop} (first : N.Grows shared N' w v w' v')
    (rest : KeepsUp shared R N' w' v' left left') : KeepsUp shared R N w v left left' := by
  obtain ⟨N'', grows, synced, same⟩ := rest
  exact ⟨N'', first.trans grows, synced, same⟩

mutual

/-- The same rendering remains so when it is asked in both runs at the same instant. -/
theorem Same.poll : ∀ {N : Names} {r r' : Rendering}, Same shared N r r' → ∀ {w v : EventLoop},
    N.Synced shared w v → KeepsUp shared (Same shared) N w v (r.poll w) (r'.poll v)
  | N, _, _, .done _ markup, w, v, synced => ⟨N, .refl N w v, synced, .done N markup⟩
  | N, _, _, .failed _ error, w, v, synced => ⟨N, .refl N w v, synced, .failed N error⟩
  | N, _, _, .panicked _ message, w, v, synced => ⟨N, .refl N w v, synced, .panicked N message⟩
  | N, _, _, .note event event' onward, w, v, synced =>
    have noted : N.Synced shared (w.note event) (v.note event') :=
      synced.retime (fun _ _ => id) ⟨synced.paced.now, synced.paced.order, synced.paced.known⟩
    .after (.retime (fun _ _ => id) w v _ _) (onward.poll noted)
  | N, .claim cell _, .claim _ _, .claim paired onward, w, v, synced => by
    have same := synced.contents.used paired
    rw [Rendering.poll, Rendering.poll]
    by_cases isUsed : cell ∈ w.used
    · rw [if_pos isUsed, if_pos (same.1 isUsed)]
      exact ⟨N, .refl N w v, synced, .failed N .consumed⟩
    · rw [if_neg isUsed, if_neg (mt same.2 isUsed)]
      exact .after (.claim N w v _ _) (onward.poll (synced.claim paired))
  | N, _, _, .number size onward, w, v, synced => by
    have numbered : ∀ k < size, N.cells.extend w.cells v.cells size (w.cells + k) (v.cells + k) :=
      fun k less => .inr ⟨k, less, rfl, rfl⟩
    have within : N.Within { N with cells := N.cells.extend w.cells v.cells size } :=
      ⟨fun _ _ => .inl, fun _ _ => id⟩
    exact .after (.number N w v size) ((onward within numbered).poll (synced.number size))
  | N, .outstanding next, .outstanding _, .outstanding isShared onward, w, v, synced => by
    rw [Rendering.poll, Rendering.poll, (synced.registry isShared).pending]
    exact (onward _).poll synced
  | N, .register content next, .register content' _, .register isShared contents onward, w, v, synced => by
    rw [Rendering.poll, Rendering.poll, EventLoop.register_fst, EventLoop.register_fst,
      (synced.registry isShared).next]
    exact .after (.register isShared N w v content content')
      ((onward _).poll (synced.register isShared contents))
  | N, .wait pace _, .wait pace' _, .wait paces onward, w, v, synced => by
    obtain ⟨σ, within, paced, polled⟩ := paces.poll synced.paced
    have grown : Names.Grows shared N _ w v _ _ :=
      .retime within w v (pace.poll w.timeline).2 (pace'.poll v.timeline).2
    have synced := synced.retime within paced
    rw [poll_wait, poll_wait]
    generalize (pace.poll w.timeline).1 = left, (pace'.poll v.timeline).1 = left' at polled
    cases polled with
    | none => exact .after grown ((onward.mono grown.within).poll synced)
    | some left => exact ⟨_, grown, synced, .wait left (onward.mono grown.within)⟩
  | N, .race r _ _, .race r' _ _, .race races settled timedOut, w, v, synced => by
    obtain ⟨σ, within, paced, stands⟩ := races.poll synced.paced
    have grown : Names.Grows shared N _ w v _ _ :=
      .retime within w v (r.poll w.timeline).2 (r'.poll v.timeline).2
    have synced := synced.retime within paced
    rw [poll_race, poll_race]
    generalize (r.poll w.timeline).1 = standing, (r'.poll v.timeline).1 = standing' at stands
    cases stands with
    | settled => exact .after grown ((settled.mono grown.within).poll synced)
    | timedOut paces => exact .after grown ((timedOut grown.within paces).poll synced)
    | running races =>
      exact ⟨_, grown, synced, .race races (settled.mono grown.within) fun _ _ _ more paces =>
        timedOut (grown.within.trans more) paces⟩
  | N, .join parts _, .join parts' _, .join same onward, w, v, synced => by
    obtain ⟨N', grows, synced, kept⟩ := same.pollAll (isPrompt parts.length) true synced
    -- What is left of the groups stands the same way.
    rw [poll_join, poll_join, ← same.endsLike.length_eq, ← verdict_of_endsLike kept.endsLike]
    cases verdict (Rendering.pollAll (isPrompt parts.length) true parts w).1 with
    | complete texts => exact .after grows (((onward texts).mono grows.within).poll synced)
    | failed error => exact ⟨N', grows, synced, .failed N' error⟩
    | panicked message => exact ⟨N', grows, synced, .panicked N' message⟩
    | waiting => exact ⟨N', grows, synced, .join kept fun texts => (onward texts).mono grows.within⟩
  | N, .attempt body _, .attempt body' _, .attempt same onward, w, v, synced => by
    obtain ⟨N', grows, synced, kept⟩ := same.poll synced
    have onward := fun result => (onward result).mono grows.within
    obtain ⟨waits, waits'⟩ | ⟨ended, alike⟩ := kept.endsLike
    · rw [poll_attempt_of_waits waits, poll_attempt_of_waits waits']
      exact ⟨N', grows, synced, .attempt kept onward⟩
    · rw [poll_attempt, poll_attempt, ← alike]
      generalize (body.poll w).1 = left at ended
      cases left with
      | done markup => exact .after grows ((onward (.ok markup)).poll synced)
      | failed error => exact .after grows ((onward (.error error)).poll synced)
      | panicked message => exact ⟨N', grows, synced, .panicked N' message⟩
      | _ => cases ended

/-- The same siblings remain so when both groups are asked. -/
theorem SameAll.pollAll : ∀ {N : Names} {parts parts' : List Rendering}, SameAll shared N parts parts' →
    ∀ (prompt settled : Bool) {w v : EventLoop}, N.Synced shared w v →
      KeepsUp shared (SameAll shared) N w v (pollAll prompt settled parts w)
        (pollAll prompt settled parts' v)
  | N, _, _, .nil _, _, _, w, v, synced => ⟨N, .refl N w v, synced, .nil N⟩
  | N, part :: rest, part' :: rest', .cons first others, prompt, settled, w, v, synced => by
    obtain ⟨N', grows, synced, kept⟩ := first.poll synced
    have others := others.mono grows.within
    rw [pollAll_cons, pollAll_cons, ← kept.endsLike.endsGroup_eq, ← kept.endsLike.isDone_eq]
    cases (part.poll w).1.endsGroup prompt settled with
    | true => exact ⟨N', grows, synced, .cons kept others⟩
    | false =>
      obtain ⟨N'', grows', synced, others⟩ :=
        others.pollAll prompt (settled && (part.poll w).1.isDone) synced
      exact ⟨N'', grows.trans grows', synced, .cons (kept.mono grows'.within) others⟩

end

end Rendering

end ProgressiveHtml
