import ProgressiveHtml.Proofs.Template.Reference

namespace ProgressiveHtml

/-!
# Sources — coming to the same whenever they are asked

Most sources come to the same in whatever states they are asked, as long as time goes on: a text, a value
that settles sooner or later, a supply of items.

* `Endless` — times that pass every limit;
* `Source.Computes` — the sources that always come to the same;
* `Source.ofEventual_computes`, `Supply.computes` — eventual values and supplies do, unless they are made to
  wait for ever.
-/

/-- Times that pass every limit in the end. -/
def Endless (times : Nat → Nat) : Prop := ∀ limit, ∃ n, ∀ m, n ≤ m → limit ≤ times m

theorem Endless.tail {times : Nat → Nat} (endless : Endless times) :
    Endless fun n => times (n + 1) := by
  intro limit
  obtain ⟨n, passed⟩ := endless limit
  exact ⟨n, fun m later => passed (m + 1) (Nat.le_succ_of_le later)⟩

/-- A source comes to the same in whatever states it is asked, as long as time goes on. -/
def Source.Computes (source : Source) (yield : Yield) : Prop :=
  ∀ states : Nat → EventLoop, Endless (fun n => (states n).now) →
    ∃ count, source.YieldsIn states yield count

/-! ### Sources that settle in a time of their own -/

namespace Sleep

/-- A sleep is over in the end when it is asked at the given times. -/
inductive EndsAlong : (Nat → Nat) → Sleep → Prop
  | ask {times : Nat → Nat} {s : Sleep}
      (next : ∀ t left, t.now = times 0 → (s.poll t).1 = some left →
        EndsAlong (fun n => times (n + 1)) left) : EndsAlong times s

theorem running_endsAlong {alarm : Alarm} {n : Nat} {times : Nat → Nat}
    (passed : alarm.deadline ≤ times n) : (running alarm).EndsAlong times := by
  induction n generalizing times with
  | zero =>
    refine .ask fun t left now asked => ?_
    simp [poll, now, passed] at asked
  | succ n ih =>
    refine .ask fun t left now asked => ?_
    by_cases ended : alarm.deadline ≤ t.now
    · simp [poll, ended] at asked
    · obtain rfl : running alarm = left := by simpa [poll, ended] using asked
      exact ih passed

/-- Every sleep is over in the end if time goes on. -/
theorem endsAlong (s : Sleep) {times : Nat → Nat} (endless : Endless times) : s.EndsAlong times := by
  have runs (alarm : Alarm) {times : Nat → Nat} (endless : Endless times) :
      (running alarm).EndsAlong times := by
    obtain ⟨n, passed⟩ := endless alarm.deadline
    exact running_endsAlong (passed n (Nat.le_refl n))
  match s with
  | running alarm => exact runs alarm endless
  | idle 0 => exact .ask fun t left _ asked => by cases asked
  | idle (length + 1) =>
    refine .ask fun t left _ asked => ?_
    obtain rfl := Option.some.inj asked
    exact runs _ endless.tail

/-- Asking does not make sleeps more. -/
theorem pollAll_length_le (sleeps : List Sleep) (t : Timeline) :
    (pollAll sleeps t).1.length ≤ sleeps.length := by
  induction sleeps generalizing t with
  | nil => exact Nat.le_refl _
  | cons s rest ih =>
    rw [pollAll]
    split
    · exact Nat.le_succ_of_le (ih _)
    · exact Nat.le_refl _

/-- Of several sleeps the first is over, or it is the one that is waited for. -/
theorem pollAll_cons_cases (s : Sleep) (rest : List Sleep) (t : Timeline) :
    (pollAll (s :: rest) t).1.length ≤ rest.length ∨
      ∃ left, (s.poll t).1 = some left ∧ (pollAll (s :: rest) t).1 = left :: rest := by
  rw [pollAll]
  split <;> rename_i asked
  · exact .inl (pollAll_length_le rest _)
  · rw [asked]
    exact .inr ⟨_, rfl, rfl⟩

end Sleep

/-- A value that is asked and does not settle waits for one of its sleeps. -/
theorem Pace.poll_sleeps {p left : Pace} {t : Timeline} (settles : p.never = false)
    (asked : (p.poll t).1 = some left) :
    left.never = false ∧ left.sleeps = (Sleep.pollAll p.sleeps (p.begin t)).1 ∧
      left.sleeps ≠ [] := by
  unfold poll at asked
  split at asked <;> rename_i sleeps
  · simp [settles] at asked
  · rename_i some
    obtain rfl := Option.some.inj asked
    exact ⟨settles, by rw [sleeps], fun none => some none⟩

namespace Rendering

variable {next : Rendering}

/-- Asking a rendering that waits for a value and is over once the value is there. -/
theorem wait_poll (ended : next.isOver = true) (pace : Pace) (w : EventLoop) :
    ((wait pace next).poll w).1 = next ∨
      ∃ left, (pace.poll w.timeline).1 = some left ∧ ((wait pace next).poll w).1 = wait left next := by
  rw [poll]
  split <;> rename_i asked
  · rw [poll_of_isOver ended]
    exact .inl rfl
  · rw [asked]
    exact .inr ⟨_, rfl, rfl⟩

/-- Waiting for a value that settles comes to what is there then, if time goes on. -/
theorem wait_endsIn (ended : next.isOver = true) {result : Except RenderError String}
    (there : ∀ states, next.EndsIn states result 0) {pace : Pace} (settles : pace.never = false)
    {states : Nat → EventLoop} (endless : Endless fun n => (states n).now) :
    ∃ count, (wait pace next).EndsIn states result count := by
  induction length : pace.sleeps.length using Nat.strongRecOn generalizing pace states with
  | ind count ih =>
  match sleeps : pace.sleeps with
  | [] =>
    obtain same | ⟨left, asked, -⟩ := wait_poll ended pace (states 0)
    · exact ⟨1, .ask (by rw [same]; exact there _)⟩
    · obtain ⟨-, same, some⟩ := Pace.poll_sleeps settles asked
      rw [sleeps] at same
      exact absurd same some
  | s :: rest =>
    -- How the first sleep ends carries the induction as long as it is waited for.
    obtain ⟨times, isTimes⟩ : ∃ times, times = fun n => (states n).now := ⟨_, rfl⟩
    have ends := s.endsAlong (isTimes ▸ endless)
    induction ends generalizing pace states with
    | @ask times s _ asleep =>
      obtain same | ⟨left, asked, same⟩ := wait_poll ended pace (states 0)
      · exact ⟨1, .ask (by rw [same]; exact there _)⟩
      · obtain ⟨settles, sleepsLeft, -⟩ := Pace.poll_sleeps settles asked
        rw [sleeps] at sleepsLeft
        have later : ∃ count, (wait left next).EndsIn (fun n => states (n + 1)) result count := by
          obtain fewer | ⟨s', asked, still⟩ :=
            Sleep.pollAll_cons_cases s rest (pace.begin (states 0).timeline)
          · refine ih _ ?_ settles endless.tail rfl
            rw [sleepsLeft, ← length, sleeps, List.length_cons]
            omega
          · have now : (pace.begin (states 0).timeline).now = times 0 := by
              rw [pace.begin_now, isTimes]
              rfl
            refine asleep _ s' now asked settles endless.tail ?_ (sleepsLeft.trans still) ?_
            · rw [sleepsLeft, still, ← length, sleeps, List.length_cons, List.length_cons]
            · rw [isTimes]
        obtain ⟨count, later⟩ := later
        exact ⟨count + 1, .ask (by rw [same]; exact later)⟩

end Rendering

section eventual

variable {value : Eventual (Except RenderError String)}

/-- A value as a source is waited for, and then its result is there. -/
theorem Source.ofEventual_eq (calm : value.panic? = none) :
    ∃ next : Rendering, Source.ofEventual value = .rendering (.wait value.pace next) ∧
      next.isOver = true ∧ (∀ message, next ≠ .panicked message) ∧
      ∀ states, next.EndsIn states value.result 0 := by
  unfold ofEventual Eventual.conclude
  rw [calm]
  rcases value.result with error | markup
  · exact ⟨.failed error, rfl, rfl, nofun, fun states => .failed states error⟩
  · exact ⟨.done markup, rfl, rfl, nofun, fun states => .done states markup⟩

/-- An eventual value that settles without a panic comes to its result, however long it takes. -/
theorem Source.ofEventual_computes (calm : value.panic? = none) (settles : value.pace.never = false) :
    (Source.ofEventual value).Computes (.result value.result) := by
  intro states endless
  obtain ⟨next, same, ended, -, there⟩ := Source.ofEventual_eq calm
  obtain ⟨count, ends⟩ := Rendering.wait_endsIn ended there settles endless
  exact ⟨count, same ▸ .rendering ends⟩

end eventual

namespace Supply

variable {s s' : Supply} {t : Timeline}

/-- Asking a supply that has an item to come: the item is there, or its sleep goes on. -/
theorem poll_cons {sleep : Sleep} {item : Item} {rest : List (Sleep × Item)}
    (items : s.items = (sleep, item) :: rest) (t : Timeline) :
    ((s.poll t).1 = .item item ∧ (s.poll t).2.1.items = rest ∧ (s.poll t).2.1.never = s.never) ∨
    ∃ left, (sleep.poll (s.ask t)).1 = some left ∧ (s.poll t).1 = .waiting ∧
      (s.poll t).2.1.items = (left, item) :: rest ∧ (s.poll t).2.1.never = s.never := by
  unfold poll
  rw [items]
  dsimp only
  split <;> rename_i asked
  · exact .inl ⟨rfl, rfl, rfl⟩
  · rw [asked]
    exact .inr ⟨_, rfl, rfl, rfl, rfl⟩

/-- A supply that does not wait for ever brings its items, up to the first error, if time goes on. -/
theorem bringsIn (ends : s.never = false) {states : Nat → EventLoop}
    (endless : Endless fun n => (states n).now) :
    ∃ count, (Sequence.supply s).BringsIn states (Item.upToError (s.items.map (·.2))) count := by
  induction length : s.items.length using Nat.strongRecOn generalizing s states with
  | ind count ih =>
  match items : s.items with
  | [] =>
    have answer : ((Sequence.supply s).poll (states 0)).1 = .finished := by
      simp [Sequence.poll, poll, items, ends]
    exact ⟨1, .finished (Prod.ext answer rfl)⟩
  | (sleep, item) :: rest =>
    -- How the sleep before the next item ends carries the induction until the item is there.
    obtain ⟨times, isTimes⟩ : ∃ times, times = fun n => (states n).now := ⟨_, rfl⟩
    have asleep := sleep.endsAlong (isTimes ▸ endless)
    induction asleep generalizing s states with
    | @ask times sleep _ ihSleep =>
      obtain ⟨answer, left, never⟩ | ⟨later, asked, answer, left, never⟩ :=
        poll_cons items (states 0).timeline
      · have polled : (Sequence.supply s).poll (states 0) = (.item item, _, _) := Prod.ext answer rfl
        match item with
        | .error error => exact ⟨1, .error polled⟩
        | .ok chunk =>
          have fewer : (s.poll (states 0).timeline).2.1.items.length < count := by
            rw [left, ← length, items, List.length_cons]
            omega
          obtain ⟨count, behind⟩ := ih _ fewer (never.trans ends) endless.tail rfl
          rw [left] at behind
          exact ⟨count + 1, .chunk polled behind⟩
      · have now : (s.ask (states 0).timeline).now = times 0 := by
          rw [s.ask_now, isTimes]
          rfl
        have polled : (Sequence.supply s).poll (states 0) = (.waiting, _, _) := Prod.ext answer rfl
        have same : (s.poll (states 0).timeline).2.1.items.length = count := by
          rw [left, ← length, items, List.length_cons, List.length_cons]
        obtain ⟨count, behind⟩ :=
          ihSleep _ later now asked (never.trans ends) endless.tail same left (by rw [isTimes])
        exact ⟨count + 1, .waiting polled behind⟩

/-- A supply that does not wait for ever comes to its items, however long they take. -/
theorem computes (ends : s.never = false) :
    (Source.sequence (.supply s)).Computes (.items (Item.upToError (s.items.map (·.2)))) := by
  intro states endless
  obtain ⟨count, comes⟩ := bringsIn ends endless
  exact ⟨count, .sequence comes⟩

end Supply

end ProgressiveHtml
