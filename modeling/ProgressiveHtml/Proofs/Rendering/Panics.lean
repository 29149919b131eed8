import ProgressiveHtml.Proofs.Rendering.Step

namespace ProgressiveHtml

/-!
# Renderings — that cannot panic

A rendering may panic at some time if it does so when it is asked again and again, whatever happens
meanwhile.  It cannot if nothing in it panics.

* `Rendering.MayPanic` — a rendering that may panic at some time;
* `Rendering.PanicFree`, `Rendering.PanicFree.poll` — a rendering in which nothing panics, and asking it.
-/

namespace Rendering

/-- A rendering may panic when it is asked to go on again and again. -/
inductive MayPanic : Rendering → Prop
  | panicked (message : String) : MayPanic (.panicked message)
  | poll {r : Rendering} (w : EventLoop) (later : MayPanic (r.poll w).1) : MayPanic r

/-- A rendering in which nothing panics, whatever comes of what it asks.  The late fragments that it hands in
    may panic on their own. -/
inductive PanicFree : Rendering → Prop
  | done (markup : String) : PanicFree (.done markup)
  | failed (error : RenderError) : PanicFree (.failed error)
  | note (event : Event) {next : Rendering} (onward : PanicFree next) : PanicFree (.note event next)
  | claim (cell : Nat) {next : Rendering} (onward : PanicFree next) : PanicFree (.claim cell next)
  | number (size : Nat) {next : Nat → Rendering} (onward : ∀ first, PanicFree (next first)) :
      PanicFree (.number size next)
  | outstanding {next : Nat → Rendering} (onward : ∀ count, PanicFree (next count)) :
      PanicFree (.outstanding next)
  | register (content : Nat → Rendering) {next : Nat → Rendering} (onward : ∀ slot, PanicFree (next slot)) :
      PanicFree (.register content next)
  | wait (pace : Pace) {next : Rendering} (onward : PanicFree next) : PanicFree (.wait pace next)
  | race (r : Race) {inTime : Rendering} {late : Pace → Rendering} (settled : PanicFree inTime)
      (timedOut : ∀ pace, PanicFree (late pace)) : PanicFree (.race r inTime late)
  | join {parts : List Rendering} {next : List String → Rendering} (all : ∀ part ∈ parts, PanicFree part)
      (onward : ∀ texts, PanicFree (next texts)) : PanicFree (.join parts next)
  | attempt {body : Rendering} {next : Except RenderError String → Rendering} (free : PanicFree body)
      (onward : ∀ result, PanicFree (next result)) : PanicFree (.attempt body next)

/-- Siblings panic only if one of them does. -/
theorem mem_of_verdictFrom {prompt settled : Bool} {parts : List Rendering} {message : String}
    (panics : verdictFrom prompt settled parts = .panicked message) : .panicked message ∈ parts := by
  fun_induction verdictFrom prompt settled parts with
  | case1 | case2 | case4 | case6 => cases panics
  | case3 =>
    cases panics
    exact List.mem_cons_self
  | case5 _ _ _ _ ih | case7 _ _ _ _ ih | case8 _ _ _ _ _ _ ih =>
    exact List.mem_cons_of_mem _ (ih panics)

/-- What is left after a step does not panic either. -/
theorem PanicFree.step {r r' : Rendering} {w w' : EventLoop} {handed : List Registration}
    (free : PanicFree r) (step : Step r w handed r' w') : PanicFree r' := by
  induction step with
  | refuse | failPart => exact .failed _
  | note =>
    cases free with
    | note _ onward => exact onward
  | claim =>
    cases free with
    | claim _ onward => exact onward
  | number =>
    cases free with
    | number _ onward => exact onward _
  | outstanding =>
    cases free with
    | outstanding onward => exact onward _
  | register =>
    cases free with
    | register _ onward => exact onward _
  | wait =>
    cases free with
    | wait _ onward => exact .wait _ onward
  | settle =>
    cases free with
    | wait _ onward => exact onward
  | race =>
    cases free with
    | race _ settled timedOut => exact .race _ settled timedOut
  | inTime =>
    cases free with
    | race _ settled _ => exact settled
  | late =>
    cases free with
    | race _ _ timedOut => exact timedOut _
  | part _ before after _ ih =>
    cases free with
    | join all onward =>
      simp only [List.forall_mem_append, List.forall_mem_cons] at all
      refine .join ?_ onward
      simp only [List.forall_mem_append, List.forall_mem_cons]
      exact ⟨all.1, ih all.2.1, all.2.2⟩
  | complete =>
    cases free with
    | join _ onward => exact onward _
  | panicPart stands =>
    cases free with
    | join all _ => cases all _ (mem_of_verdictFrom stands)
  | body _ _ ih =>
    cases free with
    | attempt free onward => exact .attempt (ih free) onward
  | succeed | recover =>
    cases free with
    | attempt _ onward => exact onward _
  | panicBody =>
    cases free with
    | attempt free _ => cases free

/-- Nor does what is left when it is asked. -/
theorem PanicFree.poll {r : Rendering} (free : PanicFree r) (w : EventLoop) : PanicFree (r.poll w).1 := by
  obtain ⟨handed, steps⟩ := r.poll_steps w
  generalize (r.poll w).2 = w', (r.poll w).1 = left at steps
  induction steps with
  | refl => exact free
  | head step _ ih => exact ih (free.step step)

/-- A rendering in which nothing panics cannot panic at any time. -/
theorem PanicFree.not_mayPanic {r : Rendering} (free : PanicFree r) : ¬r.MayPanic := by
  intro may
  induction may with
  | panicked => cases free
  | poll w _ ih => exact ih (free.poll w)

end Rendering

end ProgressiveHtml
