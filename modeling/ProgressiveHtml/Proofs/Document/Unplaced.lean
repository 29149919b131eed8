import ProgressiveHtml.Document
import ProgressiveHtml.Proofs.Node.Calls
import ProgressiveHtml.Proofs.Reader.Run

namespace ProgressiveHtml

/-!
# Documents — a patch without a placeholder

A fragment that is late is handed in before its fallback is rendered.  If the fallback fails then, the
failure is all that stands in the document, but the fragment is on its way and its patch will come.

* `Fragment.FailsLate` — the fallback of a late fragment failed;
* `Node.failed_defer` — what a call of a deferrable node that fails has handed in;
* `Document.writes_unplaced_patch` — a document with a patch for which there is no placeholder.
-/

open Rendering

/-- The timer of a fragment was first, and after the fragment had been handed in its fallback failed. -/
def Fragment.FailsLate (f : Fragment) (fallback : Rendering) (handed : List Registration)
    (error : RenderError) : Prop :=
  ∃ (pace : Pace) (later : List Registration) (v v' w : EventLoop), pace.label = f.label ∧
    handed = v.registration (f.late pace) :: later ∧ Call fallback v' later (.failed error) w

/-- A call of a deferrable node that fails has handed in the fragment of its content exactly if the timer
    was first and then the fallback failed.  Otherwise it was refused and has handed in nothing, or what
    its value shows has failed, and all that was handed in was handed in by that. -/
theorem Node.failed_defer {value : Eventual (Except Chain String)} {render : String → Built}
    {fallback : Built} {onError : Option (Chain → Built)} {env : Environment} {cell : Nat}
    {handed : List Registration} {error : RenderError} {w w' : EventLoop}
    (call : Call ((Node.defer value render fallback onError).rendering env cell) w handed
      (.failed error) w') :
    let f : Fragment := .ofCallbacks (value.numbered cell) render onError env
    ((∃ given ∈ handed, given.Of cell) ↔ f.FailsLate (fallback.rendering env) handed error) ∧
      (f.FailsLate (fallback.rendering env) handed error ∨ handed = [] ∧ error = .consumed ∨
        ∃ v w, Call (f.settled f.value.result) v handed (.failed error) w) := by
  intro f
  -- A fragment that is handed in late is that of the content, whatever comes of its fallback.
  have late : f.FailsLate (fallback.rendering env) handed error → ∃ given ∈ handed, given.Of cell := by
    rintro ⟨pace, later, v, v', w, same, rfl, -⟩
    exact ⟨_, List.mem_cons_self, Fragment.registration_of (same ▸ rfl) v⟩
  obtain ⟨rfl, refused, -⟩ | ⟨-, -, ends⟩ := Node.call_defer call rfl
  · cases refused
    exact ⟨⟨fun ⟨given, member, _⟩ => absurd member List.not_mem_nil, late⟩, .inr (.inl ⟨rfl, rfl⟩)⟩
  · generalize result : Rendering.failed error = r at ends
    cases ends with
    | panics => cases result
    | @inline _ _ v w settles call others =>
      subst result
      refine ⟨⟨fun ⟨given, member, own⟩ => absurd own (others given member), late⟩, ?_⟩
      exact .inr (.inr ⟨v, w, call⟩)
    | @deferred pace later left v v' w same call isOver others =>
      cases left with
      | failed reason =>
        cases result
        have failsLate : f.FailsLate (fallback.rendering env) (v.registration (f.late pace) :: later)
            error := ⟨pace, later, v, v', w, same, rfl, call⟩
        exact ⟨⟨fun _ => failsLate, late⟩, .inl failsLate⟩
      | done | panicked => cases result
      | _ => cases isOver

namespace Document

/-- A value that settles after 20 ms. -/
def lateText : Eventual (Except Chain String) :=
  { pace := .ofDelays "late" [20] false, result := .ok "late" }

/-- A fallback that fails. -/
def failing : Built := .node (.fail (.failed "down"))

/-- A fragment that is late, with a fallback that fails. -/
def unplaced : Node := .defer lateText (fun text => .node (.text text)) failing none

/-- An environment in which the fragment is deferred after 10 ms. -/
def briefly : Environment := Environment.empty.deferringAfter 10

/-- The call of the fragment fails when its timer rings, after it has been handed in. -/
theorem unplaced_call : ∃ handed w, Call (unplaced.rendering briefly 0) {} handed
    (.failed (.failed "down")) w ∧ (∃ given ∈ handed, given.Of 0) ∧ w.registry.pending = 1 := by
  let ring (w : EventLoop) : EventLoop := { w with timeline := { w.timeline with now := 10 } }
  have onto (w : EventLoop) : w.Onto (ring w) := ⟨List.Subset.refl _, List.prefix_rfl⟩
  refine ⟨_, _, .step (.claim (by simp) _) (.step (.race rfl _ _) (.aside (onto _)
    (.step (.late rfl _ _) (.step (.register _ _ _) (.step (.note _ _ _) (.step (.number _ _ _)
      (.refl _ _))))))), ⟨_, List.mem_cons_self, _, _, rfl, rfl⟩, rfl⟩

end Document

/-- The fallback of a late fragment fails, and the fragment stays handed in. -/
theorem Node.failed_defer_late : ∃ handed w,
    Call (Document.unplaced.rendering Document.briefly 0) {} handed (.failed (.failed "down")) w ∧
      (Fragment.ofCallbacks (Document.lateText.numbered 0) (fun text => .node (.text text)) none
        Document.briefly).FailsLate (Document.failing.rendering Document.briefly) handed
          (.failed "down") := by
  obtain ⟨handed, w, call, given, -⟩ := Document.unplaced_call
  exact ⟨handed, w, call, (Node.failed_defer call).1.1 given⟩

namespace Document

/-- A call fails and leaves its fragment on its way.  A document that goes on after the failure writes
    the patch of the fragment, and no placeholder. -/
theorem writes_unplaced_patch :
    (∃ handed w, Call (unplaced.rendering briefly 0) {} handed (.failed (.failed "down")) w ∧
      (∃ given ∈ handed, given.Of 0) ∧ w.registry.pending = 1) ∧
      ∃ (settings : Settings) (h : List Happening),
        toChunkStream.ReadOut (start settings (.recover unplaced) {}).1
          (start settings (.recover unplaced) {}).2 h ∧
        History.chunks h = [.content (recoveredMarkup (.failed "down")),
          .patch (Markup.slotName 0) (Markup.patch (Markup.slotName 0) "late")] := by
  refine ⟨unplaced_call, ?_⟩
  let settings : Settings :=
    { timeout := 10, requestId := "r"
      template := some (Template.marker bodySlot ++ Template.marker patchesSlot) }
  have read : toChunkStream.readChunks? 2 9 {} (start settings (.recover unplaced) {}).1
      (start settings (.recover unplaced) {}).2 =
        some [.content (recoveredMarkup (.failed "down")),
          .patch (Markup.slotName 0) (Markup.patch (Markup.slotName 0) "late")] := by
    decide +kernel
  obtain ⟨h, readOut, chunks, -⟩ := ChunkStream.readOut_of_readChunks? read
  exact ⟨settings, h, readOut, chunks⟩

end Document

end ProgressiveHtml
