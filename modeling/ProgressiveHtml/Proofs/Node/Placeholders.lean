import ProgressiveHtml.Proofs.Markup.Contains
import ProgressiveHtml.Proofs.Node.Shows

namespace ProgressiveHtml

/-!
# Nodes — where the placeholders are

Whatever a rendering hands in leaves a placeholder in the text to which the rendering comes.

* `Cut.PlacedIn` — a text with the placeholder of a fragment;
* `Node.Shows.placed`, `Deferred.Shows.placed` — fragments that were handed in are placed.
-/

/-- Whether the placeholder of a fragment stands in a text. -/
def Cut.PlacedIn (cut : Cut) (text : String) : Prop :=
  ∃ fallback, Markup.Contains text (Markup.placeholder (Markup.slotName cut.slot) fallback)

theorem Cut.PlacedIn.within {cut : Cut} {text outer : String} (placed : cut.PlacedIn text)
    (contains : Markup.Contains outer text) : cut.PlacedIn outer := by
  obtain ⟨fallback, here⟩ := placed
  exact ⟨fallback, contains.trans here⟩

mutual

/-- The fragments handed in by the rendering of a tree are placed in its text. -/
theorem Node.Shows.placed (node : Node) {env : Environment} {o : Outcome}
    (shows : node.Shows env o) {cut : Cut} (handed : cut ∈ o.cuts) : cut.PlacedIn o.text := by
  cases node with
  | empty | markup | text =>
    obtain rfl := shows
    simp at handed
  | element tag attributes children =>
    obtain ⟨inner, showsAll, rfl⟩ := shows
    obtain ⟨text, member, placed⟩ := Node.ShowsAll.placed children showsAll handed
    exact placed.within ((Markup.Contains.refl text).element member tag attributes)
  | group children =>
    obtain ⟨inner, showsAll, rfl⟩ := shows
    obtain ⟨text, member, placed⟩ := Node.ShowsAll.placed children showsAll handed
    exact placed.within ((Markup.Contains.refl text).join member)
  | head title children =>
    obtain ⟨inner, showsAll, rfl⟩ := shows
    obtain ⟨text, member, placed⟩ := Node.ShowsAll.placed children showsAll handed
    exact placed.within (((Markup.Contains.refl text).join member).append_left _)
  | provide key value child => exact Node.Shows.placed child shows handed
  | consume key build => exact Built.Shows.placed (build _) shows handed
  | await value content => exact Built.Shows.placed content shows handed
  | defer value render fallback onError =>
    obtain settled | ⟨-, slot, instead, showsInstead, rfl⟩ := Node.shows_defer.1 shows
    · cases result : value.result with
      | ok text =>
        simp only [Deferred.Shows, result] at settled
        exact Built.Shows.placed (render text) settled handed
      | error error =>
        simp only [Deferred.Shows, result] at settled
        cases onError with
        | none =>
          obtain rfl := settled
          simp at handed
        | some build => exact Built.Shows.placed (build error) settled handed
    · -- The placeholder is the text, and the fragments of the fallback stand inside it.
      obtain rfl | ofInstead := Multiset.mem_cons.1 handed
      · exact ⟨instead.text, .refl _⟩
      · have placed := Built.Shows.placed fallback showsInstead ofInstead
        exact placed.within ((Markup.Contains.refl _).placeholder _)
  | fail | panics | again | recover | inspect => exact shows.elim
termination_by structural node

theorem Node.ShowsAll.placed (nodes : List Node) {env : Environment} {inner : List Outcome}
    (shows : Node.ShowsAll nodes env inner) {cut : Cut} (handed : cut ∈ Outcome.allCuts inner) :
    ∃ text ∈ Outcome.texts inner, cut.PlacedIn text := by
  cases nodes with
  | nil =>
    obtain rfl := shows
    simp [Outcome.allCuts] at handed
  | cons node rest =>
    obtain ⟨o, others, here, later, rfl⟩ := shows
    obtain mine | ofOthers :=
      Multiset.mem_add.1 (show cut ∈ o.cuts + Outcome.allCuts others from handed)
    · exact ⟨o.text, List.mem_cons_self, Node.Shows.placed node here mine⟩
    · obtain ⟨text, member, placed⟩ := Node.ShowsAll.placed rest later ofOthers
      exact ⟨text, List.mem_cons_of_mem _ member, placed⟩
termination_by structural nodes

theorem Built.Shows.placed (built : Built) {instead : Option String} {env : Environment}
    {o : Outcome} (shows : built.Shows instead env o) {cut : Cut} (handed : cut ∈ o.cuts) :
    cut.PlacedIn o.text := by
  cases built with
  | node tree => exact Node.Shows.placed tree shows handed
  | panics message =>
    obtain ⟨text, -, rfl⟩ := shows
    simp at handed
termination_by structural built

end

/-- The fragments handed in by the content of a late fragment are placed in its text. -/
theorem Deferred.Shows.placed {d : Deferred} {o : Outcome} (shows : d.Shows o) {cut : Cut}
    (handed : cut ∈ o.cuts) : cut.PlacedIn o.text := by
  obtain ⟨result, render, onError, env⟩ := d
  cases result with
  | ok text => exact Built.Shows.placed (render text) shows handed
  | error error =>
    cases onError with
    | none =>
      obtain rfl := shows
      simp at handed
    | some build => exact Built.Shows.placed (build error) shows handed

end ProgressiveHtml
