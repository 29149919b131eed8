import Mathlib.Data.List.Forall2

namespace ProgressiveHtml

/-!
# Lists — related position by position

Also options, which are lists with at most one position.

* `forall₂_middle`, `forall₂_mem_left`, `forall₂_mem_right` — what stands beside a member;
* `forall₂_getElem?` — what stands beside a member at a position;
* `forall₂_congr_of_notMem` — relations that differ for some members only;
* `rel_some_left`, `rel_none_left` — what stands beside an option.
-/

/-- A list beside one with a piece in the middle has something beside this piece. -/
theorem forall₂_middle {α β : Type} {R : α → β → Prop} {l : List α} {before after : List β} {b : β}
    (related : List.Forall₂ R l (before ++ b :: after)) :
    ∃ first a rest, l = first ++ a :: rest ∧ List.Forall₂ R first before ∧ R a b ∧
      List.Forall₂ R rest after := by
  have last := List.forall₂_drop_append _ _ _ related
  obtain ⟨a, rest, here, last, split⟩ := List.forall₂_cons_right_iff.1 last
  refine ⟨_, a, rest, ?_, List.forall₂_take_append _ _ _ related, here, last⟩
  rw [← split, List.take_append_drop]

/-- Related lists stay related when what relates them changes for some of their members only. -/
theorem forall₂_congr_of_notMem {α β : Type} {R S : α → β → Prop} {l : List α} {u : List β} {x : α}
    (related : List.Forall₂ R l u) (absent : x ∉ l) (onward : ∀ a b, a ≠ x → R a b → S a b) :
    List.Forall₂ S l u := by
  have both : List.Forall₂ (fun a b => a ≠ x ∧ R a b) l u :=
    (List.forall₂_and_left l u).2 ⟨fun a member same => absent (same ▸ member), related⟩
  exact both.imp fun a b ⟨other, here⟩ => onward a b other here

/-- Every member of the first list has something beside it. -/
theorem forall₂_mem_left {α β : Type} {R : α → β → Prop} {l : List α} {u : List β}
    (related : List.Forall₂ R l u) {a : α} (member : a ∈ l) : ∃ b ∈ u, R a b := by
  induction related with
  | nil => cases member
  | cons here _ ih =>
    obtain rfl | member := List.mem_cons.1 member
    · exact ⟨_, List.mem_cons_self, here⟩
    · obtain ⟨b, isLater, beside⟩ := ih member
      exact ⟨b, List.mem_cons_of_mem _ isLater, beside⟩

/-- Every member of the second list has something beside it. -/
theorem forall₂_mem_right {α β : Type} {R : α → β → Prop} {l : List α} {u : List β}
    (related : List.Forall₂ R l u) {b : β} (member : b ∈ u) : ∃ a ∈ l, R a b := by
  obtain ⟨a, isMember, here⟩ := forall₂_mem_left related.flip member
  exact ⟨a, isMember, here⟩

/-- Related lists are related position by position. -/
theorem forall₂_getElem? {α β : Type} {R : α → β → Prop} {l : List α} {u : List β}
    (related : List.Forall₂ R l u) {i : Nat} {b : β} (found : u[i]? = some b) :
    ∃ a, l[i]? = some a ∧ R a b := by
  induction related generalizing i with
  | nil => simp at found
  | cons here _ ih =>
    cases i with
    | zero =>
      obtain rfl := Option.some.inj found
      exact ⟨_, rfl, here⟩
    | succ i => exact ih found

/-- Beside something stands something. -/
theorem rel_some_left {α β : Type} {R : α → β → Prop} {a : α} {b? : Option β}
    (related : Option.Rel R (some a) b?) : ∃ b, b? = some b ∧ R a b := by
  cases related with
  | some here => exact ⟨_, rfl, here⟩

/-- Beside nothing stands nothing. -/
theorem rel_none_left {α β : Type} {R : α → β → Prop} {b? : Option β}
    (related : Option.Rel R none b?) : b? = none := by
  cases related
  rfl

end ProgressiveHtml
