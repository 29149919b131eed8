import Mathlib.Data.List.Nodup
import ProgressiveHtml.Proofs.Node.Parts

namespace ProgressiveHtml

/-!
# Nodes — the page while patches come

A patch takes its content to where its placeholder stands on the page.  The placeholder goes, and the
fallback in it goes with it, with all placeholders that stand in the fallback.  A patch that finds
no placeholder changes nothing.

* `Part.relocate`, `Part.page` — what one patch does, and the page once some have come;
* `Part.placeholders` — the placeholders on a page;
* `Part.ways`, `Part.Clear` — the ways to a placeholder, and those that are clear;
* `Part.mem_placeholders_page` — what stands on the page are the placeholders with a clear way.
-/

/-- A step on the way to a placeholder: into the fallback of another one, or into the content that is
    to take the place of another one. -/
inductive Inward where
  | fallback (slot : Nat)
  | content (slot : Nat)
  deriving DecidableEq

namespace Part

/-! ### Patches and the page -/

mutual

/-- A patch comes: its content takes the place of its placeholder. -/
def relocate (slot : Nat) : Part → List Part
  | text written => [text written]
  | cut other fallback content =>
    if other = slot then content else [cut other (relocateAll slot fallback) content]

/-- A patch comes to all parts. -/
def relocateAll (slot : Nat) : List Part → List Part
  | [] => []
  | part :: rest => part.relocate slot ++ relocateAll slot rest

end

/-- The page once the patches of some slots have come, in their order. -/
def page (parts : List Part) (arrived : List Nat) : List Part :=
  arrived.foldl (fun page slot => relocateAll slot page) parts

mutual

/-- The slots whose placeholders stand on the page. -/
def placeholders : Part → List Nat
  | text _ => []
  | cut slot fallback _ => slot :: placeholdersAll fallback

/-- The slots whose placeholders stand in all parts. -/
def placeholdersAll : List Part → List Nat
  | [] => []
  | part :: rest => part.placeholders ++ placeholdersAll rest

end

section

variable (slot : Nat) (parts more : List Part) (arrived : List Nat)

theorem relocateAll_append :
    relocateAll slot (parts ++ more) = relocateAll slot parts ++ relocateAll slot more := by
  induction parts with
  | nil => rfl
  | cons part rest ih => simp [relocateAll, ih]

theorem placeholdersAll_append :
    placeholdersAll (parts ++ more) = placeholdersAll parts ++ placeholdersAll more := by
  induction parts with
  | nil => rfl
  | cons part rest ih => simp [placeholdersAll, ih]

@[simp] theorem page_nil : page [] arrived = [] := by
  induction arrived with
  | nil => rfl
  | cons slot rest ih => exact ih

theorem page_append : page (parts ++ more) arrived = page parts arrived ++ page more arrived := by
  induction arrived generalizing parts more with
  | nil => rfl
  | cons slot rest ih =>
    show page (relocateAll slot (parts ++ more)) rest = _
    rw [relocateAll_append, ih]
    rfl

/-- Text stays on the page. -/
@[simp] theorem page_text (written : String) : page [text written] arrived = [text written] := by
  induction arrived with
  | nil => rfl
  | cons slot rest ih => exact ih

variable {slot arrived}

/-- Until its patch comes a placeholder stays, and patches come to its fallback. -/
theorem page_cut_of_notMem (fallback content : List Part) (absent : slot ∉ arrived) :
    page [cut slot fallback content] arrived = [cut slot (page fallback arrived) content] := by
  induction arrived generalizing fallback with
  | nil => rfl
  | cons first rest ih =>
    rw [List.mem_cons, not_or] at absent
    obtain ⟨other, later⟩ := absent
    have stays : relocateAll first [cut slot fallback content] =
        [cut slot (relocateAll first fallback) content] := by
      simp [relocateAll, relocate, other]
    show page (relocateAll first [cut slot fallback content]) rest = _
    rw [stays, ih _ later]
    rfl

/-- Once its patch has come the content is on the page, and later patches come to it. -/
theorem page_cut (fallback content : List Part) {before : List Nat} (first : slot ∉ before)
    (after : List Nat) :
    page [cut slot fallback content] (before ++ slot :: after) = page content after := by
  have waits := page_cut_of_notMem fallback content first
  have comes : relocateAll slot [cut slot (page fallback before) content] = content := by
    simp [relocateAll, relocate]
  unfold page at waits ⊢
  rw [List.foldl_append, waits, List.foldl_cons]
  exact congrArg (page · after) comes

end

/-! ### Ways to the placeholders -/

mutual

/-- All placeholders of a part, those in what is cut out included, with the ways to them. -/
def ways : Part → List (List Inward × Nat)
  | text _ => []
  | cut slot fallback content =>
    ([], slot) :: ((waysAll content).map (Prod.map (.content slot :: ·) id) ++
      (waysAll fallback).map (Prod.map (.fallback slot :: ·) id))

/-- All placeholders of all parts, with the ways to them. -/
def waysAll : List Part → List (List Inward × Nat)
  | [] => []
  | part :: rest => part.ways ++ waysAll rest

end

mutual

/-- There is one placeholder for every patch. -/
theorem map_snd_ways (part : Part) : part.ways.map Prod.snd = part.patches.map Prod.fst := by
  cases part with
  | text written => rfl
  | cut slot fallback content =>
    have inContent := map_snd_waysAll content
    have inFallback := map_snd_waysAll fallback
    simp [ways, patches, ← inContent, ← inFallback, Function.comp_def]
termination_by structural part

theorem map_snd_waysAll (parts : List Part) :
    (waysAll parts).map Prod.snd = (patchesAll parts).map Prod.fst := by
  cases parts with
  | nil => rfl
  | cons part rest =>
    rw [waysAll, patchesAll, List.map_append, List.map_append, map_snd_ways part,
      map_snd_waysAll rest]
termination_by structural parts

end

/-- Where all slots are different there is one way to each placeholder. -/
theorem way_unique {parts : List Part} (distinct : ((patchesAll parts).map Prod.fst).Nodup)
    {slot : Nat} (cutOut : slot ∈ (patchesAll parts).map Prod.fst) :
    ∃ way, ∀ other, (other, slot) ∈ waysAll parts ↔ other = way := by
  rw [← map_snd_waysAll] at distinct cutOut
  obtain ⟨⟨way, _⟩, here, rfl⟩ := List.mem_map.1 cutOut
  refine ⟨way, fun other => ⟨fun there => ?_, fun same => same ▸ here⟩⟩
  exact congrArg Prod.fst (List.inj_on_of_nodup_map distinct there here rfl)

/-- Whether the way to the placeholder of a slot is clear once some patches have come: the contents on
    the way have come, one after the other, and nothing has come since then that takes the place of
    a fallback on the way, or of the placeholder itself. -/
def Clear : List Inward → (slot : Nat) → (arrived : List Nat) → Prop
  | [], slot, arrived => slot ∉ arrived
  | .fallback other :: rest, slot, arrived => other ∉ arrived ∧ Clear rest slot arrived
  | .content other :: rest, slot, arrived =>
    ∃ before after, arrived = before ++ other :: after ∧ other ∉ before ∧ Clear rest slot after

/-- Behind the first place of a member a list goes on in one way only. -/
theorem first_place_unique {α : Type} {before after before' after' : List α} {a : α}
    (same : before ++ a :: after = before' ++ a :: after') (first : a ∉ before)
    (first' : a ∉ before') : after = after' := by
  induction before generalizing before' with
  | nil =>
    cases before' with
    | nil => exact (List.cons.inj same).2
    | cons b rest => exact absurd ((List.cons.inj same).1 ▸ List.mem_cons_self) first'
  | cons b rest ih =>
    cases before' with
    | nil => exact absurd ((List.cons.inj same).1 ▸ List.mem_cons_self) first
    | cons b' rest' =>
      exact ih (List.cons.inj same).2 (fun later => first (List.mem_cons_of_mem _ later))
        (fun later => first' (List.mem_cons_of_mem _ later))

/-- A way into what comes with the first patch of a slot is clear if it is clear since then. -/
theorem clear_content {slot other : Nat} {rest : List Inward} {before : List Nat}
    (first : other ∉ before) (after : List Nat) :
    Clear (.content other :: rest) slot (before ++ other :: after) ↔ Clear rest slot after := by
  constructor
  · rintro ⟨before', after', same, first', clear⟩
    exact first_place_unique same first first' ▸ clear
  · exact fun clear => ⟨before, after, rfl, first, clear⟩

mutual

/-- What stands on the page are the placeholders to which there is a clear way. -/
theorem mem_placeholders_page_one (part : Part) (slot : Nat) (arrived : List Nat) :
    slot ∈ placeholdersAll (page [part] arrived) ↔
      ∃ way, (way, slot) ∈ part.ways ∧ Clear way slot arrived := by
  cases part with
  | text written => simp [placeholdersAll, placeholders, ways]
  | cut other fallback content =>
    by_cases come : other ∈ arrived
    · -- The content is on the page, and all that stood in its place is gone.
      obtain ⟨before, after, rfl, first⟩ := List.eq_append_cons_of_mem come
      rw [page_cut fallback content first, mem_placeholders_page content slot after]
      constructor
      · rintro ⟨way, isWay, clear⟩
        refine ⟨.content other :: way, ?_, (clear_content first after).2 clear⟩
        simpa [ways] using isWay
      · rintro ⟨way, isWay, clear⟩
        simp only [ways, List.mem_cons, List.mem_append, List.mem_map] at isWay
        obtain same | ⟨⟨rest, _⟩, isWay, same⟩ | ⟨⟨rest, _⟩, isWay, same⟩ := isWay
        · obtain ⟨rfl, rfl⟩ := Prod.mk.inj same
          exact absurd come clear
        · obtain ⟨rfl, rfl⟩ := Prod.mk.inj same
          exact ⟨rest, isWay, (clear_content first after).1 clear⟩
        · obtain ⟨rfl, rfl⟩ := Prod.mk.inj same
          exact absurd come clear.1
    · -- The placeholder and its fallback are on the page.
      have inFallback := mem_placeholders_page fallback slot arrived
      rw [page_cut_of_notMem fallback content come]
      simp only [placeholdersAll, placeholders, List.append_nil, List.mem_cons, inFallback]
      constructor
      · rintro (rfl | ⟨way, isWay, clear⟩)
        · exact ⟨[], by simp [ways], come⟩
        · refine ⟨.fallback other :: way, ?_, come, clear⟩
          simpa [ways] using isWay
      · rintro ⟨way, isWay, clear⟩
        simp only [ways, List.mem_cons, List.mem_append, List.mem_map] at isWay
        obtain same | ⟨⟨rest, _⟩, isWay, same⟩ | ⟨⟨rest, _⟩, isWay, same⟩ := isWay
        · exact .inl (Prod.mk.inj same).2
        · obtain ⟨rfl, rfl⟩ := Prod.mk.inj same
          obtain ⟨before, after, rfl, -⟩ := clear
          exact absurd (by simp) come
        · obtain ⟨rfl, rfl⟩ := Prod.mk.inj same
          exact .inr ⟨rest, isWay, clear.2⟩
termination_by structural part

@[inherit_doc mem_placeholders_page_one]
theorem mem_placeholders_page (parts : List Part) (slot : Nat) (arrived : List Nat) :
    slot ∈ placeholdersAll (page parts arrived) ↔
      ∃ way, (way, slot) ∈ waysAll parts ∧ Clear way slot arrived := by
  cases parts with
  | nil => simp [placeholdersAll, waysAll]
  | cons part rest =>
    have first := mem_placeholders_page_one part slot arrived
    have later := mem_placeholders_page rest slot arrived
    rw [← List.singleton_append, page_append, placeholdersAll_append, List.mem_append, first, later,
      ← exists_or]
    simp only [List.singleton_append, waysAll, List.mem_append, or_and_right]
termination_by structural parts

end

end Part

end ProgressiveHtml
