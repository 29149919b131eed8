import Mathlib.Data.List.Infix
import ProgressiveHtml.Proofs.Response.Books

namespace ProgressiveHtml

/-!
# Timing — the time to the first patch

The marks of patches stand among marks of free names and are told by the two ends of their names.  Every
name with these ends is that of a patch's mark but one: in `patch_sent` the two ends share a letter, and
no slot is left between them.  So the time to the first patch is that of the first patch, unless a mark of
this one name is earlier than all patches.

* `Timing.looksLikePatch_iff` — the names with the two ends of a patch's mark;
* `Timing.record`, `Timing.at?_record` — marks set one after the other, and what is read of them;
* `Timing.TellsFirstPatch` — the time to the first patch is the earliest time of a patch;
* `Timing.tellsFirstPatch_iff` — when it is.
-/

/-- The name under which a mark is set. -/
def Mark.name : Mark → String
  | named name => name
  | patch slot => Timing.patchMark slot

namespace Timing

variable {t : Timing} {time : Nat} {name : String}

/-! ### The names of patches -/

/-- The one name in which the two ends of a patch's mark overlap. -/
def overlapMark : String := "patch_sent"

/-- In the name of a patch's mark the two ends do not overlap. -/
theorem patchMark_ne_overlapMark (slot : String) : patchMark slot ≠ overlapMark := by
  intro same
  have length := congrArg (·.toList.length) same
  simp [patchMark_toList, patchStem, patchEnding, overlapMark] at length

/-- What is behind the front of a name that ends as a patch's mark does: it has this end itself, or it is
    the end without the letter that the front has given. -/
theorem ending_suffix_of_stem_append {behind : List Char}
    (ends : patchEnding <:+ patchStem ++ behind) :
    patchEnding <:+ behind ∨ patchStem ++ behind = overlapMark.toList := by
  obtain inside | apart := List.suffix_or_suffix_of_suffix ends (List.suffix_append patchStem behind)
  · exact .inl inside
  have pieces : ∀ piece ∈ patchEnding.tails, patchEnding <:+ patchStem ++ piece →
      patchEnding <:+ piece ∨ patchStem ++ piece = overlapMark.toList := by decide +kernel
  exact pieces behind ((List.mem_tails behind patchEnding).2 apart) ends

/-- A name has the two ends of a patch's mark exactly if it is that of a slot's patch, or the one in which
    the ends overlap. -/
theorem looksLikePatch_iff (name : String) :
    looksLikePatch name ↔ name = overlapMark ∨ ∃ slot, name = patchMark slot := by
  rw [looksLikePatch, Bool.and_eq_true, List.isPrefixOf_iff_prefix, List.isSuffixOf_iff_suffix]
  constructor
  · rintro ⟨⟨behind, front⟩, ends⟩
    rw [← front] at ends
    obtain ⟨slot, rfl⟩ | overlap := ending_suffix_of_stem_append ends
    · refine .inr ⟨String.ofList slot, String.toList_inj.1 ?_⟩
      rw [patchMark_toList, String.toList_ofList, List.append_assoc, front]
    · exact .inl (String.toList_inj.1 (front ▸ overlap))
  · rintro (rfl | ⟨slot, rfl⟩)
    · decide +kernel
    · rw [patchMark_toList]
      exact ⟨(List.prefix_append _ _).trans (List.prefix_append _ _), List.suffix_append _ _⟩

theorem looksLikePatch_overlapMark : looksLikePatch overlapMark :=
  (looksLikePatch_iff _).2 (.inl rfl)

theorem looksLikePatch_patchMark (slot : String) : looksLikePatch (patchMark slot) :=
  (looksLikePatch_iff _).2 (.inr ⟨slot, rfl⟩)

/-- The time to the first patch is the earliest time of a mark whose name looks like that of a patch. -/
theorem firstPatch?_eq_some_iff : t.firstPatch? = some time ↔
    (∃ name, looksLikePatch name ∧ t.at? name = some time) ∧
      ∀ name other, looksLikePatch name → t.at? name = some other → time ≤ other := by
  have marked (other : Nat) : other ∈ (t.marks.entries.filter (looksLikePatch ·.1)).map (·.2) ↔
      ∃ name, looksLikePatch name ∧ t.at? name = some other := by
    simp [at?, Named.get?_eq_some_iff, and_comm]
  rw [firstPatch?, List.min?_eq_some_iff, marked]
  refine and_congr_right fun _ => ⟨fun least name other looks found => ?_, fun least other here => ?_⟩
  · exact least other ((marked other).2 ⟨name, looks, found⟩)
  · obtain ⟨name, looks, found⟩ := (marked other).1 here
    exact least name other looks found

/-! ### Marks in order -/

/-- Set marks one after the other, each at its own time. -/
def record (marks : List (Mark × Nat)) : Timing :=
  marks.foldl (fun t (mark, time) => t.set mark time) {}

theorem set_eq_mark (t : Timing) (mark : Mark) (time : Nat) : t.set mark time = t.mark mark.name time := by
  cases mark <;> rfl

theorem record_concat (marks : List (Mark × Nat)) (mark : Mark) (time : Nat) :
    record (marks ++ [(mark, time)]) = (record marks).mark mark.name time := by
  rw [record, List.foldl_append, List.foldl_cons, List.foldl_nil]
  exact set_eq_mark _ mark time

/-- A name is read with the time at which it was marked last. -/
theorem at?_record (marks : List (Mark × Nat)) (name : String) :
    (record marks).at? name = ((marks.filter (·.1.name = name)).map (·.2)).getLast? := by
  induction marks using List.reverseRecOn with
  | nil => rfl
  | append_singleton marks last ih =>
    obtain ⟨mark, time⟩ := last
    rw [record_concat, at?_mark, List.filter_append, List.map_append, ih]
    by_cases here : mark.name = name
    · simp [here]
    · simp [here, Ne.symm here]

/-- A name that no mark has is not found. -/
theorem at?_record_of_unmarked {marks : List (Mark × Nat)}
    (unmarked : ∀ entry ∈ marks, entry.1.name ≠ name) : (record marks).at? name = none := by
  have none : marks.filter (·.1.name = name) = [] :=
    List.filter_eq_nil_iff.2 fun entry member => by simpa using unmarked entry member
  rw [at?_record, none]
  rfl

/-! ### The first patch -/

/-- The time of the patch that was marked first, where of each slot the last mark counts. -/
structure IsEarliestPatch (t : Timing) (time : Nat) : Prop where
  marked : ∃ slot, t.patchAt? slot = some time
  earliest : ∀ slot other, t.patchAt? slot = some other → time ≤ other

/-- The time to the first patch is there exactly if a patch is marked, and it is the earliest time of
    all patches. -/
structure TellsFirstPatch (t : Timing) : Prop where
  present : t.firstPatch?.isSome ↔ ∃ slot, (t.patchAt? slot).isSome
  isEarliest : ∀ time, t.firstPatch? = some time → t.IsEarliestPatch time

/-- The time to the first patch in terms of the patches and of the one name that is not a patch's. -/
theorem firstPatch?_eq_some_iff_patches : t.firstPatch? = some time ↔
    ((∃ slot, t.patchAt? slot = some time) ∨ t.at? overlapMark = some time) ∧
      (∀ slot other, t.patchAt? slot = some other → time ≤ other) ∧
      ∀ other, t.at? overlapMark = some other → time ≤ other := by
  rw [firstPatch?_eq_some_iff]
  constructor
  · rintro ⟨⟨name, looks, found⟩, least⟩
    refine ⟨?_, fun slot other => least _ other (looksLikePatch_patchMark slot),
      fun other => least _ other looksLikePatch_overlapMark⟩
    obtain rfl | ⟨slot, rfl⟩ := (looksLikePatch_iff name).1 looks
    · exact .inr found
    · exact .inl ⟨slot, found⟩
  · rintro ⟨found, patches, overlap⟩
    refine ⟨?_, fun name other looks there => ?_⟩
    · obtain ⟨slot, found⟩ | found := found
      · exact ⟨_, looksLikePatch_patchMark slot, found⟩
      · exact ⟨_, looksLikePatch_overlapMark, found⟩
    · obtain rfl | ⟨slot, rfl⟩ := (looksLikePatch_iff name).1 looks
      · exact overlap other there
      · exact patches slot other there

/-- There is a time to the first patch as soon as a mark has a name that looks like that of a patch. -/
theorem isSome_firstPatch? (looks : looksLikePatch name) (found : t.at? name = some time) :
    ∃ first, t.firstPatch? = some first := by
  have member : time ∈ (t.marks.entries.filter (looksLikePatch ·.1)).map (·.2) := by
    refine List.mem_map.2 ⟨(name, time), List.mem_filter.2 ⟨?_, looks⟩, rfl⟩
    exact t.marks.get?_eq_some_iff.1 found
  rw [firstPatch?]
  exact Option.isSome_iff_exists.1 (List.isSome_min?_of_mem member)

/-- The time to the first patch is told unless a mark of the overlapping name is earlier than all
    patches. -/
theorem tellsFirstPatch_iff_covered (t : Timing) : t.TellsFirstPatch ↔
    ∀ time, t.at? overlapMark = some time → ∃ slot other, t.patchAt? slot = some other ∧ other ≤ time := by
  constructor
  · intro tells time found
    obtain ⟨first, isFirst⟩ := isSome_firstPatch? looksLikePatch_overlapMark found
    obtain ⟨⟨slot, marked⟩, -⟩ := tells.isEarliest first isFirst
    exact ⟨slot, first, marked, (firstPatch?_eq_some_iff_patches.1 isFirst).2.2 time found⟩
  · intro covered
    constructor
    case present =>
      constructor
      · intro present
        obtain ⟨first, isFirst⟩ := Option.isSome_iff_exists.1 present
        -- The earliest mark is that of a patch, or the overlapping one, which is covered by a patch.
        obtain ⟨slot, marked⟩ | overlap := (firstPatch?_eq_some_iff_patches.1 isFirst).1
        · exact ⟨slot, by rw [marked]; rfl⟩
        · obtain ⟨slot, other, marked, -⟩ := covered first overlap
          exact ⟨slot, by rw [marked]; rfl⟩
      · rintro ⟨slot, marked⟩
        obtain ⟨time, found⟩ := Option.isSome_iff_exists.1 marked
        obtain ⟨first, isFirst⟩ := isSome_firstPatch? (looksLikePatch_patchMark slot) found
        rw [isFirst]
        rfl
    case isEarliest =>
      intro first isFirst
      obtain ⟨found, patches, -⟩ := firstPatch?_eq_some_iff_patches.1 isFirst
      refine ⟨?_, patches⟩
      obtain marked | overlap := found
      · exact marked
      · obtain ⟨slot, other, marked, earlier⟩ := covered first overlap
        -- The patch that covers it is as early, because no patch is earlier than the first mark.
        have same : first = other := Nat.le_antisymm (patches slot other marked) earlier
        exact ⟨slot, same ▸ marked⟩

/-- Whatever marks are set one after the other, of free names and for the patches of any slots, at
    whatever times: the time to the first patch is the earliest time among the patches and the one name
    in which the two ends of a patch's mark overlap.  So it is that of the first patch exactly if no mark
    of this name is earlier than all patches; in particular if no mark has this name. -/
theorem tellsFirstPatch_iff (marks : List (Mark × Nat)) :
    (∀ time, (record marks).firstPatch? = some time ↔
      ((∃ slot, (record marks).patchAt? slot = some time) ∨
          (record marks).at? overlapMark = some time) ∧
        (∀ slot other, (record marks).patchAt? slot = some other → time ≤ other) ∧
        ∀ other, (record marks).at? overlapMark = some other → time ≤ other) ∧
    ((record marks).TellsFirstPatch ↔ ∀ time, (record marks).at? overlapMark = some time →
      ∃ slot other, (record marks).patchAt? slot = some other ∧ other ≤ time) ∧
    ((∀ time, (.named overlapMark, time) ∉ marks) → (record marks).TellsFirstPatch) := by
  refine ⟨fun time => firstPatch?_eq_some_iff_patches, tellsFirstPatch_iff_covered _, fun unmarked => ?_⟩
  have none : (record marks).at? overlapMark = none := by
    refine at?_record_of_unmarked fun (mark, time) member same => ?_
    cases mark with
    | named name =>
      obtain rfl : name = overlapMark := same
      exact unmarked time member
    | patch slot => exact patchMark_ne_overlapMark slot same
  refine (tellsFirstPatch_iff_covered _).2 fun time found => ?_
  rw [none] at found
  cases found

/-- A slot whose patch is marked again after that of another slot, and a slot of no name: the first is
    marked later than the others in the end. -/
theorem tellsFirstPatch_of_remarked :
    let marks : List (Mark × Nat) :=
      [(.patch "a", 1), (.named "patch__sent", 2), (.patch "b", 2), (.patch "a", 5)]
    (∀ time, (.named overlapMark, time) ∉ marks) ∧ (record marks).TellsFirstPatch ∧
      (record marks).firstPatch? = some 2 ∧ (record marks).patchAt? "" = some 2 ∧
      (record marks).patchAt? "a" = some 5 := by
  intro marks
  have unmarked (time : Nat) : (.named overlapMark, time) ∉ marks := by simp [marks, overlapMark]
  exact ⟨unmarked, (tellsFirstPatch_iff marks).2.2 unmarked, by decide +kernel⟩

/-- With a mark of the overlapping name alone there is a time to the first patch, and no patch. -/
theorem firstPatch_of_overlapMark :
    let t := ofMarks [.named "patch_sent"]
    t.firstPatch? = some 0 ∧ (∀ slot, t.patchAt? slot = none) ∧ ¬t.TellsFirstPatch := by
  intro t
  have first : t.firstPatch? = some 0 := by decide +kernel
  have unmarked (slot : String) : t.patchAt? slot = none := by
    refine at?_record_of_unmarked fun entry member same => ?_
    obtain rfl : entry = (.named overlapMark, 0) := List.mem_singleton.1 member
    exact patchMark_ne_overlapMark slot same.symm
  refine ⟨first, unmarked, fun tells => ?_⟩
  obtain ⟨slot, marked⟩ := (tells.isEarliest 0 first).marked
  rw [unmarked] at marked
  cases marked

end Timing

end ProgressiveHtml
