import ProgressiveHtml.Named

namespace ProgressiveHtml

/-!
# Timing — marks on the way of a response

A timing remembers when each named mark was set last.  The patch of a slot has a mark of its own,
whose name is made from the slot.

* `Timing.mark`, `Timing.at?` — set and read a mark;
* `Timing.markPatch`, `Timing.patchAt?` — the same for the patch of a slot;
* `Timing.firstPatch?` — the earliest among the marks whose names look like those of patches.
-/

/-- Named marks with the time at which each was set last. -/
structure Timing where
  marks : Named Nat := {}

/-- A mark to be set. -/
inductive Mark where
  /-- A mark of a free name. -/
  | named (name : String)
  /-- The mark of a slot's patch. -/
  | patch (slot : String)

namespace Timing

/-- The front of the name of a patch's mark. -/
def patchStem : List Char := "patch_".toList

/-- The end of the name of a patch's mark. -/
def patchEnding : List Char := "_sent".toList

/-- The name of the mark for the patch of a slot. -/
def patchMark (slot : String) : String :=
  String.ofList (patchStem ++ slot.toList ++ patchEnding)

/-- The name of the mark for the first chunk. -/
def shellMark : String := "shell_sent"

/-- The name of the mark for the end of the response. -/
def completeMark : String := "complete"

/-- Set a mark, in place of an earlier one of the same name. -/
def mark (t : Timing) (name : String) (time : Nat) : Timing :=
  { t with marks := t.marks.put name time }

/-- Set the mark for the patch of a slot. -/
def markPatch (t : Timing) (slot : String) (time : Nat) : Timing :=
  t.mark (patchMark slot) time

/-- When a mark was set last. -/
def at? (t : Timing) (name : String) : Option Nat :=
  t.marks.get? name

/-- When the mark for the patch of a slot was set last. -/
def patchAt? (t : Timing) (slot : String) : Option Nat :=
  t.at? (patchMark slot)

/-- When the first chunk was written. -/
def shell? (t : Timing) : Option Nat :=
  t.at? shellMark

/-- Whether a name begins and ends like the name of a patch's mark.  The two parts may overlap. -/
def looksLikePatch (name : String) : Bool :=
  patchStem.isPrefixOf name.toList && patchEnding.isSuffixOf name.toList

/-- The time of the earliest mark whose name looks like that of a patch. -/
def firstPatch? (t : Timing) : Option Nat :=
  ((t.marks.entries.filter (looksLikePatch ·.1)).map (·.2)).min?

/-- Set a mark of either kind. -/
def set (t : Timing) (mark : Mark) (time : Nat) : Timing :=
  match mark with
  | .named name => t.mark name time
  | .patch slot => t.markPatch slot time

/-- Set marks one after the other, the first at time 0, the next at time 1 and so on. -/
def ofMarks (marks : List Mark) : Timing :=
  marks.zipIdx.foldl (fun t (mark, time) => t.set mark time) {}

/-- Those of the given names whose marks are set, the earliest first. -/
def inOrder (t : Timing) (names : List String) : List String :=
  let found := names.filterMap fun name => (t.at? name).map (·, name)
  (found.mergeSort fun a b => a.1 ≤ b.1).map (·.2)

/-- Those of the given names whose marks are set at the time of the first patch. -/
def atFirstPatch (t : Timing) (names : List String) : List String :=
  match t.firstPatch? with
  | some time => names.filter fun name => t.at? name == some time
  | none => []

/-- Whether no mark is set later than the given time. -/
def isCoveredBy (t : Timing) (time : Nat) : Bool :=
  t.marks.entries.all (·.2 ≤ time)

/-- A mark reads as it was set last. -/
@[simp] theorem at?_mark (t : Timing) (name other : String) (time : Nat) :
    (t.mark name time).at? other = if other = name then some time else t.at? other :=
  t.marks.get?_put name other time

end Timing

end ProgressiveHtml
