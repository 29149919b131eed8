import Mathlib.Data.List.TakeWhile
import ProgressiveHtml.Template

namespace ProgressiveHtml

/-!
# Templates — looking for markers from left to right

A text is taken apart by looking for the next pair of braces that opens and the next that closes.  It
comes to the same to look at each place in turn whether a marker stands there, which is what proofs go by.

* `Template.IsName`, `Template.marked` — names, and the markers of names;
* `Template.marker?` — the marker at the front of a text, with `Template.marker?_eq_some_iff`;
* `Template.split` — take a text apart place by place;
* `Template.scan_eq_split` — both ways to take a text apart agree.
-/

namespace Template

/-- A name: one or more ASCII letters, digits, `_` or `-`. -/
def IsName (name : List Char) : Prop := name ≠ [] ∧ ∀ c ∈ name, isNameChar c

/-- A name between two pairs of braces. -/
def marked (name : List Char) : List Char := '{' :: '{' :: (name ++ ['}', '}'])

/-! ### Markers -/

/-- The name of the marker at the front of a text, and what comes behind the marker. -/
def marker? : List Char → Option (List Char × List Char)
  | '{' :: '{' :: rest =>
    match rest.takeWhile isNameChar, rest.dropWhile isNameChar with
    | name, '}' :: '}' :: behind => if name.isEmpty then none else some (name, behind)
    | _, _ => none
  | _ => none

/-- What comes behind a marker is shorter than the text with the marker. -/
theorem marker?_shorter {cs name behind : List Char} (h : marker? cs = some (name, behind)) :
    behind.length < cs.length := by
  unfold marker? at h
  split at h
  · rename_i rest
    split at h
    · rename_i tail heq
      split at h
      · simp at h
      · have := (List.dropWhile_sublist isNameChar (l := rest)).length_le
        rw [heq] at this
        simp at h this ⊢
        obtain ⟨_, rfl⟩ := h
        omega
    · simp at h
  · simp at h

variable {name behind front opened cs : List Char}

/-- A marker is read where a name stands between two pairs of braces, and only there. -/
theorem marker?_eq_some_iff :
    marker? cs = some (name, behind) ↔ IsName name ∧ cs = marked name ++ behind := by
  constructor
  · intro found
    unfold marker? at found
    split at found
    case h_2 => simp at found
    case h_1 rest =>
      split at found
      case h_2 => simp at found
      case h_1 tail closes =>
        split at found
        case isTrue => simp at found
        case isFalse proper =>
          simp only [Option.some.injEq, Prod.mk.injEq] at found
          obtain ⟨rfl, rfl⟩ := found
          refine ⟨⟨by simpa using proper, fun c isIn => List.mem_takeWhile_imp isIn⟩, ?_⟩
          -- The name ends where its braces begin.
          have whole : rest.takeWhile isNameChar ++ rest.dropWhile isNameChar = rest :=
            List.takeWhile_append_dropWhile
          rw [closes] at whole
          simp [marked, whole]
  · rintro ⟨⟨proper, chars⟩, rfl⟩
    have taken : (name ++ '}' :: '}' :: behind).takeWhile isNameChar = name := by
      rw [List.takeWhile_append_of_pos chars, List.takeWhile_cons_of_neg (by decide),
        List.append_nil]
    have dropped : (name ++ '}' :: '}' :: behind).dropWhile isNameChar = '}' :: '}' :: behind := by
      rw [List.dropWhile_append_of_pos chars, List.dropWhile_cons_of_neg (by decide)]
    simp [marker?, marked, taken, dropped, proper]

/-! ### Place by place -/

/-- Take a text apart at its markers, place by place. -/
def split (cs : List Char) : List Char × List (List Char × List Char) :=
  match _found : marker? cs with
  | some (name, behind) =>
    let (text, sections) := split behind
    ([], (name, text) :: sections)
  | none =>
    match cs with
    | [] => ([], [])
    | c :: rest =>
      let (text, sections) := split rest
      (c :: text, sections)
termination_by cs.length
decreasing_by
  · exact marker?_shorter _found
  · simp

theorem split_of_marker (found : marker? cs = some (name, behind)) :
    split cs = ([], (name, (split behind).1) :: (split behind).2) := by
  rw [split]
  split
  · rename_i found'
    rw [found] at found'
    cases found'
    rfl
  · rename_i none
    rw [found] at none
    cases none

theorem split_cons_of_none {c : Char} (none : marker? (c :: cs) = none) :
    split (c :: cs) = (c :: (split cs).1, (split cs).2) := by
  rw [split]
  split
  · rename_i found
    rw [none] at found
    cases found
  · rfl

theorem split_nil : split [] = ([], []) := by
  rw [split]
  rfl

/-! ### Pairs of braces -/

theorem isName_iff : isName name = true ↔ IsName name := by
  simp [isName, IsName]

/-- Where there is no pair of a character, there is none further on. -/
theorem findPair_tail {c a : Char} (missing : findPair c (a :: cs) = none) : findPair c cs = none := by
  cases cs with
  | nil => rfl
  | cons b rest =>
    rw [findPair] at missing
    split at missing
    · cases missing
    · exact Option.map_eq_none_iff.1 missing

/-- Where there is no pair of a character, none stands anywhere. -/
theorem findPair_ne_none {c : Char} (front behind : List Char) :
    findPair c (front ++ c :: c :: behind) ≠ none := by
  induction front with
  | nil => simp [findPair]
  | cons a front ih => exact fun missing => ih (findPair_tail missing)

/-- The first pair of a character behind a text without it stands right behind this text. -/
theorem findPair_of_not_mem {c : Char} (without : c ∉ front) (behind : List Char) :
    findPair c (front ++ c :: c :: behind) = some (front, behind) := by
  induction front with
  | nil => simp [findPair]
  | cons a front ih =>
    obtain ⟨differs, without⟩ := not_or.1 (mt List.mem_cons.2 without)
    have onward := ih without
    cases front with
    | nil =>
      rw [List.cons_append, List.nil_append, findPair, if_neg fun pair => differs pair.1.symm]
      exact congrArg (Option.map _) onward
    | cons b front =>
      rw [List.cons_append, List.cons_append, findPair, if_neg fun pair => differs pair.1.symm]
      exact congrArg (Option.map _) onward

/-- A marker opens with the first pair of braces that opens. -/
theorem marker?_of_findPair_none (missing : findPair '{' cs = none) : marker? cs = none := by
  rw [Option.eq_none_iff_forall_not_mem]
  rintro ⟨name, behind⟩ found
  obtain ⟨-, rfl⟩ := marker?_eq_some_iff.1 found
  exact findPair_ne_none [] _ missing

/-- A marker closes with a pair of braces. -/
theorem marker?_of_unclosed (missing : findPair '}' cs = none) : marker? cs = none := by
  rw [Option.eq_none_iff_forall_not_mem]
  rintro ⟨name, behind⟩ found
  obtain ⟨-, rfl⟩ := marker?_eq_some_iff.1 found
  have closes : findPair '}' (('{' :: '{' :: name) ++ '}' :: '}' :: behind) = none := by
    simpa [marked] using missing
  exact findPair_ne_none _ _ closes

/-- What stands behind two opening braces is a marker if there is a name up to the next pair of braces
    that closes. -/
theorem marker?_of_closes (closes : findPair '}' opened = some (name, behind)) :
    marker? ('{' :: '{' :: opened) = if isName name then some (name, behind) else none := by
  have whole := findPair_eq closes
  split
  · rename_i proper
    rw [marker?_eq_some_iff, whole]
    exact ⟨isName_iff.1 proper, by simp [marked]⟩
  · rename_i improper
    rw [Option.eq_none_iff_forall_not_mem]
    rintro ⟨other, rest⟩ found
    obtain ⟨proper, same⟩ := marker?_eq_some_iff.1 found
    -- No brace stands in a name, so the pair that closes the marker is the next one.
    have without : '}' ∉ other := fun inName => absurd (proper.2 _ inName) (by decide)
    have same : opened = other ++ '}' :: '}' :: rest := by simpa [marked] using same
    rw [same, findPair_of_not_mem without] at closes
    cases closes
    exact improper (isName_iff.2 proper)

/-! ### Both ways agree -/

/-- Where nothing opens there is no marker. -/
theorem split_of_findPair_none (missing : findPair '{' cs = none) : split cs = (cs, []) := by
  induction cs with
  | nil => exact split_nil
  | cons c rest ih => rw [split_cons_of_none (marker?_of_findPair_none missing), ih (findPair_tail missing)]

/-- Where nothing closes there is no marker. -/
theorem split_of_unclosed (missing : findPair '}' cs = none) : split cs = (cs, []) := by
  induction cs with
  | nil => exact split_nil
  | cons c rest ih => rw [split_cons_of_none (marker?_of_unclosed missing), ih (findPair_tail missing)]

/-- In front of the first pair of braces that opens there is no marker. -/
theorem split_of_opens (opens : findPair '{' cs = some (front, opened)) :
    split cs = (front ++ (split ('{' :: '{' :: opened)).1, (split ('{' :: '{' :: opened)).2) := by
  induction cs generalizing front with
  | nil => cases opens
  | cons a rest ih =>
    cases rest with
    | nil => cases opens
    | cons b rest =>
      rw [findPair] at opens
      split at opens
      · rename_i pair
        obtain ⟨rfl, rfl⟩ := pair
        cases opens
        rfl
      · rename_i noPair
        obtain ⟨⟨front, opened⟩, further, same⟩ := Option.map_eq_some_iff.1 opens
        cases same
        have noMarker : marker? (a :: b :: rest) = none := by
          rw [Option.eq_none_iff_forall_not_mem]
          rintro ⟨name, behind⟩ found
          obtain ⟨-, same⟩ := marker?_eq_some_iff.1 found
          obtain ⟨first, same⟩ := List.cons.inj same
          obtain ⟨second, -⟩ := List.cons.inj same
          exact noPair ⟨first, second⟩
        rw [split_cons_of_none noMarker, ih further]
        rfl

/-- Looking for pairs of braces comes to the same as looking at each place in turn. -/
theorem scan_eq_split (literal rest : List Char) :
    scan literal rest = (literal ++ (split rest).1, (split rest).2) := by
  fun_induction scan literal rest with
  | case1 literal rest missing => rw [split_of_findPair_none missing]
  | case2 literal rest front opened opens missing =>
    -- Neither behind the braces nor from the first or the second of them on is there a marker.
    have unclosed : findPair '}' ('{' :: '{' :: opened) = none := by
      cases opened with
      | nil => rfl
      | cons c rest => simp [findPair, missing]
    rw [split_of_opens opens, split_of_unclosed unclosed, findPair_eq opens]
  | case3 literal rest front opened opens name behind closes isName text sections scanned ih =>
    have found := marker?_of_closes closes
    rw [if_pos isName] at found
    rw [scanned] at ih
    obtain ⟨rfl, rfl⟩ := Prod.mk.inj ih
    rw [split_of_opens opens, split_of_marker found, List.append_nil, List.nil_append]
  | case4 literal rest front opened opens name behind closes notName ih =>
    have found := marker?_of_closes closes
    rw [if_neg notName] at found
    rw [ih, split_of_opens opens, split_cons_of_none found]
    simp

end Template

end ProgressiveHtml
