namespace ProgressiveHtml

/-!
# Named values

Values by their names, each name at most once.  The value put last under a name is the one that is
found.

* `Named.get?`, `Named.put`, `Named.erase` — look up, set and take away a value;
* `get?_eq_some_iff` — what is found is what stands among the entries;
* `get?_put`, `get?_erase`, `mem_of_get?_ofList` — what a look-up finds afterwards.
-/

/-- Values by their names. -/
structure Named (α : Type) where
  /-- The names with their values, the one put last in front. -/
  entries : List (String × α) := []
  /-- No name occurs twice. -/
  nodup : (entries.map (·.1)).Nodup := by exact List.nodup_nil
  deriving DecidableEq

namespace Named

variable {α : Type}

/-- How many names there are. -/
def size (n : Named α) : Nat :=
  n.entries.length

/-- The value of a name. -/
def get? (n : Named α) (name : String) : Option α :=
  n.entries.lookup name

/-- Take a name away. -/
def erase (n : Named α) (name : String) : Named α where
  entries := n.entries.filter (·.1 != name)
  nodup := (List.filter_sublist.map _).nodup n.nodup

/-- An erased name is not among the names. -/
theorem not_mem_erase (n : Named α) (name : String) :
    name ∉ (n.erase name).entries.map (·.1) := by
  simp [erase]

/-- Set the value of a name, in place of an earlier one. -/
def put (n : Named α) (name : String) (value : α) : Named α where
  entries := (name, value) :: (n.erase name).entries
  nodup := List.nodup_cons.2 ⟨n.not_mem_erase name, (n.erase name).nodup⟩

/-- The values given in a list; of those of one name, the last. -/
def ofList (entries : List (String × α)) : Named α :=
  entries.foldl (fun n entry => n.put entry.1 entry.2) {}

/-- A name is found with a value exactly if they stand among the entries. -/
theorem get?_eq_some_iff (n : Named α) {name : String} {value : α} :
    n.get? name = some value ↔ (name, value) ∈ n.entries := by
  obtain ⟨entries, once⟩ := n
  show entries.lookup name = some value ↔ (name, value) ∈ entries
  induction entries with
  | nil => simp
  | cons entry rest ih =>
    obtain ⟨key, first⟩ := entry
    obtain ⟨notBehind, once⟩ := List.nodup_cons.1 once
    rw [List.lookup_cons, List.mem_cons, Prod.mk.injEq]
    by_cases here : name = key
    · subst here
      have notBehind : (name, value) ∉ rest :=
        fun member => notBehind (List.mem_map_of_mem (f := (·.1)) member)
      simp [notBehind, eq_comm]
    · rw [beq_false_of_ne here, ih once]
      simp [here]

/-- Erasing a name leaves the values of all others. -/
theorem get?_erase (n : Named α) (name other : String) :
    (n.erase name).get? other = if other = name then none else n.get? other := by
  show (n.entries.filter (·.1 != name)).lookup other = _
  unfold get?
  induction n.entries with
  | nil => simp
  | cons entry rest ih =>
    obtain ⟨key, value⟩ := entry
    by_cases erased : key = name
    · rw [List.filter_cons_of_neg (by simp [erased]), ih]
      split
      · rfl
      · rename_i h
        rw [List.lookup_cons, erased, beq_false_of_ne h]
    · rw [List.filter_cons_of_pos (by simp [erased]), List.lookup_cons, List.lookup_cons, ih]
      by_cases found : other = key
      · simp [found, erased]
      · rw [beq_false_of_ne found]

/-- A look-up finds the value put last, and otherwise what was there before. -/
theorem get?_put (n : Named α) (name other : String) (value : α) :
    (n.put name value).get? other = if other = name then some value else n.get? other := by
  show List.lookup other ((name, value) :: (n.erase name).entries) = _
  by_cases h : other = name
  · rw [h, List.lookup_cons_self, if_pos rfl]
  · rw [if_neg h, List.lookup_cons, beq_false_of_ne h]
    exact (n.get?_erase name other).trans (if_neg h)

/-- What is found when values of a list have been set stands in the list, or it was there before. -/
theorem mem_or_of_get?_foldl {entries : List (String × α)} {n : Named α} {name : String} {value : α}
    (found : (entries.foldl (fun n entry => n.put entry.1 entry.2) n).get? name = some value) :
    (name, value) ∈ entries ∨ n.get? name = some value := by
  induction entries generalizing n with
  | nil => exact .inr found
  | cons entry rest ih =>
    obtain later | before := ih found
    · exact .inl (List.mem_cons_of_mem _ later)
    · rw [get?_put] at before
      split at before
      · rename_i same
        obtain rfl := Option.some.inj before
        exact .inl (same ▸ List.mem_cons_self)
      · exact .inr before

/-- What is found among values that are given in a list stands in the list. -/
theorem mem_of_get?_ofList {entries : List (String × α)} {name : String} {value : α}
    (found : (ofList entries).get? name = some value) : (name, value) ∈ entries := by
  obtain given | none := mem_or_of_get?_foldl found
  · exact given
  · cases none

end Named

end ProgressiveHtml
