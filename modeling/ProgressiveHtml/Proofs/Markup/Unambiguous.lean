import ProgressiveHtml.Markup.Element

namespace ProgressiveHtml.Markup

/-!
# Markup — where a piece ends

Names, escaped text and attribute values are written without anything that tells their length.  Each of
them ends where the first character comes that cannot stand in it: so a text that begins with one of
them begins with no other, and what is behind it is known too.

* `IsName` — the words that can be tags and names of attributes;
* `append_inj_of_stop` — a piece ends where the first foreign character comes;
* `escape_injective` — different texts are escaped differently;
* `attributes_inj`, `openTag_inj` — what an opening tag tells of its tag and its attributes.
-/

/-! ### Words -/

/-- The characters of a name: ASCII letters, digits and `-`. -/
def IsNameChar (c : Char) : Prop := c.isAlphanum ∨ c = '-'

/-- The words that can be tags and names of attributes. -/
structure IsName (word : String) : Prop where
  nonempty : word ≠ ""
  chars : ∀ c ∈ word.toList, IsNameChar c

instance (c : Char) : Decidable (IsNameChar c) := inferInstanceAs (Decidable (_ ∨ _))

instance (word : String) : Decidable (IsName word) :=
  decidable_of_iff (word ≠ "" ∧ word.toList.all fun c => decide (IsNameChar c)) <| by
    rw [List.all_eq_true]
    simp only [decide_eq_true_eq]
    exact ⟨fun ⟨nonempty, chars⟩ => ⟨nonempty, chars⟩, fun ⟨nonempty, chars⟩ => ⟨nonempty, chars⟩⟩

/-- A name begins with a character of a name. -/
theorem IsName.head {word : String} (name : IsName word) :
    ∃ c rest, word.toList = c :: rest ∧ IsNameChar c := by
  obtain ⟨nonempty, chars⟩ := name
  cases written : word.toList with
  | nil => exact absurd (String.toList_eq_nil_iff.1 written) nonempty
  | cons c rest =>
    rw [written] at chars
    exact ⟨c, rest, rfl, chars c List.mem_cons_self⟩

/-- A piece ends where the first character comes that cannot stand in it. -/
theorem append_inj_of_stop {α : Type} {p : α → Prop} {piece piece' after after' : List α}
    (inside : ∀ a ∈ piece, p a) (inside' : ∀ a ∈ piece', p a)
    (stop : ∀ a ∈ after.head?, ¬ p a) (stop' : ∀ a ∈ after'.head?, ¬ p a)
    (same : piece ++ after = piece' ++ after') : piece = piece' ∧ after = after' := by
  induction piece generalizing piece' with
  | nil =>
    cases piece' with
    | nil => exact ⟨rfl, same⟩
    | cons a rest =>
      rw [List.nil_append] at same
      exact absurd (inside' a List.mem_cons_self) (stop a (by simp [same]))
  | cons a rest ih =>
    cases piece' with
    | nil =>
      rw [List.nil_append] at same
      exact absurd (inside a List.mem_cons_self) (stop' a (by simp [← same]))
    | cons a' rest' =>
      obtain ⟨rfl, later⟩ := List.cons.inj same
      rw [List.forall_mem_cons] at inside inside'
      obtain ⟨rfl, behind⟩ := ih inside.2 inside'.2 later
      exact ⟨rfl, behind⟩

/-! ### Escaped text -/

/-- The characters that are written as entities and stand nowhere in escaped text. -/
theorem notMem_escapeChars {c : Char} (special : c ∈ ['<', '>', '"', '\'']) (text : List Char) :
    c ∉ escapeChars text := by
  induction text with
  | nil => exact List.not_mem_nil
  | cons d rest ih =>
    rw [escapeChars_cons, List.mem_append, not_or]
    refine ⟨fun here => ?_, ih⟩
    unfold escapeChar entity? at here
    simp only [List.mem_cons, List.not_mem_nil, or_false] at special
    rcases special with rfl | rfl | rfl | rfl <;> split at here <;> simp_all [eq_comm]

/-- An escaped character is not the beginning of another one. -/
theorem escapeChar_inj {c d : Char} {after after' : List Char}
    (same : escapeChar c ++ after = escapeChar d ++ after') : c = d ∧ after = after' := by
  unfold escapeChar entity? at same
  split at same <;> split at same <;> simp_all [eq_comm]

theorem escapeChar_ne_nil (c : Char) : escapeChar c ≠ [] := by
  unfold escapeChar entity?
  split <;> simp

theorem escapeChars_injective {text text' : List Char} (same : escapeChars text = escapeChars text') :
    text = text' := by
  induction text generalizing text' with
  | nil =>
    cases text' with
    | nil => rfl
    | cons c rest => exact absurd (List.append_eq_nil_iff.1 same.symm).1 (escapeChar_ne_nil c)
  | cons c rest ih =>
    cases text' with
    | nil => exact absurd (List.append_eq_nil_iff.1 same).1 (escapeChar_ne_nil c)
    | cons d rest' =>
      obtain ⟨rfl, later⟩ := escapeChar_inj same
      rw [ih later]

/-- Different texts are escaped differently. -/
theorem escape_injective {text text' : String} (same : escape text = escape text') : text = text' := by
  rw [← String.toList_inj, escape_toList, escape_toList] at same
  exact String.toList_inj.1 (escapeChars_injective same)

/-- Text that is not empty is not escaped to nothing, and not to anything that begins with `<`. -/
theorem escape_head {text : String} (nonempty : text ≠ "") :
    ∃ c rest, (escape text).toList = c :: rest ∧ c ≠ '<' := by
  cases written : (escape text).toList with
  | nil =>
    rw [escape_toList] at written
    have nothing : text.toList = [] := escapeChars_injective written
    exact absurd (String.toList_eq_nil_iff.1 nothing) nonempty
  | cons c rest =>
    refine ⟨c, rest, rfl, fun isOpening => ?_⟩
    rw [escape_toList] at written
    exact notMem_escapeChars (c := '<') (by simp) text.toList (by simp [written, isOpening])

/-! ### Opening tags -/

/-- The characters of attributes as they stand in an opening tag. -/
def attributeChars (attributes : List Attribute) : List Char :=
  attributes.flatMap fun a => (writeAttribute a).toList

@[simp] theorem attributeChars_nil : attributeChars [] = [] := rfl

@[simp] theorem attributeChars_cons (a : Attribute) (rest : List Attribute) :
    attributeChars (a :: rest) = (writeAttribute a).toList ++ attributeChars rest := rfl

theorem writeAttribute_toList (a : Attribute) : (writeAttribute a).toList =
    ' ' :: (a.1.toList ++ '=' :: '"' :: (escapeChars a.2.toList ++ ['"'])) := by
  simp [writeAttribute]

theorem openTag_toList (tag : String) (attributes : List Attribute) :
    (openTag tag attributes).toList = '<' :: (tag.toList ++ (attributeChars attributes ++ ['>'])) := by
  have joined : (String.join (attributes.map writeAttribute)).toList = attributeChars attributes := by
    induction attributes with
    | nil => rfl
    | cons a rest ih => simp [String.join_cons, ih]
  simp [openTag, joined]

theorem not_isNameChar {c : Char} (special : c ∈ [' ', '=', '>', '/']) : ¬ IsNameChar c := by
  simp only [List.mem_cons, List.not_mem_nil, or_false] at special
  obtain rfl | rfl | rfl | rfl := special <;> decide

/-- One attribute tells its name and its value, and what is behind it. -/
theorem attribute_inj {a b : Attribute} (name : IsName a.1) (name' : IsName b.1)
    {after after' : List Char}
    (same : (writeAttribute a).toList ++ after = (writeAttribute b).toList ++ after') :
    a = b ∧ after = after' := by
  rw [writeAttribute_toList, writeAttribute_toList] at same
  simp only [List.cons_append, List.append_assoc, List.nil_append] at same
  obtain ⟨word, same⟩ := append_inj_of_stop name.chars name'.chars
    (by simpa using not_isNameChar (c := '=') (by simp))
    (by simpa using not_isNameChar (c := '=') (by simp)) (List.cons.inj same).2
  obtain ⟨value, behind⟩ := append_inj_of_stop (p := (· ≠ '"'))
    (fun c here isQuote => notMem_escapeChars (c := '"') (by simp) a.2.toList (isQuote ▸ here))
    (fun c here isQuote => notMem_escapeChars (c := '"') (by simp) b.2.toList (isQuote ▸ here))
    (by simp) (by simp) (List.cons.inj (List.cons.inj same).2).2
  exact ⟨Prod.ext (String.toList_inj.1 word) (String.toList_inj.1 (escapeChars_injective value)),
    (List.cons.inj behind).2⟩

/-- Attributes up to the end of their tag tell their names and values in order. -/
theorem attributes_inj {attributes attributes' : List Attribute}
    (names : ∀ a ∈ attributes, IsName a.1) (names' : ∀ a ∈ attributes', IsName a.1)
    {after after' : List Char}
    (same : attributeChars attributes ++ '>' :: after = attributeChars attributes' ++ '>' :: after') :
    attributes = attributes' ∧ after = after' := by
  induction attributes generalizing attributes' with
  | nil =>
    cases attributes' with
    | nil => exact ⟨rfl, (List.cons.inj same).2⟩
    | cons b rest' => simp [writeAttribute_toList] at same
  | cons a rest ih =>
    cases attributes' with
    | nil => simp [writeAttribute_toList] at same
    | cons b rest' =>
      rw [List.forall_mem_cons] at names names'
      rw [attributeChars_cons, attributeChars_cons, List.append_assoc, List.append_assoc] at same
      obtain ⟨rfl, later⟩ := attribute_inj names.1 names'.1 same
      obtain ⟨rfl, behind⟩ := ih names.2 names'.2 later
      exact ⟨rfl, behind⟩

/-- An opening tag tells its tag and its attributes, and what is behind it. -/
theorem openTag_inj {tag tag' : String} {attributes attributes' : List Attribute}
    (name : IsName tag) (name' : IsName tag') (names : ∀ a ∈ attributes, IsName a.1)
    (names' : ∀ a ∈ attributes', IsName a.1) {after after' : List Char}
    (same : (openTag tag attributes).toList ++ after = (openTag tag' attributes').toList ++ after') :
    tag = tag' ∧ attributes = attributes' ∧ after = after' := by
  have stop (attributes : List Attribute) (after : List Char) :
      ∀ c ∈ (attributeChars attributes ++ '>' :: after).head?, ¬ IsNameChar c := by
    cases attributes with
    | nil => simpa using not_isNameChar (c := '>') (by simp)
    | cons a rest =>
      simpa [writeAttribute_toList] using not_isNameChar (c := ' ') (by simp)
  rw [openTag_toList, openTag_toList] at same
  simp only [List.cons_append, List.append_assoc, List.nil_append] at same
  obtain ⟨word, same⟩ := append_inj_of_stop name.chars name'.chars (stop attributes after)
    (stop attributes' after') (List.cons.inj same).2
  obtain ⟨rfl, behind⟩ := attributes_inj names names' same
  exact ⟨String.toList_inj.1 word, rfl, behind⟩

end ProgressiveHtml.Markup
