import ProgressiveHtml.Proofs.Markup.Unambiguous

namespace ProgressiveHtml.Markup

/-!
# Markup — reading escaped text back

Escaped text is read from left to right: where one of the five entities begins, it stands for its
character, and every other character stands for itself.  An `&` in escaped text always begins an entity,
so nothing in it can be read in two ways, however much the text looked like escaped text before.

* `unescapeChars` / `unescape` — the text that is read;
* `unescapeChars_entity`, `unescapeChars_plain` — what is read at an entity and at any other character;
* `entity_of_amp_mem` — an `&` in escaped text begins an entity;
* `escape_reversible` — escaped text is safe between tags and in quotes, and reads back as it was.
-/

/-- The characters that are written as entities. -/
def specials : List Char := ['&', '<', '>', '"', '\'']

/-- Read text with entities from left to right.  What does not begin one of the five entities is read as it
    stands. -/
def unescapeChars : List Char → List Char
  | '&' :: 'a' :: 'm' :: 'p' :: ';' :: rest => '&' :: unescapeChars rest
  | '&' :: 'l' :: 't' :: ';' :: rest => '<' :: unescapeChars rest
  | '&' :: 'g' :: 't' :: ';' :: rest => '>' :: unescapeChars rest
  | '&' :: 'q' :: 'u' :: 'o' :: 't' :: ';' :: rest => '"' :: unescapeChars rest
  | '&' :: '#' :: '3' :: '9' :: ';' :: rest => '\'' :: unescapeChars rest
  | c :: rest => c :: unescapeChars rest
  | [] => []

/-- Read escaped text back. -/
def unescape (s : String) : String :=
  String.ofList (unescapeChars s.toList)

variable {c : Char} {entity : List Char}

/-! ### Entities -/

/-- The special characters are those that have an entity. -/
theorem mem_specials_iff : c ∈ specials ↔ (entity? c).isSome := by
  simp only [specials, List.mem_cons, List.not_mem_nil, or_false]
  unfold entity?
  split <;> simp_all

theorem escapeChar_of_entity (written : entity? c = some entity) : escapeChar c = entity := by
  rw [escapeChar, written, Option.getD_some]

theorem escapeChar_of_plain (plain : entity? c = none) : escapeChar c = [c] := by
  rw [escapeChar, plain, Option.getD_none]

/-- An entity is an `&` and a name without one. -/
theorem entity_eq_amp_cons (written : entity? c = some entity) :
    ∃ name, entity = '&' :: name ∧ '&' ∉ name := by
  unfold entity? at written
  split at written <;> cases written
  all_goals exact ⟨_, rfl, by decide⟩

/-! ### Reading -/

/-- An entity stands for its character. -/
theorem unescapeChars_entity (written : entity? c = some entity) (rest : List Char) :
    unescapeChars (entity ++ rest) = c :: unescapeChars rest := by
  unfold entity? at written
  split at written <;> cases written
  all_goals rfl

/-- A character that begins no entity stands for itself. -/
theorem unescapeChars_plain {rest : List Char}
    (plain : ∀ special entity, entity? special = some entity → ¬entity <+: c :: rest) :
    unescapeChars (c :: rest) = c :: unescapeChars rest := by
  rw [unescapeChars]
  · rintro behind rfl rfl
    exact plain '&' _ rfl ⟨behind, rfl⟩
  · rintro behind rfl rfl
    exact plain '<' _ rfl ⟨behind, rfl⟩
  · rintro behind rfl rfl
    exact plain '>' _ rfl ⟨behind, rfl⟩
  · rintro behind rfl rfl
    exact plain '"' _ rfl ⟨behind, rfl⟩
  · rintro behind rfl rfl
    exact plain '\'' _ rfl ⟨behind, rfl⟩

/-- A character that is written as itself is read as itself. -/
theorem unescapeChars_of_plain (plain : entity? c = none) (rest : List Char) :
    unescapeChars (c :: rest) = c :: unescapeChars rest := by
  refine unescapeChars_plain fun special entity written begins => ?_
  obtain ⟨name, rfl, -⟩ := entity_eq_amp_cons written
  obtain ⟨rfl, -⟩ := List.cons_prefix_cons.1 begins
  cases plain

/-- Escaped text is read as it was, and what is behind it as before. -/
theorem unescapeChars_escapeChars_append (text rest : List Char) :
    unescapeChars (escapeChars text ++ rest) = text ++ unescapeChars rest := by
  induction text with
  | nil => rfl
  | cons c text ih =>
    rw [escapeChars_cons, List.append_assoc, List.cons_append, ← ih]
    cases written : entity? c with
    | some entity => rw [escapeChar_of_entity written, unescapeChars_entity written]
    | none => rw [escapeChar_of_plain written, List.singleton_append, unescapeChars_of_plain written]

/-! ### Escaped text -/

/-- An `&` in escaped text begins one of the entities. -/
theorem entity_of_amp_mem {text before after : List Char}
    (split : escapeChars text = before ++ '&' :: after) :
    ∃ special ∈ specials, ∃ entity, entity? special = some entity ∧ entity <+: '&' :: after := by
  induction text generalizing before with
  | nil => exact absurd split.symm (List.append_ne_nil_of_right_ne_nil _ (List.cons_ne_nil _ _))
  | cons c text ih =>
    rw [escapeChars_cons] at split
    obtain ⟨behind, -, later⟩ | ⟨inside, here, later⟩ := List.append_eq_append_iff.1 split
    · exact ih later
    -- The `&` stands in what is written for one character, so it is at the front of an entity.
    cases written : entity? c with
    | none =>
      rw [escapeChar_of_plain written] at here
      cases inside with
      | nil => exact @ih [] later.symm
      | cons d inside =>
        obtain ⟨rfl, -⟩ := List.cons.inj later
        have isAmp : '&' ∈ [c] := here ▸ List.mem_append_right _ List.mem_cons_self
        obtain rfl := List.mem_singleton.1 isAmp
        cases written
    | some entity =>
      rw [escapeChar_of_entity written] at here
      obtain ⟨name, isEntity, notInside⟩ := entity_eq_amp_cons written
      cases inside with
      | nil => exact @ih [] later.symm
      | cons d inside =>
        obtain ⟨rfl, rfl⟩ := List.cons.inj later
        have special : c ∈ specials := mem_specials_iff.2 (by rw [written]; rfl)
        rw [isEntity] at here
        cases before with
        | nil =>
          refine ⟨c, special, entity, written, escapeChars text, ?_⟩
          rw [isEntity, here]
          rfl
        | cons e before =>
          obtain ⟨-, same⟩ := List.cons.inj here
          exact absurd (same ▸ List.mem_append_right _ List.mem_cons_self) notInside

/-- Whatever the text, the escaped text holds no `<`, no `>` and no quotes, and every `&` in it begins
    one of the entities; reading it from left to right gives the text back, so that no other text is
    escaped in the same way. -/
theorem escape_reversible (s : String) :
    (∀ c ∈ ['<', '>', '"', '\''], c ∉ (escape s).toList) ∧
    (∀ before after, (escape s).toList = before ++ '&' :: after →
      ∃ special ∈ specials, ∃ entity, entity? special = some entity ∧ entity <+: '&' :: after) ∧
    unescape (escape s) = s ∧
    ∀ other, escape other = escape s → other = s := by
  refine ⟨fun c special => ?_, fun before after split => ?_, ?_, fun other => escape_injective⟩
  · rw [escape_toList]
    exact notMem_escapeChars special s.toList
  · rw [escape_toList] at split
    exact entity_of_amp_mem split
  · have back := unescapeChars_escapeChars_append s.toList []
    rw [List.append_nil, unescapeChars, List.append_nil] at back
    rw [unescape, escape_toList, back, String.ofList_toList]

/-- Text that looks like escaped text: an entity, a piece of one, and an `&` alone. -/
theorem escape_reversible_of_entities :
    (escape "&lt;&amp & '").toList = "&amp;lt;&amp;amp &amp; &#39;".toList ∧
      unescape (escape "&lt;&amp & '") = "&lt;&amp & '" := by
  exact ⟨by decide +kernel, (escape_reversible "&lt;&amp & '").2.2.1⟩

end ProgressiveHtml.Markup
