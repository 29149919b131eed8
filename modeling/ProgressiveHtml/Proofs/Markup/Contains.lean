import Mathlib.Data.List.Infix
import Mathlib.Logic.Function.Basic
import ProgressiveHtml.Markup.Element
import ProgressiveHtml.Markup.Patch

namespace ProgressiveHtml.Markup

/-!
# Markup — pieces of markup

What an element is put around stands in the element unchanged, and so does what is put into a
placeholder or into a patch.

* `Contains` — a piece stands somewhere in a text;
* `Contains.element`, `Contains.placeholder`, `Contains.patch` — pieces stay where they are;
* `Contains.bytes` — what the bytes of a text tell about its pieces;
* `slotName_injective` — different slots have different names.
-/

/-- Whether a piece stands somewhere in a text. -/
def Contains (text piece : String) : Prop := ∃ before after, text = before ++ piece ++ after

/-- The bytes of a text. -/
def bytes (text : String) : List UInt8 := text.toByteArray.data.toList

namespace Contains

variable {text piece inner : String} {texts : List String}

theorem refl (text : String) : Contains text text := ⟨"", "", by simp⟩

theorem trans (outer : Contains text inner) (within : Contains inner piece) :
    Contains text piece := by
  obtain ⟨before, after, rfl⟩ := outer
  obtain ⟨before', after', rfl⟩ := within
  exact ⟨before ++ before', after' ++ after, by simp only [String.append_assoc]⟩

/-- A piece stays where it is when something is put behind the text or before it. -/
theorem append_right (here : Contains text piece) (more : String) :
    Contains (text ++ more) piece := by
  obtain ⟨before, after, rfl⟩ := here
  exact ⟨before, after ++ more, by simp only [String.append_assoc]⟩

theorem append_left (here : Contains text piece) (more : String) :
    Contains (more ++ text) piece := by
  obtain ⟨before, after, rfl⟩ := here
  exact ⟨more ++ before, after, by simp only [String.append_assoc]⟩

/-- A piece of one of some texts stands in all of them together. -/
theorem join (here : Contains text piece) (member : text ∈ texts) :
    Contains (String.join texts) piece := by
  induction texts with
  | nil => cases member
  | cons first rest ih =>
    rw [String.join_cons]
    obtain rfl | later := List.mem_cons.1 member
    · exact here.append_right _
    · exact (ih later).append_left _

/-- A piece of a child stands in the element. -/
theorem element (here : Contains text piece) (member : text ∈ texts) (tag : String)
    (attributes : List Attribute) : Contains (element tag attributes texts) piece := by
  have children : texts.isEmpty = false := List.isEmpty_eq_false_iff.2 (List.ne_nil_of_mem member)
  rw [Markup.element, children, Bool.false_and, if_neg Bool.false_ne_true]
  exact ((here.join member).append_left _).append_right _

/-- A piece of a fallback stands in its placeholder. -/
theorem placeholder (here : Contains text piece) (slot : String) :
    Contains (placeholder slot text) piece :=
  (here.append_left _).append_right _

/-- A piece of a content stands in its patch. -/
theorem patch (here : Contains text piece) (slot : String) : Contains (patch slot text) piece :=
  ((here.append_left _).append_right _).append_right _

/-- A text with a placeholder is not empty. -/
theorem isEmpty_eq_false {slot fallback : String}
    (here : Contains text (Markup.placeholder slot fallback)) : text.isEmpty = false := by
  by_contra empty
  rw [Bool.not_eq_false, String.isEmpty_iff] at empty
  obtain ⟨before, after, same⟩ := here
  have nothing := (String.append_eq_empty_iff.1 (same.symm.trans empty)).1
  have nothing := (String.append_eq_empty_iff.1 nothing).2
  have last := (String.append_eq_empty_iff.1 nothing).2
  simp at last

/-- The bytes of a piece stand among those of the text. -/
theorem bytes (here : Contains text piece) : bytes piece <:+: bytes text := by
  obtain ⟨before, after, rfl⟩ := here
  refine ⟨Markup.bytes before, Markup.bytes after, ?_⟩
  simp [Markup.bytes]

end Contains

/-- Different slots have different names. -/
theorem slotName_injective : Function.Injective slotName := by
  intro m n same
  have digits : Nat.toDigits 10 m = Nat.toDigits 10 n := by
    simpa [slotName, ← String.toList_inj, Nat.toList_repr] using same
  rw [← Nat.ofDigitChars_ten_toDigits (n := m), digits, Nat.ofDigitChars_ten_toDigits]

end ProgressiveHtml.Markup
