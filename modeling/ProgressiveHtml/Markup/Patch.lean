import ProgressiveHtml.Markup.Escape

namespace ProgressiveHtml.Markup

/-!
# Markup — placeholders and patches

A late fragment first appears as a placeholder that holds its fallback.  Its content comes after
the body as a patch: an inert `<template>` and a script that moves the content over the
placeholder and then removes both the template and itself.  The two find each other by the name
of their slot.

* `slotName` — the name of the n-th slot of a document;
* `placeholder` — the element in which the fallback stands;
* `relocationScript`, `patch` — the out-of-band content and its script.
-/

/-- The name of slot number `n`. -/
def slotName (n : Nat) : String :=
  "slot-" ++ n.repr

/-- The attribute that marks a placeholder. -/
def slotAttribute : String := "data-deferred-slot"

/-- The attribute that marks the template of a patch. -/
def templateAttribute : String := "data-deferred-template"

/-- Wrap fallback markup in the placeholder of a slot.  `display: contents` keeps the wrapper out
    of the layout. -/
def placeholder (slot fallback : String) : String :=
  "<div style=\"display: contents\" " ++ slotAttribute ++ "=\"" ++ slot ++ "\">" ++ fallback
    ++ "</div>"

/-- A selector of the elements whose attribute `name` names the slot. -/
def slotSelector (name slot : String) : String :=
  "[" ++ name ++ "='" ++ slot ++ "']"

/-- The script that moves a patch over its placeholder. -/
def relocationScript (slot : String) : String :=
  "<script>\n(function () \x7b\n"
    ++ "  const t = document.querySelector(\"" ++ slotSelector templateAttribute slot ++ "\");\n"
    ++ "  document.querySelector(\"" ++ slotSelector slotAttribute slot
    ++ "\").replaceWith(t.content.cloneNode(true));\n"
    ++ "  t.remove();\n  document.currentScript.remove();\n\x7d)();\n</script>"

/-- The patch that brings the content of a slot. -/
def patch (slot content : String) : String :=
  "<template " ++ templateAttribute ++ "=\"" ++ slot ++ "\">" ++ content ++ "</template>"
    ++ relocationScript slot

end ProgressiveHtml.Markup
