import ProgressiveHtml.Markup.Escape

namespace ProgressiveHtml.Markup

/-!
# Markup — elements

The text of an element is its opening tag, the markup of its children and its closing tag.  A
void tag (`br`, `img`, …) without children is the opening tag alone.  Tags and attribute names
are written as they are; attribute values are escaped.

* `openTag`, `closeTag` — the two tags;
* `element` — a whole element around already written children;
* `isVoid` — the tags that may stand alone.
-/

/-- The tags that are never closed when they have no children. -/
def voidTags : List String :=
  ["area", "base", "br", "col", "embed", "hr", "img", "input", "link", "meta", "source",
    "track", "wbr"]

/-- Whether a tag stands alone when it has no children. -/
def isVoid (tag : String) : Bool :=
  voidTags.contains tag

/-- An attribute's name and value. -/
abbrev Attribute := String × String

/-- One attribute as it stands in an opening tag, with the blank in front of it. -/
def writeAttribute (a : Attribute) : String :=
  " " ++ a.1 ++ "=\"" ++ escape a.2 ++ "\""

/-- The opening tag with its attributes in order. -/
def openTag (tag : String) (attributes : List Attribute) : String :=
  "<" ++ tag ++ String.join (attributes.map writeAttribute) ++ ">"

/-- The closing tag. -/
def closeTag (tag : String) : String :=
  "</" ++ tag ++ ">"

/-- An element around the markup of its children.  Whether it has children is asked of the list,
    not of the markup: an element whose children render to nothing is still closed. -/
def element (tag : String) (attributes : List Attribute) (children : List String) : String :=
  if children.isEmpty && isVoid tag then openTag tag attributes
  else openTag tag attributes ++ String.join children ++ closeTag tag

end ProgressiveHtml.Markup
