import ProgressiveHtml.Error

namespace ProgressiveHtml

/-!
# Chunks — the units of output

A document is handed out in chunks: literal text of its pattern, the content of one of its slots,
or the patch of a late fragment.  A chunk stream yields `Item`s, each a chunk or the error that
ends the stream.
-/

/-- One self-contained unit of output. -/
inductive Chunk where
  /-- Text of the pattern. -/
  | literal (text : String)
  /-- The content of a slot. -/
  | content (text : String)
  /-- The patch for a placeholder. -/
  | patch (slot : String) (markup : String)
  deriving DecidableEq

namespace Chunk

/-- The text that is written for the chunk. -/
def text : Chunk → String
  | literal text => text
  | content text => text
  | patch _ markup => markup

/-- The slot that the chunk patches, if it is a patch. -/
def slot? : Chunk → Option String
  | patch slot _ => some slot
  | _ => none

/-- Whether nothing is written for the chunk. -/
def isEmpty (chunk : Chunk) : Bool :=
  chunk.text.isEmpty

/-- The number of bytes written for the chunk. -/
def byteSize (chunk : Chunk) : Nat :=
  chunk.text.utf8ByteSize

end Chunk

/-- What a chunk stream yields: a chunk, or the error that ends it. -/
abbrev Item := Except RenderError Chunk

/-- An item in a stream of bytes: the buffer with the text of a chunk, or the error as that of a
    response. -/
def Item.buffer : Item → Except StreamError ByteArray
  | .ok chunk => .ok chunk.text.toUTF8
  | .error error => .error (.render error)

/-- What asking for the next item comes to. -/
inductive Answer where
  /-- The next item. -/
  | item (item : Item)
  /-- There are no more items. -/
  | finished
  /-- The next item is not there yet. -/
  | waiting

end ProgressiveHtml
