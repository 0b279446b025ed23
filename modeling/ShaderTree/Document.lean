import ShaderTree.Span

/-!
# Documents

A document is shader text together with a table of the offsets where its lines start.  The table
turns a byte offset into a line and a column by a binary search and a walk along one line.  Offsets
past the end stand for the end, and offsets inside a character for the start of that character.
-/

namespace ShaderTree

/-- A line and a column, both counted from one. -/
structure Place where
  line : Nat
  column : Nat
deriving DecidableEq, Repr

namespace Place

/-- The written form of a place, `line:column`. -/
def text (place : Place) : String :=
  toString place.line ++ ":" ++ toString place.column

end Place

/-- Shader text and the offsets at which its lines start, in ascending order. -/
structure Document where
  content : String
  lineStarts : Array Nat
deriving Repr

namespace Document

/-- The offsets just past each newline of the characters, the first of which stands at `offset`. -/
def startsAfterNewlines (offset : Nat) : List Char → List Nat
  | [] => []
  | first :: rest =>
      let next := offset + first.utf8Size
      if first = '\n' then
        next :: startsAfterNewlines next rest
      else
        startsAfterNewlines next rest

/-- The document with the given text: its first line starts at zero. -/
def ofString (content : String) : Document where
  content := content
  lineStarts := (0 :: startsAfterNewlines 0 content.toList).toArray

/-- The number of bytes of a document. -/
def byteSize (document : Document) : Nat :=
  document.content.utf8ByteSize

/-- The last position of the text at or before a byte offset. -/
def posAtOrBefore (content : String) : Nat → content.Pos
  | 0 => content.startPos
  | offset + 1 =>
      match content.pos? ⟨offset + 1⟩ with
      | some pos => pos
      | none => posAtOrBefore content offset

/-- The position that an offset stands for. -/
def posOf (document : Document) (offset : Nat) : document.content.Pos :=
  posAtOrBefore document.content (min offset document.byteSize)

/--
The number of entries of an ascending table that do not exceed `bound`, where every entry before
`low` is known not to exceed it and every entry from `high` on is known to exceed it.
-/
def countAtMost (table : Array Nat) (bound low high : Nat) : Nat :=
  if low < high then
    let middle := (low + high) / 2
    match table[middle]? with
    | some entry =>
        if entry ≤ bound then
          countAtMost table bound (middle + 1) high
        else
          countAtMost table bound low middle
    | none => countAtMost table bound low middle
  else
    low
termination_by high - low

/-- The line on which an offset lies, counted from one. -/
def lineOf (document : Document) (offset : Nat) : Nat :=
  countAtMost document.lineStarts offset 0 document.lineStarts.size

/-- The offset at which a line starts. -/
def startOfLine (document : Document) (line : Nat) : Nat :=
  document.lineStarts.getD (line - 1) 0

/-- The place of a byte offset. -/
def placeOf (document : Document) (offset : Nat) : Place :=
  let pos := document.posOf offset
  let line := document.lineOf pos.offset.byteIdx
  let lineStart := document.posOf (document.startOfLine line)
  ⟨line, (document.content.extract lineStart pos).length + 1⟩

/-- The text that a span covers, if the span starts and stops between characters of the text. -/
def excerpt? (document : Document) (span : Span) : Except Fault (Option String) := do
  let stop ← span.stop
  return do
    let first ← document.content.pos? ⟨span.offset.toNat⟩
    let last ← document.content.pos? ⟨stop.toNat⟩
    some (document.content.extract first last)

end Document

end ShaderTree
