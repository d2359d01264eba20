import RestPlugin.Text.Lines

/-!
# Places in a source text

Errors point at a place in the configuration text.  A place is a span of bytes; a malformed JSON
text is reported by line and column, which `offsetFor` turns back into an offset.
-/

namespace RestPlugin.Source

/-- A stretch of bytes. -/
structure Span where
  offset : Nat
  length : Nat
deriving DecidableEq, Repr, Inhabited

/-- Lines and columns count from one; column zero stands before the first byte of a line. -/
structure Position where
  line : Nat
  column : Nat
deriving DecidableEq, Repr, Inhabited

/-- The position reached after `count` bytes of a text. -/
def positionFrom : Position → Nat → List Char → Position
  | position, _, [] => position
  | position, count, c :: rest =>
      if count < c.utf8Size then ⟨position.line, position.column + count⟩
      else if c == '\n' then positionFrom ⟨position.line + 1, 0⟩ (count - 1) rest
      else positionFrom ⟨position.line, position.column + c.utf8Size⟩ (count - c.utf8Size) rest

/-- The position reached after `count` bytes of a text. -/
def positionAfter (text : String) (count : Nat) : Position :=
  positionFrom ⟨1, 0⟩ count text.toList

/-- The byte offset of a column in the line with index `line`, counted from the lines given. -/
def offsetIn (column : Nat) : Nat → Nat → List (List Char) → Option Nat
  | _, _, [] => none
  | offset, 0, line :: _ => some (offset + min (column - 1) (Text.byteLength line))
  | offset, index + 1, line :: rest => offsetIn column (offset + Text.byteLength line) index rest

/-- The byte offset of a line and column, if the text has that line. -/
def offsetFor (text : String) (position : Position) : Option Nat :=
  match position.line with
  | 0 => none
  | index + 1 => offsetIn position.column 0 index (Text.lineChunks text.toList)

/-- The span of the last of `reach` bytes. -/
def spanAt (text : String) (reach : Nat) : Option Span :=
  (offsetFor text (positionAfter text reach)).map (⟨·, 1⟩)

/-- The texts around a key by which it is found: a table header, a dotted key, a quoted key. -/
def keyPatterns (key : String) : List String :=
  ["." ++ key ++ "]", "." ++ key ++ ".", "\"" ++ key ++ "\""]

/-- The span of a key in a source text, by the first pattern that occurs. -/
def findKeySpan (text key : String) : Option Span :=
  (keyPatterns key).findSome? fun pattern =>
    (Text.find? text pattern).map fun offset => ⟨offset + 1, key.utf8ByteSize⟩

end RestPlugin.Source
