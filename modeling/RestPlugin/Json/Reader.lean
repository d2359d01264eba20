import RestPlugin.Json.Number

/-!
# Reading JSON texts

The reader turns a text into a tree of `Source.Node`s in one pass.  It never fails: a flaw of the
text becomes part of the tree, at the place where a reader from left to right would meet it.
Containers nest at most `maxDepth` levels deep.
-/

namespace RestPlugin.Json

open Source

/-- The number of levels to which lists and objects may nest. -/
def maxDepth : Nat := 127

/-- The blanks that may stand between tokens. -/
def isSpace (c : Char) : Bool := c == ' ' || c == '\n' || c == '\t' || c == '\r'

/-- The cursor after the blanks at an offset. -/
def skipBlanks : Nat → List Char → Cursor
  | offset, [] => ⟨offset, []⟩
  | offset, c :: rest => if isSpace c then skipBlanks (offset + 1) rest else ⟨offset, c :: rest⟩

/-- The cursor after the blanks at a cursor. -/
def Cursor.skip (cursor : Cursor) : Cursor := skipBlanks cursor.offset cursor.rest

/-- The cursor after the given word, of which the text has to show every character. -/
def readWord : List Char → Nat → List Char → Except Flaw Cursor
  | [], offset, rest => .ok ⟨offset, rest⟩
  | _ :: _, offset, [] => .error (.malformed offset)
  | w :: word, offset, c :: rest =>
      if w == c then readWord word (offset + 1) rest else .error (.malformed (offset + 1))

/-- The value of a hexadecimal digit. -/
def hexValue? (c : Char) : Option Nat :=
  if Text.isDigit c then some (c.toNat - '0'.toNat)
  else if 'a' ≤ c && c ≤ 'f' then some (c.toNat - 'a'.toNat + 10)
  else if 'A' ≤ c && c ≤ 'F' then some (c.toNat - 'A'.toNat + 10)
  else none

/-- The value of four hexadecimal digits. -/
def hexUnit? (a b c d : Char) : Option Nat := do
  let a ← hexValue? a
  let b ← hexValue? b
  let c ← hexValue? c
  let d ← hexValue? d
  some (((a * 16 + b) * 16 + c) * 16 + d)

/-- The four hexadecimal digits of a Unicode escape. -/
def readUnit (cursor : Cursor) : Except Flaw (Nat × Cursor) :=
  if Text.byteLength (cursor.rest.take 4) < 4 then
    .error (.malformed (cursor.offset + Text.byteLength cursor.rest))
  else
    match cursor.rest with
    | a :: b :: c :: d :: rest =>
        match hexUnit? a b c d with
        | some unit => .ok (unit, ⟨cursor.offset + 4, rest⟩)
        | none => .error (.malformed (cursor.offset + 4))
    | _ => .error (.malformed (cursor.offset + 4))

/-- The second half of an escaped character outside the basic plane. -/
def readLowHalf (high : Nat) (cursor : Cursor) : Except Flaw (Char × Cursor) :=
  match cursor.rest with
  | [] => .error (.malformed cursor.offset)
  | c :: rest =>
      if c != '\\' then .error (.malformed (cursor.offset + 1))
      else
        match rest with
        | [] => .error (.malformed (cursor.offset + 1))
        | d :: rest =>
            if d != 'u' then .error (.malformed (cursor.offset + 2))
            else do
              let (low, after) ← readUnit ⟨cursor.offset + 2, rest⟩
              if low < 0xDC00 || 0xDFFF < low then .error (.malformed after.offset)
              else
                .ok (Char.ofNat ((high - 0xD800) * 0x400 + (low - 0xDC00) + 0x10000), after)

/-- The character of an escape; the cursor stands after the backslash. -/
def readEscape (cursor : Cursor) : Except Flaw (Char × Cursor) :=
  match cursor.rest with
  | [] => .error (.malformed cursor.offset)
  | c :: rest =>
      let after : Cursor := ⟨cursor.offset + 1, rest⟩
      if c == '"' || c == '\\' || c == '/' then .ok (c, after)
      else if c == 'b' then .ok ('\x08', after)
      else if c == 'f' then .ok ('\x0c', after)
      else if c == 'n' then .ok ('\n', after)
      else if c == 'r' then .ok ('\r', after)
      else if c == 't' then .ok ('\t', after)
      else if c == 'u' then do
        let (unit, after) ← readUnit after
        if unit < 0xD800 || 0xDFFF < unit then .ok (Char.ofNat unit, after)
        else if 0xDC00 ≤ unit then .error (.malformed after.offset)
        else readLowHalf unit after
      else .error (.malformed (cursor.offset + 1))

/-- The characters of a string up to its closing quote; `fuel` bounds their number. -/
def readChars : Nat → Cursor → Except Flaw (List Char × Cursor)
  | 0, cursor => .error (.malformed cursor.offset)
  | fuel + 1, cursor =>
      match cursor.rest with
      | [] => .error (.malformed cursor.offset)
      | c :: rest =>
          if c == '"' then .ok ([], ⟨cursor.offset + 1, rest⟩)
          else if c == '\\' then do
            let (c, after) ← readEscape ⟨cursor.offset + 1, rest⟩
            let (chars, after) ← readChars fuel after
            .ok (c :: chars, after)
          else if c.toNat < 0x20 then .error (.malformed (cursor.offset + 1))
          else do
            let (chars, after) ← readChars fuel ⟨cursor.offset + c.utf8Size, rest⟩
            .ok (c :: chars, after)

/-- A string; the cursor stands after its opening quote. -/
def readString (cursor : Cursor) : Except Flaw (String × Cursor) := do
  let (chars, after) ← readChars (cursor.rest.length + 1) cursor
  .ok (String.ofList chars, after)

/-- A tree read so far, and the cursor after it unless it ends in a flaw. -/
abbrev Scan (α : Type) : Type := α × Option Cursor

/-- The scan of a value that cannot be read, whatever is expected. -/
def scanFlaw (flaw : Flaw) : Scan Node := (.broken flaw flaw, none)

/-- The scan of a text. -/
def scanText (result : Except Flaw (String × Cursor)) : Scan Node :=
  match result with
  | .ok (value, after) => (.str value, some after)
  | .error flaw => scanFlaw flaw

/-- The scan of a value that starts at `start` and is neither a text nor has parts.  A reader who
expects a text or a table stops at its first byte. -/
def scanScalar (start : Nat) (result : Except Flaw (Scalar × Cursor)) : Scan Node :=
  match result with
  | .ok (value, after) => (.scalar value, some after)
  | .error flaw => (.broken flaw (.malformed (start + 1)), none)

/-- The entries of an object read so far, with the flaws of a `Node.table`. -/
structure Fields where
  entries : List (String × Nat × Node)
  stop : Option Flaw
  alone : Option Flaw

/-- An object that ends in a flaw before its next entry. -/
def Fields.cut (flaw : Flaw) : Fields := ⟨[], some flaw, some flaw⟩

mutual

/-- Reads a value.  `depth` is the number of levels that may still open. -/
def readValue : Nat → Nat → Cursor → Scan Node
  | 0, _, cursor => scanFlaw (.malformed cursor.offset)
  | fuel + 1, depth, cursor =>
      match cursor.rest with
      | [] => scanFlaw (.malformed cursor.offset)
      | c :: rest =>
          let after : Cursor := ⟨cursor.offset + 1, rest⟩
          if c == '"' then scanText (readString after)
          else if c == '[' then
            if depth == 0 then scanFlaw (.malformed after.offset)
            else
              let ((items, stop), next) := readItems fuel (depth - 1) true after
              (.list items stop, next)
          else if c == '\x7b' then
            if depth == 0 then scanFlaw (.malformed after.offset)
            else
              let (fields, next) := readEntries fuel (depth - 1) true after
              (.table fields.entries fields.stop fields.alone, next)
          else
            scanScalar cursor.offset <|
              if c == 'n' then (readWord ['u', 'l', 'l'] after.offset rest).map (.null, ·)
              else if c == 't' then
                (readWord ['r', 'u', 'e'] after.offset rest).map (.bool true, ·)
              else if c == 'f' then
                (readWord ['a', 'l', 's', 'e'] after.offset rest).map (.bool false, ·)
              else if c == '-' then readNumber true after
              else if Text.isDigit c then readNumber false cursor
              else .error (.malformed after.offset)

/-- Reads the items of a list up to its closing bracket. -/
def readItems : Nat → Nat → Bool → Cursor → Scan (List (Nat × Node) × Option Flaw)
  | 0, _, _, cursor => (([], some (.malformed cursor.offset)), none)
  | fuel + 1, depth, first, cursor =>
      let cursor := cursor.skip
      match cursor.rest with
      | [] => (([], some (.malformed cursor.offset)), none)
      | c :: rest =>
          if c == ']' then (([], none), some ⟨cursor.offset + 1, rest⟩)
          else if !first && c != ',' then (([], some (.malformed (cursor.offset + 1))), none)
          else
            let cursor := if first then cursor else (Cursor.mk (cursor.offset + 1) rest).skip
            match cursor.rest with
            | [] => (([], some (.malformed cursor.offset)), none)
            | c :: _ =>
                if !first && c == ']' then (([], some (.malformed (cursor.offset + 1))), none)
                else
                  let (node, next) := readValue fuel depth cursor
                  match next with
                  | none => (([(cursor.offset, node)], none), none)
                  | some after =>
                      let ((items, stop), next) := readItems fuel depth false after
                      (((cursor.offset, node) :: items, stop), next)

/-- Reads the entries of an object up to its closing bracket.  At the first entry `alone` speaks of
an object with one entry, after it of an object that is to end. -/
def readEntries : Nat → Nat → Bool → Cursor → Scan Fields
  | 0, _, _, cursor => (.cut (.malformed cursor.offset), none)
  | fuel + 1, depth, first, cursor =>
      let cursor := cursor.skip
      match cursor.rest with
      | [] => (.cut (.malformed cursor.offset), none)
      | c :: rest =>
          let here := Flaw.malformed cursor.offset
          let after : Cursor := ⟨cursor.offset + 1, rest⟩
          if c == '\x7d' then
            (⟨[], none, if first then some (.malformed after.offset) else none⟩, some after)
          else if !first && c != ',' then (⟨[], some (.malformed after.offset), some here⟩, none)
          else
            let cursor := if first then cursor else after.skip
            let (fields, next) := readEntry fuel depth cursor
            (if first then fields else { fields with alone := some here }, next)

/-- Reads an entry of an object, from its key on, and the entries after it. -/
def readEntry : Nat → Nat → Cursor → Scan Fields
  | 0, _, cursor => (.cut (.malformed cursor.offset), none)
  | fuel + 1, depth, cursor =>
      match cursor.rest with
      | [] => (.cut (.malformed cursor.offset), none)
      | c :: rest =>
          if c != '"' then (.cut (.malformed (cursor.offset + 1)), none)
          else
            match readString ⟨cursor.offset + 1, rest⟩ with
            | .error flaw => (.cut flaw, none)
            | .ok (key, after) =>
                let (start, node, next) := readField fuel depth after
                match next with
                | none => (⟨[(key, start, node)], none, none⟩, none)
                | some after =>
                    let (fields, next) := readEntries fuel depth false after
                    ({ fields with entries := (key, start, node) :: fields.entries }, next)

/-- Reads the colon and the value of a field, with the offset of the value. -/
def readField : Nat → Nat → Cursor → Nat × Scan Node
  | 0, _, cursor => (cursor.offset, scanFlaw (.malformed cursor.offset))
  | fuel + 1, depth, cursor =>
      let cursor := cursor.skip
      match cursor.rest with
      | [] => (cursor.offset, scanFlaw (.malformed cursor.offset))
      | c :: rest =>
          if c == ':' then
            let cursor := (Cursor.mk (cursor.offset + 1) rest).skip
            (cursor.offset, readValue fuel depth cursor)
          else (cursor.offset, scanFlaw (.malformed (cursor.offset + 1)))

end

/-- What is wrong after the value of a document: anything but blanks. -/
def trailingFlaw (cursor : Cursor) : Option Flaw :=
  let cursor := cursor.skip
  if cursor.rest.isEmpty then none else some (.malformed (cursor.offset + 1))

/-- Reads a text as one JSON value with nothing after it. -/
def readDocument (text : String) : Document :=
  let cursor := skipBlanks 0 text.toList
  let (root, next) := readValue (4 * text.length + 4) maxDepth cursor
  ⟨cursor.offset, root, next.bind trailingFlaw⟩

/-- The JSON value of a text. -/
def parse (text : String) : Except Flaw Json := (readDocument text).toJson

end RestPlugin.Json
