import RestPlugin.Toml.Scalar
import RestPlugin.Toml.Tree

/-!
# Reading TOML documents

A document is a sequence of lines, each a key with a value, a table header, or blank.  Inside arrays
and inline tables lines may end and comments may stand between any two parts, and a comma may stand
after the last one.  The tables of the resulting tree have ascending keys.
-/

namespace RestPlugin.Toml

open Source

/-- Drops blanks, comments and line breaks. -/
def skipAll (l : List Char) : Option (List Char) := skipLines (l.length + 1) l

mutual

/-- Reads a value.  `levels` is the number of levels that may still open. -/
def value : Nat → Nat → Reader Node
  | 0, _, _ => none
  | fuel + 1, levels, l =>
      match l, levels with
      | '[' :: _, 0 | '\x7b' :: _, 0 => none
      | '[' :: rest, levels + 1 => do
          let (items, rest) ← arrayItems fuel levels rest
          some (.list (items.map fun item => (0, item)) none, rest)
      | '\x7b' :: rest, levels + 1 => do
          let (entries, rest) ← inlineEntries fuel levels [] rest
          some (sortedTable (entriesToNodes entries), rest)
      | '"' :: _, _ | '\'' :: _, _ => (quoted l).map fun (text, rest) => (.str text, rest)
      | l, _ => scalar l

/-- Reads the items of an array up to its closing bracket. -/
def arrayItems : Nat → Nat → Reader (List Node)
  | 0, _, _ => none
  | fuel + 1, levels, l => do
      let l ← skipAll l
      match l with
      | ']' :: rest => some ([], rest)
      | l =>
          let (item, rest) ← value fuel levels l
          let rest ← skipAll rest
          match rest with
          | ',' :: rest => do
              let (items, rest) ← arrayItems fuel levels rest
              some (item :: items, rest)
          | ']' :: rest => some ([item], rest)
          | _ => none

/-- Reads the entries of an inline table up to its closing bracket. -/
def inlineEntries : Nat → Nat → Entries → Reader Entries
  | 0, _, _, _ => none
  | fuel + 1, levels, entries, l => do
      let l ← skipAll l
      match l with
      | '\x7d' :: rest => some (entries, rest)
      | l =>
          let (name, rest) ← key l
          let '=' :: rest ← skipAll rest | none
          let rest ← skipAll rest
          let (node, rest) ← value fuel levels rest
          let entries ← addValue name node false entries
          let rest ← skipAll rest
          match rest with
          | ',' :: rest => inlineEntries fuel levels entries rest
          | '\x7d' :: rest => some (entries, rest)
          | _ => none

end

/-- A document read so far: the key of the current header and the entries of the root. -/
structure Draft where
  header : List String
  entries : Entries

/-- Reads what stands on a line before its comment. -/
def statement (draft : Draft) (l : List Char) : Option (Draft × List Char) :=
  match l with
  | '[' :: '[' :: rest => do
      let (name, rest) ← key (skipSpaces rest)
      let ']' :: ']' :: rest := rest | none
      let entries ← openElement name draft.entries
      some ({ header := name, entries }, rest)
  | '[' :: rest => do
      let (name, rest) ← key (skipSpaces rest)
      let ']' :: rest := rest | none
      let entries ← openTable name draft.entries
      some ({ header := name, entries }, rest)
  | l => do
      let (name, rest) ← key l
      let '=' :: rest := rest | none
      let (node, rest) ← value (2 * rest.length + 2) maxLevels (skipSpaces rest)
      let entries ← addBelow draft.header name node draft.entries
      some ({ draft with entries }, rest)

/-- Reads the lines of a document. -/
def lines : Nat → Draft → List Char → Option Draft
  | 0, _, _ => none
  | fuel + 1, draft, l => do
      let l ← skipAll l
      if l.isEmpty then some draft
      else
        let (draft, rest) ← statement draft l
        let rest ← skipComment (skipSpaces rest)
        if rest.isEmpty then some draft
        else
          let rest ← lineBreak? rest
          lines fuel draft rest

/-- The characters of a text after a byte order mark. -/
def skipMark : List Char → List Char
  | c :: rest => if c.toNat == 0xFEFF then rest else c :: rest
  | [] => []

/-- Reads a document. -/
def readDocument (text : String) : Document :=
  let l := skipMark text.toList
  match lines (l.length + 1) ⟨[], []⟩ l with
  | some draft => ⟨0, sortedTable (entriesToNodes draft.entries), none⟩
  | none => ⟨0, .meaningless, none⟩

end RestPlugin.Toml
