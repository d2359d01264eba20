import RestPlugin.Digest.Sha256
import RestPlugin.Json.Basic
import RestPlugin.Text.Ascii

/-!
# JSON texts

Three written forms of a JSON value: on one line, indented, and canonical.  The canonical form is
the indented form with the keys of every object in ascending order; content hashes are digests of
it.
-/

namespace RestPlugin.Json

open Number

/-- Numbers are positional from `1e-5` up to `1e16`, a whole number keeps `.0`, and a number that
is not finite is written as `null`. -/
def numberLayout : Layout where
  tie := .toEven
  positionalFrom := some (-5)
  positionalTo := some 16
  wholeSuffix := ".0"
  zero := "0.0"
  infinite := "null"
  minusInfinite := "null"
  nan := "null"

/-- The digit of a number below sixteen. -/
def hexDigit (n : Nat) : Char := Nat.digitChar n

/-- One character of a string literal. -/
def escapeChar (c : Char) : List Char :=
  if c == '"' then ['\\', '"']
  else if c == '\\' then ['\\', '\\']
  else if c == '\x08' then ['\\', 'b']
  else if c == '\t' then ['\\', 't']
  else if c == '\n' then ['\\', 'n']
  else if c == '\x0c' then ['\\', 'f']
  else if c == '\r' then ['\\', 'r']
  else if c.toNat < 0x20 then
    ['\\', 'u', '0', '0', hexDigit (c.toNat / 16), hexDigit (c.toNat % 16)]
  else [c]

/-- A string literal on characters. -/
def quoteChars (l : List Char) : List Char := '"' :: (l.flatMap escapeChar ++ ['"'])

/-- A string literal. -/
def quote (s : String) : String := String.ofList (quoteChars s.toList)

/-- The text of a value that is neither a list nor an object. -/
def scalarText : Json → String
  | bool value => if value then "true" else "false"
  | int value => toString value
  | float value => numberLayout.write value
  | str value => quote value
  | _ => "null"

mutual

/-- The text of a value on one line, without blanks. -/
def compact : Json → String
  | arr items => "[" ++ Text.join "," (compactItems items) ++ "]"
  | obj fields => "\x7b" ++ Text.join "," (compactFields fields) ++ "\x7d"
  | scalar => scalarText scalar
termination_by structural value => value

/-- The texts of the items of a list. -/
def compactItems : List Json → List String
  | [] => []
  | item :: rest => compact item :: compactItems rest
termination_by structural items => items

/-- The texts of the fields of an object. -/
def compactFields : List (String × Json) → List String
  | [] => []
  | (key, value) :: rest => (quote key ++ ":" ++ compact value) :: compactFields rest
termination_by structural fields => fields

end

/-- Two blanks for each level. -/
def indent (depth : Nat) : String := String.ofList (List.replicate (2 * depth) ' ')

/-- The lines between two brackets, one for each part and separated by commas. -/
def bracketed (opening closing : String) (depth : Nat) : List String → String
  | [] => opening ++ closing
  | parts =>
      opening ++ "\n" ++ Text.join ",\n" (parts.map (indent (depth + 1) ++ ·)) ++ "\n" ++
        indent depth ++ closing

mutual

/-- The indented text of a value that stands at a given depth. -/
def prettyAt (depth : Nat) : Json → String
  | arr items => bracketed "[" "]" depth (prettyItems (depth + 1) items)
  | obj fields => bracketed "\x7b" "\x7d" depth (prettyFields (depth + 1) fields)
  | scalar => scalarText scalar
termination_by structural value => value

/-- The indented texts of the items of a list. -/
def prettyItems (depth : Nat) : List Json → List String
  | [] => []
  | item :: rest => prettyAt depth item :: prettyItems depth rest
termination_by structural items => items

/-- The indented texts of the fields of an object. -/
def prettyFields (depth : Nat) : List (String × Json) → List String
  | [] => []
  | (key, value) :: rest =>
      (quote key ++ ": " ++ prettyAt depth value) :: prettyFields depth rest
termination_by structural fields => fields

end

/-- The indented text of a value. -/
def pretty (value : Json) : String := prettyAt 0 value

/-- The canonical text of a value. -/
def canonical (value : Json) : String := pretty value.sortKeys

/-- The digest of the canonical text. -/
def contentHash (value : Json) : String := Digest.sha256 value.canonical

end RestPlugin.Json
