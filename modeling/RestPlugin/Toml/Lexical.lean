import RestPlugin.Json.Reader

/-!
# Lexical elements of TOML

Blanks, comments, line breaks, quoted texts and keys.  Every reader takes the characters that are
left and gives back what it read with the rest, or nothing if the text is not well formed.
-/

namespace RestPlugin.Toml

/-- A reader of a prefix of a text. -/
abbrev Reader (α : Type) : Type := List Char → Option (α × List Char)

/-- A space or a tab. -/
def isSpace (c : Char) : Bool := c == ' ' || c == '\t'

/-- A character that may stand in a comment or a literal text: a tab, or no control character. -/
def isPlain (c : Char) : Bool := c == '\t' || (0x20 ≤ c.toNat && c.toNat != 0x7F)

/-- Drops spaces and tabs. -/
def skipSpaces (l : List Char) : List Char := l.dropWhile isSpace

/-- Takes a line break. -/
def lineBreak? : List Char → Option (List Char)
  | '\n' :: rest => some rest
  | '\r' :: '\n' :: rest => some rest
  | _ => none

/-- Drops a comment up to its line break.  A control character in it is refused. -/
def skipComment : List Char → Option (List Char)
  | '#' :: rest =>
      let after := rest.dropWhile isPlain
      if after.isEmpty || (lineBreak? after).isSome then some after else none
  | l => some l

/-- Drops blanks, comments and line breaks; `fuel` bounds the number of lines. -/
def skipLines : Nat → List Char → Option (List Char)
  | 0, l => some l
  | fuel + 1, l => do
      let l ← skipComment (skipSpaces l)
      match lineBreak? l with
      | some rest => skipLines fuel rest
      | none => some l

/-- The character of a code point that is a Unicode scalar value. -/
def scalarChar? (n : Nat) : Option Char :=
  if n < 0xD800 || (0xE000 ≤ n && n < 0x110000) then some (Char.ofNat n) else none

/-- The value of digits in a base. -/
def digitsValue (base : Nat) (digits : List Char) : Nat :=
  digits.foldl (fun n c => n * base + (Json.hexValue? c).getD 0) 0

/-- The value of hexadecimal digits. -/
def hexNumber? (digits : List Char) : Option Nat :=
  digits.foldlM (fun n c => (Json.hexValue? c).map (n * 16 + ·)) 0

/-- Takes `count` hexadecimal digits as a code point. -/
def codePoint (count : Nat) : Reader Char := fun l =>
  if l.length < count then none
  else do
    let n ← hexNumber? (l.take count)
    let c ← scalarChar? n
    some (c, l.drop count)

/-- The character of an escape, after its backslash. -/
def escape : Reader Char
  | 'b' :: rest => some ('\x08', rest)
  | 't' :: rest => some ('\t', rest)
  | 'n' :: rest => some ('\n', rest)
  | 'f' :: rest => some ('\x0c', rest)
  | 'r' :: rest => some ('\r', rest)
  | 'e' :: rest => some ('\x1b', rest)
  | '"' :: rest => some ('"', rest)
  | '\\' :: rest => some ('\\', rest)
  | 'x' :: rest => codePoint 2 rest
  | 'u' :: rest => codePoint 4 rest
  | 'U' :: rest => codePoint 8 rest
  | _ => none

/-- The rest of a basic text on one line. -/
def basicChars : Nat → Reader (List Char)
  | 0, _ => none
  | fuel + 1, l =>
      match l with
      | [] => none
      | c :: rest =>
          if c == '"' then some ([], rest)
          else if c == '\\' then do
            let (c, rest) ← escape rest
            let (chars, rest) ← basicChars fuel rest
            some (c :: chars, rest)
          else if isPlain c then do
            let (chars, rest) ← basicChars fuel rest
            some (c :: chars, rest)
          else none

/-- The rest of a literal text on one line. -/
def literalChars (l : List Char) : Option (List Char × List Char) :=
  let body := l.takeWhile fun c => c != '\'' && isPlain c
  match l.drop body.length with
  | '\'' :: rest => some (body, rest)
  | _ => none

/-- Drops a line break at the start of a text over several lines. -/
def skipFirstBreak (l : List Char) : List Char := (lineBreak? l).getD l

/-- Takes the closing quotes of a text over several lines.  Up to two quotes before them belong to
the text. -/
def closing (quote : Char) (l : List Char) : Option (List Char × List Char) :=
  let run := (l.takeWhile (· == quote)).length
  if run < 3 then none
  else
    let taken := min run 5
    some (List.replicate (taken - 3) quote, l.drop taken)

/-- Drops the blanks and line breaks after a backslash at the end of a line. -/
def skipFolded : Nat → List Char → List Char
  | 0, l => l
  | fuel + 1, l =>
      let l := skipSpaces l
      match lineBreak? l with
      | some rest => skipFolded fuel rest
      | none => l

/-- Whether a character may stand for itself in a text over several lines: a plain one, a line feed,
and a carriage return in front of a line feed. -/
def isLinePart (c : Char) (rest : List Char) : Bool :=
  isPlain c || c == '\n' || (c == '\r' && rest.head? == some '\n')

/-- The rest of a basic text over several lines.  Line breaks stay as they are written. -/
def basicLines : Nat → Reader (List Char)
  | 0, _ => none
  | fuel + 1, l =>
      match closing '"' l with
      | some found => some found
      | none =>
          match l with
          | [] => none
          | c :: rest =>
              if c == '\\' then
                match lineBreak? (skipSpaces rest) with
                | some after => basicLines fuel (skipFolded (after.length + 1) after)
                | none => do
                    let (c, rest) ← escape rest
                    let (chars, rest) ← basicLines fuel rest
                    some (c :: chars, rest)
              else if isLinePart c rest then do
                let (chars, rest) ← basicLines fuel rest
                some (c :: chars, rest)
              else none

/-- The rest of a literal text over several lines.  Line breaks stay as they are written. -/
def literalLines : Nat → Reader (List Char)
  | 0, _ => none
  | fuel + 1, l =>
      match closing '\'' l with
      | some found => some found
      | none =>
          match l with
          | [] => none
          | c :: rest =>
              if isLinePart c rest then do
                let (chars, rest) ← literalLines fuel rest
                some (c :: chars, rest)
              else none

/-- A quoted text on one line. -/
def quotedLine : Reader String
  | '"' :: rest => do
      let (chars, rest) ← basicChars (rest.length + 1) rest
      some (String.ofList chars, rest)
  | '\'' :: rest => do
      let (chars, rest) ← literalChars rest
      some (String.ofList chars, rest)
  | _ => none

/-- A quoted text of any of the four kinds. -/
def quoted : Reader String
  | '"' :: '"' :: '"' :: rest => do
      let (chars, rest) ← basicLines (rest.length + 1) (skipFirstBreak rest)
      some (String.ofList chars, rest)
  | '\'' :: '\'' :: '\'' :: rest => do
      let (chars, rest) ← literalLines (rest.length + 1) (skipFirstBreak rest)
      some (String.ofList chars, rest)
  | l => quotedLine l

/-- A character of a bare key. -/
def isBare (c : Char) : Bool := Text.isWord c || c == '-'

/-- One part of a key. -/
def simpleKey (l : List Char) : Option (String × List Char) :=
  match l.head? with
  | some '"' | some '\'' => quotedLine l
  | _ =>
      let name := l.takeWhile isBare
      if name.isEmpty then none else some (String.ofList name, l.drop name.length)

/-- The number of parts that a key may have, and of levels to which arrays and inline tables may
nest. -/
def maxLevels : Nat := 80

/-- A key of at most `limit` parts with dots between them. -/
def keyParts : Nat → Reader (List String)
  | 0, _ => none
  | limit + 1, l => do
      let (part, rest) ← simpleKey l
      match skipSpaces rest with
      | '.' :: after => do
          let (parts, rest) ← keyParts limit (skipSpaces after)
          some (part :: parts, rest)
      | rest => some ([part], rest)

/-- A key. -/
def key : Reader (List String) := keyParts maxLevels

end RestPlugin.Toml
