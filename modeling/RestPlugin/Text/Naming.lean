import RestPlugin.Text.LetterCase

/-!
# Case conversions for generated names

Resource names, keys and namespaces come from configuration files in any spelling.  The functions
of this file turn them into the spellings used in generated code: `PascalCase` for classes,
`snake_case` for variables and error codes, titles for documentation, underscore slugs for post
types and storage keys.
-/

namespace RestPlugin.Text

/-- The words of a name: its maximal runs of ASCII letters and digits. -/
def words (s : String) : List (List Char) :=
  (splitBy (fun c => !isAlnum c) s.toList).filter (fun word => !word.isEmpty)

/-- `PascalCase`: the words, each with its first letter in upper case. -/
def pascalCase (s : String) : String :=
  String.ofList ((words s).flatMap capitalise)

/-- `camelCase`: as `pascalCase` with the very first letter in lower case. -/
def camelCase (s : String) : String :=
  match (pascalCase s).toList with
  | [] => ""
  | c :: rest => String.ofList (lower c :: rest)

/-- Scans a name for `snakeCase`.  The output so far is held in reverse; `previous` is the
character just copied, if the last character was a letter or digit. -/
def snakeScan : List Char → Option Char → List Char → List Char
  | out, _, [] => out
  | out, previous, c :: rest =>
      if isAlnum c then
        let startsWord := isUpper c && previous.any fun p => isLower p || isDigit p
        let out := if startsWord && out.head? != some '_' then '_' :: out else out
        snakeScan (lower c :: out) (some c) rest
      else
        let out := if out.isEmpty || out.head? == some '_' then out else '_' :: out
        snakeScan out none rest

/-- `snake_case` on characters. -/
def snakeChars (l : List Char) : List Char :=
  ((snakeScan [] none l).dropWhile (· == '_')).reverse

/-- `snake_case`: runs of other characters become one underscore, an upper-case letter after a
lower-case letter or digit starts a word, and no underscore stands at either end. -/
def snakeCase (s : String) : String := String.ofList (snakeChars s.toList)

/-- Scans a name for `underscoreSlug`, with the output in reverse. -/
def slugScan : List Char → List Char → List Char
  | out, [] => out
  | out, c :: rest =>
      if isAlnum c then slugScan (lower c :: out) rest
      else slugScan (if out.isEmpty || out.head? == some '_' then out else '_' :: out) rest

/-- Underscore slug on characters. -/
def slugChars (l : List Char) : List Char :=
  ((slugScan [] l).dropWhile (· == '_')).reverse

/-- Lower case, with every run of other characters turned into one underscore and none at the
ends. -/
def underscoreSlug (s : String) : String := String.ofList (slugChars s.toList)

/-- A human title: the parts between dashes, underscores and colons, capitalised and joined by
spaces. -/
def titleCase (s : String) : String :=
  let parts := splitBy (fun c => c == '-' || c == '_' || c == ':') s.toList
  join " " ((parts.filter (fun part => !part.isEmpty)).map (String.ofList <| capitalise ·))

end RestPlugin.Text
