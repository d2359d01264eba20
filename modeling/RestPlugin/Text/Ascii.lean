/-!
# ASCII character classes and blank characters

The naming rules of the compiler look at ASCII letters and digits only, while trimming removes
every Unicode white-space character.  Both kinds of class live here, with the trimming functions
on lists of characters and on strings.
-/

namespace RestPlugin.Text

/-- The letters `A` to `Z`. -/
def isUpper (c : Char) : Bool := 'A' ≤ c && c ≤ 'Z'

/-- The letters `a` to `z`. -/
def isLower (c : Char) : Bool := 'a' ≤ c && c ≤ 'z'

/-- The digits `0` to `9`. -/
def isDigit (c : Char) : Bool := '0' ≤ c && c ≤ '9'

/-- ASCII letters of either case. -/
def isLetter (c : Char) : Bool := isUpper c || isLower c

/-- ASCII letters and digits. -/
def isAlnum (c : Char) : Bool := isLetter c || isDigit c

/-- ASCII letters, digits and the underscore. -/
def isWord (c : Char) : Bool := isAlnum c || c == '_'

/-- Lower case of an ASCII letter; every other character stays. -/
def lower (c : Char) : Char := if isUpper c then Char.ofNat (c.toNat + 32) else c

/-- Upper case of an ASCII letter; every other character stays. -/
def upper (c : Char) : Char := if isLower c then Char.ofNat (c.toNat - 32) else c

/-- ASCII lower case of a string. -/
def lowerString (s : String) : String := String.ofList (s.toList.map lower)

/-- Equality of strings up to ASCII case. -/
def eqIgnoreCase (s t : String) : Bool := lowerString s == lowerString t

/-- Closed code-point ranges of the Unicode property White_Space, ascending and apart. -/
def blankRanges : List (Nat × Nat) :=
  [(0x09, 0x0D), (0x20, 0x20), (0x85, 0x85), (0xA0, 0xA0), (0x1680, 0x1680), (0x2000, 0x200A),
   (0x2028, 0x2029), (0x202F, 0x202F), (0x205F, 0x205F), (0x3000, 0x3000)]

/-- White space in the sense of Unicode. -/
def isBlank (c : Char) : Bool :=
  blankRanges.any fun range => range.1 ≤ c.toNat && c.toNat ≤ range.2

/-- Drops the characters satisfying `p` from both ends of a list. -/
def trimBy (p : Char → Bool) (l : List Char) : List Char :=
  ((l.dropWhile p).reverse.dropWhile p).reverse

/-- Drops white space from both ends of a string. -/
def trim (s : String) : String := String.ofList (trimBy isBlank s.toList)

/-- Whether a string consists of white space only. -/
def isBlankString (s : String) : Bool := s.toList.all isBlank

/-- Splits a list at every character satisfying `p`.  The pieces do not contain the separators,
and there is always at least one piece. -/
def splitBy (p : Char → Bool) : List Char → List (List Char)
  | [] => [[]]
  | c :: rest =>
      if p c then [] :: splitBy p rest
      else
        match splitBy p rest with
        | [] => [[c]]
        | piece :: pieces => (c :: piece) :: pieces

/-- Splits a string at every occurrence of a separator character. -/
def splitOnChar (sep : Char) (s : String) : List String :=
  (splitBy (· == sep) s.toList).map String.ofList

/-- Joins strings with a separator between neighbours. -/
def join (sep : String) : List String → String
  | [] => ""
  | [s] => s
  | s :: rest => s ++ sep ++ join sep rest

/-- The number of bytes in the UTF-8 encoding of a list of characters. -/
def byteLength : List Char → Nat
  | [] => 0
  | c :: rest => c.utf8Size + byteLength rest

/-- Byte offset of the first occurrence of `pattern` in `text`, counted from `offset`. -/
def findFrom (pattern : List Char) : Nat → List Char → Option Nat
  | offset, [] => if pattern.isEmpty then some offset else none
  | offset, c :: rest =>
      if pattern.isPrefixOf (c :: rest) then some offset
      else findFrom pattern (offset + c.utf8Size) rest

/-- Byte offset of the first occurrence of a pattern in a text. -/
def find? (text pattern : String) : Option Nat := findFrom pattern.toList 0 text.toList

/-- Whether a string has another one as its beginning. -/
def startsWith (s beginning : String) : Bool := beginning.toList.isPrefixOf s.toList

/-- Replaces every occurrence of the character `c` by a text. -/
def replaceChar (c : Char) (by' : String) (s : String) : String :=
  String.ofList (s.toList.flatMap fun d => if d == c then by'.toList else [d])

end RestPlugin.Text
