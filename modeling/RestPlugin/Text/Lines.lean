import RestPlugin.Text.Ascii

/-!
# Lines of a text

A text is cut after every line feed.  A line ends before its line feed and before a carriage return
that stands directly in front of it; a text that ends in a line feed has no further line.
-/

namespace RestPlugin.Text

/-- The pieces of a text that end in a line feed, and what follows the last one. -/
def lineChunks : List Char → List (List Char)
  | [] => []
  | c :: rest =>
      if c == '\n' then [c] :: lineChunks rest
      else
        match lineChunks rest with
        | [] => [[c]]
        | chunk :: chunks => (c :: chunk) :: chunks

/-- A piece without its line break. -/
def stripBreak (chunk : List Char) : List Char :=
  match chunk.reverse with
  | '\n' :: '\r' :: rest => rest.reverse
  | '\n' :: rest => rest.reverse
  | _ => chunk

/-- The lines of a text. -/
def lines (s : String) : List String :=
  (lineChunks s.toList).map fun chunk => String.ofList (stripBreak chunk)

end RestPlugin.Text
